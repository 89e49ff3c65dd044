import Storyline.Files.Tree
import Storyline.Proofs.Game.Replays
import Storyline.Proofs.Player.Scenes

/-!
# Steps back in the terminal player

* `Prompt.back`: the prompt that a step back leads to;
* `AtPrompt x before q g`: the game waits at a prompt, and has played the nodes `before`;
* `AtPrompt.undoesTo`, `AtPrompt.answers`: **what an undo line and an answer lead to**;
* `WaitsAt.undo`, `WaitsAt.take`: what a line leads to; `Settled.takeLines`, `WaitsAt.takeLines`:
  what many do;
* `told`: the player after some lines;
* `stays_at_last_line`: taking steps back does not always lead to an earlier prompt;
* `steps_back`: **every undo line** takes the action back that was played last. If that one has waited for
  the player, the player is at its prompt, and otherwise where it was. So three undo lines lead from every
  prompt of the first scene to the first prompt, and none leads away from a prompt of the second scene.
-/

namespace Storyline.Player

open Effect

/-! ### Lines -/

/-- A command that does not quit, and uses no files. -/
def Command.Plays : Command → Prop
  | undo | answer _ => True
  | _ => False

instance : (c : Command) → Decidable c.Plays
  | .undo | .answer _ => .isTrue trivial
  | .quit | .save _ | .load _ => .isFalse id

namespace Terminal

/-- The node at whose prompt the player is. -/
def prompt? (p : Terminal) : Option NodeId :=
  match p.stand with
  | .ok _ => p.game.live.pending.map (·.node)
  | .error _ => none

/-- Takes lines of input with the times they come at. -/
def takeLines {m : Type → Type} [Monad m] (p : Terminal) (fs : FileSystem m)
    (lines : List (String × Instant)) : m Terminal :=
  lines.foldlM (fun p line => p.take fs (some line.1) line.2) p

end Terminal

namespace Meeting

/-! ### Prompts -/

namespace Prompt

/-- The prompt that a step back leads to. Before the first line the image is shown, and before the last
one the condition is tried, which do not wait. -/
def back : Prompt → Prompt
  | hello => hello
  | stranger => hello
  | answer => stranger
  | friendly => answer
  | shy => answer
  | warm => warm
  | cold => cold

end Prompt

/-- The nodes that are played before the first line, the last one first. -/
def opening : List NodeId := [shown, placed, ambience, park]

/-- What was played before a prompt, and what is known of the spot. -/
inductive Stands (store : Store) : Prompt → List NodeId → Spot → Prop
  | hello {s : Spot} (h : Ahead s) : Stands store .hello opening s
  | stranger {s : Spot} (h : Ahead s) : Stands store .stranger (Prompt.hello.node :: opening) s
  | answer {s : Spot} (h : Ahead s) :
      Stands store .answer (Prompt.stranger.node :: Prompt.hello.node :: opening) s
  | friendly {s : Spot} (h : Ahead s) (hc : s.child? remember = some cafe) : Stands store .friendly
      (Prompt.answer.node :: Prompt.stranger.node :: Prompt.hello.node :: opening) s
  | shy {s : Spot} (h : Ahead s) (hc : s.child? Prompt.shy.node = some cafe) : Stands store .shy
      (Prompt.answer.node :: Prompt.stranger.node :: Prompt.hello.node :: opening) s
  | last {s : Spot} {y : Prompt} (h : Behind y store s) (before : List NodeId) :
      Stands store y (later :: before) s

/-- **A game of the story that waits at a prompt.** -/
def AtPrompt (x : Prompt) (before : List NodeId) (q : Player.Waiting) (g : Game Console) : Prop :=
  ∃ s, Asked q x.node s before g ∧ Stands g.store x before s

variable {g g' g₁ : Game Console} {x y : Prompt} {before : List NodeId} {q : Player.Waiting} {s : Spot}

theorem Follows.redrawn (h : Follows s before g) {f : Console → Console}
    (hf : (f g.stage.screen).auto = g.stage.screen.auto) : Follows s before (onScreen f g) :=
  ⟨h.attended.redrawn hf, h.keeps, h.units,
    ⟨h.spot.child?, h.spot.resumes, h.spot.place, h.spot.onward, h.spot.idle⟩, h.history⟩

/-! ### An undo line -/

/-- An action that was played has waited for the player. -/
def Waited (e : HistoryEntry) : Prop := ∃ a ∈ world.action? e.outcome.node, a.Pauses

instance (e : HistoryEntry) : Decidable (Waited e) := inferInstanceAs (Decidable (∃ a ∈ _, _))

/-- The outer loop comes to a prompt. -/
def Arrives (most : Nat) (x : Prompt) (before : List NodeId) (g : Game Console) : Prop :=
  ∃ g₁ q g', Goes most g g₁ ∧ Stops g₁ q g' ∧ AtPrompt x before q g'

theorem Follows.arrives (h : Follows s before g) (hp : g.live.pending = none)
    (hx : s.current = some x.node) (hs : Stands g.store x before s) : Arrives 0 x before g := by
  obtain ⟨q, g', hstops, hasked, hstore⟩ := h.stops hp hx
  exact ⟨g, q, g', .refl g, hstops, s, hasked, hstore.symm ▸ hs⟩

/-- So it does where the condition leads to a last line once more. -/
theorem Follows.arrives_last (h : Follows { s with current := some later } before g)
    (hp : g.live.pending = none) (hb : Behind y g.store s) : Arrives 2 y (later :: before) g := by
  obtain ⟨g₁, q, g', s', hgoes, hstops, hasked, hbehind⟩ :=
    h.plays_later hp rfl hb.resumes hb.onward hb.last hb.graft
  exact ⟨g₁, q, g', hgoes, hstops, s', hasked, .last hbehind before⟩

theorem Arrives.mono {k l : Nat} (h : Arrives k x before g) (hk : k ≤ l) : Arrives l x before g := by
  obtain ⟨g₁, q, g', ⟨⟨n, hn, hadvance⟩, hcontinues⟩, hrest⟩ := h
  exact ⟨g₁, q, g', ⟨⟨n, Nat.le_trans hn hk, hadvance⟩, hcontinues⟩, hrest⟩

theorem Arrives.behind {k l : Nat} (h : Arrives l x before g₁) (hg : Goes k g g₁) :
    Arrives (k + l) x before g := by
  obtain ⟨g₂, q, g', hgoes, hrest⟩ := h
  exact ⟨g₂, q, g', hg.trans hgoes, hrest⟩

/-- An undo line takes back the action of a node, which was played last, says so, and leads to a prompt. -/
def UndoesTo (n : NodeId) (x : Prompt) (before : List NodeId) (g : Game Console) : Prop :=
  ∃ e rest q g', g.live.history = e :: rest ∧ e.outcome.node = n ∧ undo g = .ok (.asking q) g' ∧
    AtPrompt x before q g' ∧
    Console.Continues (g.stage.screen.print s!"(undid {e.outcome.tag})") g'.stage.screen

section Undo

variable {n : NodeId} {l : List NodeId}

/-- An undo line leads to where the outer loop comes from the node that was played last. -/
theorem Asked.undoesTo (h : Asked q x.node s (n :: l) g)
    (hscript : ∀ a ∈ world.action? n, a.kind ≠ .script)
    (hon : ∀ g₁, Follows { s with current := some n } l g₁ → g₁.live.pending = none →
      g₁.store = g.store → Arrives 2 y before g₁) : UndoesTo n y before g := by
  have hunit : x.node ∉ scenes := by cases x <;> decide
  have hscripts : ∀ z ∈ [x.node, n], ∀ a ∈ world.action? z, a.kind ≠ .script := by
    intro z hz a ha
    rcases List.mem_cons.1 hz with rfl | hz
    · exact (action_of_prompt a ha).1.ne_script
    · exact hscript a (List.mem_singleton.1 hz ▸ ha)
  obtain ⟨e, rest, g₁, hhistory, hnode, hundo, hfollows, hp, hscreen, hstore⟩ :=
    h.undoes hunit hscripts
  have hback := hfollows.redrawn (f := (·.print s!"(undid {e.outcome.tag})")) rfl
  obtain ⟨g₂, q', g', hgoes, hstops, hat⟩ := hon _ hback hp hstore
  refine ⟨e, rest, q', g', hhistory, hnode, ?_, hat, ?_⟩
  · have hrun : undo g = advance stepLimit (onScreen (·.print s!"(undid {e.outcome.tag})") g₁) :=
      bind_of_ok hundo
    rw [hrun]
    exact hgoes.asks hstops (by decide)
  · have hcontinues := hgoes.continues.trans hstops.continues
    rw [← hscreen]
    exact hcontinues

theorem Asked.undoesTo_prompt (h : Asked q x.node s (y.node :: l) g)
    (hs : Stands g.store y l { s with current := some y.node }) : UndoesTo y.node y l g := by
  refine h.undoesTo (fun a ha => (action_of_prompt a ha).1.ne_script) fun g₁ h₁ hp hstore => ?_
  exact (h₁.arrives hp rfl (hstore ▸ hs)).mono (Nat.zero_le 2)

/-- **What an undo line leads to**: the prompt before, if what was played last has waited for the player,
and otherwise the same prompt. -/
theorem AtPrompt.undoesTo (h : AtPrompt x before q g) :
    (x.back ≠ x ∧ ∃ l, before = x.back.node :: l ∧ UndoesTo x.back.node x.back l g) ∨
      x.back = x ∧ ∃ n, (¬ ∃ a ∈ world.action? n, a.Pauses) ∧ UndoesTo n x before g := by
  obtain ⟨s, hasked, hs⟩ := h
  -- behind the first line of a scene undoing comes to an action that is executed again at once
  cases hs with
  | hello hahead =>
    refine .inr ⟨rfl, shown, by decide +kernel, hasked.undoesTo (by decide +kernel) ?_⟩
    intro g₁ h₁ hp hstore
    obtain ⟨g₂, hgoes, h₂, hp₂⟩ := h₁.passes_plain hp rfl (by decide)
    have hhello : s.child? shown = some Prompt.hello.node :=
      hahead.paths (shown, Prompt.hello.node) (by decide)
    exact (h₂.arrives (x := .hello) hp₂ hhello (.hello (hahead.current _))).behind hgoes
  | stranger hahead =>
    exact .inl ⟨by decide, _, rfl, hasked.undoesTo_prompt (.hello (hahead.current _))⟩
  | answer hahead =>
    exact .inl ⟨by decide, _, rfl, hasked.undoesTo_prompt (.stranger (hahead.current _))⟩
  | friendly hahead =>
    exact .inl ⟨by decide, _, rfl, hasked.undoesTo_prompt (.answer (hahead.current _))⟩
  | shy hahead =>
    exact .inl ⟨by decide, _, rfl, hasked.undoesTo_prompt (.answer (hahead.current _))⟩
  | last hb l =>
    refine .inr ⟨?_, later, by decide +kernel, hasked.undoesTo (by decide +kernel) ?_⟩
    · rcases hb.last with rfl | rfl <;> rfl
    · intro g₁ h₁ hp hstore
      exact h₁.arrives_last hp (hstore ▸ hb)

end Undo

/-! ### An answer -/

theorem Asked.line (h : Asked q x.node s before g) (hx : x ≠ .answer) : ∃ f, q = .line f := by
  obtain ⟨a, ha, hawaits⟩ := h.awaits
  obtain ⟨-, -, hmenu⟩ := action_of_prompt a ha
  have hasks := hawaits.asks
  unfold Player.Waiting.Asks at hasks
  split at hasks
  · exact ⟨_, hasks⟩
  · rename_i hk
    exact absurd hk (hmenu hx)
  · exact hasks.elim

theorem Asked.answers_line (h : Asked q x.node s before g) (hx : x ≠ .answer) (text : String) :
    ∃ g₁ g₂, answer q text g = advance stepLimit g₁ ∧ Goes 1 g₁ g₂ ∧
      Follows { s with current := s.child? x.node } (x.node :: before) g₂ ∧
      g₂.live.pending = none := by
  obtain ⟨f, rfl⟩ := h.line hx
  have hplain : ∀ a ∈ world.action? x.node, a.Serves world ∧
      world.graft? g.store a (a.receive .proceed).choice = none := by
    intro a ha
    obtain ⟨hpause, hserves, hmenu⟩ := action_of_prompt a ha
    refine ⟨hserves, World.graft?_of_not_grafts ?_ _ _ _⟩
    rcases hpause.kind with ⟨line, hk⟩ | hk
    · rw [hk]
      rfl
    · exact absurd hk (hmenu hx)
  obtain ⟨g₂, hgoes, h₂, hp⟩ := h.answers .proceed hplain nofun
  have hunit : x.node ∉ scenes := by cases x <;> decide
  rw [Spot.move_of_plain hunit] at h₂
  exact ⟨_, g₂, rfl, hgoes, h₂, hp⟩

theorem Asked.picks (h : Asked q Prompt.answer.node s before g) (hs : Ahead s) {n : Nat} (hn : n < 2) :
    ∃ c ∈ entries, ∃ g₂, Goes 1 (g.answered (q.future, .choose n)) g₂ ∧
      Follows (s.move scenes ⟨Prompt.answer.node, some (some c)⟩) (Prompt.answer.node :: before) g₂ ∧
      g₂.live.pending = none := by
  obtain ⟨a, ha⟩ := Prompt.answer.exists_action
  obtain ⟨-, hserves, -⟩ := action_of_prompt a ha
  obtain ⟨hkind, -⟩ := action_answer a ha
  obtain ⟨c, hc, hgraft⟩ := graft?_answer ha g.store hn
  have hj : ∀ c ∈ entries, Joinable Prompt.answer.node (some c) (some cafe) := by decide +kernel
  have hgrafts : ∀ b ∈ world.action? Prompt.answer.node, b.Serves world ∧
      world.graft? g.store b (b.receive (.choose n)).choice = some (some c) := by
    intro b hb
    obtain rfl := Option.some.inj (ha.symm.trans hb)
    rw [Action.receive_of_menu hkind]
    exact ⟨hserves, hgraft⟩
  refine ⟨c, hc, h.answers (.choose n) hgrafts fun chain hchain => ?_⟩
  rw [hs.answer, ← Option.some.inj hchain]
  exact hj c hc

theorem Asked.menu (h : Asked q Prompt.answer.node s before g) : ∃ f, q = .menu f 2 := by
  obtain ⟨a, ha, hawaits⟩ := h.awaits
  obtain ⟨hkind, hturns⟩ := action_answer a ha
  have hasks := hawaits.asks
  unfold Player.Waiting.Asks at hasks
  rw [hkind] at hasks
  obtain ⟨m, hm, hq⟩ := hasks
  have hshape := (h.keeps.shape? a.callee).symm.trans (World.shape?_of_get? hm)
  rw [hshape] at hturns
  have hlength : (m.choices.map (·.chain)).length = 2 :=
    congrArg List.length (Option.some.inj hturns)
  rw [List.length_map] at hlength
  exact ⟨_, hlength ▸ hq⟩

theorem Asked.redrawn {n : NodeId} (h : Asked q n s before g) {f : Console → Console}
    (hf : (f g.stage.screen).auto = g.stage.screen.auto) : Asked q n s before (onScreen f g) := by
  obtain ⟨a, ha, hawaits⟩ := h.awaits
  exact ⟨h.toFollows.redrawn hf, a, ha, ⟨hawaits.pending, hawaits.asks, hawaits.unanswered⟩⟩

theorem asks_of_arrives (h : Arrives 20 x before g) :
    ∃ y l q g', advance stepLimit g = .ok (.asking q) g' ∧ AtPrompt y l q g' := by
  obtain ⟨g₁, q, g', hgoes, hstops, hat⟩ := h
  exact ⟨x, before, q, g', hgoes.asks hstops (by decide), hat⟩

/-- Where the second scene begins, the outer loop comes to a last line. -/
theorem Follows.arrives_cafe (h : Follows s before g) (hs : Ahead s) (hp : g.live.pending = none)
    (hc : s.current = some cafe) : ∃ y, Arrives 6 y (later :: rest :: cafe :: before) g := by
  obtain ⟨y, g₁, q, g', s', hgoes, hstops, hasked, hbehind⟩ := h.enters_cafe hs hp hc
  exact ⟨y, g₁, q, g', hgoes, hstops, s', hasked, .last hbehind _⟩

/-- A line that is answered leads to where the outer loop comes from the child of its node. -/
theorem Asked.asks_on (h : Asked q x.node s before g) (hx : x ≠ .answer) (text : String)
    (hon : ∀ g₁, Follows { s with current := s.child? x.node } (x.node :: before) g₁ →
      g₁.live.pending = none → ∃ y l, Arrives 8 y l g₁) :
    ∃ y l q' g', answer q text g = .ok (.asking q') g' ∧ AtPrompt y l q' g' := by
  obtain ⟨g₁, g₂, hrun, hgoes, h₂, hp⟩ := h.answers_line hx text
  obtain ⟨y, l, hat⟩ := hon g₂ h₂ hp
  rw [hrun]
  exact asks_of_arrives ((hat.behind hgoes).mono (by decide))

/-- **Whatever is typed at the menu** leads to the line of an entry, or to the menu. -/
theorem Asked.asks_entry
    (h : Asked q Prompt.answer.node s (Prompt.stranger.node :: Prompt.hello.node :: opening) g)
    (hs : Ahead s) (text : String) :
    ∃ y l q' g', answer q text g = .ok (.asking q') g' ∧ AtPrompt y l q' g' := by
  obtain ⟨f, rfl⟩ := h.menu
  have hagain : ∃ y l q' g', (do
      onConsole (·.print s!"Pick 1-{2}")
      ask (.menu f 2) : Play Console Stand) g = .ok (.asking q') g' ∧ AtPrompt y l q' g' :=
    ⟨.answer, _, _, prompt (onScreen (·.print s!"Pick 1-{2}") g), rfl, s,
      (h.redrawn rfl).redrawn rfl, .answer hs⟩
  unfold answer
  rcases entryNumber? text with _ | _ | n
  · exact hagain
  · exact hagain
  · by_cases hlt : n < 2
    · simp only [if_pos hlt]
      obtain ⟨c, hc, g₁, hgoes, h₁, hp⟩ := h.picks hs hlt
      obtain ⟨hs₁, hcurrent, hleads⟩ := hs.pick hc
      have hat : ∃ y l, Arrives 0 y l g₁ := by
        rcases List.mem_pair.1 hc with rfl | rfl
        · exact ⟨.friendly, _, h₁.arrives hp hcurrent (.friendly hs₁ hleads)⟩
        · exact ⟨.shy, _, h₁.arrives hp hcurrent (.shy hs₁ hleads)⟩
      obtain ⟨y, l, hat⟩ := hat
      exact asks_of_arrives ((hat.behind hgoes).mono (by decide))
    · simp only [if_neg hlt]
      exact hagain

theorem Asked.answers_last (h : Asked q x.node s before g) (hb : Behind x g.store s) (text : String) :
    ∃ g', answer q text g = .ok .over g' := by
  have hx : x ≠ .answer := by rcases hb.last with rfl | rfl <;> decide
  obtain ⟨g₁, g₂, hrun, hgoes, h₂, -⟩ := h.answers_line hx text
  have hplace : g₂.place? = none := by
    rw [h₂.spot.place]
    unfold Spot.place?
    rw [hb.ends, hb.onward]
    rfl
  obtain ⟨g', hends⟩ := (Game.ends_iff Console.screen g₂).2 ⟨h₂.attended.story, hplace⟩
  exact ⟨_, hrun.trans (hgoes.advance (fun _ => advance_of_terminated hends) (by decide))⟩

/-- **What an answer leads to**: a prompt, or the end of the story. -/
theorem AtPrompt.answers (h : AtPrompt x before q g) (text : String) :
    (∃ g', answer q text g = .ok .over g') ∨
      ∃ y l q' g', answer q text g = .ok (.asking q') g' ∧ AtPrompt y l q' g' := by
  obtain ⟨s, hasked, hs⟩ := h
  -- what comes next is fixed, up to the menu; behind the pick the café begins in either case
  cases hs with
  | hello hahead =>
    have hnext : s.child? Prompt.hello.node = some Prompt.stranger.node :=
      hahead.paths (Prompt.hello.node, Prompt.stranger.node) (by decide)
    refine .inr (hasked.asks_on (by decide) text fun g₁ h₁ hp => ?_)
    exact ⟨.stranger, _, (h₁.arrives hp hnext (.stranger (hahead.current _))).mono (Nat.zero_le 8)⟩
  | stranger hahead =>
    have hnext : s.child? Prompt.stranger.node = some Prompt.answer.node :=
      hahead.paths (Prompt.stranger.node, Prompt.answer.node) (by decide)
    refine .inr (hasked.asks_on (by decide) text fun g₁ h₁ hp => ?_)
    exact ⟨.answer, _, (h₁.arrives hp hnext (.answer (hahead.current _))).mono (Nat.zero_le 8)⟩
  | answer hahead => exact .inr (hasked.asks_entry hahead text)
  | friendly hahead hc =>
    have hnext : s.child? Prompt.friendly.node = some remember :=
      hahead.paths (Prompt.friendly.node, remember) (by decide)
    refine .inr (hasked.asks_on (by decide) text fun g₁ h₁ hp => ?_)
    obtain ⟨g₂, hgoes, h₂, hp₂⟩ := h₁.passes_plain hp hnext (by decide)
    obtain ⟨y, hat⟩ := h₂.arrives_cafe (hahead.current _) hp₂ hc
    exact ⟨y, _, hat.behind hgoes⟩
  | shy hahead hc =>
    refine .inr (hasked.asks_on (by decide) text fun g₁ h₁ hp => ?_)
    obtain ⟨y, hat⟩ := h₁.arrives_cafe (hahead.current _) hp hc
    exact ⟨y, _, hat.mono (by decide)⟩
  | last hb l => exact .inl (hasked.answers_last hb text)

/-! ### The player after some lines -/

section Told

variable {ω : Type} {p : Terminal} {fs : FileSystem (StateM ω)} {files : ω} {line : String}
  {now : Instant}

/-- The player is at a prompt. -/
def WaitsAt (x : Prompt) (before : List NodeId) (p : Terminal) : Prop :=
  ∃ q, p.stand = .ok q ∧ AtPrompt x before q p.game

theorem AtPrompt.place (h : AtPrompt x before q g) :
    g.live.pending.map (·.node) = some x.node ∧ g.live.history.map (·.outcome.node) = before := by
  obtain ⟨s, hasked, -⟩ := h
  obtain ⟨a, ha, hawaits⟩ := hasked.awaits
  obtain ⟨p, hp, hnode, -⟩ := hawaits.pending
  refine ⟨?_, hasked.history⟩
  rw [hp, Option.map_some, hnode, hasked.node ha]

theorem WaitsAt.prompt? (h : WaitsAt x before p) : p.prompt? = some x.node := by
  obtain ⟨q, hq, hat⟩ := h
  unfold Terminal.prompt?
  rw [hq]
  exact hat.place.1

theorem WaitsAt.length (h : WaitsAt x before p) : p.game.live.history.length = before.length := by
  obtain ⟨q, hq, hat⟩ := h
  rw [← hat.place.2, List.length_map]

/-- A line that neither quits nor uses files leaves the files as they are. -/
theorem take_of_play {play : Play Console Stand} (hq : p.stand = .ok q)
    (hobey : ∀ archive : Archive (StateM ω), obey archive now q (.ofLine line) = Session.play play) :
    (p.take fs (some line) now).run files =
      (Terminal.settled p.saves (outcome (play p.game)), files) := by
  obtain ⟨game, saves, stand⟩ := p
  subst hq
  show (Terminal.settled saves
      (Session.within (obey (.ofFiles fs saves) now q (.ofLine line)) game files).1,
    (Session.within (obey (.ofFiles fs saves) now q (.ofLine line)) game files).2) = _
  rw [hobey, Session.within_play]

/-- **An undo line** takes the action back that was played last, and says so. If that one has waited for the
player, the player is at its prompt, with one action less that was played; otherwise the player is where it
was, with as many. -/
def StepsBack (p p' : Terminal) : Prop :=
  ∃ e rest, p.game.live.history = e :: rest ∧
    .out (s!"(undid {e.outcome.tag})" ++ "\n") :: p.game.stage.screen.output <:+
      p'.game.stage.screen.output ∧
    if Waited e then
      p'.prompt? = some e.outcome.node ∧ p'.game.live.history.length = rest.length
    else
      p'.prompt? = p.prompt? ∧ p'.game.live.history.length = p.game.live.history.length

theorem WaitsAt.undo (h : WaitsAt x before p) (hl : Command.ofLine line = .undo)
    (fs : FileSystem (StateM ω)) (files : ω) (now : Instant) : ∃ p' l,
      (p.take fs (some line) now).run files = (p', files) ∧ StepsBack p p' ∧ WaitsAt x.back l p' ∧
      (x.back = x → l = before) := by
  have hlength := h.length
  have hplace := h.prompt?
  obtain ⟨q, hq, hat⟩ := h
  have hrun : (p.take fs (some line) now).run files =
      (Terminal.settled p.saves (outcome (Player.undo p.game)), files) :=
    take_of_play hq fun archive => by
      rw [hl]
      rfl
  -- the prompt moves back by one, or what was undone does not pause and brings it up again
  rcases hat.undoesTo with ⟨hmoves, l, hbefore, hto⟩ | ⟨hstays, n, hn, hto⟩
  · obtain ⟨e, rest, q', g', hhistory, hnode, hundo, hat', hcontinues⟩ := hto
    rw [hundo] at hrun
    have hwaits : WaitsAt x.back l ⟨g', p.saves, .ok q'⟩ := ⟨q', rfl, hat'⟩
    have hwaited : Waited e := by
      obtain ⟨a, ha⟩ := x.back.exists_action
      exact ⟨a, hnode ▸ ha, (action_of_prompt a ha).1⟩
    refine ⟨_, l, hrun, ⟨e, rest, hhistory, hcontinues.output, ?_⟩, hwaits, fun he => absurd he hmoves⟩
    rw [if_pos hwaited]
    refine ⟨hwaits.prompt?.trans (congrArg some hnode.symm), hwaits.length.trans ?_⟩
    rw [hhistory, hbefore] at hlength
    exact (Nat.succ.inj hlength).symm
  · obtain ⟨e, rest, q', g', hhistory, hnode, hundo, hat', hcontinues⟩ := hto
    rw [hundo] at hrun
    have hwaits : WaitsAt x before ⟨g', p.saves, .ok q'⟩ := ⟨q', rfl, hat'⟩
    have hnot : ¬ Waited e := fun ⟨a, ha, hpause⟩ => hn ⟨a, hnode ▸ ha, hpause⟩
    refine ⟨_, before, hrun, ⟨e, rest, hhistory, hcontinues.output, ?_⟩, hstays.symm ▸ hwaits,
      fun _ => rfl⟩
    rw [if_neg hnot]
    exact ⟨hwaits.prompt?.trans hplace.symm, hwaits.length.trans hlength.symm⟩

/-- **Every line** that neither quits nor uses files leads to a prompt, or to the end of the story. -/
theorem WaitsAt.take (h : WaitsAt x before p) (hl : (Command.ofLine line).Plays)
    (fs : FileSystem (StateM ω)) (files : ω) (now : Instant) :
    ∃ p', (p.take fs (some line) now).run files = (p', files) ∧
      ((∃ code, p'.stand = .error code) ∨ ∃ y l, WaitsAt y l p') := by
  cases hc : Command.ofLine line with
  | undo =>
    obtain ⟨p', l, hrun, -, hwaits, -⟩ := h.undo hc fs files now
    exact ⟨p', hrun, .inr ⟨_, l, hwaits⟩⟩
  | answer text =>
    obtain ⟨q, hq, hat⟩ := h
    have hrun : (p.take fs (some line) now).run files =
        (Terminal.settled p.saves (outcome (Player.answer q text p.game)), files) :=
      take_of_play hq fun archive => by
        rw [hc]
        rfl
    refine ⟨_, hrun, ?_⟩
    rcases hat.answers text with ⟨g', hover⟩ | ⟨y, l, q', g', hasks, hat'⟩
    · rw [hover]
      exact .inl ⟨0, rfl⟩
    · rw [hasks]
      exact .inr ⟨y, l, q', rfl, hat'⟩
  | quit | save | load =>
    rw [hc] at hl
    exact hl.elim

end Told

/-! ### Many lines -/

section Lines

variable {ω : Type} {p p' : Terminal} {fs : FileSystem (StateM ω)} {files files' : ω}
  {lines : List (String × Instant)} {line : String × Instant}

theorem takeLines_cons (h : (p.take fs (some line.1) line.2).run files = (p', files')) :
    (p.takeLines fs (line :: lines)).run files = (p'.takeLines fs lines).run files' := by
  unfold Terminal.takeLines
  rw [List.foldlM_cons, StateT.run_bind, h]
  rfl

theorem takeLines_append (lines rest : List (String × Instant)) :
    (p.takeLines fs (lines ++ rest)).run files =
      (((p.takeLines fs lines).run files).1.takeLines fs rest).run
        ((p.takeLines fs lines).run files).2 := by
  unfold Terminal.takeLines
  rw [List.foldlM_append]
  rfl

/-- The player is over, or at a prompt. -/
def Settled (p : Terminal) : Prop := (∃ code, p.stand = .error code) ∨ ∃ x l, WaitsAt x l p

theorem Settled.takeLines (h : Settled p) (hl : ∀ l ∈ lines, (Command.ofLine l.1).Plays)
    (fs : FileSystem (StateM ω)) (files : ω) :
    ∃ p', (p.takeLines fs lines).run files = (p', files) ∧ Settled p' := by
  induction lines generalizing p with
  | nil => exact ⟨p, rfl, h⟩
  | cons line lines ih =>
    have hrest : ∀ l ∈ lines, (Command.ofLine l.1).Plays := fun l hl' =>
      hl l (List.mem_cons_of_mem _ hl')
    rcases h with ⟨code, hcode⟩ | ⟨x, l, hx⟩
    · have hrun : (p.take fs (some line.1) line.2).run files = (p, files) := by
        obtain ⟨g, saves, stand⟩ := p
        subst hcode
        rfl
      rw [takeLines_cons hrun]
      exact ih (.inl ⟨code, hcode⟩) hrest
    · obtain ⟨p', hrun, hp'⟩ := hx.take (hl line List.mem_cons_self) fs files line.2
      rw [takeLines_cons hrun]
      exact ih hp' hrest

/-- **Undo lines** lead back from prompt to prompt. -/
theorem WaitsAt.takeLines (h : WaitsAt x before p) (hl : ∀ l ∈ lines, Command.ofLine l.1 = .undo)
    (fs : FileSystem (StateM ω)) (files : ω) :
    ∃ p' l, (p.takeLines fs lines).run files = (p', files) ∧
      WaitsAt (Prompt.back^[lines.length] x) l p' ∧ (x.back = x → l = before) := by
  induction lines generalizing x before p with
  | nil => exact ⟨p, before, rfl, h, fun _ => rfl⟩
  | cons line lines ih =>
    obtain ⟨p₁, l, hrun, -, h₁, hl₁⟩ := h.undo (hl line List.mem_cons_self) fs files line.2
    obtain ⟨p', l', hrest, h', hl'⟩ := ih h₁ fun l hl' => hl l (List.mem_cons_of_mem _ hl')
    refine ⟨p', l', (takeLines_cons hrun).trans hrest, h', fun hx => ?_⟩
    rw [hl' (by rw [hx]; exact hx), hl₁ hx]

end Lines

section Main

variable {ω : Type} {fs : FileSystem (StateM ω)} {o : Options} {config : GameConfig} {now : Instant}
  {files : ω} {lines undos : List (String × Instant)} {n : NodeId}

/-- The player after some lines. -/
def told (fs : FileSystem (StateM ω)) (o : Options) (config : GameConfig) (now : Instant) (files : ω)
    (lines : List (String × Instant)) : Terminal :=
  (((Terminal.begin o config now).takeLines fs lines).run files).1

theorem waitsAt_begin (ho : o.auto = false) (config : GameConfig) (now : Instant) :
    WaitsAt .hello opening (Terminal.begin o config now) := by
  obtain ⟨g₁, q, g', s, hgoes, hstops, hasked, hahead⟩ := enters_park config { auto := o.auto } ho now
  rw [begin_eq, hgoes.asks hstops (by decide)]
  exact ⟨q, rfl, s, hasked, .hello hahead⟩

theorem prompt?_told_nil (ho : o.auto = false) :
    (told fs o config now files []).prompt? = some Prompt.hello.node :=
  (waitsAt_begin ho config now).prompt?

/-- Lines that neither quit nor use files leave the files as they are. -/
theorem run_told (ho : o.auto = false) (hl : ∀ l ∈ lines, (Command.ofLine l.1).Plays) :
    ((Terminal.begin o config now).takeLines fs lines).run files =
        (told fs o config now files lines, files) ∧
      Settled (told fs o config now files lines) := by
  obtain ⟨p, hrun, hsettled⟩ :=
    Settled.takeLines (.inr ⟨_, _, waitsAt_begin ho config now⟩) hl fs files
  have htold : told fs o config now files lines = p := congrArg Prod.fst hrun
  rw [htold]
  exact ⟨hrun, hsettled⟩

theorem told_append (ho : o.auto = false) (hl : ∀ l ∈ lines, (Command.ofLine l.1).Plays)
    (rest : List (String × Instant)) : told fs o config now files (lines ++ rest) =
      (((told fs o config now files lines).takeLines fs rest).run files).1 := by
  rw [told, takeLines_append, (run_told ho hl).1]

theorem waitsAt_told (ho : o.auto = false) (hl : ∀ l ∈ lines, (Command.ofLine l.1).Plays)
    (hn : (told fs o config now files lines).prompt? = some n) :
    ∃ x l, WaitsAt x l (told fs o config now files lines) ∧ x.node = n := by
  have hsettled : Settled (told fs o config now files lines) := (run_told ho hl).2
  rcases hsettled with ⟨code, hcode⟩ | ⟨x, l, hx⟩
  · unfold Terminal.prompt? at hn
    rw [hcode] at hn
    cases hn
  · exact ⟨x, l, hx, Option.some.inj (hx.prompt?.symm.trans hn)⟩

theorem waitsAt_undos (ho : o.auto = false) (hl : ∀ l ∈ lines, (Command.ofLine l.1).Plays)
    (hx : WaitsAt x before (told fs o config now files lines))
    (hundos : ∀ l ∈ undos, Command.ofLine l.1 = .undo) :
    ∃ l, WaitsAt (Prompt.back^[undos.length] x) l (told fs o config now files (lines ++ undos)) ∧
      (x.back = x → l = before) := by
  obtain ⟨p', l, hrun, hwaits, hsame⟩ := hx.takeLines hundos fs files
  rw [told_append ho hl, hrun]
  exact ⟨l, hwaits, hsame⟩

/-- The prompts of the first scene. -/
def parkPrompts : List Prompt := [.hello, .stranger, .answer, .friendly, .shy]

/-- The prompts of the second scene. -/
def cafePrompts : List Prompt := [.warm, .cold]

theorem back_park : ∀ x ∈ parkPrompts, Prompt.back^[3] x = .hello := by decide

theorem back_cafe : ∀ x ∈ cafePrompts, x.back = x := by decide

/-- The lines of a player who lets Bob introduce himself, up to the last prompt. -/
def introduced : List (String × Instant) := ["", "", "1", ""].map (·, default)

/-- **Undo lines do not always lead to an earlier prompt**: at the last line the condition before it is
taken back, and tried again at once. -/
theorem stays_at_last_line :
    (∀ l ∈ introduced, (Command.ofLine l.1).Plays) ∧
      (told FileTree.system {} {} default default introduced).prompt? = some Prompt.warm.node ∧
      .out "(undid condition:action)\n" ::
          (told FileTree.system {} {} default default introduced).game.stage.screen.output <:+
        (told FileTree.system {} {} default default
          (introduced ++ [("undo", default)])).game.stage.screen.output ∧
      (told FileTree.system {} {} default default
          (introduced ++ [("undo", default)])).game.live.history.length =
        (told FileTree.system {} {} default default introduced).game.live.history.length ∧
      ∀ undos : List (String × Instant), (∀ l ∈ undos, Command.ofLine l.1 = .undo) →
        (told FileTree.system {} {} default default (introduced ++ undos)).prompt? ≠
          (told FileTree.system {} {} default default []).prompt? := by
  have hl : ∀ l ∈ introduced, (Command.ofLine l.1).Plays := by decide +kernel
  have hwarm : (told FileTree.system {} {} default default introduced).prompt? =
      some Prompt.warm.node := by decide +kernel
  -- the program stands at the last line, which is where every `undo` leaves it
  refine ⟨hl, hwarm, by decide +kernel, by decide +kernel, fun undos hundos => ?_⟩
  have ho : ({} : Options).auto = false := rfl
  obtain ⟨x, l, hx, hnode⟩ := waitsAt_told ho hl hwarm
  obtain rfl : x = .warm := by
    revert hnode
    cases x <;> decide
  obtain ⟨l', hx', -⟩ := waitsAt_undos ho hl hx hundos
  have hback : Prompt.warm.back = .warm := rfl
  rw [Function.iterate_fixed hback] at hx'
  rw [hx'.prompt?, prompt?_told_nil ho]
  decide

/-- **Taking steps back.** Every undo line takes the action back that was played last, and says so. If that
one has waited for the player, the player is at its prompt, with fewer actions that were played; otherwise
the player is where it was, with as many. So three undo lines lead from every prompt of the first scene to
the first prompt, and more of them stay there; and from a prompt of the second scene none leads away. -/
theorem steps_back (fs : FileSystem (StateM ω)) (o : Options) (config : GameConfig) (now : Instant)
    (files : ω) (ho : o.auto = false) (lines : List (String × Instant))
    (hl : ∀ l ∈ lines, (Command.ofLine l.1).Plays) {n : NodeId}
    (hn : (told fs o config now files lines).prompt? = some n) :
    (∀ line, Command.ofLine line.1 = .undo →
      StepsBack (told fs o config now files lines) (told fs o config now files (lines ++ [line]))) ∧
    ((n ∈ parkPrompts.map Prompt.node ∧ ∀ undos : List (String × Instant),
        (∀ l ∈ undos, Command.ofLine l.1 = .undo) → 3 ≤ undos.length →
        (told fs o config now files (lines ++ undos)).prompt? =
          (told fs o config now files []).prompt?) ∨
      n ∈ cafePrompts.map Prompt.node ∧ ∀ undos : List (String × Instant),
        (∀ l ∈ undos, Command.ofLine l.1 = .undo) →
        (told fs o config now files (lines ++ undos)).prompt? = some n ∧
          (told fs o config now files (lines ++ undos)).game.live.history.length =
            (told fs o config now files lines).game.live.history.length) := by
  obtain ⟨x, before, hx, rfl⟩ := waitsAt_told ho hl hn
  refine ⟨fun line hline => ?_, ?_⟩
  · obtain ⟨p', l, htake, hback, -⟩ := hx.undo hline fs files line.2
    rw [told_append ho hl, takeLines_cons htake]
    exact hback
  · have hscene : x ∈ parkPrompts ∨ x ∈ cafePrompts := by cases x <;> decide
    -- in the park three steps lead to the first line; in the café no step leads anywhere
    rcases hscene with hpark | hcafe
    · refine .inl ⟨List.mem_map_of_mem hpark, fun undos hundos hthree => ?_⟩
      obtain ⟨l, hx', -⟩ := waitsAt_undos ho hl hx hundos
      have hthere : Prompt.back^[undos.length] x = .hello := by
        rw [show undos.length = undos.length - 3 + 3 by omega, Function.iterate_add_apply,
          back_park x hpark]
        exact Function.iterate_fixed rfl _
      rw [hx'.prompt?, hthere, prompt?_told_nil ho]
    · refine .inr ⟨List.mem_map_of_mem hcafe, fun undos hundos => ?_⟩
      have hfixed := back_cafe x hcafe
      obtain ⟨l, hx', hsame⟩ := waitsAt_undos ho hl hx hundos
      rw [Function.iterate_fixed hfixed] at hx'
      exact ⟨hx'.prompt?, hx'.length.trans (by rw [hsame hfixed, hx.length])⟩

/-- The lines of a player who lets Bob stay quiet, up to his line. -/
def quiet : List (String × Instant) := ["", "", "2"].map (·, default)

/-- From the line of the second entry an undo line is a step back, and three lead to the first line. -/
theorem steps_back_of_quiet :
    (({} : Options).auto = false ∧ (∀ l ∈ quiet, (Command.ofLine l.1).Plays) ∧
      (told FileTree.system {} {} default default quiet).prompt? = some Prompt.shy.node) ∧
    StepsBack (told FileTree.system {} {} default default quiet)
      (told FileTree.system {} {} default default (quiet ++ [("undo", default)])) ∧
    (told FileTree.system {} {} default default (quiet ++ List.replicate 3 ("undo", default))).prompt? =
      (told FileTree.system {} {} default default []).prompt? := by
  have ho : ({} : Options).auto = false := rfl
  have hl : ∀ l ∈ quiet, (Command.ofLine l.1).Plays := by decide +kernel
  have hn : (told FileTree.system {} {} default default quiet).prompt? = some Prompt.shy.node := by
    decide +kernel
  have hundo : Command.ofLine "undo" = .undo := by decide +kernel
  obtain ⟨hback, hpark⟩ := steps_back FileTree.system {} {} default default ho quiet hl hn
  refine ⟨⟨ho, hl, hn⟩, hback ("undo", default) hundo, ?_⟩
  rcases hpark with ⟨-, hundos⟩ | ⟨hcafe, -⟩
  · refine hundos _ (fun l hl => ?_) (Nat.le_refl 3)
    rw [List.eq_of_mem_replicate hl]
    exact hundo
  · exact absurd hcafe (by decide)

end Main

end Meeting

end Storyline.Player
