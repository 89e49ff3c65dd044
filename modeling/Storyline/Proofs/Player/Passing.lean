import Storyline.Proofs.Game.Spot
import Storyline.Proofs.Game.TakenBack
import Storyline.Proofs.Player.Loop
import Storyline.Proofs.Stage.Beats
import Storyline.Proofs.World.Looking

/-!
# What the outer loop gets through

* `Console.Continues c c'`: a screen that answers as it did, and that has put out more;
* `Halts.advances`: a node that waits first and is played then was played;
* `Goes most g g'`, `Stops g q g'`: the outer loop gets from one game to another in a bounded number of
  passes, or comes to a question at once;
* `Game.Attended`: what holds of every game that the player attends to: steps, answers and undoing keep
  this;
* `Awaits q a g`: the player is asked for what the action waits for;
* `Attended.passes`: **an action that does not wait for the player** is passed;
* `Attended.stops`: **an action that does** is stopped at, and asked for;
* `Attended.answers`: an answer is taken over;
* `Attended.undoes`: undoing takes the action back that waits, and the last one that was played.
-/

namespace Storyline

open Effect

/-! ### What is put out -/

namespace Player.Console

variable {c c' c'' : Console}

/-- A screen that answers all by itself or not as it did, and that has put out more. -/
structure Continues (c c' : Console) : Prop where
  auto : c'.auto = c.auto
  output : c.output <:+ c'.output

namespace Continues

theorem refl (c : Console) : c.Continues c := ⟨rfl, List.suffix_refl _⟩

theorem trans (h : c.Continues c') (h' : c'.Continues c'') : c.Continues c'' :=
  ⟨h'.auto.trans h.auto, h.output.trans h'.output⟩

theorem put (c : Console) (o : Output) : c.Continues (c.put o) := ⟨rfl, List.suffix_cons _ _⟩

theorem print (c : Console) (text : String) : c.Continues (c.print text) := put c _

theorem ask (c : Console) (q : Waiting) (f : FutureId) (r : Resolution) :
    c.Continues (c.ask q f r).1 := by
  unfold Console.ask
  split <;> exact ⟨rfl, List.suffix_refl _⟩

theorem printEntries (c : Console) (n : Nat) (choices : List Sentence) :
    c.Continues (c.printEntries n choices) := by
  induction choices generalizing c n with
  | nil => exact refl c
  | cons choice rest ih => exact (print c _).trans (ih _ (n + 1))

theorem printMenu (c : Console) (prompt : Option Sentence) (choices : List Sentence) :
    c.Continues (c.printMenu prompt choices) := by
  unfold Console.printMenu
  cases prompt with
  | none => exact printEntries c 1 choices
  | some p => exact (print c _).trans (printEntries _ 1 choices)

theorem receive (cue : Cue) (c : Console) : c.Continues (screen.receive cue c).1 := by
  show c.Continues (Console.receive cue c).1
  cases cue with
  | say n line f => exact (print c _).trans (ask _ _ _ _)
  | menu n prompt choices f => exact (printMenu c prompt choices).trans (ask _ _ _ _)
  | sleep d f =>
    unfold Console.receive
    simp only
    split
    · exact print c _
    · exact (print c _).trans (put _ _)
  | scene | background | animate | play | stop => exact print c _
  | handle | hideSay | addImage => exact refl c

theorem beat {a : Action} {s s' : Stage Console} (h : Stage.Beat screen a s s') :
    s.screen.Continues s'.screen := by
  cases h with
  | graft | record | store | future => exact refl _
  | tell hc => exact receive _ _
  | name hi hn => exact receive _ _
  | animate f hi hn he => exact receive _ _

theorem beats {a : Action} {s s' : Stage Console} (h : Stage.Beats screen a s s') :
    s.screen.Continues s'.screen := by
  induction h with
  | refl => exact refl _
  | tail _ hb ih => exact ih.trans (beat hb)

end Continues

theorem continues_of_execute {s s' : Stage Console} {a : Action} {x : NodeId} {r : Executed}
    (hw : s.world.Sound) (ha : s.world.action? x = some a)
    (h : Perform.execute screen x s = .ok r s') : s.screen.Continues s'.screen := by
  rw [Perform.execute_apply ha] at h
  have hbeats := Perform.beats_executeAction (s := s.sent screen (.handle a)) screen a hw
  rw [h] at hbeats
  exact (Continues.receive (.handle a) s.screen).trans (.beats hbeats)

theorem continues_of_next {g g' : Game Console} {step : Step} (hw : g.world.Sound)
    (h : Play.next screen g = .ok step g') : g.stage.screen.Continues g'.stage.screen := by
  cases Play.moved_of_next h with
  | waits | resumes | ends => exact .refl _
  | executes x a o s hp ha hs => exact continues_of_execute hw ha hs
  | begins x a f s hp ha hs => exact continues_of_execute hw ha hs

end Player.Console

/-! ### Waiting and going on -/

/-- **A node that waits first** and is played then was played. -/
theorem Halts.advances {σ : Type} {g g₁ g₂ : Game σ} {f : FutureId} {o : Outcome}
    (hh : Halts g f g₁) (ha : Advances g₁ o g₂) : Advances g o g₂ := by
  obtain ⟨a, haction, hserves, r, ho⟩ := ha.action
  obtain ⟨p, hp, -, hstands⟩ := hh.pending
  have hplace : g.place? = some o.node := hh.place.symm.trans ha.place
  have hnode : p.node = o.node :=
    Option.some.inj ((Game.place?_of_pending hp).symm.trans ha.place)
  rw [hh.keeps.action?] at haction
  -- what waits grafts in the same, whatever is in the store
  have hgraft : g₁.graft? o = g.graft? o := by
    obtain ⟨a', ha', -, hkind, -⟩ := hstands.action
    rw [hnode, hh.keeps.action?] at ha'
    obtain rfl := Option.some.inj (haction.symm.trans ha')
    unfold Game.graft?
    rw [hh.keeps.action?, haction, Option.bind_some, Option.bind_some]
    rcases hkind with hkind | hmenu
    · rw [World.graft?_of_not_grafts hkind, World.graft?_of_not_grafts hkind]
    · unfold World.graft?
      rw [hh.keeps.shape?, hmenu]
      cases g.world.shape? a.callee with
      | none => rfl
      | some s => cases s <;> rfl
  refine ⟨⟨hh.keeps.trans ha.keeps, ha.story.trans hh.story, ha.units.trans hh.units⟩, hplace,
    ⟨a, haction, ?_, r, ho⟩, ?_, ha.current, ?_, ha.started, ha.pending, ?_⟩
  · unfold Action.Serves at hserves ⊢
    rwa [hh.keeps.shape?] at hserves
  · have hgets := ha.graph
    rwa [hgraft, hh.graph] at hgets
  · rw [ha.onward, ← hnode, hstands.onward, hnode]
    exact hh.onward _ hplace
  · obtain ⟨c, hc⟩ := ha.history
    exact ⟨c, hc.trans (congrArg _ hh.history)⟩

namespace Player

/-- The outer loop gets from one game to another in a bounded number of passes. -/
structure Goes (most : Nat) (g g' : Game Console) : Prop where
  passes : ∃ n ≤ most, ∀ limit, advance (limit + n) g = advance limit g'
  continues : g.stage.screen.Continues g'.stage.screen

/-- The outer loop comes to a question at once. -/
structure Stops (g : Game Console) (q : Waiting) (g' : Game Console) : Prop where
  asks : ∀ limit, advance (limit + 1) g = .ok (.asking q) g'
  continues : g.stage.screen.Continues g'.stage.screen

namespace Goes

variable {k l : Nat} {g g₁ g₂ : Game Console} {q : Waiting}

theorem refl (g : Game Console) : Goes 0 g g := ⟨⟨0, Nat.le_refl 0, fun _ => rfl⟩, .refl _⟩

theorem trans (h : Goes k g g₁) (h' : Goes l g₁ g₂) : Goes (k + l) g g₂ := by
  obtain ⟨n, hn, hadvance⟩ := h.passes
  obtain ⟨m, hm, hadvance'⟩ := h'.passes
  refine ⟨⟨m + n, by omega, fun limit => ?_⟩, h.continues.trans h'.continues⟩
  rw [← Nat.add_assoc, hadvance, hadvance']

theorem advance (h : Goes k g g₁) {r : EStateM.Result GameError (Game Console) Stand}
    (hr : ∀ limit, Player.advance (limit + 1) g₁ = r) {limit : Nat} (hk : k < limit) :
    Player.advance limit g = r := by
  obtain ⟨n, hn, hadvance⟩ := h.passes
  have hlimit : limit = limit - n - 1 + 1 + n := by omega
  rw [hlimit, hadvance, hr]

/-- **Where the outer loop comes to a question** soon enough, it is asked. -/
theorem asks (h : Goes k g g₁) (hs : Stops g₁ q g₂) {limit : Nat} (hk : k < limit) :
    Player.advance limit g = .ok (.asking q) g₂ := h.advance hs.asks hk

end Goes

end Player

open Player

theorem Halts.onScreen {g g' : Game Console} {f : FutureId} (h : Halts g f g') (c : Console → Console) :
    Halts g f (onScreen c g') := by
  obtain ⟨p, hp, hf, hstands⟩ := h.pending
  exact ⟨⟨h.keeps, h.story, h.units⟩, h.place, h.graph, h.current, h.onward, h.started,
    ⟨p, hp, hf, hstands.action, hstands.onward⟩, h.history⟩

theorem Play.screen_of_undoLast {σ : Type} {g g' : Game σ} {out : Option Outcome}
    (h : undoLast g = .ok out g') : g'.stage.screen = g.stage.screen := by
  rw [undoLast_apply] at h
  cases hp : g.live.pending with
  | none =>
    rw [hp] at h
    obtain ⟨w, store, -, rfl⟩ := undoEntry_eq_ok h
    rfl
  | some p =>
    rw [hp] at h
    obtain ⟨_, g₁, h₁, h₂⟩ := bind_apply_eq_ok.1 h
    obtain ⟨w₁, store₁, -, rfl⟩ := undoPending_eq_ok h₁
    obtain ⟨w, store, -, rfl⟩ := undoEntry_eq_ok h₂
    rfl

namespace Action.Pauses

variable {a : Action}

theorem kind (h : a.Pauses) : (∃ line, a.kind = .say line) ∨ a.kind = .menu := by
  unfold Action.Pauses at h
  split at h
  · exact .inl ⟨_, ‹_›⟩
  · exact .inr ‹_›
  · exact h.elim

theorem ne_script (h : a.Pauses) : a.kind ≠ .script := by
  rcases h.kind with ⟨line, hk⟩ | hk <;> rw [hk] <;> nofun

theorem graft? (h : a.Pauses) (w : World) (store : Store) : w.graft? store a none = none := by
  rcases h.kind with ⟨line, hk⟩ | hk
  · exact World.graft?_of_not_grafts (by rw [hk]; rfl) _ _ _
  · exact World.graft?_menu hk _ _

end Action.Pauses

/-! ### Games that the player attends to -/

/-- **What holds of every game that the player attends to**, and that does not answer by itself. Its
conditions only look at the store. -/
structure Game.Attended (g : Game Console) : Prop where
  stepping : g.Stepping
  singlyLinked : g.world.graph.SinglyLinked
  looking : g.world.Looking
  story : g.live.story.isSome
  aligned : ∃ acc, Aligned g acc
  manual : g.stage.screen.auto = false

/-- The player is asked for what an action waits for. -/
structure Player.Awaits (q : Player.Waiting) (a : Action) (g : Game Console) : Prop where
  pending : ∃ p, g.live.pending = some p ∧ p.node = a.node ∧ p.future = q.future
  asks : q.Asks g.world a q.future
  unanswered : g.stage.futures.result? q.future = none

namespace Game.Attended

variable {g g' : Game Console} {step : Step} {o : Outcome} {f : FutureId} {a : Action} {x : NodeId}
  {q : Player.Waiting}

theorem sound (h : g.Attended) : g.world.Sound := by
  obtain ⟨acc, ha⟩ := h.aligned
  exact ha.stacked.sound

/-! #### What the player does -/

theorem singlyLinked_of_gets {c? : Option (Option Chain)} {k : Graph Action} (h : g.world.graph.SinglyLinked)
    (hg : g.world.graph.Gets x c? k) : k.SinglyLinked := by
  cases c? with
  | none =>
    rw [show k = g.world.graph from hg]
    exact h
  | some chain => exact (h.splice hg).1

/-- **A next step** that goes on. -/
theorem next (h : g.Attended) (hn : Play.next Console.screen g = .ok step g')
    (hgoes : step ≠ .terminated) : g'.Attended := by
  have hkeeps := Play.keeps_of_next h.sound hn
  have hscreen := Console.continues_of_next h.sound hn
  obtain ⟨acc, haligned⟩ := h.aligned
  have hrest : ∀ (_ : g'.Stepping) (_ : g'.world.graph.SinglyLinked) (_ : Stays g g'), g'.Attended :=
    fun hs hg hstays => ⟨hs, hg, hkeeps.looking h.looking, hstays.story ▸ h.story,
      ⟨_, haligned.next hn⟩, hscreen.auto.trans h.manual⟩
  cases step with
  | terminated => exact absurd rfl hgoes
  | advanced o =>
    have ha := h.stepping.advances h.sound hn
    exact hrest (.advance ha) (singlyLinked_of_gets h.singlyLinked ha.graph) ha.toStays
  | suspended f =>
    have hh := h.stepping.halts h.sound hn
    exact hrest (.halt hh) (hh.graph ▸ h.singlyLinked) hh.toStays

theorem answered (h : g.Attended) (answer : FutureId × Resolution) : (g.answered answer).Attended := by
  obtain ⟨acc, haligned⟩ := h.aligned
  exact ⟨h.stepping.answer answer, h.singlyLinked, h.looking, h.story, ⟨acc, haligned.resolve answer⟩,
    h.manual⟩

theorem redrawn (h : g.Attended) {f : Console → Console}
    (hf : (f g.stage.screen).auto = g.stage.screen.auto) : (onScreen f g).Attended := by
  obtain ⟨acc, haligned⟩ := h.aligned
  refine ⟨h.stepping.host g.live.saved g.stage.store _, h.singlyLinked, h.looking, h.story,
    ⟨acc, haligned.stacked, haligned.history, ?_⟩, hf.trans h.manual⟩
  have hwaiting := haligned.waiting
  unfold Waits at hwaiting ⊢
  cases hw : acc.waiting with
  | none =>
    rw [hw] at hwaiting
    exact hwaiting
  | some p =>
    rw [hw] at hwaiting
    obtain ⟨q, hq, ha⟩ := hwaiting
    exact ⟨q, hq, ha.node, ha.callee, ha.before, ha.did, ha.future⟩

/-! #### What the outer loop does -/

theorem next_of_able (h : g.Attended) (hp : g.live.pending = none) (hx : g.place? = some x)
    (ha : g.world.action? x = some a) (hable : a.Able g.world g.store) :
    ∃ r s, Perform.execute Console.screen x g.stage = .ok r s ∧ Executes a g.stage s r ∧
      Play.next Console.screen g = match r with
        | .immediate o => .ok (.advanced o) (({ g with live := g.live.aim }.executed x s).adopted o
            a.callee (g.world.commits a.callee))
        | .suspended f => .ok (.suspended f) (({ g with live := g.live.aim }.executed x s).awaiting
            ⟨x, f, a.callee, g.world.commits a.callee⟩) := by
  obtain ⟨r, s, hs, he⟩ := Perform.execute_of_able (s := g.stage) Console.screen ha hable
  refine ⟨r, s, hs, he, ?_⟩
  rw [Play.next_of_idle h.story hp, ← Game.place?_of_idle hp, hx]
  have hexec := Play.execute_of_perform (g := { g with live := g.live.aim }) ha hs
  cases r <;> exact hexec

theorem store_of_execute (h : g.Attended) {s : Stage Console} {r : Executed}
    (ha : g.world.action? x = some a) (hs : Perform.execute Console.screen x g.stage = .ok r s) :
    s.store = (a.host g.world g.store).1 := by
  obtain ⟨b, commit, hb, hdone⟩ := Perform.execute_spec h.sound hs
  obtain rfl := Option.some.inj (ha.symm.trans hb)
  exact hdone.store

/-- What the screen has answered is taken over by the next pass. -/
theorem passes_answered (h : g.Attended) {g₁ : Game Console} {p : Pending}
    (hn : Play.next Console.screen g = .ok (.suspended f) g₁) (hp : g₁.live.pending = some p)
    (hf : p.future = f) (hresult : g₁.stage.futures.result? f = some o) (hc : o.choice = none) :
    ∃ g', Goes 2 g g' ∧ g'.Attended ∧ Advances g o g' ∧ g'.store = g₁.store := by
  have h₁ := h.next hn nofun
  have hn₁ : Play.next Console.screen g₁ = .ok (.advanced o)
      ((g₁.awaited g₁.world).adopted o p.callee p.before) := by
    rw [Play.next_of_pending h₁.story hp, hf, hresult]
    exact Play.resume_of_choose (by rw [hc])
  have hsolved : g₁.stage.futures.isSolved f = true := by
    unfold Futures.isSolved
    rw [hresult]
    rfl
  have hpasses : ∀ limit, advance (limit + 2) g =
      advance limit ((g₁.awaited g₁.world).adopted o p.callee p.before) := fun limit =>
    (advance_of_solved hn hsolved).trans (advance_of_advanced hn₁)
  exact ⟨_, ⟨⟨2, Nat.le_refl 2, hpasses⟩, (Console.continues_of_next h.sound hn).trans
      (Console.continues_of_next h₁.sound hn₁)⟩, h₁.next hn₁ nofun,
    (h.stepping.halts h.sound hn).advances (h₁.stepping.advances h₁.sound hn₁), rfl⟩

/-- **An action that does not wait for the player** is passed, at once or after the screen has answered. -/
theorem passes (h : g.Attended) (hp : g.live.pending = none) (hx : g.place? = some x)
    (ha : g.world.action? x = some a) (hpass : ¬ a.Pauses) (hable : a.Able g.world g.store) :
    ∃ g', Goes 2 g g' ∧ g'.Attended ∧ Advances g a.outcome g' ∧
      g'.store = (a.host g.world g.store).1 := by
  have hmenu : a.kind ≠ .menu := fun hk => hpass (by unfold Action.Pauses; rw [hk]; trivial)
  obtain ⟨r, s, hs, he, hn⟩ := h.next_of_able hp hx ha hable
  have hstore := h.store_of_execute ha hs
  cases r with
  | immediate o =>
    obtain ⟨rfl, -⟩ := he.closes
    exact ⟨_, ⟨⟨1, by omega, fun _ => advance_of_advanced hn⟩, Console.continues_of_next h.sound hn⟩,
      h.next hn nofun, h.stepping.advances h.sound hn, hstore⟩
  | suspended f =>
    have hsolved : s.futures.isSolved f = true := by
      by_contra hopen
      exact hpass ((Console.shown_of_execute ha hs).asks f rfl (by simpa using hopen)).2.1
    obtain ⟨o, ho⟩ := Option.isSome_iff_exists.1 hsolved
    obtain ⟨r', rfl⟩ := Futures.Asks.result he.closes ho
    rw [Action.receive_of_ne hmenu] at ho
    obtain ⟨g', hgoes, hattended, hadvances, hkept⟩ := h.passes_answered hn rfl rfl ho rfl
    exact ⟨g', hgoes, hattended, hadvances, hkept.trans hstore⟩

/-- **An action that waits for the player** is stopped at, and asked for. -/
theorem stops (h : g.Attended) (hp : g.live.pending = none) (hx : g.place? = some x)
    (ha : g.world.action? x = some a) (hpause : a.Pauses) (hserves : a.Serves g.world) :
    ∃ q g', Stops g q g' ∧ g'.Attended ∧ Halts g q.future g' ∧ Player.Awaits q a g' ∧
      g'.store = g.store := by
  obtain ⟨r, s, hs, -, hn⟩ :=
    h.next_of_able hp hx ha (Perform.able_of_no_graft hserves (hpause.graft? _ _))
  have hshown := Console.shown_of_execute ha hs
  obtain ⟨f, rfl, hopen⟩ := hshown.pauses h.manual hpause
  obtain ⟨-, -, q, hq, hasks⟩ := hshown.asks f rfl hopen
  obtain rfl := hasks.future
  have hstore := h.store_of_execute ha hs
  rw [Action.host_of_looking h.looking hpause.ne_script] at hstore
  simp only at hn
  -- the game at the prompt is the executed one; drawing on the screen changes nothing else
  generalize hg₁ : ({ g with live := g.live.aim }.executed x s).awaiting
    ⟨x, q.future, a.callee, g.world.commits a.callee⟩ = g₁ at hn
  have hstage : g₁.stage = s := by
    rw [← hg₁]
    rfl
  have hpending : g₁.live.pending = some ⟨x, q.future, a.callee, g.world.commits a.callee⟩ := by
    rw [← hg₁]
    rfl
  have hcontinues : Console.Continues g₁.stage.screen
      (prompt (onScreen ({ · with waiting := none }) g₁)).stage.screen := ⟨rfl, List.suffix_cons _ _⟩
  refine ⟨q, prompt (onScreen ({ · with waiting := none }) g₁),
    ⟨fun limit => ?_, (Console.continues_of_next h.sound hn).trans hcontinues⟩,
    ((h.next hn nofun).redrawn rfl).redrawn rfl,
    ((h.stepping.halts h.sound hn).onScreen _).onScreen _,
    ⟨⟨_, hpending, (h.sound.node x a ha).symm, rfl⟩, ?_, ?_⟩, ?_⟩
  · rw [advance_of_open hn (by rw [hstage]; simpa using hopen), hstage, hq]
  · show q.Asks g₁.stage.world a q.future
    rw [hstage]
    exact hasks
  · show g₁.stage.futures.result? q.future = none
    rw [hstage]
    exact Option.not_isSome_iff_eq_none.1 (by simpa [Futures.isSolved] using hopen)
  · show g₁.stage.store = g.store
    rw [hstage]
    exact hstore

/-- **An answer is taken over**, if what it picks can be grafted in. -/
theorem answers (h : g.Attended) (ha : g.world.action? a.node = some a) (hq : Player.Awaits q a g)
    (hserves : a.Serves g.world) (r : Resolution)
    (hgraft : ∀ chain, g.world.graft? g.store a (a.receive r).choice = some chain →
      ∃ k, Graph.splice a.node chain g.world.graph = .ok () k) :
    ∃ g', Goes 1 (g.answered (q.future, r)) g' ∧ g'.Attended ∧ Advances g (a.receive r) g' := by
  have h₁ := h.answered (q.future, r)
  obtain ⟨p, hp, hnode, hfuture⟩ := hq.pending
  obtain ⟨a', ha', -, -, hasks⟩ := (h.stepping.waits p hp).action
  rw [hnode] at ha'
  obtain rfl := Option.some.inj (ha.symm.trans ha')
  rw [hfuture] at hasks
  have hresult : (g.answered (q.future, r)).stage.futures.result? p.future = some (a.receive r) := by
    rw [hfuture]
    exact hasks.answer hq.unanswered r
  have hresume : ∃ w, Play.resume p (a.receive r) (g.answered (q.future, r)) =
      .ok (.advanced (a.receive r))
        (((g.answered (q.future, r)).awaited w).adopted (a.receive r) p.callee p.before) := by
    cases hc : (a.receive r).choice with
    | none => exact ⟨_, Play.resume_of_choose (by rw [hc])⟩
    | some i =>
      have hm : a.kind = .menu := by
        by_contra hm
        cases (Action.choice_of_ne hm r).symm.trans hc
      rw [hc] at hgraft
      obtain ⟨w, hw⟩ := Build.choose_of_splice h.sound ha hserves hm hgraft
      refine ⟨w, Play.resume_of_choose ?_⟩
      rw [hc, Action.receive_node]
      exact hw
  obtain ⟨w, hw⟩ := hresume
  have hn : Play.next Console.screen (g.answered (q.future, r)) = .ok (.advanced (a.receive r))
      (((g.answered (q.future, r)).awaited w).adopted (a.receive r) p.callee p.before) := by
    rw [Play.next_of_pending h₁.story (show (g.answered _).live.pending = _ from hp), hresult]
    exact hw
  have hadvances := h₁.stepping.advances h₁.sound hn
  exact ⟨_, ⟨⟨1, Nat.le_refl 1, fun _ => advance_of_advanced hn⟩,
      Console.continues_of_next h₁.sound hn⟩, h₁.next hn nofun,
    ⟨⟨hadvances.keeps, hadvances.story, hadvances.units⟩, hadvances.place, hadvances.action,
      hadvances.graph, hadvances.current, hadvances.onward, hadvances.started, hadvances.pending,
      hadvances.history⟩⟩

/-- The node that waits, and the one that was played last. -/
def latest (g : Game Console) : List NodeId :=
  (g.live.pending.map (·.node)).toList ++ (g.live.history.head?.map (·.outcome.node)).toList

/-- **Undoing** takes the action back that waits, and the last one that was played. Unless one of them is
a script, it leaves the store as it is. -/
theorem undoes (h : g.Attended)
    (hscripts : ∀ x ∈ latest g, ∀ a, g.world.action? x = some a → a.kind ≠ .script) :
    ∃ g', Play.undoLast g = .ok (g.live.history.head?.map (·.outcome)) g' ∧ g'.Attended ∧
      Undone g g' ∧ g'.stage.screen = g.stage.screen ∧ g'.store = g.store := by
  obtain ⟨acc, haligned⟩ := h.aligned
  obtain ⟨g', hundo, hback, -, -, hstore, hkeeps, -⟩ := haligned.undoLast
  have hundone := Play.undone_of_undoLast hundo hkeeps
  have hscreen : g'.stage.screen = g.stage.screen := Play.screen_of_undoLast hundo
  -- who is no script leaves no cleaner behind
  have hclean : ∀ p ∈ acc.last, p.cleaner = none := by
    intro p hp
    have hall : p ∈ acc.all := acc.all_eq_last ▸ List.mem_append_left _ hp
    have hkept := haligned.stacked.keeps p hall
    have haction := (hkept.action? _).trans (haligned.stacked.unwinds.proper p hall).action
    have hnode : p.action.node ∈ latest g := by
      rcases List.mem_append.1 hp with hp | hp
      · obtain ⟨q, hq, hawaits⟩ : Waits g (some p) := Option.mem_toList.1 hp ▸ haligned.waiting
        refine List.mem_append_left _ ?_
        rw [hq, ← hawaits.node]
        exact List.mem_singleton.2 rfl
      · refine List.mem_append_right _ (Option.mem_toList.2 ?_)
        have hhead := congrArg (fun l => l.head?.map Prod.fst) haligned.history
        simp only [List.head?_map, Option.map_map, Option.mem_toList.1 hp] at hhead
        exact hhead.symm
    unfold Posting.cleaner
    rw [Action.host_of_looking (hkept.looking_back h.looking) (hscripts _ hnode _ haction)]
  refine ⟨g', hundo, ⟨h.stepping.undone hundone, hundone.graph ▸ h.singlyLinked, hkeeps.looking h.looking,
    hundone.story ▸ h.story, ⟨_, hback⟩, hscreen ▸ h.manual⟩, hundone, hscreen, hstore.trans ?_⟩
  have hfold : ∀ (posts : List (Posting Console)) (store : Store), (∀ p ∈ posts, p.cleaner = none) →
      posts.foldl (fun store p => Cleaner.runIfAny p.cleaner store) store = store := by
    intro posts
    induction posts with
    | nil => exact fun _ _ => rfl
    | cons p posts ih =>
      intro store hp
      rw [List.foldl_cons, hp p List.mem_cons_self]
      exact ih store fun q hq => hp q (List.mem_cons_of_mem _ hq)
  exact hfold _ _ hclean

end Game.Attended

end Storyline
