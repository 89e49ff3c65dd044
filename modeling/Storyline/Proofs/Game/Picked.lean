import Storyline.Proofs.Game.Poised
import Storyline.Proofs.Game.Residue
import Storyline.Proofs.Game.TakenBack
import Storyline.Proofs.World.Unplayed
import Storyline.Stage.Recorder

/-!
# Where play goes on after a menu

* `Played g picks`: new games, next steps, answers of futures and undoing, in any order and whether or
  not they succeed, lead from an authored world to the game `g`; `picks` are the nodes at which a pick
  was taken over;
* `Menu.target`: where a menu leads on, given the answer;
* `Expectant g picks`: what such games keep: what waits has asked for its answer, and no menu's node
  remembers anything before the first pick there;
* `Played.goes_on`: play goes on where the answer says, whatever was picked before. A menu that is
  passed without a pick is left along its edge, which is where the last pick there has set it.
-/

namespace Storyline

open Effect

variable {σ : Type}

/-! ### Grafting in at one node -/

namespace Graph

variable {γ : Type} {g g' : Graph γ} {id : NodeId} {branch : Option Chain}

theorem child?_of_splice (h : splice id branch g = .ok () g') :
    g'.child? id = entry branch (g.continuation id) := by
  obtain ⟨-, hsteps⟩ := splice_eq_ok h
  cases branch with
  | none => exact (rewired_of_setChild hsteps).child?_self
  | some c =>
    obtain ⟨g₁, -, hg₂⟩ := hsteps
    exact (rewired_of_setChild hg₂).child?_self

/-- What is grafted in at a node changes nothing about where play goes on behind it. -/
theorem continuation_splice_self (h : splice id branch g = .ok () g') :
    g'.continuation id = g.continuation id := by
  refine continuation_of_some ?_
  obtain ⟨-, hsteps⟩ := splice_eq_ok h
  cases branch with
  | none => rw [(rewired_of_setChild hsteps).resumes, resumes_remember, if_pos rfl]
  | some c =>
    obtain ⟨g₁, hg₁, hg₂⟩ := hsteps
    rw [(rewired_of_setChild hg₂).resumes, (rewired_of_setChild hg₁).resumes, resumes_remember,
      if_pos rfl]

theorem entry_ofNodes (l : List NodeId) (k : Option NodeId) :
    entry (Chain.ofNodes? l) k = l.head?.or k := by
  cases l <;> rfl

end Graph

/-- Where a menu leads on, given the answer: to the first node of the entry that was picked, if there
are such an entry and a node, or else to where play goes on behind the menu. -/
def Menu.target (m : Menu) (behind : Option NodeId) : Resolution → Option NodeId
  | .choose i => ((m.choices[i]?).bind (·.actions.head?)).or behind
  | .proceed => behind

theorem Menu.entry_target {m : Menu} (hm : (Element.menu m).Chained) (i : Nat) (k : Option NodeId) :
    Graph.entry ((m.choices.map (·.chain))[i]?).join k = m.target k (.choose i) := by
  unfold Menu.target
  simp only [List.getElem?_map]
  cases hc : m.choices[i]? with
  | none => rfl
  | some c =>
    simp only [Option.map_some, Option.join_some, Option.bind_some]
    rw [hm c (List.mem_of_getElem? hc), Graph.entry_ofNodes]

/-! ### Games that are played -/

/-- The node at which the next step takes a pick over, if it does. -/
def Game.picking? (g : Game σ) : Option NodeId := do
  let p ← g.live.pending
  let o ← g.stage.futures.result? p.future
  o.choice.map fun _ => o.node

/-- Games that are reached by new games, next steps, answers of futures and undoing, in any order and
whether or not they succeed; with all nodes at which a pick was taken over, in any of these games. -/
inductive Played : Game σ → List NodeId → Prop
  | start {g : Game σ} (hw : g.world.Authored) (hp : g.live.pending = none) : Played g []
  | newGame {g : Game σ} {picks : List NodeId} (h : Played g picks) (now : Instant) :
      Played (g.newGame now) picks
  | next {g : Game σ} {picks : List NodeId} (h : Played g picks) (screen : Screen σ) :
      Played (left (Play.next screen g)) (g.picking?.toList ++ picks)
  | answer {g : Game σ} {picks : List NodeId} (h : Played g picks) (answer : FutureId × Resolution) :
      Played (g.answered answer) picks
  | undo {g : Game σ} {picks : List NodeId} (h : Played g picks) :
      Played (left (Play.undoLast g)) picks

/-- A step waits for the answer that its action has asked for. -/
def Pending.Asking (p : Pending) (g : Game σ) : Prop :=
  ∃ a, g.world.action? p.node = some a ∧ a.Serves g.world ∧
    g.stage.futures.Asks p.future a.receive

/-- **What all games keep.** -/
structure Expectant (g : Game σ) (picks : List NodeId) : Prop where
  sound : g.world.Sound
  chained : g.world.Each Element.Chained
  /-- Before the first pick at it a menu's node remembers nothing. -/
  unpicked : ∀ n a, g.world.action? n = some a → a.kind = .menu → n ∉ picks →
    g.world.graph.resumes[n]? = none
  waits : ∀ p, g.live.pending = some p → p.Asking g

theorem World.Each.keeps {w w' : World} (h : w.Each Element.Chained) (hk : w.Keeps w') :
    w'.Each Element.Chained := by
  intro e x hx
  have hwritten := hk.written? e
  unfold World.written? at hwritten
  rw [hx, Option.map_some] at hwritten
  obtain ⟨y, hy, hxy⟩ := Option.map_eq_some_iff.1 hwritten.symm
  exact Element.chained_of_written hxy.symm (h e y hy)

namespace Expectant

variable {g g' : Game σ} {picks picks' : List NodeId} {screen : Screen σ} {p : Pending}

theorem mono (h : Expectant g picks) (hsub : picks ⊆ picks') : Expectant g picks' :=
  ⟨h.sound, h.chained, fun n a ha hk hn => h.unpicked n a ha hk fun hmem => hn (hsub hmem), h.waits⟩

/-- A menu remembers nothing before the first pick, as nobody else grafts in behind it. -/
theorem of_touches (h : Expectant g picks) {n : NodeId} (ht : g.world.Touches n g'.world)
    (hn : ∀ a, g.world.action? n = some a → a.kind = .menu →
      n ∈ picks ∨ g'.world.graph = g.world.graph)
    (hwaits : ∀ p, g'.live.pending = some p → p.Asking g') : Expectant g' picks where
  sound := ht.keeps.sound h.sound
  chained := h.chained.keeps ht.keeps
  unpicked := by
    intro x a ha hk hx
    rw [ht.keeps.action?] at ha
    have hold := h.unpicked x a ha hk hx
    by_cases hxn : x = n
    · subst hxn
      rcases hn a ha hk with hmem | hgraph
      · exact absurd hmem hx
      · rw [hgraph, hold]
    · rw [ht.resumes x hxn, hold]
  waits := hwaits

theorem of_reverts (h : Expectant g picks) (hr : Play.Reverts g.world g'.world)
    (hwaits : ∀ p, g'.live.pending = some p → p.Asking g') : Expectant g' picks where
  sound := hr.1.sound h.sound
  chained := h.chained.keeps hr.1
  unpicked := by
    intro x a ha hk hx
    rw [hr.1.action?] at ha
    rw [hr.2]
    exact h.unpicked x a ha hk hx
  waits := hwaits

theorem of_world (h : Expectant g picks) (hw : g'.world = g.world)
    (hwaits : ∀ p, g'.live.pending = some p → p.Asking g') : Expectant g' picks :=
  h.of_reverts ⟨hw ▸ .refl _, by rw [hw]⟩ hwaits

theorem waits_of_none (hp : g.live.pending = none) : ∀ p, g.live.pending = some p → p.Asking g := by
  intro p hq
  rw [hp] at hq
  cases hq

/-! #### Every call -/

theorem answer (h : Expectant g picks) (answer : FutureId × Resolution) :
    Expectant (g.answered answer) picks :=
  h.of_world rfl fun p hp => by
    obtain ⟨a, ha, hs, hasks⟩ := h.waits p hp
    exact ⟨a, ha, hs, hasks.settle answer⟩

theorem picking?_of_choice (hp : g.live.pending = some p) {o : Outcome} {i : Nat}
    (ho : g.stage.futures.result? p.future = some o) (hc : o.choice = some i) :
    g.picking? = some o.node := by
  unfold Game.picking?
  simp [hp, ho, hc]

theorem resume (h : Expectant g picks) (hp : g.live.pending = some p) {o : Outcome}
    (ho : g.stage.futures.result? p.future = some o) :
    Expectant (left (Play.resume p o g)) (g.picking?.toList ++ picks) := by
  obtain ⟨hpend, hstage⟩ := Play.left_resume p o g
  have hmono := h.mono (List.subset_append_right g.picking?.toList picks)
  cases hc : o.choice with
  | none =>
    rw [hc] at hstage
    exact hmono.of_world (congrArg Stage.world hstage) (waits_of_none hpend)
  | some i =>
    rw [hc] at hstage
    have hworld : (left (Play.resume p o g)).world = left (Build.choose o.node i g.world) :=
      congrArg Stage.world hstage
    refine hmono.of_touches (n := o.node) (hworld ▸ Build.touches_left_choose h.sound _ i)
      (fun _ _ _ => .inl (List.mem_append_left _ ?_)) (waits_of_none hpend)
    rw [picking?_of_choice hp ho hc]
    exact List.mem_singleton_self _

/-- Executing a node. What waits then has asked for its answer. -/
theorem execute (h : Expectant g picks) (hp : g.live.pending = none) (node : NodeId) :
    Expectant (left (Play.execute screen node g)) picks := by
  have ht := Perform.touches_left_execute screen node h.sound
  have hmenu := fun a => Perform.graph_left_execute_menu (a := a) (n := node) (s := g.stage) screen
  cases hx : Perform.execute screen node g.stage with
  | error e s =>
    rw [hx] at ht hmenu
    rw [Play.execute_of_error hx]
    exact h.of_touches ht (fun a ha hk => .inr (hmenu a ha hk))
      (waits_of_none ((Live.pending_reach _ _).trans hp))
  | ok r s =>
    rw [hx] at ht hmenu
    obtain ⟨a, ha, hable, he⟩ := Perform.executes_of_execute hx
    rw [Play.execute_of_perform ha hx]
    cases r with
    | immediate o =>
      exact h.of_touches ht (fun a ha hk => .inr (hmenu a ha hk))
        (waits_of_none ((Live.pending_reach _ _).trans hp))
    | suspended f =>
      refine h.of_touches ht (fun a ha hk => .inr (hmenu a ha hk)) ?_
      rintro _ ⟨⟩
      exact ⟨a, (ht.keeps.action? node).trans ha, hable.serves.keeps ht.keeps, he.closes⟩

theorem next (h : Expectant g picks) (screen : Screen σ) :
    Expectant (left (Play.next screen g)) (g.picking?.toList ++ picks) := by
  have hmono := h.mono (List.subset_append_right g.picking?.toList picks)
  cases hs : g.live.story with
  | none =>
    rw [Play.next_of_no_story hs]
    exact hmono
  | some story =>
    have hs' : g.live.story.isSome := by rw [hs]; rfl
    cases hp : g.live.pending with
    | some p =>
      rw [Play.next_of_pending hs' hp]
      cases ho : g.stage.futures.result? p.future with
      | none => exact hmono
      | some o => exact h.resume hp ho
    | none =>
      rw [Play.next_of_idle hs' hp]
      have hp' : ({ g with live := g.live.aim } : Game σ).live.pending = none :=
        (Live.pending_aim _).trans hp
      have haim : Expectant ({ g with live := g.live.aim } : Game σ) (g.picking?.toList ++ picks) :=
        hmono.of_world rfl (waits_of_none hp')
      cases g.live.aim.current with
      | some node => exact haim.execute hp' node
      | none => exact hmono.of_world rfl (waits_of_none hp')

theorem undo (h : Expectant g picks) : Expectant (left (Play.undoLast g)) picks := by
  obtain ⟨hr, hp⟩ := Play.reverts_undoLast h.sound
  exact h.of_reverts hr (waits_of_none hp)

end Expectant

theorem Played.expectant {g : Game σ} {picks : List NodeId} (h : Played g picks) :
    Expectant g picks := by
  induction h with
  | start hw hp =>
    exact ⟨hw.sound, hw.chained, fun n _ _ _ _ => hw.unspliced n, Expectant.waits_of_none hp⟩
  | newGame h now ih => exact ih.of_world rfl (Expectant.waits_of_none rfl)
  | next h screen ih => exact ih.next screen
  | answer h answer ih => exact ih.answer answer
  | undo h ih => exact ih.undo

/-! ### Behind a menu -/

section Behind

variable {g g' : Game σ} {picks : List NodeId} {p : Pending} {a : Action} {m : Menu}

/-- Before the first pick at it a menu is left along its edge, and that is where play goes on. -/
theorem Expectant.child?_of_unpicked (h : Expectant g picks) {n : NodeId}
    (ha : g.world.action? n = some a) (hk : a.kind = .menu) (hn : n ∉ picks) :
    g.world.graph.child? n = g.world.graph.continuation n :=
  (Graph.continuation_of_none (h.unpicked n a ha hk hn)).symm

theorem Expectant.current_of_answer (h : Expectant g picks) (hp : g.live.pending = some p)
    (ha : g.world.action? p.node = some a) (hk : a.kind = .menu)
    (hm : g.world.elements.get? a.callee = some (.menu m)) {r : Resolution} {screen : Screen σ}
    {step : Step} (hr : g.stage.futures.result? p.future = some (a.outcome.answered r))
    (hn : Play.next screen g = .ok step g')
    (hedge : r = .proceed → p.node ∈ picks →
      g.world.graph.child? p.node = g.world.graph.continuation p.node) :
    step = .advanced (a.outcome.answered r) ∧
      g'.live.current = m.target (g.world.graph.continuation p.node) r ∧
      g'.world.graph.continuation p.node = g.world.graph.continuation p.node := by
  rw [Play.next_of_pending (Play.next_eq_ok_story hn) hp, hr] at hn
  obtain ⟨w, hw, rfl, rfl⟩ := Play.resume_eq_ok hn
  have hnode : a.node = p.node := h.sound.node _ a ha
  cases r with
  | proceed =>
    obtain rfl : w = g.world := hw
    refine ⟨rfl, ?_, rfl⟩
    show g.world.graph.child? a.node = g.world.graph.continuation p.node
    -- without a pick the edge of the menu is followed, which was set before only by a pick
    rw [hnode]
    by_cases hpicked : p.node ∈ picks
    · exact hedge rfl hpicked
    · exact h.child?_of_unpicked ha hk hpicked
  | choose i =>
    have hchoose : Build.choose a.node i g.world = .ok () w := hw
    have ha' : g.world.action? a.node = some a := by rw [hnode, ha]
    -- the pick is spliced in, so that the edge is the way into the entry
    obtain ⟨w₁, hgraph, -, hedit⟩ := Build.choose_menu (i := i) ha' hm (h.sound.id _ _ hm)
    obtain ⟨k, hsplice, rfl⟩ := Build.ofEdit_eq_ok_iff.1 (hedit.symm.trans hchoose)
    rw [hgraph, hnode] at hsplice
    refine ⟨rfl, ?_, Graph.continuation_splice_self hsplice⟩
    show k.child? a.node = _
    rw [hnode, Graph.child?_of_splice hsplice]
    exact Menu.entry_target (h.chained _ _ hm) i _

/-- **Where play goes on after a menu** is decided by the answer alone: by the first answer that its
future is given. Play goes on at the head of the entry that was picked, if there is such an entry and
its list is not empty, and behind the menu otherwise. A menu that is passed without a pick is left
along its edge. So after a pick there in an earlier game, or before an undo, that edge has to lead
behind the menu. -/
theorem Played.goes_on (h : Played g picks) (hp : g.live.pending = some p)
    (ha : g.world.action? p.node = some a) (hk : a.kind = .menu) :
    ∃ m : Menu, g.world.elements.get? a.callee = some (.menu m) ∧
      (∀ c ∈ m.choices, c.chain = Chain.ofNodes? c.actions) ∧
      (g.stage.futures.result? p.future = none → ∀ r,
        (g.answered (p.future, r)).stage.futures.result? p.future = some (a.outcome.answered r)) ∧
      (∀ o, g.stage.futures.result? p.future = some o → ∃ r, o = a.outcome.answered r) ∧
      ∀ r screen step g', g.stage.futures.result? p.future = some (a.outcome.answered r) →
        Play.next screen g = .ok step g' →
        (r = .proceed → p.node ∈ picks →
          g.world.graph.child? p.node = g.world.graph.continuation p.node) →
        step = .advanced (a.outcome.answered r) ∧
          g'.live.current = m.target (g.world.graph.continuation p.node) r ∧
          g'.world.graph.continuation p.node = g.world.graph.continuation p.node := by
  have he := h.expectant
  obtain ⟨b, hb, hserves, hasks⟩ := he.waits p hp
  obtain rfl := Option.some_inj.1 (ha.symm.trans hb)
  rw [Action.receive_of_menu hk] at hasks
  unfold Action.Serves at hserves
  rw [hk] at hserves
  obtain ⟨chains, hs⟩ := hserves
  obtain ⟨m, hm, -⟩ := World.get?_of_shape Menu hs rfl
  exact ⟨m, hm, he.chained _ _ hm, fun hn r => hasks.answer hn r, fun o ho => hasks.result ho,
    fun r screen step g' hr hn hedge => he.current_of_answer hp ha hk hm hr hn hedge⟩

end Behind

/-! ### A crossroads -/

/-- A crossroads with a path into the wood; straight on lies the town. -/
def crossroads : Game Recorder where
  config := {}
  live := { story := some ⟨2⟩, units := [⟨6⟩, ⟨5⟩] }
  stage := {
    world := World.new.callAll [
      .character "traveller" {}, .story "tale", .menu none, .append ⟨1⟩ (.say (.plain "the wood")),
      .append ⟨1⟩ (.say (.plain "the town")), .choose ⟨3⟩ (.plain "turn off") [[⟨4⟩]],
      .toAction .menu ⟨3⟩, .storyAction ⟨2⟩ [[⟨6⟩, ⟨5⟩]], .setRoot ⟨2⟩]
    store := {}
    futures := {}
    screen := {} }

/-- The traveller has turned off and come back, and stands at the crossroads again. -/
def crossroadsAgain : Game Recorder :=
  let step g := left (Play.next Recorder.screen g)
  step (left (Play.undoLast (step ((step (crossroads.newGame default)).answered (⟨0⟩, .choose 0)))))

theorem played_crossroads : Played crossroadsAgain [⟨6⟩] := by
  have hstart : Played crossroads [] := .start (World.Authored.new.callAll _) rfl
  have hplayed := ((((hstart.newGame default).next Recorder.screen).answer
    (⟨0⟩, .choose 0)).next Recorder.screen).undo.next Recorder.screen
  exact hplayed

/-- Whether the traveller turns off again, goes past or picks an entry that is not there. -/
theorem goes_on_crossroads :
    (∃ g', Play.next Recorder.screen (crossroadsAgain.answered (⟨1⟩, .choose 0)) =
        .ok (.advanced ⟨"menu:action", ⟨6⟩, some 0⟩) g' ∧ g'.live.current = some ⟨4⟩) ∧
      ∃ g', Play.next Recorder.screen (crossroadsAgain.answered (⟨1⟩, .choose 1)) =
        .ok (.advanced ⟨"menu:action", ⟨6⟩, some 1⟩) g' ∧ g'.live.current = some ⟨5⟩ := by
  have hp : crossroadsAgain.live.pending = some ⟨⟨6⟩, ⟨1⟩, ⟨3⟩, 1⟩ := by decide +kernel
  have ha : crossroadsAgain.world.action? ⟨6⟩ = some ⟨⟨6⟩, ⟨3⟩, .menu⟩ := by decide +kernel
  -- the general theorem tells where the game goes; that the call succeeds is computed
  have hcase : ∀ i, ∀ k : Option NodeId,
      ((crossroadsAgain.world.elements.get? ⟨3⟩).bind Elemental.ofElement?).map
        (fun m : Menu => m.target (crossroadsAgain.world.graph.continuation ⟨6⟩) (.choose i)) =
          some k →
      succeeds (Play.next Recorder.screen (crossroadsAgain.answered (⟨1⟩, .choose i))) = true →
      (crossroadsAgain.answered (⟨1⟩, .choose i)).stage.futures.result? ⟨1⟩ =
        some ⟨"menu:action", ⟨6⟩, some i⟩ →
      ∃ g', Play.next Recorder.screen (crossroadsAgain.answered (⟨1⟩, .choose i)) =
        .ok (.advanced ⟨"menu:action", ⟨6⟩, some i⟩) g' ∧ g'.live.current = k := by
    intro i k hk hs hr
    have hplayed := played_crossroads.answer (⟨1⟩, .choose i)
    obtain ⟨m, hm, -, -, -, hgo⟩ := hplayed.goes_on hp ha rfl
    cases hn : Play.next Recorder.screen (crossroadsAgain.answered (⟨1⟩, .choose i)) with
    | error e g' =>
      rw [hn] at hs
      cases hs
    | ok step g' =>
      obtain ⟨rfl, hcurrent, -⟩ := hgo (.choose i) _ step g' hr hn nofun
      have hm' : crossroadsAgain.world.elements.get? ⟨3⟩ = some (.menu m) := hm
      rw [hm', Option.bind_some, Elemental.ofElement?] at hk
      exact ⟨g', rfl, hcurrent.trans (Option.some.inj hk)⟩
  exact ⟨hcase 0 _ (by decide +kernel) (by decide +kernel) (by decide +kernel),
    hcase 1 _ (by decide +kernel) (by decide +kernel) (by decide +kernel)⟩

end Storyline
