import Storyline.Proofs.Stage.Execute
import Storyline.Proofs.Story.Roles

/-!
# Executing on any screen

* `Futures.Asks fs f receive`: a future waits for an answer, or has one, and makes an outcome of it;
* `World.graft? w store a choice`: the chain that an action grafts in, if it grafts anything in;
* `ActionKind.grafts`: whether an action may ever graft something in;
* `Action.Able a w store`: what an action needs to be executed: its element is of the right kind, and
  its chain can be grafted in;
* `Executes a s s' r`: what is done to the graph, and how the action ends;
* `Perform.executes_of_execute`, `Perform.execute_of_able`: on any screen an action that is executed was
  able to be, and one that is able to be is executed so.
-/

namespace Storyline

open Effect

/-! ### Futures that are asked for -/

namespace Futures

variable {fs fs' : Futures} {f g : FutureId} {receive : Resolution → Outcome} {o : Outcome}

/-- A future waits for an answer to make an outcome of, or has made one of an answer. -/
def Asks (fs : Futures) (f : FutureId) (receive : Resolution → Outcome) : Prop :=
  fs.get? f = some (.fresh receive) ∨
    ∃ r, fs.get? f = some { receiver := none, result := some (receive r) }

theorem asks_add (fs : Futures) (receive : Resolution → Outcome) :
    (fs.add receive).2.Asks (fs.add receive).1 receive := by
  left
  unfold get? add
  simp

theorem Asks.settle (h : fs.Asks f receive) (answer : FutureId × Resolution) :
    (fs.settle answer).Asks f receive := by
  unfold Futures.settle
  split
  · rename_i fs' hr
    obtain ⟨cell, receive', hcell, hreceiver, hself, hother⟩ := get?_resolve hr
    by_cases hf : f = answer.1
    · rcases h with h | ⟨r, h⟩
      · obtain rfl : Deferred.Cell.fresh receive = cell :=
          Option.some_inj.1 (h.symm.trans (hf ▸ hcell))
        obtain rfl : receive = receive' := Option.some_inj.1 hreceiver
        exact .inr ⟨answer.2, hf ▸ hself⟩
      · obtain rfl := Option.some_inj.1 (h.symm.trans (hf ▸ hcell))
        cases hreceiver
    · unfold Asks
      rw [hother f hf]
      exact h
  · exact h

theorem Asks.foldl_settle (h : fs.Asks f receive) (answers : List (FutureId × Resolution)) :
    (answers.foldl Futures.settle fs).Asks f receive := by
  induction answers generalizing fs with
  | nil => exact h
  | cons answer rest ih => exact ih (h.settle answer)

theorem Asks.result (h : fs.Asks f receive) (ho : fs.result? f = some o) : ∃ r, o = receive r := by
  unfold result? at ho
  rcases h with h | ⟨r, h⟩
  · rw [h] at ho
    cases ho
  · rw [h] at ho
    exact ⟨r, (Option.some_inj.1 ho).symm⟩

/-- As long as nothing has come of it, a future can be answered. -/
theorem Asks.answer (h : fs.Asks f receive) (hn : fs.result? f = none) (r : Resolution) :
    (fs.settle (f, r)).result? f = some (receive r) := by
  have hfresh : fs.get? f = some (.fresh receive) := by
    rcases h with h | ⟨r, h⟩
    · exact h
    · unfold result? at hn
      rw [h] at hn
      cases hn
  cases hr : fs.resolve f r with
  | error e =>
    unfold resolve at hr
    rw [hfresh] at hr
    cases hr
  | ok fs' =>
    obtain ⟨cell, receive', hcell, hreceiver, hself, -⟩ := get?_resolve hr
    obtain rfl : Deferred.Cell.fresh receive = cell := Option.some_inj.1 (hfresh.symm.trans hcell)
    obtain rfl : receive = receive' := Option.some_inj.1 hreceiver
    unfold Futures.settle result?
    simp only [hr, hself]
    rfl

end Futures

/-! ### What is grafted in -/

/-- What the future of an action makes of an answer: only a menu listens to it. -/
def Action.receive (a : Action) : Resolution → Outcome :=
  match a.kind with
  | .menu => a.outcome.answered
  | _ => fun _ => a.outcome

/-- The chain that an action grafts in behind its node, if it grafts anything in. A menu waits for a
choice first. -/
def World.graft? (w : World) (store : Store) (a : Action) (choice : Option Nat) :
    Option (Option Chain) :=
  match a.kind, w.shape? a.callee with
  | .scene chain, _ | .story chain, _ => some chain
  | .condition, some (.condition tests chains fallback) =>
    some ((chains ++ fallback.toList)[(firstHolding tests store).1]?).join
  | .menu, some (.menu chains) => choice.map fun i => (chains[i]?).join
  | _, _ => none

/-- `g'` is `g` with a chain grafted in behind a node, if there is one to be grafted in. -/
def Graph.Gets {γ : Type} (node : NodeId) (graft? : Option (Option Chain)) (g g' : Graph γ) : Prop :=
  match graft? with
  | none => g' = g
  | some chain => Graph.splice node chain g = .ok () g'

namespace Action

variable {a : Action} {w w' : World} {store : Store} {fs : Futures} {choice : Option Nat}

/-- The element of an action is there and of the right kind. -/
def Serves (a : Action) (w : World) : Prop :=
  match a.kind with
  | .story _ => True
  | .condition => ∃ tests chains fallback,
      w.shape? a.callee = some (.condition tests chains fallback)
  | .script => ∃ handler, w.shape? a.callee = some (.script handler)
  | .menu => ∃ chains, w.shape? a.callee = some (.menu chains)
  | .scene _ => w.shape? a.callee = some (.plain .scene)
  | kind => ∃ k, kind.writer? = some k ∧ w.shape? a.callee = some (.plain k)

/-- What an action needs to be executed. -/
structure Able (a : Action) (w : World) (store : Store) : Prop where
  serves : a.Serves w
  grafts : ∀ chain, w.graft? store a none = some chain →
    ∃ g, Graph.splice a.node chain w.graph = .ok () g

/-- How an action ends that is executed: only a menu always waits. -/
def Closes (a : Action) (fs : Futures) : Executed → Prop
  | .immediate o => o = a.outcome ∧ a.kind ≠ .menu
  | .suspended f => fs.Asks f a.receive

theorem receive_of_ne (h : a.kind ≠ .menu) : a.receive = fun _ => a.outcome := by
  unfold receive
  split
  · exact absurd ‹_› h
  · rfl

theorem receive_of_menu (h : a.kind = .menu) : a.receive = a.outcome.answered := by
  unfold receive
  rw [h]

theorem receive_congr {r r' : Resolution} (h : (a.receive r).choice = (a.receive r').choice) :
    a.receive r = a.receive r' := by
  by_cases hm : a.kind = .menu
  · rw [receive_of_menu hm] at h ⊢
    cases r with
    | proceed => cases r' with
      | proceed => rfl
      | choose i => cases h
    | choose i => cases r' with
      | proceed => cases h
      | choose j =>
        obtain rfl := Option.some.inj h
        rfl
  · rw [receive_of_ne hm]

theorem choice_of_ne (h : a.kind ≠ .menu) (r : Resolution) : (a.receive r).choice = none := by
  rw [receive_of_ne h]
  rfl

theorem receive_node (a : Action) (r : Resolution) : (a.receive r).node = a.node := by
  unfold receive
  cases a.kind with
  | menu => cases r <;> rfl
  | _ => rfl

end Action

/-- What executing an action does to the graph, and how it ends. Who grafts in does not wait. -/
structure Executes {σ : Type} (a : Action) (s s' : Stage σ) (r : Executed) : Prop where
  graph : s.world.graph.Gets a.node (s.world.graft? s.store a none) s'.world.graph
  closes : a.Closes s'.futures r
  waits : ∀ f, r = .suspended f → s.world.graft? s.store a none = none

/-! ### Who grafts in -/

/-- Whether an action may ever graft a chain in. -/
def ActionKind.grafts : ActionKind → Bool
  | scene _ | story _ | condition | menu => true
  | _ => false

section Grafts

variable {a : Action} {w w' : World} {store : Store} {choice : Option Nat}

theorem World.graft?_of_not_grafts (h : a.kind.grafts = false) (w : World) (store : Store)
    (choice : Option Nat) : w.graft? store a choice = none := by
  unfold World.graft?
  split <;> simp_all [ActionKind.grafts]

theorem World.graft?_menu (h : a.kind = .menu) (w : World) (store : Store) :
    w.graft? store a none = none := by
  unfold World.graft?
  rw [h]
  split <;> simp_all

/-- An action that has grafted nothing in never does, unless it is that of a menu without a pick. -/
theorem Action.Serves.grafts (hs : a.Serves w) (h : w.graft? store a choice = none) :
    a.kind.grafts = false ∨ a.kind = .menu ∧ choice = none := by
  unfold Action.Serves at hs
  unfold World.graft? at h
  cases hk : a.kind with
  | scene | story => simp [hk] at h
  | condition =>
    rw [hk] at hs
    obtain ⟨tests, chains, fallback, hs⟩ := hs
    simp [hk, hs] at h
  | menu =>
    rw [hk] at hs
    obtain ⟨chains, hs⟩ := hs
    rw [hk, hs] at h
    exact .inr ⟨rfl, Option.map_eq_none_iff.1 h⟩
  | _ => exact .inl rfl

theorem Action.Serves.keeps (hs : a.Serves w) (hk : w.Keeps w') : a.Serves w' := by
  unfold Action.Serves at hs ⊢
  rw [hk.shape?]
  exact hs

end Grafts

/-! ### Executing an action -/

namespace Perform

variable {σ : Type} {screen : Screen σ} {s s' : Stage σ} {a : Action} {r : Executed} {k : Kind}

theorem graft?_of_writer (hk : a.kind.writer? = some k) (w : World) (store : Store)
    (choice : Option Nat) : w.graft? store a choice = none := by
  refine World.graft?_of_not_grafts ?_ w store choice
  unfold ActionKind.grafts
  split <;> simp_all [ActionKind.writer?]

theorem able_of_writer (hk : a.kind.writer? = some k) {w : World} {store : Store}
    (hs : w.shape? a.callee = some (.plain k)) : a.Able w store := by
  refine ⟨?_, fun chain hc => ?_⟩
  · unfold Action.Serves
    split <;> first | exact ⟨k, hk, hs⟩ | simp_all [ActionKind.writer?]
  · rw [graft?_of_writer hk] at hc
    cases hc

theorem shape_of_serves (hk : a.kind.writer? = some k) {w : World} (hs : a.Serves w) :
    w.shape? a.callee = some (.plain k) := by
  unfold Action.Serves at hs
  split at hs
  case h_6 =>
    obtain ⟨k', hk', hs⟩ := hs
    rw [hs, Option.some.inj (hk'.symm.trans hk)]
  all_goals simp_all [ActionKind.writer?]

theorem graft?_of_condition {w : World} {c : Condition} (hk : a.kind = .condition)
    (hc : w.elements.get? a.callee = some (.condition c)) (store : Store) :
    w.graft? store a none = some (c.run store).1 := by
  unfold World.graft?
  rw [hk, World.shape?_of_get? hc, (c.run_eq store).1]
  rfl

theorem ne_menu_of_writer (hk : a.kind.writer? = some k) : a.kind ≠ .menu := by
  intro hm
  rw [hm] at hk
  cases hk

theorem find_of_writer (α : Type) [Elemental α] [LawfulElemental α]
    (hk : a.kind.writer? = some (Elemental.kind α)) (hs : a.Serves s.world) :
    ∃ x : α, build (Build.find α a.callee) s = .ok x s := by
  obtain ⟨x, hx, -⟩ := World.get?_of_shape α (shape_of_serves hk hs) rfl
  exact ⟨x, build_find_eq_ok_iff.2 ⟨hx, rfl⟩⟩

theorem closes_suspend (hm : a.kind ≠ .menu) (fs : Futures) (cue : Cue) (s : Stage σ) :
    a.Closes (Stage.sent screen cue { s with futures := (fs.add fun _ => a.outcome).2 }).futures
      (.suspended (fs.add fun _ => a.outcome).1) := by
  have h := (Futures.asks_add fs fun _ => a.outcome).foldl_settle
    (screen.receive cue s.screen).2
  rw [← Action.receive_of_ne hm] at h ⊢
  exact h

/-! #### Statements -/

/-- How a statement is executed: nothing is done to the graph. -/
def ExecutesStatement (a : Action) (s : Stage σ) (p : Perform σ Executed) : Prop :=
  ∃ r s', p s = .ok r s' ∧ s'.world.graph = s.world.graph ∧ a.Closes s'.futures r

theorem executes_actOn (screen : Screen σ) (hm : a.kind ≠ .menu) (event : Option ImageEvent)
    (name : String) (i : Image) (s : Stage σ) :
    ExecutesStatement a s (actOn screen a event name i) := by
  unfold ExecutesStatement actOn
  rw [bind_put_apply]
  cases event with
  | none => exact ⟨_, _, rfl, rfl, rfl, hm⟩
  | some event => exact ⟨_, _, rfl, rfl, closes_suspend hm _ _ _⟩

theorem executes_image (screen : Screen σ) (change : Image → Image) (event : Option ImageEvent)
    (hk : a.kind.writer? = some .image) (hs : a.Serves s.world) :
    ExecutesStatement a s (image screen a change event) := by
  obtain ⟨i, hi⟩ := find_of_writer Image hk hs
  unfold ExecutesStatement image
  rw [bind_of_ok hi]
  cases hp : i.presented with
  | some name => exact executes_actOn screen (ne_menu_of_writer hk) event name (change i) s
  | none =>
    simp only [bind_get_apply, bind_modify_apply, bind_put_apply, bind_send_apply]
    exact executes_actOn screen (ne_menu_of_writer hk) event _ (change _) _

/-- **A statement** is executed if its element is there. -/
theorem executes_statement (screen : Screen σ) (hk : a.kind.writer? = some k)
    (hs : a.Serves s.world) : ExecutesStatement a s (executeAction screen a) := by
  have hm := ne_menu_of_writer hk
  unfold ExecutesStatement executeAction
  cases ha : a.kind with
  | say line =>
    obtain ⟨c, hc⟩ := find_of_writer Character (by rw [ha]; rfl) hs
    simp only
    rw [bind_of_ok hc]
    simp only [bind_put_apply, bind_suspend_apply, bind_send_apply]
    refine ⟨_, _, rfl, rfl, ?_⟩
    split
    · exact closes_suspend hm _ _ _
    · exact ⟨rfl, hm⟩
  | hideLine line =>
    obtain ⟨c, hc⟩ := find_of_writer Character (by rw [ha]; rfl) hs
    simp only
    rw [bind_of_ok hc]
    cases c.hide? line <;> exact ⟨_, _, rfl, rfl, rfl, hm⟩
  | setBackground src =>
    obtain ⟨c, hc⟩ := find_of_writer Scene (by rw [ha]; rfl) hs
    simp only
    rw [bind_of_ok hc]
    exact ⟨_, _, rfl, rfl, closes_suspend hm _ _ _⟩
  | sleep d =>
    obtain ⟨c, hc⟩ := find_of_writer Scene (by rw [ha]; rfl) hs
    simp only
    rw [bind_of_ok (discard_apply_of_ok hc)]
    exact ⟨_, _, rfl, rfl, closes_suspend hm _ _ _⟩
  | play =>
    obtain ⟨c, hc⟩ := find_of_writer Sound (by rw [ha]; rfl) hs
    simp only
    rw [bind_of_ok hc]
    simp only [bind_put_apply]
    split
    · exact ⟨_, _, rfl, rfl, closes_suspend hm _ _ _⟩
    · exact ⟨_, _, rfl, rfl, rfl, hm⟩
  | stop =>
    obtain ⟨c, hc⟩ := find_of_writer Sound (by rw [ha]; rfl) hs
    simp only
    rw [bind_of_ok hc]
    exact ⟨_, _, rfl, rfl, rfl, hm⟩
  | setSrc | setPosition | showImage | hideImage | applyTransform =>
    exact executes_image screen _ _ (by rw [ha]; rfl) hs
  | scene | story | condition | script | menu =>
    rw [ha] at hk
    cases hk

theorem ExecutesStatement.executes (hk : a.kind.writer? = some k)
    (h : ExecutesStatement a s (executeAction screen a)) :
    ∃ r s', executeAction screen a s = .ok r s' ∧ Executes a s s' r := by
  obtain ⟨r, s', hr, hgraph, hcloses⟩ := h
  refine ⟨r, s', hr, ?_, hcloses, fun _ _ => graft?_of_writer hk _ _ _⟩
  rw [graft?_of_writer hk]
  exact hgraph

/-! #### All actions -/

theorem executes_of_splice {chain : Option Chain} {g : Graph Action} (hm : a.kind ≠ .menu)
    (hg : s.world.graft? s.store a none = some chain)
    (hsplice : Graph.splice a.node chain s.world.graph = .ok () g) (hgraph : s'.world.graph = g) :
    Executes a s s' (.immediate a.outcome) := by
  refine ⟨?_, ⟨rfl, hm⟩, nofun⟩
  rw [hg, hgraph]
  exact hsplice

theorem executes_scene {chain : Option Chain} (screen : Screen σ) (hk : a.kind = .scene chain)
    (h : a.Able s.world s.store) :
    ∃ r s', executeAction screen a s = .ok r s' ∧ Executes a s s' r := by
  obtain ⟨hs, hgraft⟩ := h
  have hg : s.world.graft? s.store a none = some chain := by simp [World.graft?, hk]
  obtain ⟨g, hsplice⟩ := hgraft chain hg
  unfold Action.Serves at hs
  rw [hk] at hs
  obtain ⟨c, hc, -⟩ := World.get?_of_shape Scene hs rfl
  unfold executeAction
  rw [hk]
  simp only
  rw [bind_of_ok (build_find_eq_ok_iff.2 ⟨hc, rfl⟩), bind_send_apply]
  have hedit := build_eq_ok_iff (s := s.sent screen (.scene c)).2
    ⟨_, Build.ofEdit_eq_ok_iff.2 ⟨g, hsplice, rfl⟩, rfl⟩
  rw [bind_of_ok hedit]
  exact ⟨_, _, rfl, executes_of_splice (by simp [hk]) hg hsplice rfl⟩

theorem executes_story {chain : Option Chain} (screen : Screen σ) (hk : a.kind = .story chain)
    (h : a.Able s.world s.store) :
    ∃ r s', executeAction screen a s = .ok r s' ∧ Executes a s s' r := by
  have hg : s.world.graft? s.store a none = some chain := by simp [World.graft?, hk]
  obtain ⟨g, hsplice⟩ := h.2 chain hg
  unfold executeAction
  rw [hk]
  simp only
  have hedit := build_eq_ok_iff (s := s).2 ⟨_, Build.ofEdit_eq_ok_iff.2 ⟨g, hsplice, rfl⟩, rfl⟩
  rw [bind_of_ok hedit]
  exact ⟨_, _, rfl, executes_of_splice (by simp [hk]) hg hsplice rfl⟩

theorem executes_condition (screen : Screen σ) (hk : a.kind = .condition)
    (h : a.Able s.world s.store) :
    ∃ r s', executeAction screen a s = .ok r s' ∧ Executes a s s' r := by
  obtain ⟨hs, hgraft⟩ := h
  unfold Action.Serves at hs
  rw [hk] at hs
  obtain ⟨tests, chains, fallback, hs⟩ := hs
  obtain ⟨c, hc, -⟩ := World.get?_of_shape Condition hs rfl
  have hg := graft?_of_condition hk hc s.store
  obtain ⟨g, hsplice⟩ := hgraft _ hg
  unfold executeAction
  rw [hk]
  simp only
  rw [bind_of_ok (build_find_eq_ok_iff.2 ⟨hc, rfl⟩)]
  simp only [bind_get_apply, bind_modify_apply, bind_put_apply]
  have hedit := build_eq_ok_iff (s := { s with
    store := (c.run s.store).2.2, world := s.world.put (c.run s.store).2.1 }).2
      ⟨_, Build.ofEdit_eq_ok_iff.2 ⟨g, hsplice, rfl⟩, rfl⟩
  rw [bind_of_ok hedit]
  exact ⟨_, _, rfl, executes_of_splice (by simp [hk]) hg hsplice rfl⟩

theorem executes_script (screen : Screen σ) (hk : a.kind = .script) (h : a.Able s.world s.store) :
    ∃ r s', executeAction screen a s = .ok r s' ∧ Executes a s s' r := by
  have hs := h.1
  unfold Action.Serves at hs
  rw [hk] at hs
  obtain ⟨handler, hs⟩ := hs
  obtain ⟨c, hc, -⟩ := World.get?_of_shape Script hs rfl
  have hg := World.graft?_of_not_grafts (a := a) (by rw [hk]; rfl) s.world s.store none
  unfold executeAction
  rw [hk]
  simp only
  rw [bind_of_ok (build_find_eq_ok_iff.2 ⟨hc, rfl⟩)]
  simp only [bind_get_apply, bind_modify_apply, bind_put_apply]
  refine ⟨_, _, rfl, ⟨?_, ⟨rfl, by simp [hk]⟩, nofun⟩⟩
  rw [hg]
  rfl

/-- A menu grafts nothing in before the pick, which its future ends in. -/
theorem executes_menu (screen : Screen σ) (hk : a.kind = .menu) (h : a.Able s.world s.store) :
    ∃ r s', executeAction screen a s = .ok r s' ∧ Executes a s s' r := by
  have hs := h.1
  unfold Action.Serves at hs
  rw [hk] at hs
  obtain ⟨chains, hs⟩ := hs
  obtain ⟨m, hm, -⟩ := World.get?_of_shape Menu hs rfl
  have hg := World.graft?_menu hk s.world s.store
  have hreceive := Action.receive_of_menu hk
  unfold executeAction
  rw [hk]
  simp only
  rw [bind_of_ok (build_find_eq_ok_iff.2 ⟨hm, rfl⟩)]
  refine ⟨_, _, rfl, ⟨?_, ?_, fun _ _ => hg⟩⟩
  · rw [hg]
    rfl
  · have hasks := (Futures.asks_add s.futures a.outcome.answered).foldl_settle
      (screen.receive (.menu a.node m.prompt m.prompts (s.futures.add a.outcome.answered).1)
        s.screen).2
    rw [← hreceive] at hasks
    exact hreceive ▸ hasks

/-- **What is able to be executed** is, on any screen. -/
theorem executeAction_of_able (screen : Screen σ) (h : a.Able s.world s.store) :
    ∃ r s', executeAction screen a s = .ok r s' ∧ Executes a s s' r := by
  cases hk : a.kind with
  | say | hideLine | setBackground | sleep | play | stop | setSrc | setPosition | showImage |
      hideImage | applyTransform =>
    have hw : ∃ k, a.kind.writer? = some k := by rw [hk]; exact ⟨_, rfl⟩
    obtain ⟨k, hw⟩ := hw
    exact (executes_statement screen hw h.1).executes hw
  | scene chain => exact executes_scene screen hk h
  | story chain => exact executes_story screen hk h
  | condition => exact executes_condition screen hk h
  | script => exact executes_script screen hk h
  | menu => exact executes_menu screen hk h

/-- A statement that is executed has an element of the right kind. -/
theorem able_of_find {α β : Type} [Elemental α] [PlainElemental α] {k : α → Perform σ β} {x : β}
    (hw : a.kind.writer? = some (Elemental.kind α))
    (h : (build (Build.find α a.callee) >>= k) s = .ok x s') : a.Able s.world s.store := by
  obtain ⟨c, hc, -⟩ := bind_find_eq_ok h
  refine able_of_writer hw ?_
  rw [World.shape?_of_get? hc, PlainElemental.shape_eq]

theorem splice_of_edit {β : Type} {n : NodeId} {chain : Option Chain} {k : Unit → Perform σ β} {x : β}
    (h : (build (Build.ofEdit (Graph.splice n chain)) >>= k) s = .ok x s') :
    ∃ g, Graph.splice n chain s.world.graph = .ok () g := by
  obtain ⟨_, s₁, hsplice, -⟩ := bind_apply_eq_ok.1 h
  obtain ⟨w, hedit, -⟩ := build_eq_ok_iff.1 hsplice
  obtain ⟨g, hg, -⟩ := Build.ofEdit_eq_ok_iff.1 hedit
  exact ⟨g, hg⟩

theorem able_of_splice {chain : Option Chain} {w : World} {store : Store} (hs : a.Serves w)
    (hg : w.graft? store a none = some chain)
    (hsplice : ∃ g, Graph.splice a.node chain w.graph = .ok () g) : a.Able w store := by
  refine ⟨hs, fun chain' hc' => ?_⟩
  obtain rfl := Option.some_inj.1 (hg.symm.trans hc')
  exact hsplice

theorem able_of_no_graft {w : World} {store : Store} (hs : a.Serves w)
    (hg : w.graft? store a none = none) : a.Able w store :=
  ⟨hs, fun _ hc => by cases hg.symm.trans hc⟩

/-- **What is executed was able to be.** -/
theorem able_of_executeAction (h : executeAction screen a s = .ok r s') :
    a.Able s.world s.store := by
  unfold executeAction at h
  cases hk : a.kind with
  | say line | hideLine line | setBackground src | play | stop =>
    simp only [hk] at h
    exact able_of_find (by rw [hk]; rfl) h
  | sleep d =>
    simp only [hk] at h
    obtain ⟨_, s₁, hfind, -⟩ := bind_apply_eq_ok.1 h
    obtain ⟨c, hc⟩ := discard_apply_eq_ok.1 hfind
    exact able_of_writer (by rw [hk]; rfl) (World.shape?_of_get? (build_find_eq_ok_iff.1 hc).1)
  | setSrc | setPosition | showImage | hideImage | applyTransform =>
    simp only [hk] at h
    exact able_of_find (by rw [hk]; rfl) h
  | scene chain =>
    simp only [hk] at h
    obtain ⟨c, hc, h₁⟩ := bind_find_eq_ok h
    rw [bind_send_apply] at h₁
    have hg : s.world.graft? s.store a none = some chain := by simp [World.graft?, hk]
    obtain ⟨g, hsplice⟩ := splice_of_edit h₁
    refine able_of_splice ?_ hg ⟨g, hsplice⟩
    unfold Action.Serves
    rw [hk]
    exact World.shape?_of_get? hc
  | story chain =>
    simp only [hk] at h
    have hg : s.world.graft? s.store a none = some chain := by simp [World.graft?, hk]
    refine able_of_splice ?_ hg (splice_of_edit h)
    unfold Action.Serves
    rw [hk]
    trivial
  | condition =>
    simp only [hk] at h
    obtain ⟨c, hc, h₁⟩ := bind_find_eq_ok h
    simp only [bind_get_apply, bind_modify_apply, bind_put_apply] at h₁
    obtain ⟨g, hsplice⟩ := splice_of_edit h₁
    refine able_of_splice ?_ (graft?_of_condition hk hc _) ⟨g, hsplice⟩
    unfold Action.Serves
    rw [hk]
    exact ⟨_, _, _, World.shape?_of_get? hc⟩
  | script =>
    simp only [hk] at h
    obtain ⟨c, hc, -⟩ := bind_find_eq_ok h
    refine able_of_no_graft ?_ (World.graft?_of_not_grafts (by rw [hk]; rfl) _ _ _)
    unfold Action.Serves
    rw [hk]
    exact ⟨_, World.shape?_of_get? hc⟩
  | menu =>
    simp only [hk] at h
    obtain ⟨m, hm, -⟩ := bind_find_eq_ok h
    refine able_of_no_graft ?_ (World.graft?_menu hk _ _)
    unfold Action.Serves
    rw [hk]
    exact ⟨_, World.shape?_of_get? hm⟩

/-! ### Executing a node -/

/-- The screen is told of an action first, which changes nothing that the action needs. -/
theorem execute_apply {node : NodeId} (ha : s.world.action? node = some a) :
    execute screen node s = executeAction screen a (s.sent screen (.handle a)) := by
  unfold execute
  rw [bind_get_apply, ha]
  rfl

/-- **A node whose action is able to be executed** is, on any screen. -/
theorem execute_of_able (screen : Screen σ) {node : NodeId} (ha : s.world.action? node = some a)
    (h : a.Able s.world s.store) :
    ∃ r s', execute screen node s = .ok r s' ∧ Executes a s s' r := by
  obtain ⟨r, s', hr, he⟩ :=
    executeAction_of_able (s := s.sent screen (.handle a)) screen h
  exact ⟨r, s', (execute_apply ha).trans hr, he.graph, he.closes, he.waits⟩

/-- **A node that is executed** holds an action that was able to be. -/
theorem executes_of_execute {node : NodeId} (h : execute screen node s = .ok r s') :
    ∃ a, s.world.action? node = some a ∧ a.Able s.world s.store ∧ Executes a s s' r := by
  cases ha : s.world.action? node with
  | none =>
    unfold execute at h
    rw [bind_get_apply, ha] at h
    cases h
  | some a =>
    have hable : a.Able s.world s.store :=
      able_of_executeAction (s := s.sent screen (.handle a)) ((execute_apply ha).symm.trans h)
    obtain ⟨r', s₁, hr, he⟩ := execute_of_able screen ha hable
    obtain ⟨rfl, rfl⟩ := EStateM.Result.ok.inj (hr.symm.trans h)
    exact ⟨a, rfl, hable, he⟩

end Perform

end Storyline
