import Storyline.Proofs.Stage.Residue

/-!
# What is left of elements where a step fails

* `Effect.FailsWith P r`: a program that can only fail with errors and states that have a property;
* `Action.ventures?`: the element that an action changes before it grafts its chain in;
* `World.Attempted`: all elements stay as they were, or grafting has failed, after one commit of the
  element that ventured;
* `Build.attempted_choose`, `Perform.attempted_execute`: picks and actions that fail leave no more.
-/

namespace Storyline

open Effect

namespace Effect

variable {ε σ α β : Type} {P : ε → σ → Prop}

/-- A program that can only fail with errors and states with a property. -/
def FailsWith (P : ε → σ → Prop) : EStateM.Result ε σ α → Prop
  | .ok _ _ => True
  | .error e s => P e s

theorem FailsWith.error {r : EStateM.Result ε σ α} {e : ε} {s : σ} (h : FailsWith P r)
    (hr : r = .error e s) : P e s := by
  subst hr
  exact h

theorem FailsWith.mono {Q : ε → σ → Prop} {r : EStateM.Result ε σ α} (h : FailsWith P r)
    (hpq : ∀ e s, P e s → Q e s) : FailsWith Q r := by
  cases r with
  | ok a s => trivial
  | error e s => exact hpq e s h

theorem failsWith_bind {x : EStateM ε σ α} {f : α → EStateM ε σ β} {s : σ}
    (h₁ : FailsWith P (x s)) (h₂ : ∀ a s', x s = .ok a s' → FailsWith P (f a s')) :
    FailsWith P ((x >>= f) s) := by
  cases hx : x s with
  | error e s' =>
    rw [bind_of_error hx]
    exact h₁.error hx
  | ok a s' =>
    rw [bind_of_ok hx]
    exact h₂ a s' hx

end Effect

/-- The element that an action changes before it grafts its chain in, if there is one: a condition notes
the branch that it takes. -/
def Action.ventures? (a : Action) : Option ElementId :=
  match a.kind with
  | .condition => some a.callee
  | _ => none

/-- What is left of the elements where a step has failed that ventures to change one. -/
inductive World.Attempted (w : World) (ventures? : Option ElementId) (e : GameError) (w' : World) : Prop
  | spared (h : w'.elements = w.elements)
  | recorded {x : ElementId} {y y' : Element} {cleaners : List Cleaner} (hx : ventures? = some x)
      (he : ∃ ge, e = .graph ge) (hy : w.elements.get? x = some y) (hr : y.Recorded y' cleaners)
      (h : w'.elements = w.elements.put y')

namespace World.Attempted

variable {w w' : World} {e : GameError} {v? : Option ElementId} {x : ElementId}

theorem get?_other (h : w.Attempted v? e w') (hw : w.Sound) (hx : v? ≠ some x) :
    w'.elements.get? x = w.elements.get? x := by
  cases h with
  | spared h => rw [h]
  | recorded hv _ hy hr h =>
    rw [h, get?_replace hw hy hr.written, if_neg]
    rintro rfl
    exact hx hv

/-- The element that ventured is as it was, or has made one commit more. -/
theorem get?_self (h : w.Attempted v? e w') (hw : w.Sound) (hx : v? = some x) :
    w'.elements.get? x = w.elements.get? x ∨
      ∃ y y' cleaners, w.elements.get? x = some y ∧ w'.elements.get? x = some y' ∧
        y.Recorded y' cleaners := by
  cases h with
  | spared h => exact .inl (by rw [h])
  | @recorded z y y' cleaners hv _ hy hr h =>
    obtain rfl := Option.some_inj.1 (hx.symm.trans hv)
    refine .inr ⟨y, y', cleaners, hy, ?_, hr⟩
    rw [h, get?_replace hw hy hr.written, if_pos rfl]

theorem eq_of_lookup (h : w.Attempted v? e w') (he : ∀ ge, e ≠ .graph ge) :
    w'.elements = w.elements := by
  cases h with
  | spared h => exact h
  | recorded _ hge _ _ _ =>
    obtain ⟨ge, rfl⟩ := hge
    exact absurd rfl (he ge)

end World.Attempted

/-! ### Picks -/

namespace Build

variable {w w' w₀ : World} {e : GameError}

/-- Grafting fails with an error of the graph and leaves all elements. -/
theorem failsWith_splice (n : NodeId) (chain : Option Chain) (w : World) :
    FailsWith (fun e w' => (∃ ge, e = .graph ge) ∧ w'.elements = w.elements)
      (ofEdit (Graph.splice n chain) w) := by
  unfold ofEdit
  cases Graph.splice n chain w.graph with
  | ok u g => trivial
  | error e g => exact ⟨⟨e, rfl⟩, rfl⟩

theorem failsWith_find {α : Type} [Elemental α] {v? : Option ElementId} (x : ElementId) (w : World) :
    FailsWith (w.Attempted v?) (find α x w) := by
  have hleft := World.left_find (w := w) (α := α) x
  cases hf : find α x w with
  | ok m w' => trivial
  | error e w' =>
    rw [hf] at hleft
    exact .spared (by rw [← hleft]; rfl)

/-- **A pick that fails** has made one commit of its menu at most. -/
theorem attempted_choose {n : NodeId} {i : Nat} (hw : w.Sound)
    (h : choose n i w = .error e w') :
    w.Attempted ((w.action? n).map (·.callee)) e w' := by
  refine FailsWith.error (P := w.Attempted ((w.action? n).map (·.callee))) ?_ h
  unfold choose
  rw [bind_get_apply]
  cases hc : w.calleeOf n with
  | error e => exact .spared rfl
  | ok callee =>
    rw [bind_of_ok (ofExcept_eq_ok_iff.2 ⟨rfl, rfl⟩)]
    obtain ⟨a, ha, rfl⟩ := World.calleeOf_eq_ok_iff.1 hc
    refine failsWith_bind (failsWith_find a.callee w) fun m w₁ hm => ?_
    obtain ⟨hm, rfl⟩ := Build.find_eq_ok_iff.1 hm
    cases hp : m.pick? i with
    | none => exact (failsWith_splice n none w₁).mono fun e w' h => .spared h.2
    | some pick =>
      obtain ⟨chain, m'⟩ := pick
      have hr := Element.recorded_pick (hw.settled _ _ hm) hp
      have hsplice := failsWith_splice n chain (w₁.put m')
      exact hsplice.mono fun e w' ⟨hge, he⟩ => .recorded (by rw [ha]; rfl) hge hm hr he

end Build

/-! ### Actions -/

namespace Perform

variable {σ α β : Type} {screen : Screen σ} {a : Action} {s s' : Stage σ} {e : GameError}

/-- What a stage is left with where an action has failed on another. -/
def Attempted (a : Action) (s : Stage σ) (e : GameError) (s' : Stage σ) : Prop :=
  s.world.Attempted a.ventures? e s'.world

theorem failsWith_bind_find [Elemental α] [LawfulElemental α] {k : α → Perform σ β}
    (hk : ∀ x, s.world.elements.get? a.callee = some (Elemental.toElement x) →
      FailsWith (Attempted a s) (k x s)) :
    FailsWith (Attempted a s) ((build (Build.find α a.callee) >>= k) s) := by
  refine failsWith_bind ?_ fun x s' hx => ?_
  · have hleft := left_find (α := α) a.callee s
    cases hf : build (Build.find α a.callee) s with
    | ok x s' => trivial
    | error e s' =>
      rw [hf] at hleft
      exact .spared (by rw [← hleft]; rfl)
  · obtain ⟨hx, rfl⟩ := build_find_eq_ok_iff.1 hx
    exact hk x hx

theorem failsWith_graft {P : GameError → Stage σ → Prop} {chain : Option Chain} {o : Outcome}
    (h : ∀ ge s', s'.world.elements = s.world.elements → P (.graph ge) s') :
    FailsWith P ((do
      build (Build.ofEdit (Graph.splice a.node chain))
      return .immediate o : Perform σ Executed) s) := by
  refine failsWith_bind ?_ fun _ _ _ => trivial
  unfold build
  cases hs : Build.ofEdit (Graph.splice a.node chain) s.world with
  | ok u w => trivial
  | error e w =>
    obtain ⟨⟨ge, rfl⟩, he⟩ := (Build.failsWith_splice a.node chain s.world).error hs
    exact h ge _ he

theorem failsWith_image {change : Image → Image} {event : Option ImageEvent} :
    FailsWith (Attempted a s) (image screen a change event s) := by
  unfold image
  refine failsWith_bind_find fun i hi => ?_
  cases i.presented <;> cases event <;> trivial

/-- **An action that fails** has made one commit of its condition at most. -/
theorem attempted_executeAction (hw : s.world.Sound) (h : executeAction screen a s = .error e s') :
    s.world.Attempted a.ventures? e s'.world := by
  refine FailsWith.error (P := Attempted a s) ?_ h
  -- each kind looks for its element first, which alone can fail for most of them
  unfold executeAction
  cases hk : a.kind with
  | say line | setBackground src | stop => exact failsWith_bind_find fun _ _ => trivial
  | setSrc | setPosition | showImage | hideImage | applyTransform => exact failsWith_image
  | script | menu => exact failsWith_bind_find fun _ _ => trivial
  | hideLine line =>
    refine failsWith_bind_find fun c hc => ?_
    cases c.hide? line <;> trivial
  | sleep d =>
    simp only
    rw [discard_bind_apply]
    exact failsWith_bind_find fun _ _ => trivial
  | play =>
    refine failsWith_bind_find fun c hc => ?_
    simp only [bind_put_apply]
    split <;> trivial
  | scene chain =>
    refine failsWith_bind_find fun c hc => ?_
    exact failsWith_graft fun ge s' he => .spared he
  | story chain => exact failsWith_graft fun ge s' he => .spared he
  | condition =>
    refine failsWith_bind_find fun c hc => ?_
    simp only [bind_get_apply, bind_modify_apply, bind_put_apply]
    refine failsWith_graft fun ge s' he => ?_
    have hr := Element.recorded_condition (hw.settled _ _ hc) s.store
    exact .recorded (by unfold Action.ventures?; rw [hk]) ⟨ge, rfl⟩ hc hr he

/-- **A node that is executed in vain** has made one commit of its condition at most. -/
theorem attempted_execute {n : NodeId} (hw : s.world.Sound) (h : execute screen n s = .error e s') :
    s.world.Attempted ((s.world.action? n).bind (·.ventures?)) e s'.world := by
  cases ha : s.world.action? n with
  | none =>
    have hleft := left_execute screen n s
    rw [h, ha] at hleft
    exact .spared (by rw [show s' = s from hleft])
  | some a =>
    rw [execute_apply ha] at h
    exact attempted_executeAction (s := s.sent screen (.handle a)) hw h

end Perform

end Storyline
