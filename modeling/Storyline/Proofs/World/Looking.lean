import Storyline.Proofs.Stage.Execute
import Storyline.Proofs.Story.Written
import Storyline.World.Author

/-!
# Predicates that look at the store and do nothing

* `Predicate.Looks`: a predicate leaves the store as it is, and no cleaner behind; flags do so;
* `World.Looking w`: all predicates of conditions are such, and `Keeps.looking`: they stay such;
* `Action.host_of_looking`: **only scripts do something to the store** then;
* `Effect.Upholds P x`: a program keeps a property of its state, whether it fails or not;
* `Author.looking_append` and so on: **writing keeps this**, if what is written looks only.
-/

namespace Storyline

open Effect

/-! ### Programs that keep a property -/

namespace Effect

variable {ε σ α β : Type} {P : σ → Prop}

/-- A program keeps a property of its state, whether it fails or not. -/
def Upholds (P : σ → Prop) (x : EStateM ε σ α) : Prop := ∀ s, P s → P (left (x s))

namespace Upholds

theorem pure (a : α) : Upholds P (Pure.pure a : EStateM ε σ α) := fun _ h => h

theorem throw (e : ε) : Upholds P (throw e : EStateM ε σ α) := fun _ h => h

theorem bind {x : EStateM ε σ α} {f : α → EStateM ε σ β} (hx : Upholds P x)
    (hf : ∀ a, Upholds P (f a)) : Upholds P (x >>= f) := by
  intro s hs
  refine left_bind (hx s hs) fun a s' hs' => hf a s' ?_
  have hleft := hx s hs
  rwa [hs'] at hleft

theorem discard {x : EStateM ε σ α} (hx : Upholds P x) :
    Upholds P (discard x : EStateM ε σ PUnit) := by
  intro s hs
  rw [left_discard]
  exact hx s hs

end Upholds

end Effect

/-! ### Predicates -/

/-- A predicate that looks at the store, and does nothing. -/
def Predicate.Looks (p : Predicate) : Prop :=
  ∀ s, (p.judge s).store = s ∧ (p.judge s).cleaner = none

theorem Predicate.looks_flag (space key : String) : (flag space key).Looks := fun _ => ⟨rfl, rfl⟩

/-- All predicates of a shape look only. -/
def Shape.Looks : Shape → Prop
  | condition tests .. => ∀ p ∈ tests, p.Looks
  | _ => True

/-- All predicates of conditions look only. -/
def World.Looking (w : World) : Prop := ∀ e s, w.shape? e = some s → s.Looks

theorem World.Keeps.looking {w w' : World} (h : w.Keeps w') (hw : w.Looking) : w'.Looking :=
  fun e s hs => hw e s ((h.shape? e).symm.trans hs)

theorem World.Keeps.looking_back {w w' : World} (h : w.Keeps w') (hw : w'.Looking) : w.Looking :=
  fun e s hs => hw e s ((h.shape? e).trans hs)

/-- A condition whose predicates look only changes nothing in the store, and leaves no cleaner. -/
theorem Condition.evaluate_of_looks {c : Condition} (h : ∀ b ∈ c.branches, b.predicate.Looks)
    (s : Store) : (c.evaluate s).2 = s ∧ (c.evaluate s).1.bind (·.cleaner) = none := by
  have htrue : ∀ (bs : List Branch) (i : Nat), (∀ b ∈ bs, b.predicate.Looks) →
      (firstTrue i bs s).2 = s ∧ (firstTrue i bs s).1.bind (·.cleaner) = none := by
    intro bs
    induction bs with
    | nil => exact fun _ _ => ⟨rfl, rfl⟩
    | cons b bs ih =>
      intro i hbs
      obtain ⟨hstore, hcleaner⟩ := hbs b List.mem_cons_self s
      have hrest := ih (i + 1) fun b hb => hbs b (List.mem_cons_of_mem _ hb)
      unfold firstTrue Predicate.evaluate
      simp only [hstore, hcleaner]
      cases (Predicate.settled (b.predicate.judge s).answers).getD false with
      | true => exact ⟨rfl, rfl⟩
      | false => exact hrest
  obtain ⟨hstore, hcleaner⟩ := htrue c.branches 0 h
  unfold evaluate
  rcases hf : firstTrue 0 c.branches s with ⟨_ | chosen, s'⟩
  · rw [hf] at hstore
    refine ⟨hstore, ?_⟩
    cases c.fallback <;> rfl
  · rw [hf] at hstore hcleaner
    exact ⟨hstore, hcleaner⟩

/-- **Only scripts do something to the store**, and leave cleaners behind. -/
theorem Action.host_of_looking {a : Action} {w : World} (hw : w.Looking) (hk : a.kind ≠ .script)
    (store : Store) : a.host w store = (store, none) := by
  unfold Action.host
  split
  · rename_i h _
    exact absurd h hk
  · rename_i c _ hc
    have hlooks : ∀ b ∈ c.branches, b.predicate.Looks := fun b hb =>
      hw _ _ (World.shape?_of_get? hc) _ (List.mem_map_of_mem hb)
    obtain ⟨hstore, hcleaner⟩ := Condition.evaluate_of_looks hlooks store
    rw [hstore, hcleaner]
  · rfl

/-! ### Writing -/

section Writing

variable {α β : Type} [Elemental α] {w : World} {e : ElementId}

theorem World.looking_new : World.new.Looking := fun e s hs => by
  have hnone : World.new.shape? e = none := by
    unfold World.shape?
    rw [show World.new.elements.get? e = none from Std.ExtTreeMap.getElem?_empty]
    rfl
  cases hnone.symm.trans hs

theorem World.Looking.put {x : α} (hw : w.Looking) (hx : (Elemental.toElement x).shape.Looks) :
    (w.put x).Looking := by
  intro e s hs
  rw [World.shape?_put] at hs
  split at hs
  · obtain rfl := Option.some.inj hs
    exact hx
  · exact hw e s hs

namespace Build

theorem looking_put {x : α} (hx : (Elemental.toElement x).shape.Looks) :
    Upholds World.Looking (put x) := fun _ hw => hw.put hx

theorem looking_add {x : α} (hx : (Elemental.toElement x).shape.Looks) :
    Upholds World.Looking (add x) := fun _ hw => hw.put hx

theorem looking_elementId : Upholds World.Looking elementId := fun _ hw => hw

theorem looking_ofExcept (x : Except GameError β) : Upholds World.Looking (ofExcept x) := by
  cases x with
  | ok a => exact .pure a
  | error e => exact .throw e

theorem looking_ofEdit (edit : Graph.Edit Action β) : Upholds World.Looking (ofEdit edit) := by
  intro w hw
  unfold ofEdit
  cases edit w.graph <;> exact hw

theorem looking_find : Upholds World.Looking (find α e) :=
  .bind (fun _ hw => hw) fun _ => looking_ofExcept _

theorem looking_newAction (kind : ActionKind) : Upholds World.Looking (newAction e kind) :=
  .bind (fun _ hw => hw) fun _ =>
    .bind (fun _ hw => hw) fun _ => .bind (looking_ofEdit _) fun _ => .pure _

theorem looking_new (make : ElementId → α) (hm : ∀ e, (Elemental.toElement (make e)).shape.Looks) :
    Upholds World.Looking (do add (make (← elementId))) :=
  .bind looking_elementId fun e => looking_add (hm e)

theorem looking_image (name : String) (config : ImageConfig) :
    Upholds World.Looking (image name config) :=
  .bind looking_elementId fun _ => .bind (looking_ofExcept _) fun _ => looking_add trivial

theorem looking_detached (lists : List (List NodeId)) : Upholds World.Looking (detached lists) :=
  .bind (looking_ofEdit _) fun _ => .pure _

theorem looking_author {h : Handle α} {chain : Author α → EStateM.Result GameError World β}
    (hc : ∀ a : Author α, a.world.Looking → (left (chain a)).Looking) :
    Upholds World.Looking (author h chain) := fun _ hw => hc _ hw

end Build

namespace Author

variable {a : Author α}

omit [Elemental α]

theorem looking_apply {change : ElementId → Build Unit} (ha : a.world.Looking)
    (hc : ∀ e, Upholds World.Looking (change e)) : (a.apply change).world.Looking := by
  unfold apply
  cases a.error with
  | some e => exact ha
  | none =>
    have hleft := hc a.element a.world ha
    cases h : change a.element a.world with
    | ok u w =>
      rw [h] at hleft
      exact hleft
    | error e w =>
      rw [h] at hleft
      exact hleft

theorem looking_finish {change : ElementId → Build β} (ha : a.world.Looking)
    (hc : ∀ e, Upholds World.Looking (change e)) : (left (a.finish change)).Looking := by
  unfold finish
  cases a.error with
  | some e => exact ha
  | none => exact hc a.element a.world ha

end Author

end Writing

namespace Author

variable {α : Type}

section Gathering

variable [Gathering α] {a : Author α} (hα : ∀ x : α, (Elemental.toElement x).shape.Looks)

include hα

theorem looking_append (kind : ActionKind) (ha : a.world.Looking) :
    (a.append kind).world.Looking := by
  have happend : ∀ e : ElementId, Upholds World.Looking (do
      let node ← Build.newAction e kind
      let x ← Build.find α e
      Build.put (Gathering.withPending x (node :: Gathering.pending x))) := fun e =>
    .bind (Build.looking_newAction kind) fun _ =>
      .bind Build.looking_find fun _ => Build.looking_put (hα _)
  refine looking_apply ha fun e => ?_
  cases Gathering.problem? α kind with
  | some problem => exact .bind (.throw _) fun _ => happend e
  | none => exact happend e

theorem looking_takeActions (ha : a.world.Looking) : (left a.takeActions).Looking :=
  looking_finish ha fun _ => .bind Build.looking_find fun _ => .bind (Build.looking_put (hα _))
    fun _ => .pure _

end Gathering

theorem looking_action [Composing α] {a : Author α}
    (hα : ∀ x : α, (Elemental.toElement x).shape.Looks) (lists : List (List NodeId))
    (ha : a.world.Looking) : (left (a.action lists)).Looking := by
  refine looking_finish ha fun e => .bind Build.looking_find fun x =>
    .bind (Build.looking_put (hα _)) fun _ => .bind (Build.looking_ofEdit _) fun chain =>
      .bind (Build.looking_newAction _) fun node => ?_
  cases chain with
  | some c => exact .bind (Build.looking_ofEdit _) fun _ => .pure _
  | none => exact .pure _

theorem looking_toAction [Runnable α] {a : Author α} (ha : a.world.Looking) :
    (left a.toAction).Looking := looking_finish ha fun _ => Build.looking_newAction _

/-- A condition is changed in a way that adds predicates that look only. -/
theorem looking_declare {a : Author Condition} {lists : List (List NodeId)}
    {f : Condition → List NodeId × Option Chain → Except GameError Condition}
    (hf : ∀ c p c', f c p = .ok c' → (Element.condition c).shape.Looks →
      (Element.condition c').shape.Looks) (ha : a.world.Looking) :
    (a.apply fun e => do
      let p ← Build.detached lists
      let c ← Build.find Condition e
      Build.put (← Build.ofExcept (f c p))).world.Looking := by
  refine looking_apply ha fun e => .bind (Build.looking_detached lists) fun p w hw => ?_
  refine left_bind (Build.looking_find w hw) fun c w' hfind => ?_
  obtain ⟨hc, rfl⟩ := Build.find_eq_ok_iff.1 hfind
  refine left_bind (Build.looking_ofExcept _ _ hw) fun c' w'' hput => ?_
  obtain ⟨hc', rfl⟩ := Build.ofExcept_eq_ok_iff.1 hput
  exact hw.put (hf c p c' hc' (hw _ _ (World.shape?_of_get? hc)))

theorem looking_when {a : Author Condition} {p : Predicate} (hp : p.Looks)
    (lists : List (List NodeId)) (ha : a.world.Looking) : (a.when p lists).world.Looking := by
  refine looking_declare (f := fun c q => (c.setWhen ⟨p, q.1, q.2⟩).mapError .element)
    (fun c q c' hc' hc => ?_) ha
  obtain ⟨-, rfl⟩ := Condition.setWhen_eq_ok_iff.1 (mapError_eq_ok_iff.1 hc')
  exact fun r hr => List.mem_singleton.1 hr ▸ hp

theorem looking_otherwise {a : Author Condition} (lists : List (List NodeId))
    (ha : a.world.Looking) : (a.otherwise lists).world.Looking := by
  refine looking_declare (f := fun c q => (c.setOtherwise q.1 q.2).mapError .element)
    (fun c q c' hc' hc => ?_) ha
  obtain ⟨-, rfl⟩ := Condition.setOtherwise_eq_ok_iff.1 (mapError_eq_ok_iff.1 hc')
  exact hc

theorem looking_choose {a : Author Menu} (prompt : Sentence) (lists : List (List NodeId))
    (ha : a.world.Looking) : (a.choose prompt lists).world.Looking :=
  looking_apply ha fun _ => .bind (Build.looking_detached lists) fun _ =>
    .bind Build.looking_find fun _ => Build.looking_put trivial

end Author

end Storyline
