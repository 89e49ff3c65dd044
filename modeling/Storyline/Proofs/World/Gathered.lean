import Storyline.Proofs.Stage.Numbered

/-!
# What was appended and not taken yet

* `Element.gathered`, `World.gathered`: the nodes that an element has gathered;
* `World.Turn.gathered`, `Call.gathered_run`: neither play nor calls change these, apart from those
  that append and take.
-/

namespace Storyline

open Effect

/-! ### What was gathered -/

/-- The nodes that were appended for an element and not taken yet, in order. -/
def Element.gathered : Element → List NodeId
  | character c => c.pending.reverse
  | image i => i.pending.reverse
  | sound s => s.pending.reverse
  | scene s => s.pending.reverse
  | _ => []

/-- The nodes that an element of a world has gathered. -/
def World.gathered (w : World) (e : ElementId) : List NodeId :=
  ((w.elements.get? e).map Element.gathered).getD []

/-- What is gathered can be put back and read. -/
class Draining (α : Type) [Gathering α] : Prop extends LawfulElemental α where
  gathered_eq : ∀ a : α, (Elemental.toElement a).gathered = (Gathering.pending a).reverse
  pending_withPending : ∀ (a : α) (nodes : List NodeId),
    Gathering.pending (Gathering.withPending a nodes) = nodes
  revised_withPending : ∀ (new : List Predicate) (a : α) (nodes : List NodeId),
    (Elemental.toElement a).Revised new (Elemental.toElement (Gathering.withPending a nodes))

instance : Draining Character := ⟨fun _ => rfl, fun _ _ => rfl, fun _ => .character⟩
instance : Draining Image := ⟨fun _ => rfl, fun _ _ => rfl, fun _ => .image⟩
instance : Draining Sound := ⟨fun _ => rfl, fun _ _ => rfl, fun _ => .sound⟩
instance : Draining Scene := ⟨fun _ => rfl, fun _ _ => rfl, fun _ s nodes => .scene s nodes s.actions⟩

section

variable {α : Type} [Gathering α] [Draining α] {w : World} {x : α}

theorem World.gathered_of_get? {e : ElementId} (hx : w.elements.get? e = some (Elemental.toElement x)) :
    w.gathered e = (Gathering.pending x).reverse := by
  unfold gathered
  rw [hx]
  exact Draining.gathered_eq x

theorem World.get?_withPending (hw : w.Sound) {e : ElementId}
    (hx : w.elements.get? e = some (Elemental.toElement x)) (nodes : List NodeId) (y : ElementId) :
    (w.put (Gathering.withPending x nodes)).elements.get? y =
      if y = e then some (Elemental.toElement (Gathering.withPending x nodes))
      else w.elements.get? y := by
  have hid : (Elemental.toElement (Gathering.withPending x nodes)).id = e :=
    (Draining.revised_withPending [] x nodes).id.trans (hw.id _ _ hx)
  show (w.elements.put _).get? y = _
  rw [Elements.get?_put, hid]
  simp only [eq_comm]

theorem World.gathered_withPending (hw : w.Sound) {e : ElementId}
    (hx : w.elements.get? e = some (Elemental.toElement x)) (nodes : List NodeId) (y : ElementId) :
    (w.put (Gathering.withPending x nodes)).gathered y =
      if y = e then nodes.reverse else w.gathered y := by
  have hget := get?_withPending hw hx nodes y
  split
  · rw [if_pos ‹_›] at hget
    rw [gathered_of_get? hget, Draining.pending_withPending]
  · rw [if_neg ‹_›] at hget
    unfold gathered
    rw [hget]

end

/-! ### What leaves it -/

/-- Calls that neither append nor take. -/
def Call.Elsewhere : Call → Prop
  | append .. | take .. => False
  | _ => True

section

variable {w w' : World}

theorem Call.Stroke.next_le {c : Call} {start : Graph Action} (h : c.Stroke start w w') :
    w.ids.next ≤ w'.ids.next := by
  cases h with
  | spend | add | insert => exact Nat.le_succ _
  | revise | child | parent | root => exact Nat.le_refl _

theorem World.Turn.next_le (h : w.Turn w') : w.ids.next ≤ w'.ids.next := by
  cases h with
  | shift h =>
    cases h with
    | graft node chain =>
      have hleft := World.left_ofEdit (w := w) (Graph.splice node chain)
      exact Nat.le_of_eq (congrArg (fun w : World => w.ids.next) hleft).symm
    | record => exact Nat.le_refl _
  | name => exact Nat.le_succ _

/-- Writing keeps what was gathered, and play does not change what was written. -/
theorem World.Turn.gathered (h : w.Turn w') (hw : w.Sound) (e : ElementId) :
    w'.gathered e = w.gathered e := by
  have hwritten : ∀ x : Element, x.written.gathered = x.gathered := fun x => by cases x <;> rfl
  have hof : ∀ w : World, w.gathered e = ((w.written? e).map Element.gathered).getD [] := fun w => by
    unfold World.gathered World.written?
    rw [Option.map_map]
    exact congrArg (fun f => ((w.elements.get? e).map f).getD []) (funext fun x => (hwritten x).symm)
  rw [hof, hof, (h.keeps hw).written?]

/-- An element is put in that has gathered what the one before it had. -/
theorem World.gathered_put {y : Element} (hy : y.gathered = w.gathered y.id) (e : ElementId) :
    ({ w with elements := w.elements.put y } : World).gathered e = w.gathered e := by
  unfold gathered at hy ⊢
  rw [Elements.get?_put]
  split
  · subst e
    exact hy
  · rfl

/-- The same nodes are gathered for every element. -/
def World.SameGathered (w w' : World) : Prop := ∀ e, w'.gathered e = w.gathered e

theorem World.sameGathered_of_elements (h : w'.elements = w.elements) : w.SameGathered w' := fun e => by
  unfold gathered
  rw [h]

/-- A change that leaves the elements, and then one that leaves what they have gathered. -/
theorem Build.sameGathered_bind {α β : Type} {k : Build α} {f : α → Build β}
    (hk : (left (k w)).elements = w.elements)
    (hf : ∀ a w', w'.elements = w.elements → w.SameGathered (left (f a w'))) :
    w.SameGathered (left ((k >>= f) w)) := by
  refine left_bind (World.sameGathered_of_elements hk) fun a w' hw' => hf a w' ?_
  rw [hw'] at hk
  exact hk

theorem Build.elements_newAction (e : ElementId) (kind : ActionKind) (w : World) :
    (left (newAction e kind w)).elements = w.elements := by
  rw [newAction_apply]
  split <;> rfl

theorem Build.elements_construct (nodes : List NodeId) (w : World) :
    (left (construct nodes w)).elements = w.elements := by
  unfold construct
  rw [World.left_ofEdit]

theorem Build.sameGathered_discard {α β : Type} {k : Build α} {b : β}
    (h : w.SameGathered (left (k w))) : w.SameGathered (left ((do discard k; return b) w)) := by
  rw [← left_discard] at h
  refine left_bind h fun u w' hw' => ?_
  rwa [hw'] at h

theorem Build.sameGathered_single {k : Build NodeId} (h : w.SameGathered (left (k w))) :
    w.SameGathered (left ((do return [← k]) w)) := by
  refine left_bind h fun u w' hw' => ?_
  rwa [hw'] at h

section Elements

variable {α : Type} [Elemental α]

theorem Build.sameGathered_put {a : α} {x : Element} {e : ElementId}
    (hw : w.Sound) (hx : w.elements.get? e = some x) (hw' : w'.elements = w.elements)
    (hid : (Elemental.toElement a).id = x.id)
    (hgathered : (Elemental.toElement a).gathered = x.gathered) : w.SameGathered (w'.put a) := by
  intro y
  have hput := World.gathered_put (w := w') (y := Elemental.toElement a) ?_ y
  · exact hput.trans (World.sameGathered_of_elements hw' y)
  · unfold World.gathered
    rw [hgathered, hid, hw.id e x hx, hw', hx]
    rfl

variable [LawfulElemental α]

theorem Build.sameGathered_find {β : Type} {f : α → Build β} {e : ElementId}
    (hw' : w'.elements = w.elements)
    (hf : ∀ a : α, w.elements.get? e = some (Elemental.toElement a) → w.SameGathered (left (f a w'))) :
    w.SameGathered (left ((Build.find α e >>= f) w')) := by
  refine left_bind (P := w.SameGathered) (by rw [World.left_find]; exact World.sameGathered_of_elements hw')
    fun a w₁ ha => ?_
  obtain ⟨ha, rfl⟩ := find_eq_ok_iff.1 ha
  exact hf a (hw' ▸ ha)

theorem Build.sameGathered_declare (hw : w.Sound) (h : Handle α) {lists : List (List NodeId)}
    {f : α → List NodeId × Option Chain → Except GameError α}
    (hf : ∀ a p b, f a p = .ok b → (Elemental.toElement b).id = (Elemental.toElement a).id ∧
      (Elemental.toElement b).gathered = (Elemental.toElement a).gathered) :
    w.SameGathered (left (declare h lists f w)) := by
  refine left_author_apply h (fun _ => rfl) ?_
  have hdetached : (left (detached lists w)).elements = w.elements := by
    refine left_bind (P := fun w' : World => w'.elements = w.elements) (elements_construct _ w)
      fun c w' hw' => ?_
    have hlink := elements_construct lists.flatten w
    rw [hw'] at hlink
    exact hlink
  refine sameGathered_bind hdetached fun p w₁ hw₁ => ?_
  refine sameGathered_find hw₁ fun a ha => ?_
  cases hb : f a p with
  | error e => exact World.sameGathered_of_elements hw₁
  | ok b => exact sameGathered_put hw ha hw₁ (hf a p b hb).1 (hf a p b hb).2

end Elements

theorem Build.sameGathered_action {α : Type} [Composing α] [LawfulComposing α]
    (hgathered : ∀ (a : α) nodes, (Elemental.toElement (Composing.withActions a nodes)).gathered =
      (Elemental.toElement a).gathered)
    (hw : w.Sound) (h : Handle α) (lists : List (List NodeId)) :
    w.SameGathered (left (Build.author h (·.action lists) w)) := by
  refine left_author_finish h (fun _ => rfl) (sameGathered_find rfl fun a ha => ?_)
  -- each step is followed by one that leaves what was gathered, down to the last edge
  have hput := sameGathered_put hw ha rfl
    (LawfulComposing.id_withActions a (Composing.actions a ++ lists.flatten)) (hgathered a _)
  refine fun e => (?_ : _ = _).trans (hput e)
  unfold Build.put
  rw [bind_modify_apply]
  revert e
  refine sameGathered_bind (elements_construct _ _) fun chain w₁ hw₁ => ?_
  refine fun e => (?_ : _ = _).trans (World.sameGathered_of_elements hw₁ e)
  revert e
  refine sameGathered_bind (elements_newAction _ _ _) fun node w₂ hw₂ => ?_
  cases chain with
  | none => exact World.sameGathered_of_elements hw₂
  | some ends =>
    refine left_bind (P := w₁.SameGathered) ?_ fun u w₃ hw₃ => ?_
    · rw [World.left_ofEdit]
      exact World.sameGathered_of_elements hw₂
    · have hedit := World.left_ofEdit (w := w₂) (Graph.attempt (·.setParent ends.head (some node)))
      rw [hw₃] at hedit
      exact World.sameGathered_of_elements ((congrArg World.elements hedit).trans hw₂)

/-- **Calls that neither append nor take** leave what was gathered. -/
theorem Call.gathered_run (hw : w.Sound) (hfresh : w.Fresh) {c : Call} (hc : c.Elsewhere) :
    w.SameGathered (left (c.run w)) := by
  have hnew : ∀ {x : Element}, x.id = ⟨w.ids.next⟩ → x.gathered = [] →
      w.SameGathered { w with ids := w.ids.take.2, elements := w.elements.put x } := by
    intro x hid hx e
    refine World.gathered_put (w := { w with ids := w.ids.take.2 }) ?_ e
    unfold World.gathered
    rw [hid, hx]
    show [] = ((w.elements.get? _).map _).getD []
    rw [hfresh.element]
    rfl
  have hnode : ∀ e kind, w.SameGathered (left (Build.newAction e kind w)) := fun e kind =>
    World.sameGathered_of_elements (Build.elements_newAction e kind w)
  have hbranch : ∀ {a b : Condition} {r : Except ElementError Condition},
      (∀ b, r = .ok b → b.id = a.id) → r.mapError GameError.element = .ok b →
        (Element.condition b).id = (Element.condition a).id ∧
          (Element.condition b).gathered = (Element.condition a).gathered :=
    fun hr hb => ⟨hr _ (mapError_eq_ok_iff.1 hb), rfl⟩
  -- an element is put back with what it had gathered, whatever else has changed in it
  cases c with
  | append | take => exact hc.elim
  | character | sound | scene | story | script | condition | menu => exact hnew rfl rfl
  | image name config =>
    refine Build.sameGathered_discard ?_
    unfold Build.image Image.new
    refine left_bind (P := w.SameGathered) (fun _ => rfl) fun id w₁ hw₁ => ?_
    obtain ⟨rfl, rfl⟩ := EStateM.Result.ok.inj hw₁
    split
    · exact fun _ => rfl
    · exact hnew rfl rfl
  | sceneAction e lists =>
    exact Build.sameGathered_single
      (Build.sameGathered_action (fun _ _ => rfl) hw (⟨e⟩ : Handle Scene) lists)
  | storyAction e lists =>
    exact Build.sameGathered_single
      (Build.sameGathered_action (fun _ _ => rfl) hw (⟨e⟩ : Handle Story) lists)
  | when e p lists =>
    rw [run_when]
    refine Build.sameGathered_declare hw _ fun a p b => hbranch fun b hb => ?_
    obtain ⟨-, rfl⟩ := Condition.setWhen_eq_ok_iff.1 hb
    rfl
  | elseWhen e p lists =>
    rw [run_elseWhen]
    refine Build.sameGathered_declare hw _ fun a p b => hbranch fun b hb => ?_
    obtain ⟨-, rfl⟩ := Condition.addElseWhen_eq_ok_iff.1 hb
    rfl
  | otherwise e lists =>
    rw [run_otherwise]
    refine Build.sameGathered_declare hw _ fun a p b => hbranch fun b hb => ?_
    obtain ⟨-, rfl⟩ := Condition.setOtherwise_eq_ok_iff.1 hb
    rfl
  | choose e prompt lists =>
    rw [run_choose]
    refine Build.sameGathered_declare hw _ fun a p b hb => ?_
    obtain ⟨⟩ := hb
    exact ⟨rfl, rfl⟩
  | toAction kind e =>
    cases kind with
    | script =>
      exact Build.sameGathered_single
        (Build.left_author_finish (α := Script) _ (fun _ => rfl) (hnode _ _))
    | condition =>
      exact Build.sameGathered_single
        (Build.left_author_finish (α := Condition) _ (fun _ => rfl) (hnode _ _))
    | menu =>
      exact Build.sameGathered_single
        (Build.left_author_finish (α := Menu) _ (fun _ => rfl) (hnode _ _))
    | _ => exact fun _ => rfl
  | newAction e kind => exact Build.sameGathered_single (hnode e kind)
  | construct nodes =>
    exact Build.sameGathered_discard (World.sameGathered_of_elements (Build.elements_construct nodes w))
  | setRoot e =>
    refine Build.sameGathered_find (α := Story) rfl fun s _ => ?_
    rw [bind_get_apply]
    have hset : (left (Build.ofEdit (Graph.attempt (·.setChild w.root s.actions.head?)) w)).elements =
        w.elements := by rw [World.left_ofEdit]
    exact Build.sameGathered_bind hset fun u w₁ hw₁ => World.sameGathered_of_elements hw₁

end

end Storyline
