import Storyline.Proofs.World.Strokes

/-!
# What calls do with a fresh number

* `World.Fresh w`: no node and no element has the number that the counter hands out next;
* `Fresh.newAction`: then a new node is made, and `Fresh.run`: no call fails for a node that exists
  already;
* `Fresh.creates`: then the constructors of elements leave every other element as it is.
-/

namespace Storyline

open Effect

/-! ### Errors of edges -/

namespace Graph

variable {γ : Type} {g : Graph γ} {id n : NodeId} {c? p? : Option NodeId}

theorem setChild_ne_duplicate : g.setChild id c? ≠ .error (.duplicate n) := by
  intro h
  cases c? with
  | none =>
    unfold setChild node at h
    cases hid : g.get? id <;> rw [hid] at h <;> cases h
  | some c =>
    unfold setChild checkChild node at h
    cases hid : g.get? id <;> cases hc : g.get? c <;> simp only [hid, hc] at h
    · cases h
    · cases h
    · split at h <;> cases h
    · split at h
      · cases h
      · simp only [ok_bind] at h
        split at h <;> cases h

theorem setParent_ne_duplicate : g.setParent id p? ≠ .error (.duplicate n) := by
  intro h
  cases p? with
  | none =>
    unfold setParent node at h
    cases hid : g.get? id <;> rw [hid] at h <;> cases h
  | some p =>
    unfold setParent node at h
    cases hid : g.get? id <;> cases hp : g.get? p <;> simp only [hid, hp] at h
    · cases h
    · cases h
    all_goals
      split at h
      · cases h
      · simp only [ok_bind] at h
        split at h <;> cases h

/-- Any error but that a node exists already. -/
def NotDuplicate (e : GraphError) : Prop := ∀ n, e ≠ .duplicate n

theorem failsBy_attempt {f : Graph γ → Except GraphError (Graph γ)}
    (h : ∀ n, f g ≠ .error (.duplicate n)) : FailsBy NotDuplicate (attempt f g) := by
  unfold attempt
  cases hf : f g with
  | ok g' => trivial
  | error e =>
    rintro n rfl
    exact h n hf

theorem failsBy_link (nodes : List NodeId) : FailsBy NotDuplicate (link nodes g) := by
  have hall : ∀ (nodes : List NodeId) (g : Graph γ), FailsBy NotDuplicate (linkAll nodes g) := by
    intro nodes
    induction nodes with
    | nil => exact fun g => trivial
    | cons a rest ih =>
      intro g
      cases rest with
      | nil => trivial
      | cons b rest =>
        exact failsBy_bind (failsBy_attempt fun n => setChild_ne_duplicate) fun _ g' _ => ih g'
  exact failsBy_bind (hall nodes g) fun _ _ _ => trivial

end Graph

/-! ### Errors of calls -/

/-- Any error but that a node exists already. -/
def GameError.NotDuplicate (e : GameError) : Prop := ∀ n, e ≠ .graph (.duplicate n)

/-- The number that the counter hands out next is that of no node and no element. -/
structure World.Fresh (w : World) : Prop where
  node : w.graph.contains ⟨w.ids.next⟩ = false
  element : w.elements.get? ⟨w.ids.next⟩ = none

namespace Build

open GameError (NotDuplicate)

variable {α β : Type} [Elemental α] {w : World}

theorem failsBy_ofEdit {edit : Graph.Edit Action β}
    (h : FailsBy Graph.NotDuplicate (edit w.graph)) : FailsBy NotDuplicate (ofEdit edit w) := by
  unfold ofEdit
  cases he : edit w.graph with
  | ok b g => trivial
  | error e g =>
    rw [he] at h
    rintro n ⟨⟩
    exact h n rfl

theorem failsBy_construct (nodes : List NodeId) : FailsBy NotDuplicate (construct nodes w) :=
  failsBy_ofEdit (Graph.failsBy_link nodes)

theorem failsBy_ofExcept {r : Except ElementError β} :
    FailsBy NotDuplicate (ofExcept (r.mapError .element) w) := by
  cases r with
  | ok b => trivial
  | error e => exact nofun

theorem failsBy_find (e : ElementId) : FailsBy NotDuplicate (find α e w) := by
  unfold find
  rw [bind_get_apply]
  exact failsBy_ofExcept

theorem failsBy_author_finish (h : Handle α) {change : ElementId → Build β}
    (hchange : FailsBy NotDuplicate (change h.id w)) :
    FailsBy NotDuplicate (author h (fun a : Author α => a.finish change) w) := by
  rw [author_finish]
  unfold World.find
  cases w.elements.find α h.id with
  | ok a => exact hchange
  | error e => exact nofun

theorem failsBy_author_apply (h : Handle α) {change : ElementId → Build Unit}
    (hchange : FailsBy NotDuplicate (change h.id w)) :
    FailsBy NotDuplicate (author h (fun a : Author α => (a.apply change).close) w) := by
  rw [author_apply]
  unfold World.find
  cases w.elements.find α h.id with
  | ok a => exact failsBy_bind hchange fun _ _ _ => trivial
  | error e => exact nofun

end Build

namespace World.Fresh

open GameError (NotDuplicate)

variable {α β : Type} {w : World}

theorem newAction (h : w.graph.contains ⟨w.ids.next⟩ = false) (e : ElementId) (kind : ActionKind) :
    ∃ g, Build.newAction e kind w = .ok ⟨w.ids.next⟩ { w with ids := w.ids.take.2, graph := g } := by
  rw [Build.newAction_apply]
  unfold Graph.insertContent Graph.insert
  rw [h]
  exact ⟨_, rfl⟩

theorem append [Gathering α] (h : w.Fresh) (e : Handle α) (kind : ActionKind) :
    FailsBy NotDuplicate (Build.author e (fun a => (a.append kind).close) w) := by
  refine Build.failsBy_author_apply e ?_
  cases Gathering.problem? α kind with
  | some problem => exact nofun
  | none =>
    obtain ⟨g, hg⟩ := newAction h.node e.id kind
    simp only
    rw [bind_of_ok hg]
    exact failsBy_bind (Build.failsBy_find _) fun _ _ _ => trivial

theorem takeActions [Gathering α] (e : Handle α) :
    FailsBy NotDuplicate (Build.author e Author.takeActions w) :=
  Build.failsBy_author_finish e <| failsBy_bind (Build.failsBy_find _) fun _ _ _ => trivial

theorem action [Composing α] [LawfulElemental α] (h : w.Fresh) (e : Handle α)
    (lists : List (List NodeId)) : FailsBy NotDuplicate (Build.author e (·.action lists) w) := by
  refine Build.failsBy_author_finish e <| failsBy_bind (Build.failsBy_find _) fun a w₁ ha => ?_
  obtain ⟨-, rfl⟩ := Build.find_eq_ok_iff.1 ha
  unfold Build.put
  rw [bind_modify_apply]
  refine failsBy_bind (Build.failsBy_construct _) fun chain w₂ hw₂ => ?_
  obtain ⟨-, hlinked⟩ := Build.construct_eq_ok hw₂
  have hnode : w₂.graph.contains ⟨w₂.ids.next⟩ = false := by
    rw [hlinked]
    exact ((Graph.sameNodes_left_link lists.flatten).contains _).trans h.node
  obtain ⟨g, hg⟩ := newAction hnode e.id (Composing.composite α chain)
  rw [bind_of_ok hg]
  cases chain with
  | none => trivial
  | some ends =>
    refine failsBy_bind (Build.failsBy_ofEdit (Graph.failsBy_attempt fun n => ?_)) fun _ _ _ => trivial
    exact Graph.setParent_ne_duplicate

theorem detached (lists : List (List NodeId)) : FailsBy NotDuplicate (Build.detached lists w) :=
  failsBy_bind (Build.failsBy_construct _) fun _ _ _ => trivial

theorem newNode (h : w.Fresh) (e : ElementId) (kind : ActionKind) :
    FailsBy NotDuplicate (Build.newAction e kind w) := by
  obtain ⟨g, hg⟩ := newAction h.node e kind
  rw [hg]
  trivial

/-- **No call fails for a node that exists already.** -/
theorem run (h : w.Fresh) (c : Call) : FailsBy NotDuplicate (c.run w) := by
  -- a node is only ever inserted under the next number, which is not in use
  cases c with
  | character | sound | scene | story | script | condition | menu => trivial
  | image name config =>
    refine failsBy_bind (failsBy_discard ?_) fun _ _ _ => trivial
    exact failsBy_bind trivial fun id w₁ _ => failsBy_bind Build.failsBy_ofExcept fun _ _ _ => trivial
  | append e kind =>
    simp only [Call.run]
    cases kind.writer? with
    | none => trivial
    | some k =>
      cases k with
      | character | image | sound | scene => exact h.append _ _
      | _ => trivial
  | take kind e =>
    cases kind with
    | character | image | sound | scene => exact takeActions _
    | _ => trivial
  | sceneAction e lists | storyAction e lists =>
    exact failsBy_bind (h.action _ _) fun _ _ _ => trivial
  | when e p lists | elseWhen e p lists | otherwise e lists =>
    refine Build.failsBy_author_apply (⟨e⟩ : Handle Condition) ?_
    refine failsBy_bind (detached lists) fun p w₁ _ => ?_
    refine failsBy_bind (Build.failsBy_find _) fun c w₂ _ => ?_
    exact failsBy_bind Build.failsBy_ofExcept fun _ _ _ => trivial
  | choose e prompt lists =>
    refine Build.failsBy_author_apply (⟨e⟩ : Handle Menu) ?_
    refine failsBy_bind (detached lists) fun p w₁ _ => ?_
    exact failsBy_bind (Build.failsBy_find _) fun _ _ _ => trivial
  | toAction kind e =>
    cases kind with
    | script =>
      exact failsBy_bind (Build.failsBy_author_finish (α := Script) _ (h.newNode _ _)) fun _ _ _ => trivial
    | condition =>
      exact failsBy_bind (Build.failsBy_author_finish (α := Condition) _ (h.newNode _ _))
        fun _ _ _ => trivial
    | menu =>
      exact failsBy_bind (Build.failsBy_author_finish (α := Menu) _ (h.newNode _ _)) fun _ _ _ => trivial
    | _ => trivial
  | newAction e kind => exact failsBy_bind (h.newNode e kind) fun _ _ _ => trivial
  | construct nodes =>
    exact failsBy_bind (failsBy_discard (Build.failsBy_construct nodes)) fun _ _ _ => trivial
  | setRoot e =>
    refine failsBy_bind (Build.failsBy_find _) fun s w₁ _ => ?_
    rw [bind_get_apply]
    refine failsBy_bind (Build.failsBy_ofEdit (Graph.failsBy_attempt fun n => ?_)) fun _ _ _ => trivial
    exact Graph.setChild_ne_duplicate

end World.Fresh

/-! ### New elements -/

/-- The constructors of elements. -/
def Call.Creates : Call → Prop
  | character .. | image .. | sound .. | scene .. | story _ | script _ | condition | menu _ => True
  | _ => False

/-- **A new element replaces no other**, whether or not its configuration is accepted. -/
theorem World.Fresh.creates {w : World} (h : w.Fresh) {c : Call} (hc : c.Creates) {e : ElementId}
    {x : Element} (hx : w.elements.get? e = some x) :
    (left (c.run w)).elements.get? e = some x := by
  have hput : ∀ y : Element, y.id = ⟨w.ids.next⟩ → (w.elements.put y).get? e = some x := by
    intro y hy
    rw [Elements.get?_put, if_neg, hx]
    rintro rfl
    rw [hy, h.element] at hx
    cases hx
  cases c with
  | image name config =>
    have hnew : (left (Build.image name config w)).elements.get? e = some x := by
      unfold Build.image Image.new
      refine left_bind (P := fun w : World => w.elements.get? e = some x) hx fun id w₁ hw₁ => ?_
      obtain ⟨rfl, rfl⟩ := EStateM.Result.ok.inj hw₁
      split
      · exact hx
      · exact hput (.image _) rfl
    rw [← left_discard] at hnew
    refine left_bind (P := fun w : World => w.elements.get? e = some x) hnew fun u w₁ hw₁ => ?_
    rwa [hw₁] at hnew
  | character | sound | scene | story | script | condition | menu => exact hput _ rfl
  | _ => exact hc.elim

end Storyline
