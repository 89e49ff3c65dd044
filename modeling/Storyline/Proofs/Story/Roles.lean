import Storyline.Proofs.Story.RowsInSequence
import Storyline.Proofs.World.Strokes

/-!
# Trees in a world

* `Shape`: what of an element decides the course of a story, which play never changes;
* `ActsAs w a role chains`: an action does what a role says, with the given chains for its rows;
* `Tree.Stands w t`: the node of a tree holds an action that fits the tree;
* `World.Carries w F`: the forest `F` is laid out in the graph of a world, all of its trees stand and
  the units of every story are whole rows of it. Play keeps this: `Carries.keeps`;
* `Carries.setRoot`: any story can be hung under the root.
-/

namespace Storyline

/-- What of an element decides the course of a story. -/
inductive Shape where
  | plain (kind : Kind)
  | story (units : List NodeId)
  | script (handler : Handler)
  | condition (tests : List Predicate) (chains : List (Option Chain))
      (fallback : Option (Option Chain))
  | menu (chains : List (Option Chain))

def Element.shape : Element → Shape
  | character _ => .plain .character
  | image _ => .plain .image
  | sound _ => .plain .sound
  | scene _ => .plain .scene
  | story s => .story s.actions
  | script s => .script s.handler
  | condition c => .condition (c.branches.map (·.predicate)) (c.branches.map (·.chain))
      (c.fallback.map (·.2))
  | menu m => .menu (m.choices.map (·.chain))

theorem Element.shape_written (e : Element) : e.written.shape = e.shape := by cases e <;> rfl

theorem Element.predicates_of_shape {e : Element} {tests : List Predicate}
    {chains : List (Option Chain)} {fallback : Option (Option Chain)}
    (h : e.shape = .condition tests chains fallback) : e.predicates = tests := by
  cases e with
  | condition c => exact (Shape.condition.inj h).1
  | _ => cases h

/-- The kind of the elements of a shape. -/
def Shape.kind : Shape → Kind
  | plain kind => kind
  | story _ => .story
  | script _ => .script
  | condition .. => .condition
  | menu _ => .menu

theorem Element.kind_shape (e : Element) : e.shape.kind = e.kind := by cases e <;> rfl

/-- Types of elements of which only the kind matters. -/
class PlainElemental (α : Type) [Elemental α] : Prop extends LawfulElemental α where
  shape_eq : ∀ x : α, (Elemental.toElement x).shape = .plain (Elemental.kind α)

instance : PlainElemental Character := ⟨fun _ => rfl⟩
instance : PlainElemental Image := ⟨fun _ => rfl⟩
instance : PlainElemental Sound := ⟨fun _ => rfl⟩
instance : PlainElemental Scene := ⟨fun _ => rfl⟩

namespace World

variable {w w' : World} {e : ElementId} {s : Shape}

def shape? (w : World) (e : ElementId) : Option Shape := (w.elements.get? e).map Element.shape

theorem shape?_eq_written? (w : World) (e : ElementId) :
    w.shape? e = (w.written? e).map Element.shape := by
  unfold shape? written?
  rw [Option.map_map]
  congr 1
  exact funext fun x => x.shape_written.symm

theorem Keeps.shape? (h : w.Keeps w') (e : ElementId) : w'.shape? e = w.shape? e := by
  rw [shape?_eq_written?, shape?_eq_written?, h.written?]

theorem shape?_of_get? {x : Element} (h : w.elements.get? e = some x) : w.shape? e = some x.shape := by
  rw [World.shape?, h, Option.map_some]

/-- The element of a shape is one of the type that stands for its kind. -/
theorem get?_of_shape (α : Type) [Elemental α] [LawfulElemental α] (h : w.shape? e = some s)
    (hk : s.kind = Elemental.kind α) :
    ∃ a : α, w.elements.get? e = some (Elemental.toElement a) ∧ (Elemental.toElement a).shape = s := by
  obtain ⟨x, hx, rfl⟩ := Option.map_eq_some_iff.1 h
  rw [Element.kind_shape] at hk
  obtain ⟨a, rfl⟩ := (LawfulElemental.kind_eq_iff x).1 hk
  exact ⟨a, hx, rfl⟩

end World

/-- An action does in a world what a role says. The chains are those of the rows that its node leads
into. -/
def ActsAs (w : World) (a : Action) (chains : List (Option Chain)) : Role → Prop
  | .statement => chains = [] ∧ ∃ kind, a.kind.writer? = some kind ∧
      w.shape? a.callee = some (.plain kind)
  | .script e handler => chains = [] ∧ a.kind = .script ∧ a.callee = e ∧
      w.shape? e = some (.script handler)
  | .scene => ∃ chain, chains = [chain] ∧ a.kind = .scene chain ∧
      w.shape? a.callee = some (.plain .scene)
  | .condition tests => a.kind = .condition ∧ ∃ branches fallback,
      chains = branches ++ fallback.toList ∧
        w.shape? a.callee = some (.condition tests branches fallback)
  | .menu => a.kind = .menu ∧ w.shape? a.callee = some (.menu chains)

theorem ActsAs.congr {w w' : World} {a : Action} {chains : List (Option Chain)} {role : Role}
    (h : ActsAs w a chains role) (hs : w'.shape? a.callee = w.shape? a.callee) :
    ActsAs w' a chains role := by
  cases role with
  | script e handler =>
    obtain ⟨hc, hk, rfl, he⟩ := h
    exact ⟨hc, hk, rfl, hs.trans he⟩
  | _ => simpa only [ActsAs, hs] using h

namespace Tree

variable {w w' : World} {t : Tree} {row : List Tree}

/-- The node of a tree holds an action that does what the tree says. -/
def Stands (w : World) (t : Tree) : Prop :=
  ∃ a, w.action? t.node = some a ∧ ActsAs w a (t.rows.map chain) t.role

theorem Stands.keeps (h : t.Stands w) (hk : w.Keeps w') : t.Stands w' := by
  obtain ⟨a, ha, hacts⟩ := h
  exact ⟨a, (hk.action? _).trans ha, hacts.congr (hk.shape? _)⟩

/-- The chain at a place is that of the row there; past the last row it is none. -/
theorem chain_getD (rows : List (List Tree)) (i : Nat) :
    ((rows.map chain)[i]?).join = chain ((rows[i]?).getD []) := by
  rw [List.getElem?_map]
  cases rows[i]? <;> rfl

/-- The row that a tree turns to is one of its rows, or empty. -/
theorem turn_row (t : Tree) (v : Outlook) : (t.turn v).1 = [] ∨ (t.turn v).1 ∈ t.rows := by
  unfold turn
  simp only
  cases hrow : t.rows[(t.role.turn t.node v).1]? with
  | none => exact .inl rfl
  | some row => exact .inr (List.mem_of_getElem? hrow)

theorem RowsInSequence.rewired {γ : Type} {F : List (List Tree)} {g g' : Graph γ} {id : NodeId}
    {c? : Option NodeId} (h : RowsInSequence F g) (hr : g.Rewired id c? g')
    (hid : ∀ t ∈ within F.flatten, t.node ≠ id)
    (hc : ∀ c, c? = some c → ∃ r ∈ F, (nodes r).head? = some c) : RowsInSequence F g' := by
  have hne : ∀ r ∈ allRows F, ∀ a ∈ nodes r, a ≠ id := by
    intro r hr a ha
    obtain ⟨t, ht, rfl⟩ := List.mem_map.1 ha
    exact hid t (Distinct.mem_within_of_row hr ht)
  -- an edge of the rows is not the one that was set, nor was its target taken away
  have hfollows : ∀ a b, Follows F a b → g'.resumes[a]? = none → g'.child? a = some b := by
    intro a b hab hres
    rw [hr.resumes] at hres
    have hmemRow := hab
    obtain ⟨r, hmemRow, hl⟩ := hmemRow
    refine hr.child?_other (hne r hmemRow a (mem_of_links hl)) (h.follows a b hab hres) fun he => ?_
    obtain ⟨r', hr', hhead⟩ := hc b he
    -- the target heads a row, and no other node leads to the head of a row
    have hchain : ∃ c, chain r' = some c ∧ c.head = b := by
      cases hch : chain r' with
      | none =>
        rw [chain_eq_none hch] at hhead
        cases hhead
      | some c => exact ⟨c, rfl, Option.some_inj.1 ((ends_of_chain hch).1.symm.trans hhead)⟩
    obtain ⟨c, hch, hb⟩ := hchain
    exact (h.ne_ends (List.mem_append_left _ hr') hch hab).2 hb.symm
  refine ⟨h.distinct, fun t ht => (hr.movable_iff _).2 (h.movable t ht), fun t ht => ?_,
    fun a k k' => ?_, fun r hmem a k hl hres => ?_, hfollows⟩
  · rw [hr.resumes]
    exact h.plain t ht
  · rw [hr.resumes]
    exact h.remembered a k k'
  · have hmemRow : r ∈ allRows F := List.mem_append_left _ hmem
    rcases links_cases hl with ⟨b, -, rfl, hl'⟩ | ⟨rfl, -, -⟩
    · exact hfollows a b ⟨r, hmemRow, hl'⟩ hres
    · rw [hr.resumes] at hres
      exact hr.child?_none (hne r hmemRow a (mem_of_links hl)) (h.top r hmem a none hl hres)

theorem head?_flatten {rows : List (List Tree)} {u : NodeId}
    (h : (nodes rows.flatten).head? = some u) : ∃ r ∈ rows, (nodes r).head? = some u := by
  induction rows with
  | nil => cases h
  | cons r rows ih =>
    cases r with
    | nil =>
      obtain ⟨r', hr', hu⟩ := ih h
      exact ⟨r', List.mem_cons_of_mem _ hr', hu⟩
    | cons t r => exact ⟨t :: r, List.mem_cons_self, h⟩

end Tree

open Effect Storyline.Tree

namespace World

variable {w w' : World} {F : List (List Tree)} {e : ElementId} {units : List NodeId}

/-- A world in which a forest is laid out. -/
structure Carries (w : World) (F : List (List Tree)) : Prop where
  sound : w.Sound
  inSequence : RowsInSequence F w.graph
  stands : ∀ t ∈ within F.flatten, t.Stands w
  root : w.graph.contains w.root = true ∧ w.graph.isRoot w.root = true
  stories : ∀ e units, w.shape? e = some (.story units) →
    ∃ rows, List.Sublist rows F ∧ units = nodes rows.flatten

theorem Carries.keeps (h : w.Carries F) (hk : w.Keeps w') (hw : RowsInSequence F w'.graph) :
    w'.Carries F := by
  refine ⟨hk.sound h.sound, hw, fun t ht => (h.stands t ht).keeps hk, ?_, fun e units he => ?_⟩
  · rw [hk.root, hk.nodes.contains, hk.nodes.isRoot]
    exact h.root
  · rw [hk.shape?] at he
    exact h.stories e units he

/-- **Any story can be hung under the root.** -/
theorem Carries.setRoot (h : w.Carries F) (he : w.shape? e = some (.story units)) :
    ∃ w', Build.setRoot ⟨e⟩ w = .ok units w' ∧ w'.Carries F ∧ w'.elements = w.elements := by
  obtain ⟨s, hx, hshape⟩ := get?_of_shape Story he rfl
  obtain rfl : s.actions = units := by injection hshape
  obtain ⟨rows, hrows, hunits⟩ := h.stories e s.actions he
  have hne : ∀ t ∈ within F.flatten, t.node ≠ w.root := by
    intro t ht heq
    have := (h.inSequence.movable t ht).2
    rw [heq, h.root.2] at this
    cases this
  have hhead : ∀ c, s.actions.head? = some c → ∃ r ∈ F, (nodes r).head? = some c := by
    intro c hc
    obtain ⟨r, hr, hrc⟩ := head?_flatten (hunits ▸ hc)
    exact ⟨r, hrows.subset hr, hrc⟩
  obtain ⟨g, hg, hr⟩ := Graph.attempt_setChild s.actions.head? h.root.1 fun c hc => by
    obtain ⟨r, hmem, hrc⟩ := hhead c hc
    obtain ⟨t, ht, rfl⟩ := List.mem_map.1 (List.mem_of_head? hrc)
    have hin := Distinct.mem_within_of_row (List.mem_append_left _ hmem) ht
    exact ⟨hne t hin, h.inSequence.movable t hin⟩
  have hquiet : w.Quiet { w with graph := g } := quiet_of_elements rfl rfl hr.toSameNodes
  refine ⟨{ w with graph := g }, ?_, h.keeps hquiet.toKeeps (h.inSequence.rewired hr hne hhead), rfl⟩
  unfold Build.setRoot
  rw [bind_of_ok (Build.find_eq_ok_iff.2 ⟨hx, rfl⟩), bind_get_apply,
    bind_of_ok (Build.ofEdit_eq_ok_iff.2 ⟨g, hg, rfl⟩)]
  rfl

end World

end Storyline
