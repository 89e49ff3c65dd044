import Storyline.Proofs.Graph.WellFormed

/-!
# Operations step by step

* `Edit.setChild` and the other edits: the operations on single nodes and edges, made of steps. A node
  is looked up wherever it is needed, also after other nodes were changed, and what was changed before
  a step that fails stays changed;
* `Operation.steps`: the same for every operation;
* `Operation.steps_eq_run`: no step fails once something was changed, so that each operation on a single
  edge may be taken for one step.
-/

namespace Storyline.Graph

open Effect

variable {γ α β : Type} {g g' : Graph γ} {id c : NodeId} {n : Node γ} {e : GraphError}

/-! ### Step by step -/

namespace Edit

/-- What is only read of the graph as it is now, and may be missing there. -/
def read (f : Graph γ → Except GraphError α) : Edit γ α := fun g =>
  match f g with
  | .ok a => .ok a g
  | .error e => .error e g

/-- A change that cannot fail. -/
def make (f : Graph γ → Graph γ) : Edit γ Unit := fun g => .ok () (f g)

/-- Changes a node that has to be there. -/
def change (id : NodeId) (f : Node γ → Node γ) : Edit γ Unit := do
  discard (read (·.node id))
  make (·.modify id f)

def insert (id : NodeId) (kind : NodeKind) (content : Option γ) : Edit γ Unit := do
  if (← get).contains id then throw (.duplicate id)
  make fun g => { g with nodes := g.nodes.insert id { kind, content } }

def insertRoot (id : NodeId) (content : Option γ) : Edit γ Unit := do
  match (← get).root with
  | some r => throw (.rootExists r)
  | none =>
    insert id .root content
    make fun g => { g with root := some id }

def setParent (id : NodeId) (parent : Option NodeId) : Edit γ Unit := do
  let n ← read (·.node id)
  match parent with
  | none => pure ()
  | some p =>
    if p = id then throw (.selfParent id)
    if n.isRoot then throw (.rootParent id)
    discard (read (·.node p))
  change id fun n => { n with parent := parent }

/-- Leaves a node without children. -/
def clear (id : NodeId) : Edit γ Unit := do
  let n ← read (·.node id)
  change id fun n => { n with children := [] }
  make (·.orphan id n.children)

/-- Makes a child the only one of a node. -/
def adopt (id child : NodeId) : Edit γ Unit := do
  read (·.checkChild id child)
  make (·.detach child id)
  let n ← read (·.node id)
  change id fun n => { n with children := [] }
  make (·.orphan id (n.children.filter (· ≠ child)))
  change id fun n => { n with children := n.children ++ [child] }
  change child fun n => { n with parent := some id }

def setChild (id : NodeId) : Option NodeId → Edit γ Unit
  | none => clear id
  | some child => adopt id child

def addChild (id child : NodeId) : Edit γ Unit := do
  let n ← read (·.node id)
  if n.kind ≠ .tree then adopt id child
  else
    read (·.checkChild id child)
    make (·.detach child id)
    change id fun n =>
      if child ∈ n.children then n else { n with children := n.children ++ [child] }
    change child fun n => { n with parent := some id }

def removeChild (id : NodeId) (child : Option NodeId) : Edit γ Unit := do
  let n ← read (·.node id)
  match child with
  | none =>
    make (·.modify id fun n => { n with children := [] })
    make (·.orphan id n.children)
  | some c =>
    make (·.modify id (·.withoutChild c))
    if c ∈ n.children then make (·.orphan id [c])

def remove (id : NodeId) : Edit γ Unit := do
  let n ← read (·.node id)
  if n.isRoot then throw (.rootRemoval id)
  match n.parent with
  | none => pure ()
  | some p => removeChild p (some id)
  change id fun n => { n with parent := none }

end Edit

/-- An operation step by step. Linking and grafting are sequences of steps as they are. -/
def Operation.steps : Operation γ → Edit γ Unit
  | insertRoot id content => Edit.insertRoot id content
  | insertContent id content => Edit.insert id .content (some content)
  | insertTree id content => Edit.insert id .tree content
  | editContent id f => Edit.make (·.editContent id f)
  | setParent id parent => Edit.setParent id parent
  | setChild id child => Edit.setChild id child
  | addChild id child => Edit.addChild id child
  | removeChild id child => Edit.removeChild id child
  | remove id => Edit.remove id
  | link nodes => discard (Graph.link nodes)
  | splice id branch => Graph.splice id branch

/-! ### Changes of the nodes -/

theorem ext_get? (h : ∀ x, g'.get? x = g.get? x) (hroot : g'.root = g.root)
    (hresumes : g'.resumes = g.resumes) : g' = g := by
  cases g
  cases g'
  obtain rfl := hroot
  obtain rfl := hresumes
  obtain rfl := Std.ExtTreeMap.ext_getElem? h
  rfl

theorem modify_modify (g : Graph γ) (id : NodeId) (f h : Node γ → Node γ) :
    (g.modify id f).modify id h = g.modify id (h ∘ f) := by
  refine ext_get? (fun x => ?_) rfl rfl
  simp only [get?_modify]
  split
  · rw [Option.map_map]
  · rfl

theorem modify_comm (g : Graph γ) (x y : NodeId) {f h : Node γ → Node γ}
    (hfh : ∀ n, f (h n) = h (f n)) : (g.modify x f).modify y h = (g.modify y h).modify x f := by
  refine ext_get? (fun z => ?_) rfl rfl
  simp only [get?_modify]
  by_cases hx : x = z <;> by_cases hy : y = z <;> cases g.get? z <;> simp [hx, hy, hfh]

theorem modify_eq_self {f : Node γ → Node γ} (hf : ∀ n, g.get? id = some n → f n = n) :
    g.modify id f = g := by
  refine ext_get? (fun x => ?_) rfl rfl
  rw [get?_modify]
  split
  · rename_i hx
    subst hx
    cases hn : g.get? id with
    | none => rfl
    | some n => exact congrArg some (hf n hn)
  · rfl

/-- Back references and lists of children are changed in any order. -/
theorem orphan_modify (g : Graph γ) (id x : NodeId) (nodes l : List NodeId) :
    (g.modify x fun n => { n with children := l }).orphan id nodes =
      (g.orphan id nodes).modify x fun n => { n with children := l } := by
  unfold orphan
  induction nodes generalizing g with
  | nil => rfl
  | cons c rest ih =>
    rw [List.foldl_cons, List.foldl_cons, modify_comm, ih]
    intro n
    unfold Node.orphanedFrom
    split <;> rfl

/-! ### Steps that are taken together -/

theorem read_of_ok {f : Graph γ → Except GraphError α} {a : α} (h : f g = .ok a) :
    Edit.read f g = .ok a g := by
  simp only [Edit.read, h]

theorem read_of_error {f : Graph γ → Except GraphError α} (h : f g = .error e) :
    Edit.read f g = .error e g := by
  simp only [Edit.read, h]

theorem attempt_of_error {f : Graph γ → Except GraphError (Graph γ)} (h : f g = .error e) :
    attempt f g = .error e g := by
  simp only [attempt, h]

theorem node_of_none (h : g.get? id = none) : g.node id = .error (.nodeNotFound id) := by
  simp only [node, h]

theorem bind_node_ok {k : Node γ → Edit γ β} (h : g.get? id = some n) :
    (Edit.read (·.node id) >>= k) g = k n g :=
  bind_of_ok (read_of_ok (f := (·.node id)) (node_eq_ok_iff.2 h))

theorem bind_node_error {k : Node γ → Edit γ β} (h : g.get? id = none) :
    (Edit.read (·.node id) >>= k) g = .error (.nodeNotFound id) g :=
  bind_of_error (read_of_error (f := (·.node id)) (node_of_none h))

theorem bind_checkChild_ok {k : Unit → Edit γ β} (h : g.checkChild id c = .ok ()) :
    (Edit.read (·.checkChild id c) >>= k) g = k () g :=
  bind_of_ok (read_of_ok (f := (·.checkChild id c)) h)

theorem bind_checkChild_error {k : Unit → Edit γ β} (h : g.checkChild id c = .error e) :
    (Edit.read (·.checkChild id c) >>= k) g = .error e g :=
  bind_of_error (read_of_error (f := (·.checkChild id c)) h)

theorem bind_make_apply {f : Graph γ → Graph γ} {k : Unit → Edit γ β} :
    (Edit.make f >>= k) g = k () (f g) := rfl

theorem contains_of_get? (h : g.get? id = some n) : g.contains id = true := by
  rw [contains_eq, h]
  rfl

theorem exists_get?_of_contains (h : g.contains id = true) : ∃ n, g.get? id = some n :=
  Option.isSome_iff_exists.1 (contains_eq g id ▸ h)

theorem contains_modify (g : Graph γ) (id x : NodeId) (f : Node γ → Node γ) :
    (g.modify id f).contains x = g.contains x := by
  rw [contains_eq, contains_eq, get?_modify]
  split <;> simp

theorem change_apply {f : Node γ → Node γ} (h : g.contains id = true) :
    Edit.change id f g = .ok () (g.modify id f) := by
  obtain ⟨n, hn⟩ := exists_get?_of_contains h
  unfold Edit.change
  rw [discard_bind_apply, bind_node_ok hn]
  rfl

theorem bind_change_apply {f : Node γ → Node γ} {k : Unit → Edit γ β} (h : g.contains id = true) :
    (Edit.change id f >>= k) g = k () (g.modify id f) :=
  bind_of_ok (change_apply h)

/-! ### Each operation is one step -/

theorem insert_steps (g : Graph γ) (id : NodeId) (kind : NodeKind) (content : Option γ) :
    Edit.insert id kind content g = attempt (·.insert id kind content) g := by
  unfold Edit.insert
  rw [bind_get_apply]
  by_cases hid : g.contains id = true
  · rw [if_pos hid, bind_throw_apply]
    exact (attempt_of_error (if_pos hid)).symm
  · rw [if_neg hid]
    exact (attempt_of_ok (if_neg hid)).symm

theorem insertRoot_steps (g : Graph γ) (id : NodeId) (content : Option γ) :
    Edit.insertRoot id content g = attempt (·.insertRoot id content) g := by
  unfold Edit.insertRoot
  rw [bind_get_apply]
  cases hr : g.root with
  | some r => exact (attempt_of_error (by simp only [Graph.insertRoot, hr])).symm
  | none =>
    have hinsert := insert_steps g id .root content
    cases hi : g.insert id .root content with
    | error e =>
      rw [attempt_of_error (f := (·.insert id .root content)) hi] at hinsert
      refine (bind_of_error hinsert).trans (attempt_of_error ?_).symm
      simp only [Graph.insertRoot, hr, hi]
      rfl
    | ok g₁ =>
      rw [attempt_of_ok (f := (·.insert id .root content)) hi] at hinsert
      refine (bind_of_ok hinsert).trans (attempt_of_ok ?_).symm
      simp only [Graph.insertRoot, hr, hi]
      rfl

theorem setParent_steps (g : Graph γ) (id : NodeId) (parent : Option NodeId) :
    Edit.setParent id parent g = attempt (·.setParent id parent) g := by
  unfold Edit.setParent
  cases hn : g.get? id with
  | none =>
    rw [bind_node_error hn]
    exact (attempt_of_error (by simp only [Graph.setParent, node_of_none hn, error_bind])).symm
  | some n =>
    have hid := contains_of_get? hn
    rw [bind_node_ok hn]
    cases parent with
    | none =>
      refine (change_apply hid).trans (attempt_of_ok ?_).symm
      simp only [Graph.setParent, node_eq_ok_iff.2 hn, ok_bind, pure_eq_ok]
    | some p =>
      by_cases hp : p = id
      · simp [attempt, Graph.setParent, node_eq_ok_iff.2 hn, hp]
      · by_cases hr : n.isRoot = true
        · simp [attempt, Graph.setParent, node_eq_ok_iff.2 hn, hp, hr]
        · cases hm : g.get? p with
          | none =>
            simp [attempt, Graph.setParent, node_eq_ok_iff.2 hn, hp, hr, node_of_none hm,
              discard_bind_apply, bind_node_error hm]
          | some m =>
            simp [attempt, Graph.setParent, node_eq_ok_iff.2 hn, hp, hr, node_eq_ok_iff.2 hm,
              discard_bind_apply, bind_node_ok hm, change_apply hid]

theorem clear_steps (g : Graph γ) (id : NodeId) :
    Edit.clear id g = attempt (·.setChild id none) g := by
  unfold Edit.clear
  cases hn : g.get? id with
  | none =>
    rw [bind_node_error hn]
    exact (attempt_of_error (by simp only [Graph.setChild, node_of_none hn, error_bind])).symm
  | some n =>
    rw [bind_node_ok hn, bind_change_apply (contains_of_get? hn), Edit.make, orphan_modify]
    refine (attempt_of_ok ?_).symm
    simp only [Graph.setChild, node_eq_ok_iff.2 hn, ok_bind, pure_eq_ok]

theorem adopt_steps (g : Graph γ) (id c : NodeId) :
    Edit.adopt id c g = attempt (·.setChild id (some c)) g := by
  unfold Edit.adopt
  cases hc : g.checkChild id c with
  | error e =>
    rw [bind_checkChild_error hc]
    exact (attempt_of_error (by simp only [Graph.setChild, hc, error_bind])).symm
  | ok u =>
    obtain ⟨hid, hne, hmov⟩ := checkChild_eq_ok_iff.1 hc
    have hd := (detach_spec g c id).1
    have hid₁ := (hd.contains id).trans hid
    obtain ⟨n, hn⟩ := exists_get?_of_contains hid₁
    have hlist : (g.detach c id).children id = n.children := by simp [children, hn]
    have ho := (SameEdges.orphan (g.detach c id) id (n.children.filter (· ≠ c))).toSameNodes
    rw [bind_checkChild_ok hc, bind_make_apply, bind_node_ok hn, bind_change_apply hid₁,
      bind_make_apply, orphan_modify, bind_change_apply, change_apply, modify_modify]
    · refine (attempt_of_ok ?_).symm
      simp only [Graph.setChild, hc, ok_bind, pure_eq_ok, hlist]
      rfl
    · rw [contains_modify, contains_modify, ho.contains, hd.contains, hmov.1]
    · rw [contains_modify, ho.contains, hid₁]

theorem setChild_steps (g : Graph γ) (id : NodeId) (c? : Option NodeId) :
    Edit.setChild id c? g = attempt (·.setChild id c?) g := by
  cases c? with
  | none => exact clear_steps g id
  | some c => exact adopt_steps g id c

theorem addChild_steps (g : Graph γ) (id c : NodeId) :
    Edit.addChild id c g = attempt (·.addChild id c) g := by
  unfold Edit.addChild
  cases hn : g.get? id with
  | none =>
    rw [bind_node_error hn]
    exact (attempt_of_error (by simp only [Graph.addChild, node_of_none hn, error_bind])).symm
  | some n =>
    rw [bind_node_ok hn]
    by_cases hk : n.kind ≠ .tree
    · rw [if_pos hk, adopt_steps]
      simp only [attempt, Graph.addChild, node_eq_ok_iff.2 hn, ok_bind, if_pos hk]
    · rw [if_neg hk]
      cases hc : g.checkChild id c with
      | error e =>
        rw [bind_checkChild_error hc]
        refine (attempt_of_error ?_).symm
        simp only [Graph.addChild, node_eq_ok_iff.2 hn, ok_bind, if_neg hk, hc, error_bind]
      | ok u =>
        obtain ⟨hid, hne, hmov⟩ := checkChild_eq_ok_iff.1 hc
        have hd := (detach_spec g c id).1
        rw [bind_checkChild_ok hc, bind_make_apply, bind_change_apply, change_apply]
        · refine (attempt_of_ok ?_).symm
          simp only [Graph.addChild, node_eq_ok_iff.2 hn, ok_bind, if_neg hk, hc, pure_eq_ok]
        · rw [contains_modify, hd.contains, hmov.1]
        · rw [hd.contains, hid]

theorem removeChild_steps (g : Graph γ) (id : NodeId) (c? : Option NodeId) :
    Edit.removeChild id c? g = attempt (·.removeChild id c?) g := by
  unfold Edit.removeChild
  cases hn : g.get? id with
  | none =>
    rw [bind_node_error hn]
    exact (attempt_of_error (by simp only [Graph.removeChild, node_of_none hn, error_bind])).symm
  | some n =>
    rw [bind_node_ok hn]
    cases c? with
    | none =>
      refine (attempt_of_ok ?_).symm
      simp only [Graph.removeChild, node_eq_ok_iff.2 hn, ok_bind, pure_eq_ok]
    | some c =>
      by_cases hc : c ∈ n.children
      · simp only [if_pos hc]
        refine (attempt_of_ok ?_).symm
        simp only [Graph.removeChild, node_eq_ok_iff.2 hn, ok_bind, if_pos hc, pure_eq_ok]
      · -- to take away a child that is not in the list changes nothing
        have hsame : g.modify id (·.withoutChild c) = g := by
          refine modify_eq_self fun m hm => ?_
          obtain rfl := Option.some.inj (hn.symm.trans hm)
          unfold Node.withoutChild
          rw [List.filter_eq_self.2]
          intro d hd
          rw [decide_eq_true_iff]
          rintro rfl
          exact hc hd
        simp only [if_neg hc]
        rw [bind_make_apply, hsame]
        refine (attempt_of_ok ?_).symm
        simp only [Graph.removeChild, node_eq_ok_iff.2 hn, ok_bind, if_neg hc, pure_eq_ok]

theorem sameNodes_of_removeChild (h : g.removeChild id c? = .ok g') : SameNodes g g' := by
  unfold Graph.removeChild at h
  obtain ⟨n, -, h⟩ := bind_eq_ok.1 h
  cases c? with
  | none =>
    obtain ⟨rfl⟩ := h
    exact (SameNodes.modify g id (fun n => { n with children := [] }) fun _ => rfl).trans
      (SameEdges.orphan _ _ _).toSameNodes
  | some c =>
    simp only at h
    split at h
    · obtain ⟨rfl⟩ := h
      exact (SameNodes.modify g id (·.withoutChild c) fun _ => rfl).trans
        (SameEdges.orphan _ _ _).toSameNodes
    · obtain ⟨rfl⟩ := h
      exact .refl g

theorem remove_steps (g : Graph γ) (id : NodeId) :
    Edit.remove id g = attempt (·.remove id) g := by
  unfold Edit.remove
  cases hn : g.get? id with
  | none =>
    rw [bind_node_error hn]
    exact (attempt_of_error (by simp only [Graph.remove, node_of_none hn, error_bind])).symm
  | some n =>
    rw [bind_node_ok hn]
    by_cases hr : n.isRoot = true
    · simp [attempt, Graph.remove, node_eq_ok_iff.2 hn, hr]
    · cases hp : n.parent with
      | none =>
        simp [attempt, Graph.remove, node_eq_ok_iff.2 hn, hr, hp,
          change_apply (contains_of_get? hn)]
      | some p =>
        have hsteps := removeChild_steps g p (some id)
        cases hg : g.removeChild p (some id) with
        | error e =>
          rw [attempt_of_error (f := (·.removeChild p (some id))) hg] at hsteps
          simp [attempt, Graph.remove, node_eq_ok_iff.2 hn, hr, hp, hg, bind_of_error hsteps]
        | ok g₁ =>
          rw [attempt_of_ok (f := (·.removeChild p (some id))) hg] at hsteps
          -- the node itself is still there behind the removal, so that its parent can be cleared
          have hid : g₁.contains id = true :=
            ((sameNodes_of_removeChild hg).contains id).trans (contains_of_get? hn)
          simp [attempt, Graph.remove, node_eq_ok_iff.2 hn, hr, hp, hg, bind_of_ok hsteps,
            change_apply hid]

/-- **No step fails once something was changed**, so that an operation may be taken for one step. -/
theorem Operation.steps_eq_run (op : Operation γ) (g : Graph γ) : op.steps g = op.run g := by
  cases op with
  | insertRoot id content => exact insertRoot_steps g id content
  | insertContent id content => exact insert_steps g id .content (some content)
  | insertTree id content => exact insert_steps g id .tree content
  | setParent id parent => exact setParent_steps g id parent
  | setChild id child => exact setChild_steps g id child
  | addChild id child => exact addChild_steps g id child
  | removeChild id child => exact removeChild_steps g id child
  | remove id => exact remove_steps g id
  | _ => rfl

end Storyline.Graph
