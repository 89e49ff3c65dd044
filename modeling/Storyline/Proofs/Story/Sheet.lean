import Storyline.Proofs.Story.Drafted
import Storyline.Proofs.Story.ListsInSequence
import Storyline.Proofs.World.Strokes

/-!
# Stories with every node in one list at most

* `Sheet`: the nodes that are in no list yet, and the lists that were given;
* `Sheeted w d`: calls lead to the world `w`, under the discipline that every node is put into one
  list at most. Elements may get any number of nodes, at any time;
* `Shape.Turns`, `ActionKind.Turns`: an element or an action turns to the given lists only;
* `World.HoldsLists w d`: the invariant of writing, and `Sheeted.holdsLists`;
* `World.HoldsLists.inSequence`: play follows the lists of such a world.
-/

namespace Storyline

open Effect Storyline.Tree World

/-- A node without rows of its own. -/
def Tree.leaf (n : NodeId) : Tree := .mk n .statement []

/-- What was written so far. -/
structure Sheet where
  /-- The nodes that are in no list yet. -/
  free : List NodeId := []
  /-- The lists that were given, of composites, branches, entries and units. -/
  rows : List (List NodeId) := []

namespace Sheet

/-- All lists. A node that is in none is a list of its own. -/
def lists (d : Sheet) : List (List NodeId) := d.free.map ([·]) ++ d.rows

def nodes (d : Sheet) : List NodeId := d.lists.flatten

/-- The lists as rows of trees that lead nowhere. -/
def forest (d : Sheet) : List (List Tree) := d.lists.map (·.map leaf)

end Sheet

/-- The nodes of a call that links them and answers a composite. -/
def Call.composes? : Call → Option (List NodeId)
  | sceneAction _ lists | storyAction _ lists => some lists.flatten
  | _ => none

/-- The nodes of a call that puts them into a list of a condition or a menu. -/
def Call.branch? : Call → Option (List NodeId)
  | when _ _ lists | elseWhen _ _ lists | otherwise _ lists | choose _ _ lists => some lists.flatten
  | _ => none

/-- What the calls that put nodes into lists, and those that give elements their nodes, make of a
sheet. -/
inductive Sheet.Enters (d : Sheet) : Call → List NodeId → Sheet → Prop
  | toAction {k : Kind} {e : ElementId} {n : NodeId} :
      Enters d (.toAction k e) [n] { d with free := n :: d.free }
  | composite {c : Call} {ns free : List NodeId} {n : NodeId} (hc : c.composes? = some ns)
      (hf : d.free.Perm (ns ++ free)) : Enters d c [n] { free := n :: free, rows := d.rows ++ [ns] }
  | branch {c : Call} {ns free known : List NodeId} (hc : c.branch? = some ns)
      (hf : d.free.Perm (ns ++ free)) : Enters d c known { free, rows := d.rows ++ [ns] }

instance : Register Sheet NodeId where
  empty := {}
  free := Sheet.free
  setFree d free := { d with free }
  nodes := id
  statement := id
  Enters _ := Sheet.Enters

/-- **Worlds with every node in one list at most.** -/
abbrev Sheeted : World → Sheet → Prop := Registered

/-! ### Leaves -/

namespace Tree

variable {ns : List NodeId} {ls : List (List NodeId)} {n : NodeId}

@[simp] theorem nodes_leaves (ns : List NodeId) : nodes (ns.map leaf) = ns := by
  unfold nodes
  rw [List.map_map]
  exact List.map_id ns

theorem within_leaves (ns : List NodeId) : within (ns.map leaf) = ns.map leaf := by
  unfold within
  rw [List.flatMap_map]
  exact List.flatMap_pure_eq_map leaf ns

theorem allRows_leaves (ls : List (List NodeId)) :
    allRows (ls.map (·.map leaf)) = ls.map (·.map leaf) := by
  unfold allRows
  rw [← List.map_flatten, within_leaves, List.flatMap_map]
  have hnone : ∀ n : NodeId, rows (leaf n) = [] := fun _ => rfl
  simp [hnone]

theorem mem_within_leaves (h : n ∈ ls.flatten) :
    leaf n ∈ within (ls.map (·.map leaf)).flatten := by
  rw [← List.map_flatten, within_leaves]
  exact List.mem_map_of_mem h

end Tree

namespace Sheet

variable {d : Sheet} {ns free : List NodeId} {n : NodeId} {r : List NodeId}

theorem forest_eq (d : Sheet) :
    d.forest = (d.free.map leaf).map ([·]) ++ d.rows.map (·.map leaf) := by
  unfold forest lists
  rw [List.map_append, List.map_map, List.map_map]
  rfl

theorem nodes_eq (d : Sheet) : d.nodes = d.free ++ d.rows.flatten := by
  unfold nodes lists
  rw [List.flatten_append]
  exact congrArg (· ++ _) (List.flatMap_pure_eq_map id d.free |>.trans (List.map_id _))

theorem mem_nodes_of_free (h : n ∈ d.free) : n ∈ d.nodes := by
  rw [nodes_eq]
  exact List.mem_append_left _ h

theorem perm_forest (hf : d.free.Perm (ns ++ free)) :
    d.forest.Perm ((ns.map leaf).map ([·]) ++ ({ d with free } : Sheet).forest) := by
  rw [forest_eq, forest_eq, ← List.append_assoc, ← List.map_append, ← List.map_append]
  exact ((hf.map leaf).map _).append_right _

theorem perm_forest_listed (d : Sheet) (ns free : List NodeId) :
    (ns.map leaf :: ({ d with free } : Sheet).forest).Perm
      ({ free, rows := d.rows ++ [ns] } : Sheet).forest := by
  rw [forest_eq, forest_eq, List.map_append, ← List.append_assoc]
  exact (List.perm_append_singleton _ _).symm

/-- The nodes that are kept, and those that are put into a list, were there before. -/
theorem perm_nodes_listed (hf : d.free.Perm (ns ++ free)) :
    ({ free, rows := d.rows ++ [ns] } : Sheet).nodes.Perm d.nodes := by
  rw [nodes_eq, nodes_eq, List.flatten_append, List.flatten_singleton]
  refine List.Perm.trans ?_ (hf.symm.append_right _)
  rw [← List.append_assoc]
  exact List.perm_append_comm.trans (by rw [List.append_assoc])

end Sheet

/-! ### What elements and actions turn to -/

/-- The ends of one of the given lists. -/
def Chain.Runs (rows : List (List NodeId)) (c : Chain) : Prop :=
  ∃ r ∈ rows, Chain.ofNodes? r = some c

/-- An element turns to the given lists only. -/
def Shape.Turns (rows : List (List NodeId)) : Shape → Prop
  | plain _ | script _ => True
  | story units => ∃ rs ⊆ rows, units = rs.flatten
  | condition _ chains fallback => ∀ c, some c ∈ chains ++ fallback.toList → c.Runs rows
  | menu chains => ∀ c, some c ∈ chains → c.Runs rows

/-- A composite action turns to one of the given lists. -/
def ActionKind.Turns (rows : List (List NodeId)) : ActionKind → Prop
  | scene chain | story chain => ∀ c, chain = some c → c.Runs rows
  | _ => True

section Turns

variable {rows rows' : List (List NodeId)} {ns : List NodeId} {kind : ActionKind} {s s' : Shape}
  {c : Chain}

theorem Chain.Runs.mono (h : c.Runs rows) (hr : rows ⊆ rows') : c.Runs rows' := by
  obtain ⟨r, hmem, hc⟩ := h
  exact ⟨r, hr hmem, hc⟩

theorem Shape.Turns.mono (h : s.Turns rows) (hr : rows ⊆ rows') : s.Turns rows' := by
  cases s with
  | plain | script => trivial
  | story units =>
    obtain ⟨rs, hrs, hu⟩ := h
    exact ⟨rs, List.Subset.trans hrs hr, hu⟩
  | condition tests chains fallback => exact fun c hc => (h c hc).mono hr
  | menu chains => exact fun c hc => (h c hc).mono hr

theorem ActionKind.Turns.mono (h : kind.Turns rows) (hr : rows ⊆ rows') : kind.Turns rows' := by
  cases kind with
  | scene chain | story chain => exact fun c hc => (h c hc).mono hr
  | _ => trivial

theorem ActionKind.turns_of_writer (h : kind.writer?.isSome) : kind.Turns rows := by
  cases kind with
  | scene | story => cases h
  | _ => trivial

/-- An element turns to what it turned to before, and to the list that is added. -/
theorem Shape.Turns.adds {slot : Slot} (h : s.Turns rows) (ha : Adds ns slot s s') :
    s'.Turns (rows ++ [ns]) := by
  have hmono := h.mono (List.subset_append_left rows [ns])
  have hnew : ∀ {chains : List (Option Chain)}, (∀ c, some c ∈ chains → c.Runs (rows ++ [ns])) →
      ∀ c, some c ∈ chains ++ [Chain.ofNodes? ns] → c.Runs (rows ++ [ns]) := by
    intro chains hold c hc
    rcases List.mem_append.1 hc with hc | hc
    · exact hold c hc
    · exact ⟨ns, List.mem_append_right _ List.mem_cons_self, (List.mem_singleton.1 hc).symm⟩
  cases ha with
  | unit =>
    obtain ⟨rs, hrs, rfl⟩ := hmono
    refine ⟨rs ++ [ns], List.append_subset.2 ⟨hrs, ?_⟩, ?_⟩
    · exact List.subset_append_right _ _
    · rw [List.flatten_append, List.flatten_singleton]
  | entry => exact hnew hmono
  | otherwise => exact hnew fun c hc => hmono c (by simpa using hc)
  | branch =>
    intro c hc
    refine hnew hmono c ?_
    simp only [List.mem_append] at hc ⊢
    tauto

end Turns

/-! ### Writing -/

/-- Nodes that nobody leads to may be linked, and the first of them may refer back to any node. -/
theorem Graph.lasting_tidy {S : NodeId → Prop} {ns : List NodeId} (htail : ∀ c ∈ ns.tail, ¬ S c)
    (hhead : ∀ c, ns.head? = some c → S c) : Lasting (Tidy S) ns where
  insert h hg := h.insert hg
  child hb h hg := h.setChild (fun _ hc => Option.some.inj hc ▸ htail _ hb) hg
  parent ha h hg := h.setParent (hhead _ ha) hg

namespace Call

variable {w w' : World} {c : Call} {ns : List NodeId} {rows : List (List NodeId)}

theorem nodes_of_given? (hc : c.given? = some ns) : c.nodes = ns := by
  cases c <;> first | exact Option.some.inj hc | cases hc

theorem given?_of_composes? (hc : c.composes? = some ns) : c.given? = some ns := by
  cases c <;> first | exact hc | cases hc

theorem given?_of_branch? (hc : c.branch? = some ns) : c.given? = some ns := by
  cases c <;> first | exact hc | cases hc

theorem nodes_of_isPlain (hc : c.IsPlain) : c.nodes = [] := by
  cases c <;> first | rfl | cases hc

theorem ne_setRoot_of_given? (hc : c.given? = some ns) (e : ElementId) : c ≠ setRoot e := by
  rintro rfl
  cases hc

/-- **A composite** that does not fail has linked its nodes and turns to them. So does a story. -/
theorem composite_run (rows : List (List NodeId)) (hs : w.Sized) (hw : w.Sound) (hc : c.composes? = some ns)
    (hl : w.Linkable ns) {n : NodeId} (hr : c.run w = .ok [n] w') :
    ∃ (a : Action) (w₁ : World), a.node = n ∧ n = ⟨w.ids.next⟩ ∧ Linked ns w w₁ ∧ Gains w₁ w' a ∧
      (ns ∈ rows → a.kind.Turns rows) ∧ ∀ e s, w₁.shape? e = some s →
        w.shape? e = some s ∨ ∃ old, w.shape? e = some old ∧ Adds ns (.unit e) old s := by
  -- only scenes and stories compose, of which the story lists its units too
  cases c with
  | sceneAction e lists =>
    obtain rfl := Option.some.inj hc
    rcases scene_run (e := e) hs hw hl with ⟨err, hr'⟩ | ⟨w₁, w₂, hr', hlinked, hshape, hg, -⟩
    · cases hr'.symm.trans hr
    · obtain ⟨hn, rfl⟩ := EStateM.Result.ok.inj (hr'.symm.trans hr)
      obtain ⟨rfl, -⟩ := List.cons.inj hn
      refine ⟨_, w₁, rfl, rfl, hlinked, hg, fun hns c hc => ⟨_, hns, hc⟩, fun e s he => ?_⟩
      rw [hshape] at he
      exact .inl he
  | storyAction e lists =>
    obtain rfl := Option.some.inj hc
    rcases World.action_run (α := Story) hs hw e hl with
      ⟨err, hr'⟩ | ⟨x, w₁, w₂, hr', hx, hlinked, hshape, hg⟩
    · have hrun : (storyAction e lists).run w = .error err w := bind_of_error hr'
      cases hrun.symm.trans hr
    · have hrun : (storyAction e lists).run w = .ok [⟨w.ids.next⟩] w₂ := bind_of_ok hr'
      obtain ⟨hn, rfl⟩ := EStateM.Result.ok.inj (hrun.symm.trans hr)
      obtain ⟨rfl, -⟩ := List.cons.inj hn
      refine ⟨_, w₁, rfl, rfl, hlinked, hg, fun hns c hc => ⟨_, hns, hc⟩, fun e' s he => ?_⟩
      have hid : x.id = e := hw.id e _ hx
      rw [hshape, shape?_put] at he
      split at he
      · rename_i he'
        obtain rfl : e = e' := hid.symm.trans he'
        obtain rfl := Option.some.inj he
        exact .inr ⟨_, shape?_of_get? hx, .unit⟩
      · exact .inl he
  | _ => cases hc

theorem toAction_spec (hs : w.Sized) {k : Kind} {e : ElementId} {n : NodeId}
    (hr : (toAction k e).run w = .ok [n] w') :
    n = ⟨w.ids.next⟩ ∧ ∃ kind : ActionKind, Gains w w' ⟨n, e, kind⟩ ∧ kind.Turns rows := by
  cases hk : runs? k with
  | none =>
    have hrun : (toAction k e).run w = .ok [] w := by
      cases k <;> first | rfl | cases hk
    cases (EStateM.Result.ok.inj (hrun.symm.trans hr)).1
  | some kind =>
    obtain ⟨hn, hg⟩ := toAction_eq_ok hs hk hr
    refine ⟨hn, kind, hg, ?_⟩
    cases k <;> cases hk <;> trivial

/-- **A branch** that does not fail has linked its nodes and is turned to. -/
theorem branch_run (hs : w.Sized) (hw : w.Sound) (hc : c.branch? = some ns) (hl : w.Linkable ns)
    {known : List NodeId} (hr : c.run w = .ok known w') : ∃ s : Slot, Listed s ns w w' := by
  have hlist : ∃ s, c.list? = some (s, ns) := by
    cases c <;> first | exact ⟨_, congrArg (fun ns => some (_, ns)) (Option.some.inj hc)⟩ | cases hc
  obtain ⟨s, hlist⟩ := hlist
  rcases list_run hs hw hlist hl with ⟨err, w₁, hr', -⟩ | ⟨known', w₁, hr', hlisted⟩
  · cases hr'.symm.trans hr
  · obtain ⟨-, rfl⟩ := EStateM.Result.ok.inj (hr'.symm.trans hr)
    exact ⟨s, hlisted⟩

end Call

namespace World

variable {w w' w₁ : World} {d : Sheet} {a : Action} {ns free : List NodeId} {rows : List (List NodeId)}
  {c : Call} {n : NodeId}

/-- **The invariant of writing.** -/
structure HoldsLists (w : World) (d : Sheet) : Prop where
  sized : w.Sized
  rowsLinked : RowsLinked d.forest w.graph
  tidy : Graph.Tidy (· ∈ d.free) w.graph
  kinds : ∀ n ∈ d.nodes, ∀ a, w.action? n = some a → a.kind.Turns d.rows
  shapes : ∀ e s, w.shape? e = some s → s.Turns d.rows

namespace HoldsLists

theorem movable (h : w.HoldsLists d) (hn : n ∈ d.nodes) : w.graph.Movable n :=
  h.rowsLinked.movable (leaf n) (mem_within_leaves hn)

theorem nodup (h : w.HoldsLists d) : d.nodes.Nodup := by
  have hdistinct := h.rowsLinked.distinct
  unfold Distinct Sheet.forest at hdistinct
  rw [← List.map_flatten, within_leaves, nodes_leaves] at hdistinct
  exact hdistinct

theorem parted (h : w.HoldsLists d) (hf : d.free.Perm (ns ++ free)) :
    RowsLinked ((ns.map leaf).map ([·]) ++ ({ d with free } : Sheet).forest) w.graph :=
  h.rowsLinked.subperm (Sheet.perm_forest hf).symm.subperm

theorem linkable (h : w.HoldsLists d) (hf : d.free.Perm (ns ++ free)) : w.Linkable ns := by
  have hl := linkable_of_rowsLinked (h.parted hf)
  rwa [nodes_leaves] at hl

/-- Nobody leads to nodes that stay free through a call, or that are new. -/
theorem left_tidy (h : w.HoldsLists d) (free : List NodeId) (hroot : ∀ e, c ≠ .setRoot e)
    (hf : d.free.Perm (c.nodes ++ free)) :
    Graph.Tidy (fun x => x ∈ free ∨ w.graph.contains x = false) (left (c.run w)).graph := by
  have hfree : ∀ x ∈ c.nodes, x ∈ d.free := fun x hx =>
    hf.mem_iff.2 (List.mem_append_left _ hx)
  have hnodup : (c.nodes ++ free).Nodup := by
    have hn := h.nodup
    rw [Sheet.nodes_eq] at hn
    exact hf.nodup_iff.1 (List.nodup_append.1 hn).1
  obtain ⟨hnodes, -, hne⟩ := List.nodup_append.1 hnodup
  have htidy : Graph.Tidy (fun x => (x ∈ d.free ∧ x ∉ c.nodes.tail) ∨
      w.graph.contains x = false) w.graph :=
    h.tidy.fresh.mono fun x hx => hx.imp_left (·.1)
  refine (Call.left_graph hroot (Graph.lasting_tidy (fun x hx hS => ?_) fun x hx => ?_) htidy).mono
    fun x hx => hx.imp_left fun hx => ⟨hf.mem_iff.2 (List.mem_append_right _ hx), fun hmem => ?_⟩
  · rcases hS with ⟨-, hS⟩ | hS
    · exact hS hx
    · rw [(h.movable (Sheet.mem_nodes_of_free (hfree x (List.mem_of_mem_tail hx)))).1] at hS
      cases hS
  · obtain ⟨rest, hrest⟩ := List.head?_eq_some_iff.1 hx
    refine .inl ⟨hfree x (List.mem_of_head? hx), fun hmem => ?_⟩
    rw [hrest] at hnodes hmem
    exact (List.nodup_cons.1 hnodes).1 hmem
  · exact hne x (List.mem_of_mem_tail hmem) x hx rfl

theorem kinds_extend (h : w.HoldsLists d) (hg : w.graph.Extended ns w'.graph) (hr : d.rows ⊆ rows)
    (hn : n ∈ d.nodes) (ha : w'.action? n = some a) : a.kind.Turns rows :=
  (h.kinds n hn a ((hg.content? (h.movable hn).1).symm.trans ha)).mono hr

theorem aside (h : w.HoldsLists d) (ha : Aside w w') (ht : Graph.Tidy (· ∈ d.free) w'.graph) :
    w'.HoldsLists d := by
  refine ⟨ha.sized, h.rowsLinked.extend ha.graph fun _ _ => List.not_mem_nil, ht,
    fun n hn a => h.kinds_extend ha.graph (List.Subset.refl _) hn, fun e s he => ?_⟩
  cases hold : w.shape? e with
  | some s' =>
    obtain rfl := Option.some.inj ((ha.kept e s' hold).symm.trans he)
    exact h.shapes e s' hold
  | none =>
    have hnew := ha.new e s hold he
    unfold Shape.IsNew at hnew
    split at hnew
    · trivial
    · trivial
    · exact ⟨[], List.nil_subset _, rfl⟩
    · exact fun c hc => absurd hc List.not_mem_nil
    · exact fun c hc => absurd hc List.not_mem_nil
    · cases hnew

theorem setRoot (h : w.HoldsLists d) (e : ElementId) : (left ((Call.setRoot e).run w)).HoldsLists d := by
  have hunit : ∀ units c, w.shape? e = some (.story units) → units.head? = some c →
      ∃ r ∈ d.rows, r.head? = some c := by
    intro units c he hc
    obtain ⟨rs, hrs, rfl⟩ := h.shapes e _ he
    rw [List.head?_flatten] at hc
    obtain ⟨r, hr, hrc⟩ := List.exists_of_findSome?_eq_some hc
    exact ⟨r, hrs hr, hrc⟩
  have hhead : ∀ units c, w.shape? e = some (.story units) → units.head? = some c →
      ∃ r ∈ d.forest, (nodes r).head? = some c := by
    intro units c he hc
    obtain ⟨r, hr, hrc⟩ := hunit units c he hc
    refine ⟨r.map leaf, ?_, by rwa [nodes_leaves]⟩
    rw [d.forest_eq]
    exact List.mem_append_right _ (List.mem_map_of_mem hr)
  rcases Call.left_setRoot h.sized h.rowsLinked hhead with hleft | ⟨units, g, he, hg, hleft⟩
  · rw [hleft]
    exact h
  · have hr := Graph.rewired_of_setChild hg
    rw [hleft]
    refine ⟨h.sized.rewired hr,
      h.rowsLinked.rewired hr (h.sized.ne_root h.rowsLinked) fun c hc => hhead units c he hc,
      h.tidy.setChild (fun c hc hfree => ?_) hg, fun n hn a ha => h.kinds n hn a ?_, h.shapes⟩
    · obtain ⟨r, hmem, hrc⟩ := hunit units c he hc
      have hn := h.nodup
      rw [Sheet.nodes_eq] at hn
      exact (List.nodup_append.1 hn).2.2 c hfree c
        (List.mem_flatten.2 ⟨r, hmem, List.mem_of_head? hrc⟩) rfl
    · exact (hr.content? n).symm.trans ha

theorem spent (h : w.HoldsLists d) (hf : d.free.Perm (ns ++ free)) (hsp : Spent ns w w')
    (ht : Graph.Tidy (· ∈ free) w'.graph) : w'.HoldsLists { d with free } := by
  have hrowsLinked : RowsLinked ({ d with free } : Sheet).forest w.graph :=
    (h.parted hf).subperm (List.sublist_append_right _ _).subperm
  have hnodes : ∀ n ∈ ({ d with free } : Sheet).nodes, n ∈ d.nodes := by
    intro n hn
    rw [Sheet.nodes_eq] at hn ⊢
    rcases List.mem_append.1 hn with hn | hn
    · exact List.mem_append_left _ (hf.mem_iff.2 (List.mem_append_right _ hn))
    · exact List.mem_append_right _ hn
  rcases hsp with rfl | ⟨hl, hshape⟩
  · exact ⟨h.sized, hrowsLinked, ht, fun n hn => h.kinds n (hnodes n hn), h.shapes⟩
  · have hapart := apart_of_rowsLinked (h.parted hf)
    rw [nodes_leaves] at hapart
    refine ⟨h.sized.linked hl fun e s he => ⟨s, by rw [← hshape, he]⟩,
      hrowsLinked.extend hl.graph hapart, ht,
      fun n hn a => h.kinds_extend hl.graph (List.Subset.refl _) (hnodes n hn), fun e s he => ?_⟩
    rw [hshape] at he
    exact h.shapes e s he

/-- Nodes are linked and are a list, which an element may turn to. -/
theorem listed (h : w.HoldsLists d) (hf : d.free.Perm (ns ++ free)) (hs : w'.Sized)
    (hg : w.graph.Extended ns w'.graph)
    (hlinks : ∀ a k, (a, k) ∈ links ns none → w'.graph.child? a = k)
    (hshape : ∀ e s, w'.shape? e = some s → w.shape? e = some s ∨
      ∃ slot old, w.shape? e = some old ∧ Adds ns slot old s)
    (ht : Graph.Tidy (· ∈ free) w'.graph) : w'.HoldsLists { free, rows := d.rows ++ [ns] } := by
  have hlink := @RowsLinked.link _ _ w.graph w'.graph (ns.map leaf) (h.parted hf)
    (by rwa [nodes_leaves]) (by rwa [nodes_leaves])
  refine ⟨hs, hlink.subperm (d.perm_forest_listed ns free).symm.subperm, ht, fun n hn a ha => ?_,
    fun e s he => ?_⟩
  · exact h.kinds_extend hg (List.subset_append_left _ _)
      ((Sheet.perm_nodes_listed hf).mem_iff.1 hn) ha
  · rcases hshape e s he with hold | ⟨slot, old, hold, hadds⟩
    · exact (h.shapes e s hold).mono (List.subset_append_left _ _)
    · exact (h.shapes e old hold).adds hadds

theorem alone (h : w.HoldsLists d) (ha : w.action? a.node = some a) (hm : w.graph.Movable a.node)
    (hc : w.graph.child? a.node = none) (hn : a.node ∉ d.nodes) (hk : a.kind.Turns d.rows)
    (ht : Graph.Tidy (fun x => x ∈ d.free ∨ x = a.node) w.graph) :
    w.HoldsLists { d with free := a.node :: d.free } := by
  refine ⟨h.sized, ?_, ht.mono fun x hx => (List.mem_cons.1 hx).symm, fun n hn b hb => ?_, h.shapes⟩
  · refine @RowsLinked.wrap _ d.forest _ [] a.node .statement h.rowsLinked hm hc fun t ht he => hn ?_
    rw [← he]
    have hmem : t.node ∈ nodes (within d.forest.flatten) := List.mem_map_of_mem ht
    unfold Sheet.forest at hmem
    rwa [← List.map_flatten, within_leaves, nodes_leaves] at hmem
  · have hcons : ({ d with free := a.node :: d.free } : Sheet).nodes = a.node :: d.nodes := by
      rw [Sheet.nodes_eq, Sheet.nodes_eq]
      rfl
    rw [hcons] at hn
    rcases List.mem_cons.1 hn with rfl | hn
    · obtain rfl := Option.some.inj (ha.symm.trans hb)
      exact hk
    · exact h.kinds n hn b hb

theorem gains (h : w.HoldsLists d) (hg : Gains w w' a) (hk : a.kind.Turns d.rows)
    (ht : Graph.Tidy (fun x => x ∈ d.free ∨ w.graph.contains x = false) w'.graph) :
    w'.HoldsLists { d with free := a.node :: d.free } := by
  have hfresh : w.graph.contains a.node = false := by
    rw [hg.node]
    exact h.sized.not_contains
  have ht' : Graph.Tidy (fun x => x ∈ d.free ∨ x = a.node) w'.graph :=
    ht.mono fun x hx => hx.imp_right (by rintro rfl; exact hfresh)
  refine (h.aside (hg.aside h.sized) (ht.mono fun _ => .inl)).alone hg.action? hg.movable hg.child?
    (fun hn => ?_) hk ht'
  rw [(h.movable hn).1] at hfresh
  cases hfresh

theorem new : World.new.HoldsLists {} := by
  have hchildren : ∀ p : NodeId, World.new.graph.children p = [] := by
    intro p
    unfold World.new Graph.withRoot Graph.children Graph.get?
    simp only
    rw [Std.ExtTreeMap.getElem?_insert]
    split <;> simp
  refine ⟨.new, ⟨.nil, nofun, nofun, fun _ => rfl⟩, ⟨⟨fun p => ?_, fun p => ?_⟩, fun p => ?_,
    fun p => ?_⟩, nofun, nofun⟩
  · rw [hchildren]
    exact Nat.zero_le 1
  all_goals
    rw [hchildren]
    exact fun c hc => absurd hc List.not_mem_nil

/-- **Play follows the lists** of such a world. -/
theorem inSequence (h : w.HoldsLists d) : ListsInSequence d.lists w.graph := by
  have hlinked : ∀ r ∈ d.lists, ∀ a k, (a, k) ∈ links r none → w.graph.child? a = k := by
    intro r hr a k hl
    refine h.rowsLinked.linked (r.map leaf) ?_ a k (by rwa [nodes_leaves])
    unfold Sheet.forest
    rw [allRows_leaves]
    exact List.mem_map_of_mem hr
  have hcont : ∀ a, w.graph.continuation a = w.graph.child? a := fun a =>
    Graph.continuation_of_none (h.rowsLinked.resumes a)
  -- where a node of a list leads stands behind it there
  have hbehind : ∀ t ∈ d.lists.flatten, ∀ c, w.graph.child? t = some c →
      ∃ r ∈ d.lists, (t, some c) ∈ links r none := by
    intro t ht c hc
    obtain ⟨r, hr, htr⟩ := List.mem_flatten.1 ht
    rw [← map_fst_links r none] at htr
    obtain ⟨⟨_, k⟩, hl, rfl⟩ := List.mem_map.1 htr
    obtain rfl := (hlinked r hr _ k hl).symm.trans hc
    exact ⟨r, hr, hl⟩
  refine ⟨h.tidy.toSinglyLinked, h.nodup, fun r hr a b hl => ?_, fun r hr a b hl ha t ht => ?_,
    fun t ht c hc => ?_, fun t ht c hc => ?_⟩
  · rw [hcont]
    exact hlinked r hr a (some b) hl
  · rw [h.rowsLinked.resumes] at ht
    cases ht
  · rw [hcont] at hc
    obtain ⟨r, hr, hl⟩ := hbehind t ht c hc
    have hmem := List.mem_of_mem_tail (mem_tail_of_links hl)
    exact ⟨List.mem_flatten.2 ⟨r, hr, hmem⟩, fun r' hr' => head?_ne_of_links h.nodup hr hl hr'⟩
  · obtain ⟨r, hr, hl⟩ := hbehind t ht c hc
    exact List.mem_flatten.2 ⟨r, hr, List.mem_of_mem_tail (mem_tail_of_links hl)⟩

theorem tidy_run (h : w.HoldsLists d) (hr : left (c.run w) = w') (hc : c.given? = some ns)
    (hf : d.free.Perm (ns ++ free)) :
    Graph.Tidy (fun x => x ∈ free ∨ w.graph.contains x = false) w'.graph := by
  subst hr
  rw [← Call.nodes_of_given? hc] at hf
  exact h.left_tidy free (Call.ne_setRoot_of_given? hc) hf

theorem composite (ih : w.HoldsLists d) (hw : w.Sound) (hc : c.composes? = some ns)
    (hf : d.free.Perm (ns ++ free)) (hr : c.run w = .ok [n] w') :
    w'.HoldsLists { free := n :: free, rows := d.rows ++ [ns] } := by
  have hl := ih.linkable hf
  obtain ⟨a, w₁, rfl, hn, hlinked, hg, hk, hshape⟩ :=
    Call.composite_run (d.rows ++ [ns]) ih.sized hw hc hl hr
  obtain ⟨hgraph, hlinks⟩ := hg.links hl.movable hlinked.graph hlinked.links
  -- the nodes leave the heap for a row, and the new node takes their place
  have ht := ih.tidy_run (congrArg left hr) (Call.given?_of_composes? hc) hf
  have hfresh : w.graph.contains a.node = false := by
    rw [hn]
    exact ih.sized.not_contains
  have hsized : w₁.Sized := by
    refine ih.sized.linked hlinked fun e s he => ?_
    rcases hshape e s he with hold | ⟨old, hold, -⟩
    · exact ⟨s, hold⟩
    · exact ⟨old, hold⟩
  have hlisted := ih.listed hf (hsized.gains hg) hgraph hlinks (fun e s he => ?_)
    (ht.mono fun _ => .inl)
  · have ht' : Graph.Tidy (fun x => x ∈ free ∨ x = a.node) w'.graph :=
      ht.mono fun x hx => hx.imp_right (by rintro rfl; exact hfresh)
    refine hlisted.alone hg.action? hg.movable hg.child? (fun hmem => ?_)
      (hk (List.mem_append_right _ List.mem_cons_self)) ht'
    rw [(ih.movable ((Sheet.perm_nodes_listed hf).mem_iff.1 hmem)).1] at hfresh
    cases hfresh
  · rw [hg.shape?] at he
    exact (hshape e s he).imp_right fun ⟨old, hold, hadds⟩ => ⟨_, old, hold, hadds⟩

theorem enters {d' : Sheet} {known : List NodeId} (ih : w.HoldsLists d) (hw : w.Sound)
    (he : d.Enters c known d') (hr : c.run w = .ok known w') : w'.HoldsLists d' := by
  cases he with
  | toAction =>
    obtain ⟨-, kind, hg, hk⟩ := Call.toAction_spec ih.sized hr
    exact ih.gains hg hk (ih.tidy_run (congrArg left hr) rfl (List.Perm.refl _))
  | composite hc hf => exact ih.composite hw hc hf hr
  | branch hc hf =>
    obtain ⟨s, hlisted⟩ := Call.branch_run ih.sized hw hc (ih.linkable hf) hr
    obtain ⟨old, new, hold, hadds, hshape⟩ := hlisted.shape?
    refine ih.listed hf hlisted.sized hlisted.graph hlisted.links (fun e s he => ?_)
      ((ih.tidy_run (congrArg left hr) (Call.given?_of_branch? hc) hf).mono fun _ => .inl)
    rw [hshape] at he
    split at he
    · subst e
      obtain rfl := Option.some.inj he
      exact .inr ⟨_, old, hold, hadds⟩
    · exact .inl he

end HoldsLists

end World

/-- **The invariant of writing** holds of every world with every node in one list at most. -/
theorem Sheeted.holdsLists {w : World} {d : Sheet} (h : Sheeted w d) : w.HoldsLists d := by
  induction h with
  | new => exact .new
  | @plain w d h c hc ih =>
    by_cases hroot : ∃ e, c = .setRoot e
    · obtain ⟨e, rfl⟩ := hroot
      exact ih.setRoot e
    · have hroot' : ∀ e, c ≠ .setRoot e := fun e he => hroot ⟨e, he⟩
      refine ih.aside (Call.plain_run ih.sized h.sound hc hroot') ?_
      exact (ih.left_tidy d.free hroot' (by rw [Call.nodes_of_isPlain hc]; rfl)).mono
        fun _ => .inl
  | fails h hc hf hr ih =>
    exact ih.spent hf (Call.fails_run ih.sized h.sound hc (ih.linkable hf) hr)
      ((ih.tidy_run (congrArg left hr) hc hf).mono fun _ => .inl)
  | @append w w' d h e kind known hk hr ih =>
    rcases Call.append_run (e := e) ih.sized h.sound hk with ⟨err, hr'⟩ | ⟨w₁, hr', hg, -⟩
    · cases hr'.symm.trans hr
    · obtain ⟨-, rfl⟩ := EStateM.Result.ok.inj (hr'.symm.trans hr)
      exact ih.gains hg (ActionKind.turns_of_writer hk)
        (ih.tidy_run (congrArg left hr) rfl (List.Perm.refl _))
  | enters h c known he hr ih => exact ih.enters h.sound he hr

end Storyline
