import Storyline.Proofs.Graph.Reached

/-!
# Edges and back references agree

* `Paired g`: a node is in the list of children of exactly the node that it refers back to;
* `Relisted g id c? l g'`: what all operations on edges come down to: `id` gets the list `l`, the
  new child among it leaves the list that it was in, and whoever is not listed any more refers to
  no parent;
* `Grown g`: a graph made by operations, none of which sets a back reference alone;
* `Grown.moves`: in such a graph edges and back references agree, and whoever becomes a child is
  moved there: it leaves the list of every other node, and nothing else does.
-/

namespace Storyline.Graph

open Effect

variable {γ : Type} {g g' : Graph γ} {id x y c p : NodeId} {c? : Option NodeId}
  {l : List NodeId}

/-- A node is in the list of the node that it refers back to, and in no other. -/
def Paired (g : Graph γ) : Prop := ∀ p c, c ∈ g.children p ↔ g.parent? c = some p

theorem Paired.unique (h : Paired g) (hx : c ∈ g.children x) (hy : c ∈ g.children y) : x = y :=
  Option.some.inj (((h x c).1 hx).symm.trans ((h y c).1 hy))

/-! ### One changed node -/

/-- A change of the list of one node. A node that is not there has no children. -/
theorem children_modify (g : Graph γ) (id x : NodeId) {f : Node γ → Node γ}
    (F : List NodeId → List NodeId) (hf : ∀ n, (f n).children = F n.children)
    (hF : g.contains id = false → F [] = []) :
    (g.modify id f).children x = if x = id then F (g.children id) else g.children x := by
  by_cases hx : x = id
  · subst hx
    rw [if_pos rfl]
    unfold children
    rw [get?_modify, if_pos rfl]
    cases hg : g.get? x with
    | none => simpa using (hF (by rw [contains_eq, hg]; rfl)).symm
    | some n => simp [hf]
  · rw [if_neg hx, children_modify_other g hx]

theorem parent?_modify (g : Graph γ) (id x : NodeId) {f : Node γ → Node γ}
    (F : Option NodeId → Option NodeId) (hf : ∀ n, (f n).parent = F n.parent)
    (hF : g.contains id = false → F none = none) :
    (g.modify id f).parent? x = if x = id then F (g.parent? id) else g.parent? x := by
  unfold parent?
  rw [get?_modify]
  by_cases hx : x = id
  · subst hx
    rw [if_pos rfl, if_pos rfl]
    cases hg : g.get? x with
    | none => simpa using (hF (by rw [contains_eq, hg]; rfl)).symm
    | some n => simp [hf]
  · rw [if_neg (Ne.symm hx), if_neg hx]

theorem parent?_modify_of_parent (g : Graph γ) (id x : NodeId) {f : Node γ → Node γ}
    (hf : ∀ n, (f n).parent = n.parent) : (g.modify id f).parent? x = g.parent? x := by
  rw [parent?_modify g id x (fun q => q) hf fun _ => rfl]
  split
  · rename_i hx
    rw [hx]
  · rfl

theorem parent?_orphan (g : Graph γ) (id y : NodeId) (nodes : List NodeId) :
    (g.orphan id nodes).parent? y =
      if y ∈ nodes ∧ g.parent? y = some id then none else g.parent? y := by
  unfold orphan
  induction nodes generalizing g with
  | nil => simp
  | cons c rest ih =>
    have hc := parent?_modify g c y (f := (·.orphanedFrom id))
      (fun q => if q = some id then none else q)
      (fun n => by unfold Node.orphanedFrom; split <;> simp_all) fun _ => rfl
    rw [List.foldl_cons, ih, hc]
    by_cases hy : y = c
    · subst hy
      by_cases hp : g.parent? y = some id <;> simp [hp]
    · simp [hy]

theorem children_detach (g : Graph γ) (c keep x : NodeId) :
    (g.detach c keep).children x =
      if g.parent? c = some x ∧ x ≠ keep then (g.children x).filter (· ≠ c)
      else g.children x := by
  unfold detach
  -- a node without a parent, or in the list of `keep` itself, is taken out of no list
  cases hp : g.parent? c with
  | none => simp
  | some p =>
    by_cases hk : p = keep
    · subst hk
      simp only [if_true]
      split
      · rename_i h
        exact absurd (Option.some.inj h.1) (Ne.symm h.2)
      · rfl
    · have hlist := (SameEdges.modify (g.modify p (·.withoutChild c)) c
        (fun n => { n with parent := none }) fun _ => ⟨rfl, rfl⟩).children x
      have hx := children_modify g p x (f := (·.withoutChild c)) (·.filter (· ≠ c))
        (fun _ => rfl) fun _ => rfl
      simp only [hk, if_false]
      rw [hlist, hx]
      by_cases he : x = p
      · subst he
        simp [hk]
      · simp [he, Ne.symm he]

theorem parent?_detach (g : Graph γ) (c keep y : NodeId) :
    (g.detach c keep).parent? y =
      if y = c ∧ g.parent? c ≠ some keep then none else g.parent? y := by
  unfold detach
  cases hp : g.parent? c with
  | none =>
    by_cases hy : y = c
    · subst hy
      simp [hp]
    · simp [hy]
  | some p =>
    by_cases hk : p = keep
    · simp [hk]
    · have hc := parent?_modify (g.modify p (·.withoutChild c)) c y
        (f := fun n => { n with parent := none }) (fun _ => none) (fun _ => rfl) fun _ => rfl
      have hold := parent?_modify_of_parent g p y (f := (·.withoutChild c)) fun _ => rfl
      simp only [hk, if_false]
      rw [hc, hold]
      by_cases hy : y = c <;> simp [hy, hk]

/-! ### A new list of children -/

/-- `g'` is `g` with the list `l` for `id`, of which `c?` is a new entry and all others are old. -/
structure Relisted (g : Graph γ) (id : NodeId) (c? : Option NodeId) (l : List NodeId)
    (g' : Graph γ) : Prop where
  added : ∀ c, c? = some c → c ∈ l
  old : ∀ y ∈ l, c? = some y ∨ y ∈ g.children id
  self : g'.children id = l
  other : ∀ x, x ≠ id → g'.children x =
    if c?.any (g.parent? · = some x) then (g.children x).filter (some · ≠ c?) else g.children x
  parent : ∀ y, g'.parent? y =
    if c? = some y then some id
    else if y ∈ g.children id ∧ y ∉ l ∧ g.parent? y = some id then none else g.parent? y

namespace Relisted

/-- In a list that a node is not in, there is nothing to take out. -/
theorem children_other (h : Relisted g id c? l g') (hg : Paired g) (hx : x ≠ id) :
    g'.children x = (g.children x).filter (some · ≠ c?) := by
  rw [h.other x hx]
  split
  · rfl
  · rename_i hp
    refine (List.filter_eq_self.2 fun y hy => ?_).symm
    rw [decide_eq_true_iff]
    rintro rfl
    exact hp (by simpa using (hg x y).1 hy)

theorem paired (h : Relisted g id c? l g') (hg : Paired g) : Paired g' := by
  intro p c
  rw [h.parent]
  -- at `id` the list is the new one; every other list has lost `c` and nothing else
  by_cases hp : p = id
  · subst hp
    rw [h.self]
    constructor
    · intro hc
      rcases h.old c hc with rfl | hold
      · rw [if_pos rfl]
      · split
        · rfl
        · rw [if_neg fun hout => hout.2.1 hc]
          exact (hg p c).1 hold
    · intro hc
      split at hc
      · rename_i hnew
        exact h.added c hnew
      · split at hc
        · cases hc
        · rename_i hout
          exact Decidable.byContradiction fun hcl => hout ⟨(hg p c).2 hc, hcl, hc⟩
  · rw [h.children_other hg hp, List.mem_filter, decide_eq_true_iff, hg p c]
    constructor
    · rintro ⟨hc, hnew⟩
      rw [if_neg (Ne.symm hnew), if_neg]
      · exact hc
      · rintro ⟨-, -, hid⟩
        exact hp (Option.some.inj (hc.symm.trans hid))
    · intro hc
      split at hc
      · exact absurd (Option.some.inj hc).symm hp
      · rename_i hnew
        split at hc
        · cases hc
        · exact ⟨hc, Ne.symm hnew⟩

end Relisted

/-! ### The operations on edges -/

theorem relisted_of_setChild (h : g.setChild id c? = .ok g') : Relisted g id c? c?.toList g' := by
  cases c? with
  | none =>
    simp only [setChild, bind_eq_ok, node_eq_ok_iff] at h
    obtain ⟨n, hn, ⟨⟩⟩ := h
    -- without a child all children of `id` are orphaned
    have hlist : n.children = g.children id := by simp [children, hn]
    have hchildren : ∀ x, ((g.orphan id n.children).modify id fun n =>
        { n with children := [] }).children x = if x = id then [] else g.children x := by
      intro x
      rw [children_modify _ id x (fun _ => []) (fun _ => rfl) fun _ => rfl,
        (SameEdges.orphan g id n.children).children]
    refine ⟨fun _ hn => absurd hn (Option.some_ne_none _).symm, fun _ hy => absurd hy List.not_mem_nil,
      ?_, fun x hx => ?_, fun y => ?_⟩
    · rw [hchildren, if_pos rfl]; rfl
    · rw [hchildren, if_neg hx]; rfl
    · rw [parent?_modify_of_parent _ id y (f := fun n => { n with children := [] }) fun _ => rfl,
        parent?_orphan, hlist]
      simp
  | some c =>
    simp only [setChild, bind_eq_ok] at h
    obtain ⟨⟨⟩, hc, ⟨⟩⟩ := h
    obtain ⟨hid, hne, hmov⟩ := checkChild_eq_ok_iff.1 hc
    -- `c` is detached, the other children are orphaned, and `c` becomes the only one
    have hself : (g.detach c id).children id = g.children id := by simp [children_detach]
    rw [hself]
    have ho := SameEdges.orphan (g.detach c id) id ((g.children id).filter (· ≠ c))
    have hn := ((detach_spec g c id).1.trans ho.toSameNodes).trans
      (.modify _ id (fun n => { n with children := [c] }) fun _ => rfl)
    have hchildren : ∀ x, ((((g.detach c id).orphan id ((g.children id).filter (· ≠ c))).modify id
        fun n => { n with children := [c] }).modify c fun n => { n with parent := some id }).children
          x = if x = id then [c] else (g.detach c id).children x := by
      intro x
      rw [(SameEdges.modify _ c (fun n => { n with parent := some id }) fun _ =>
        ⟨rfl, rfl⟩).children, children_modify _ id x (fun _ => [c]) (fun _ => rfl), ho.children]
      intro hf
      rw [ho.contains, (detach_spec g c id).1.contains, hid] at hf
      cases hf
    refine ⟨?_, ?_, ?_, fun x hx => ?_, fun y => ?_⟩
    · rintro _ ⟨⟩; exact List.mem_singleton_self c
    · intro y hy
      exact .inl (congrArg some (List.mem_singleton.1 hy).symm)
    · rw [hchildren, if_pos rfl]; rfl
    · rw [hchildren, if_neg hx, children_detach]
      simp [hx]
    · rw [parent?_modify _ c y (fun _ => some id) (fun _ => rfl),
        parent?_modify_of_parent _ id y (f := fun n => { n with children := [c] }) fun _ => rfl,
        parent?_orphan, parent?_detach]
      · by_cases hy : y = c
        · simp [hy]
        · simp [hy, Ne.symm hy]
      · intro hf
        rw [hn.contains, hmov.1] at hf
        cases hf

/-- Adding a child: to the list of a tree node, or as the only one. -/
theorem relisted_of_addChild (h : g.addChild id c = .ok g') :
    ∃ l, Relisted g id (some c) l g' := by
  unfold addChild at h
  obtain ⟨n, -, h⟩ := bind_eq_ok.1 h
  split at h
  · exact ⟨[c], relisted_of_setChild h⟩
  · -- behind other children `c` is appended, unless it is one of them
    obtain ⟨⟨⟩, hc, h⟩ := bind_eq_ok.1 h
    obtain ⟨rfl⟩ := h
    obtain ⟨hid, hne, hmov⟩ := checkChild_eq_ok_iff.1 hc
    have hd := (detach_spec g c id).1
    have hself : (g.detach c id).children id = g.children id := by simp [children_detach]
    have hn := hd.trans (.modify _ id (fun n =>
      if c ∈ n.children then n else { n with children := n.children ++ [c] })
        fun n => by split <;> rfl)
    have hchildren : ∀ x, (((g.detach c id).modify id fun n =>
        if c ∈ n.children then n else { n with children := n.children ++ [c] }).modify c
          fun n => { n with parent := some id }).children x =
        if x = id then (if c ∈ g.children id then g.children id else g.children id ++ [c])
        else (g.detach c id).children x := by
      intro x
      rw [(SameEdges.modify _ c (fun n => { n with parent := some id }) fun _ =>
        ⟨rfl, rfl⟩).children, children_modify _ id x (fun l => if c ∈ l then l else l ++ [c])
          (fun n => by split <;> rfl), hself]
      intro hf
      rw [hd.contains, hid] at hf
      cases hf
    refine ⟨if c ∈ g.children id then g.children id else g.children id ++ [c],
      ?_, ?_, ?_, fun x hx => ?_, fun y => ?_⟩
    · rintro _ ⟨⟩
      split
      · assumption
      · simp
    · intro y hy
      split at hy
      · exact .inr hy
      · rcases List.mem_append.1 hy with hy | hy
        · exact .inr hy
        · exact .inl (congrArg some (List.mem_singleton.1 hy).symm)
    · rw [hchildren, if_pos rfl]
    · rw [hchildren, if_neg hx, children_detach]
      simp [hx]
    · rw [parent?_modify _ c y (fun _ => some id) (fun _ => rfl), parent?_modify_of_parent _ id y
        (f := fun n => if c ∈ n.children then n else { n with children := n.children ++ [c] })
        (fun n => by split <;> rfl), parent?_detach]
      · by_cases hy : y = c
        · simp [hy]
        · rw [if_neg hy, if_neg fun h => hy h.1, if_neg fun h => hy (Option.some.inj h).symm, if_neg]
          rintro ⟨hin, hout, -⟩
          split at hout
          · exact hout hin
          · exact hout (List.mem_append_left _ hin)
      · intro hf
        rw [hn.contains, hmov.1] at hf
        cases hf

theorem relisted_of_removeChild (h : g.removeChild id c? = .ok g') :
    ∃ l, Relisted g id none l g' ∧ ∀ c, c? = some c → c ∉ l := by
  unfold removeChild at h
  obtain ⟨n, hn, h⟩ := bind_eq_ok.1 h
  have hlist : n.children = g.children id := by simp [children, node_eq_ok_iff.1 hn]
  cases c? with
  -- without a node to remove every child goes
  | none =>
    obtain ⟨rfl⟩ := h
    have hchildren : ∀ x, ((g.modify id fun n => { n with children := [] }).orphan id
        n.children).children x = if x = id then [] else g.children x := by
      intro x
      rw [(SameEdges.orphan _ _ _).children, children_modify g id x (fun _ => []) (fun _ => rfl)
        fun _ => rfl]
    refine ⟨[], ⟨fun _ hn => absurd hn (Option.some_ne_none _).symm,
      fun _ hy => absurd hy List.not_mem_nil, ?_, fun x hx => ?_, fun y => ?_⟩,
      fun _ _ => List.not_mem_nil⟩
    · rw [hchildren, if_pos rfl]
    · rw [hchildren, if_neg hx]; rfl
    · rw [parent?_orphan, hlist,
        parent?_modify_of_parent g id y (f := fun n => { n with children := [] }) fun _ => rfl]
      simp
  | some c =>
    simp only at h
    split at h
    · -- the node is a child of `id` and goes alone
      rename_i hc
      obtain ⟨rfl⟩ := h
      have hchildren : ∀ x, ((g.modify id (·.withoutChild c)).orphan id [c]).children x =
          if x = id then (g.children id).filter (· ≠ c) else g.children x := by
        intro x
        rw [(SameEdges.orphan _ _ _).children,
          children_modify g id x (·.filter (· ≠ c)) (fun _ => rfl) fun _ => rfl]
      refine ⟨(g.children id).filter (· ≠ c), ⟨fun _ hn => absurd hn (Option.some_ne_none _).symm,
        fun y hy => .inr (List.mem_filter.1 hy).1, ?_, fun x hx => ?_, fun y => ?_⟩,
        by rintro _ ⟨⟩; simp⟩
      · rw [hchildren, if_pos rfl]
      · rw [hchildren, if_neg hx]; rfl
      · rw [parent?_orphan, parent?_modify_of_parent g id y (f := (·.withoutChild c)) fun _ => rfl]
        by_cases hy : y = c
        · subst hy
          simp [hlist ▸ hc]
        · simp only [List.mem_singleton, hy, false_and, if_false, List.mem_filter]
          rw [if_neg (Option.some_ne_none y).symm, if_neg fun h => h.2.1 ⟨h.1, by simpa using hy⟩]
    · -- the node is no child of `id`, and nothing changes
      rename_i hc
      obtain ⟨rfl⟩ := h
      refine ⟨g.children id, ⟨fun _ hn => absurd hn (Option.some_ne_none _).symm, fun y hy => .inr hy,
        rfl, fun x _ => rfl, fun y => ?_⟩, ?_⟩
      · rw [if_neg (Option.some_ne_none y).symm, if_neg fun h => h.2.1 h.1]
      · rintro _ ⟨⟩
        exact hlist ▸ hc

/-! ### Every operation -/

theorem edges_insert {kind : NodeKind} {content : Option γ}
    (hg : g.insert id kind content = .ok g') (x : NodeId) :
    g'.children x = g.children x ∧ g'.parent? x = g.parent? x := by
  obtain ⟨hid, -, -, hget⟩ := insert_eq_ok hg
  unfold Graph.children Graph.parent?
  rw [hget]
  split
  · rename_i hx
    simp [← hx, hid]
  · exact ⟨rfl, rfl⟩

theorem Paired.insert {kind : NodeKind} {content : Option γ} (h : Paired g)
    (hg : g.insert id kind content = .ok g') : Paired g' := by
  intro p c
  rw [(edges_insert hg p).1, (edges_insert hg c).2]
  exact h p c

theorem Paired.insertRoot {content : Option γ} (h : Paired g)
    (hg : g.insertRoot id content = .ok g') : Paired g' := by
  unfold Graph.insertRoot at hg
  split at hg
  · cases hg
  · cases hi : g.insert id .root content with
    | error e => simp [hi, Except.map] at hg
    | ok g₁ =>
      obtain rfl : { g₁ with root := some id } = g' := by simpa [hi, Except.map] using hg
      exact (h.insert hi : Paired g₁)

/-- A removed node refers to no parent already, once it is taken from the list it was in. -/
theorem Paired.remove (h : Paired g) (hg : g.remove id = .ok g') : Paired g' := by
  -- where the node is in no list any more, its parent may be forgotten
  have hlast : ∀ {k : Graph γ}, Paired k → k.parent? id = none →
      Paired (k.modify id fun n => { n with parent := none }) := by
    intro k hk hp q c
    rw [(SameEdges.modify k id (fun n => { n with parent := none }) fun _ => ⟨rfl, rfl⟩).children,
      parent?_modify k id c (fun _ => none) (fun _ => rfl) fun _ => rfl]
    split
    · rename_i hc
      rw [hc, hk, hp]
    · exact hk q c
  unfold Graph.remove at hg
  obtain ⟨n, hn, hg⟩ := bind_eq_ok.1 hg
  have hparent : g.parent? id = n.parent := by simp [Graph.parent?, node_eq_ok_iff.1 hn]
  cases hr : n.isRoot with
  | true => simp [hr] at hg
  | false =>
    cases hp : n.parent with
    | none =>
      simp only [hr, hp, Bool.false_eq_true, if_false, pure_eq_ok, ok_bind, Except.ok.injEq] at hg
      exact hg ▸ hlast h (hparent.trans hp)
    | some p =>
      simp only [hr, hp, Bool.false_eq_true, if_false, pure_eq_ok] at hg
      obtain ⟨g₁, hg₁, ⟨⟩⟩ := bind_eq_ok.1 hg
      obtain ⟨l, hl, hout⟩ := relisted_of_removeChild hg₁
      refine hlast (hl.paired h) ?_
      -- the list of `p` has lost the node, so that its parent was cleared as well
      rw [hl.parent, if_neg nofun, if_pos]
      have hid := hparent.trans hp
      exact ⟨(h p id).2 hid, hout id rfl, hid⟩

/-- Operations that set edges and the references back together. -/
def Operation.SetsBoth : Operation γ → Prop
  | setParent _ _ => False
  | _ => True

theorem Paired.run (h : Paired g) {op : Operation γ} (hop : op.SetsBoth) :
    Paired (left (op.run g)) := by
  have hset : ∀ {k k' : Graph γ} {x c?}, Paired k → k.setChild x c? = .ok k' → Paired k' :=
    fun hk hg => (relisted_of_setChild hg).paired hk
  cases op with
  | insertRoot id content =>
    exact left_attempt (f := (·.insertRoot id content)) h fun _ => h.insertRoot
  | insertContent id content =>
    exact left_attempt (f := (·.insertContent id content)) h fun _ => h.insert
  | insertTree id content => exact left_attempt (f := (·.insertTree id content)) h fun _ => h.insert
  | editContent id f =>
    -- an edit of the content concerns neither side
    intro p c
    have he := children_modify g id p (f := fun n => { n with content := n.content.map f })
      (fun l => l) (fun _ => rfl) fun _ => rfl
    have hp := parent?_modify_of_parent g id c (f := fun n => { n with content := n.content.map f })
      fun _ => rfl
    show c ∈ (g.editContent id f).children p ↔ (g.editContent id f).parent? c = some p
    unfold Graph.editContent
    rw [he, hp]
    split
    · rename_i hpid
      rw [hpid]
      exact h id c
    · exact h p c
  | setParent id parent => exact hop.elim
  | setChild id child => exact left_attempt (f := (·.setChild id child)) h fun _ => hset h
  | addChild id child =>
    exact left_attempt (f := (·.addChild id child)) h fun _ hg =>
      (relisted_of_addChild hg).elim fun _ hl => hl.paired h
  | removeChild id child =>
    exact left_attempt (f := (·.removeChild id child)) h fun _ hg =>
      (relisted_of_removeChild hg).elim fun _ hl => hl.1.paired h
  | remove id => exact left_attempt (f := (·.remove id)) h fun _ => h.remove
  | link nodes =>
    show Paired (left (discard (Graph.link nodes) g))
    rw [left_discard]
    exact left_link hset h nodes
  | splice id branch => exact left_splice hset h (fun _ => h) branch

/-- Graphs made by operations that set edges and the references back together, whether these succeed
or fail. -/
inductive Grown : Graph γ → Prop
  | empty : Grown {}
  | withRoot (id : NodeId) : Grown (.withRoot id)
  | step {g : Graph γ} (h : Grown g) (op : Operation γ) (hop : op.SetsBoth) :
      Grown (left (op.run g))

theorem Grown.runAll (h : g.Grown) (ops : List (Operation γ)) (hops : ∀ op ∈ ops, op.SetsBoth) :
    (g.runAll ops).Grown := by
  induction ops generalizing g with
  | nil => exact h
  | cons op rest ih =>
    exact ih (h.step op (hops op (by simp))) fun o ho => hops o (List.mem_cons_of_mem op ho)

theorem Grown.paired (h : Grown g) : Paired g := by
  induction h with
  | empty => intro p c; simp [children, parent?, get?]
  | withRoot id =>
    intro p c
    unfold children parent?
    rw [get?_withRoot, get?_withRoot]
    split <;> split <;> simp
  | step h op hop ih => exact ih.run hop

/-- **Nodes are moved, never copied.** -/
theorem Grown.moves (h : Grown g) :
    (∀ p c, c ∈ g.children p ↔ g.parent? c = some p) ∧
      (∀ p q c, c ∈ g.children p → c ∈ g.children q → p = q) ∧
      ∀ id c g', g.setChild id (some c) = .ok g' ∨ g.addChild id c = .ok g' →
        c ∈ g'.children id ∧ ∀ x, x ≠ id → g'.children x = (g.children x).filter (· ≠ c) := by
  have hp := h.paired
  refine ⟨hp, fun p q c => hp.unique, fun id c g' hg => ?_⟩
  obtain ⟨l, hl⟩ : ∃ l, Relisted g id (some c) l g' :=
    hg.elim (fun hs => ⟨_, relisted_of_setChild hs⟩) relisted_of_addChild
  refine ⟨hl.self ▸ hl.added c rfl, fun x hx => ?_⟩
  rw [hl.children_other hp hx]
  exact List.filter_congr fun y _ => by simp

/-- A tree node 5 over 1, 2 and 3, before 2 is set behind 4. -/
def threeLeaves : Graph Unit :=
  (withRoot ⟨0⟩).runAll <|
    ([1, 2, 3, 4].map fun n => .insertContent ⟨n⟩ ()) ++
      [.insertTree ⟨5⟩ none, .addChild ⟨5⟩ ⟨1⟩, .addChild ⟨5⟩ ⟨2⟩, .addChild ⟨5⟩ ⟨3⟩]

theorem moves_threeLeaves :
    ∃ g', threeLeaves.setChild ⟨4⟩ (some ⟨2⟩) = .ok g' ∧ ⟨2⟩ ∈ g'.children ⟨4⟩ ∧
      g'.children ⟨5⟩ = [⟨1⟩, ⟨3⟩] := by
  have hgrown : Grown threeLeaves :=
    (Grown.withRoot _).runAll _ (by simp [Operation.SetsBoth])
  obtain ⟨g', hg'⟩ : ∃ g', threeLeaves.setChild ⟨4⟩ (some ⟨2⟩) = .ok g' :=
    setChild_eq_ok_iff.2 ⟨by decide +kernel, by rintro _ ⟨⟩; decide +kernel⟩
  obtain ⟨hin, hother⟩ := (Grown.moves hgrown).2.2 ⟨4⟩ ⟨2⟩ g' (.inl hg')
  refine ⟨g', hg', hin, ?_⟩
  rw [hother ⟨5⟩ (by decide)]
  decide +kernel

end Storyline.Graph
