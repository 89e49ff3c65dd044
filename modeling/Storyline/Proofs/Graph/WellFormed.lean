import Storyline.Proofs.Graph.Reached

/-!
# The graphs that operations reach are well formed

* `WellFormed g`: whatever the graph refers to is one of its nodes, the root is the only one of its
  kind and stands apart from all edges, no node is its own neighbour, no child is listed twice, and
  only tree nodes have several;
* `Fitting g id n`: the edges of one node, seen from that node alone, and `Orderly g`: every node
  has such edges. An operation changes one node after another, and each of these changes is checked
  against the node it is made to (`Orderly.modify`);
* `Reached.wellFormed`: every graph that operations reach is well formed, also where an operation
  failed half way.
-/

namespace Storyline.Graph

open Effect

variable {γ : Type} {g g' : Graph γ} {id x c k p : NodeId} {c? : Option NodeId} {n : Node γ}

/-- What holds of the references of a graph. -/
structure WellFormed (g : Graph γ) : Prop where
  contains_child : ∀ x, ∀ c ∈ g.children x, g.contains c = true
  contains_parent : ∀ x p, g.parent? x = some p → g.contains p = true
  contains_root : ∀ r, g.root = some r → g.contains r = true
  contains_spliced : ∀ x ∈ g.resumes, g.contains x = true
  contains_resume : ∀ x k : NodeId, g.resumes[x]? = some (some k) → g.contains k = true
  root : ∀ x, g.isRoot x = true ↔ g.root = some x
  root_parent : ∀ r, g.root = some r → g.parent? r = none
  root_child : ∀ r, g.root = some r → ∀ x, r ∉ g.children x
  root_resume : ∀ r, g.root = some r → ∀ x : NodeId, g.resumes[x]? ≠ some (some r)
  parent_ne : ∀ x, g.parent? x ≠ some x
  child_ne : ∀ x, x ∉ g.children x
  nodup : ∀ x, (g.children x).Nodup
  single : ∀ x n, g.get? x = some n → n.kind ≠ .tree → (g.children x).length ≤ 1

/-! ### The edges of one node -/

/-- Edges that a node under this identity may have. -/
structure Fitting (g : Graph γ) (id : NodeId) (n : Node γ) : Prop where
  parent : ∀ p, n.parent = some p → g.contains p = true ∧ p ≠ id ∧ n.isRoot = false
  children : ∀ c ∈ n.children, g.Movable c ∧ c ≠ id
  nodup : n.children.Nodup
  single : n.kind ≠ .tree → n.children.length ≤ 1

namespace Fitting

theorem mono (h : Fitting g id n) (hm : ∀ x, g.contains x = true → g'.contains x = true)
    (hr : ∀ x, g.Movable x → g'.Movable x) : Fitting g' id n where
  parent p hp := ⟨hm p (h.parent p hp).1, (h.parent p hp).2⟩
  children c hc := ⟨hr c (h.children c hc).1, (h.children c hc).2⟩
  nodup := h.nodup
  single := h.single

theorem fresh (g : Graph γ) (id : NodeId) (kind : NodeKind) (content : Option γ) :
    Fitting g id { kind, content } :=
  ⟨nofun, nofun, .nil, fun _ => Nat.zero_le 1⟩

theorem parentless (h : Fitting g id n) : Fitting g id { n with parent := none } :=
  ⟨nofun, h.children, h.nodup, h.single⟩

theorem orphanedFrom (h : Fitting g id n) (p : NodeId) : Fitting g id (n.orphanedFrom p) := by
  unfold Node.orphanedFrom
  split
  · exact h.parentless
  · exact h

theorem childless (h : Fitting g id n) : Fitting g id { n with children := [] } :=
  ⟨h.parent, nofun, .nil, fun _ => Nat.zero_le 1⟩

theorem withoutChild (h : Fitting g id n) (c : NodeId) : Fitting g id (n.withoutChild c) where
  parent := h.parent
  children d hd := h.children d (List.mem_filter.1 hd).1
  nodup := h.nodup.filter _
  single hk := Nat.le_trans (List.length_filter_le _ _) (h.single hk)

theorem withParent (h : Fitting g id n) (hp : g.contains p = true) (hne : p ≠ id)
    (hn : n.isRoot = false) : Fitting g id { n with parent := some p } :=
  ⟨by rintro _ ⟨⟩; exact ⟨hp, hne, hn⟩, h.children, h.nodup, h.single⟩

theorem onlyChild (h : Fitting g id n) (hc : g.Movable c) (hne : c ≠ id) :
    Fitting g id { n with children := [c] } :=
  ⟨h.parent, by simpa using ⟨hc, hne⟩, by simp, fun _ => Nat.le_refl 1⟩

/-- A tree node may get one child more, unless it has it already. -/
theorem appended (h : Fitting g id n) (hk : n.kind = .tree) (hc : g.Movable c) (hne : c ≠ id) :
    Fitting g id (if c ∈ n.children then n else { n with children := n.children ++ [c] }) := by
  split
  · exact h
  · rename_i hnew
    refine ⟨h.parent, fun d hd => ?_, ?_, fun hne => absurd hk hne⟩
    · rcases List.mem_append.1 hd with hd | hd
      · exact h.children d hd
      · obtain rfl := List.mem_singleton.1 hd
        exact ⟨hc, hne⟩
    · refine List.nodup_append.2 ⟨h.nodup, by simp, fun a ha b hb => ?_⟩
      rintro rfl
      obtain rfl := List.mem_singleton.1 hb
      exact hnew ha

end Fitting

/-! ### The edges of all nodes -/

/-- Every node has edges that it may have, and the root is known. -/
structure Orderly (g : Graph γ) : Prop where
  node : ∀ x n, g.get? x = some n → Fitting g x n
  root : ∀ x, g.isRoot x = true ↔ g.root = some x
  spliced : ∀ x ∈ g.resumes, g.contains x = true

theorem contains_of_isRoot (h : g.isRoot x = true) : g.contains x = true := by
  unfold isRoot at h
  rw [contains_eq]
  cases hx : g.get? x with
  | none => simp [hx] at h
  | some n => rfl

theorem WellFormed.of_orderly (h : Orderly g) (hs : Sound g) : WellFormed g := by
  have hchild : ∀ x, ∀ c ∈ g.children x, ∃ n, g.get? x = some n ∧ c ∈ n.children := by
    intro x c hc
    unfold Graph.children at hc
    cases hx : g.get? x with
    | none => simp [hx] at hc
    | some n => exact ⟨n, rfl, by simpa [hx] using hc⟩
  have hparent : ∀ x p, g.parent? x = some p → ∃ n, g.get? x = some n ∧ n.parent = some p :=
    fun x p hp => Option.bind_eq_some_iff.1 hp
  -- nothing that is found in an edge can be the root, as the root is not movable
  have hmovable : ∀ r, g.root = some r → ¬ g.Movable r := by
    intro r hr hm
    rw [Movable, (h.root r).2 hr] at hm
    exact absurd hm.2 (by decide)
  refine
    { contains_child := fun x c hc => (hs.children x c hc).1
      contains_parent := fun x p hp => ?_
      contains_root := fun r hr => contains_of_isRoot ((h.root r).2 hr)
      contains_spliced := h.spliced
      contains_resume := fun x k hk => (hs.resumes x k hk).1
      root := h.root
      root_parent := fun r hr => ?_
      root_child := fun r hr x hc => hmovable r hr (hs.children x r hc)
      root_resume := fun r hr x hk => hmovable r hr (hs.resumes x r hk)
      parent_ne := fun x hp => ?_
      child_ne := fun x hc => ?_
      nodup := fun x => ?_
      single := fun x n hn hk => ?_ }
  · obtain ⟨n, hn, hp⟩ := hparent x p hp
    exact ((h.node x n hn).parent p hp).1
  · have hroot := (h.root r).2 hr
    refine Option.eq_none_iff_forall_ne_some.2 fun p hp => ?_
    obtain ⟨n, hn, hp⟩ := hparent r p hp
    have hnot := ((h.node r n hn).parent p hp).2.2
    simp only [isRoot, hn, Option.map_some, Option.getD_some] at hroot
    exact absurd (hroot.symm.trans hnot) (by decide)
  · obtain ⟨n, hn, hp⟩ := hparent x x hp
    exact ((h.node x n hn).parent x hp).2.1 rfl
  · obtain ⟨n, hn, hc⟩ := hchild x x hc
    exact ((h.node x n hn).children x hc).2 rfl
  · unfold Graph.children
    cases hx : g.get? x with
    | none => exact .nil
    | some n => exact (h.node x n hx).nodup
  · simpa [Graph.children, hn] using (h.node x n hn).single hk

/-! ### One changed node -/

/-- A change of one node's edges keeps the order if the node may have the new ones. -/
theorem Orderly.modify (h : Orderly g) (id : NodeId) (f : Node γ → Node γ) (hk : ∀ n, (f n).kind = n.kind)
    (hf : ∀ n, g.get? id = some n → Fitting g id n → Fitting g id (f n)) :
    Orderly (g.modify id f) := by
  -- an edit that keeps the kinds keeps which nodes there are, and which of them is the root
  have hget := get?_modify g id
  have hcontains : ∀ x, (g.modify id f).contains x = g.contains x := by
    intro x
    simp only [contains_eq, hget]
    split <;> simp
  have hroot : ∀ x, (g.modify id f).isRoot x = g.isRoot x := by
    intro x
    simp only [isRoot, hget]
    split
    · simp only [Option.map_map]
      exact congrArg (fun k => ((g.get? x).map k).getD false) (funext fun n => by
        simp [Node.isRoot, hk])
    · rfl
  refine ⟨fun x n hx => ?_, fun x => (hroot x ▸ h.root x), fun x hx => ?_⟩
  · have hmono : ∀ m, Fitting g x m → Fitting (g.modify id f) x m := fun m hm =>
      hm.mono (fun y hy => (hcontains y).trans hy)
        fun y hy => ⟨(hcontains y).trans hy.1, (hroot y).trans hy.2⟩
    rw [hget] at hx
    split at hx
    · rename_i hid
      obtain ⟨m, hm, rfl⟩ := Option.map_eq_some_iff.1 hx
      subst hid
      exact hmono _ (hf m hm (h.node id m hm))
    · exact hmono n (h.node x n hx)
  · rw [hcontains]
    exact h.spliced x hx

theorem Orderly.orphan (h : Orderly g) (id : NodeId) (nodes : List NodeId) :
    Orderly (g.orphan id nodes) := by
  unfold Graph.orphan
  induction nodes generalizing g with
  | nil => exact h
  | cons c rest ih =>
    refine ih (h.modify c _ (fun n => ?_) fun n _ hn => hn.orphanedFrom id)
    unfold Node.orphanedFrom
    split <;> rfl

theorem Orderly.detach (h : Orderly g) (c keep : NodeId) : Orderly (g.detach c keep) := by
  unfold Graph.detach
  split
  · exact h
  · split
    · exact h
    · rename_i p _ _
      exact (h.modify p (·.withoutChild c) (fun _ => rfl) fun n _ hn => hn.withoutChild c).modify c
        (fun n => { n with parent := none }) (fun _ => rfl) fun n _ hn => hn.parentless

theorem Orderly.remember (h : Orderly g) (hid : g.contains id = true) :
    Orderly (g.remember id) := by
  refine ⟨fun x n hn => (h.node x n hn).mono (fun _ hx => hx) fun _ hx => hx, h.root,
    fun x hx => ?_⟩
  rcases Std.ExtTreeMap.mem_insert.1 hx with he | hx
  · rw [← Std.compare_eq_iff_eq.1 he]
    exact hid
  · exact h.spliced x hx

/-! ### New nodes -/

theorem isRoot_of_insert {kind : NodeKind} {content : Option γ}
    (hg : g.insert id kind content = .ok g') (x : NodeId) :
    g'.isRoot x = if id = x then kind == .root else g.isRoot x := by
  obtain ⟨-, -, -, hget⟩ := insert_eq_ok hg
  unfold isRoot
  rw [hget]
  split <;> rfl

theorem Orderly.fitting_insert {kind : NodeKind} {content : Option γ} (h : Orderly g)
    (hg : g.insert id kind content = .ok g') : ∀ x n, g'.get? x = some n → Fitting g' x n := by
  obtain ⟨hid, -, -, hget⟩ := insert_eq_ok hg
  have hold : ∀ x, g.contains x = true → g'.get? x = g.get? x := by
    intro x hx
    have hne : id ≠ x := by
      rintro rfl
      rw [contains_eq, hid] at hx
      cases hx
    rw [hget, if_neg hne]
  intro x n hx
  rw [hget] at hx
  split at hx
  · obtain rfl := Option.some.inj hx
    exact .fresh g' x kind content
  · refine (h.node x n hx).mono (fun y hy => ?_) fun y hy => ?_
    · rwa [contains_eq, hold y hy, ← contains_eq]
    · unfold Movable isRoot
      rw [contains_eq, hold y hy.1, ← contains_eq]
      exact hy

theorem Orderly.insert {kind : NodeKind} {content : Option γ} (h : Orderly g)
    (hkind : kind ≠ .root) (hg : g.insert id kind content = .ok g') : Orderly g' := by
  obtain ⟨hid, hroot, hres, hget⟩ := insert_eq_ok hg
  refine ⟨h.fitting_insert hg, fun x => ?_, fun x hx => ?_⟩
  · rw [isRoot_of_insert hg, hroot, ← h.root]
    split
    · rename_i he
      subst he
      simp [isRoot, hid, hkind]
    · rfl
  · have hold := h.spliced x (hres ▸ hx)
    rw [contains_eq] at hold ⊢
    rw [hget]
    split
    · rfl
    · exact hold

theorem Orderly.insertRoot {content : Option γ} (h : Orderly g)
    (hg : g.insertRoot id content = .ok g') : Orderly g' := by
  unfold Graph.insertRoot at hg
  split at hg
  · cases hg
  · rename_i hnone
    cases hi : g.insert id .root content with
    | error e => simp [hi, Except.map] at hg
    | ok g₁ =>
      obtain rfl : { g₁ with root := some id } = g' := by simpa [hi, Except.map] using hg
      obtain ⟨-, -, hres, hget⟩ := insert_eq_ok hi
      -- no other node can be of the kind of a root
      have hother : ∀ x, g.isRoot x = false := by
        intro x
        rw [Bool.eq_false_iff, ne_eq, h.root, hnone]
        nofun
      refine ⟨fun x n hn => (h.fitting_insert hi x n hn).mono (fun _ hx => hx) fun _ hx => hx,
        fun x => ?_, fun x hx => ?_⟩
      · have hx := isRoot_of_insert hi x
        rw [hother] at hx
        show g₁.isRoot x = true ↔ some id = some x
        rw [hx, Option.some.injEq]
        split <;> simp_all
      · have hold := h.spliced x (hres ▸ hx)
        show g₁.contains x = true
        rw [contains_eq] at hold ⊢
        rw [hget]
        split
        · rfl
        · exact hold

/-! ### Edges -/

/-- The last step of every operation that gives a node a child. -/
theorem Orderly.adopt (h : Orderly g) (hid : g.contains id = true) (hc : g.Movable c)
    (hne : c ≠ id) : Orderly (g.modify c fun n => { n with parent := some id }) := by
  refine h.modify c _ (fun _ => rfl) fun n hn hf => hf.withParent hid hne.symm ?_
  have hroot := hc.2
  simpa [isRoot, hn] using hroot

theorem Orderly.setParent {parent : Option NodeId} (h : Orderly g)
    (hg : g.setParent id parent = .ok g') : Orderly g' := by
  unfold Graph.setParent at hg
  obtain ⟨n, hn, hg⟩ := bind_eq_ok.1 hg
  rw [node_eq_ok_iff] at hn
  cases parent with
  | none =>
    obtain rfl := Except.ok.inj hg
    exact h.modify id _ (fun _ => rfl) fun n _ hf => hf.parentless
  | some p =>
    simp only at hg
    split at hg
    · cases hg
    · rename_i hne
      split at hg
      · cases hg
      · rename_i hroot
        cases hp : g.node p with
        | error e => simp [hp] at hg
        | ok m =>
          obtain rfl : g.modify id (fun n => { n with parent := some p }) = g' := by
            simpa [hp] using hg
          -- the checks that went through are those a parent has to meet
          refine h.modify id _ (fun _ => rfl) fun n' hn' hf => hf.withParent ?_ hne ?_
          · rw [contains_eq, node_eq_ok_iff.1 hp]; rfl
          · rw [hn] at hn'
            obtain rfl := Option.some.inj hn'
            simpa using hroot

theorem Orderly.setChild (h : Orderly g) (hg : g.setChild id c? = .ok g') : Orderly g' := by
  cases c? with
  | none =>
    simp only [Graph.setChild, bind_eq_ok] at hg
    obtain ⟨n, -, ⟨⟩⟩ := hg
    exact (h.orphan id n.children).modify id _ (fun _ => rfl) fun m _ hm => hm.childless
  | some c =>
    simp only [Graph.setChild, bind_eq_ok] at hg
    obtain ⟨⟨⟩, hc, ⟨⟩⟩ := hg
    obtain ⟨hid, hne, hmov⟩ := checkChild_eq_ok_iff.1 hc
    have hn := (detach_spec g c id).1.trans
      (SameEdges.orphan (g.detach c id) id (((g.detach c id).children id).filter (· ≠ c))).toSameNodes
    have hn' := hn.trans (.modify _ id (fun n => { n with children := [c] }) fun _ => rfl)
    have hlist := ((h.detach c id).orphan id (((g.detach c id).children id).filter (· ≠ c))).modify
      id (fun n => { n with children := [c] }) (fun _ => rfl)
      fun m _ hm => hm.onlyChild ((hn.movable_iff c).2 hmov) hne
    exact hlist.adopt (by rw [hn'.contains, hid]) ((hn'.movable_iff c).2 hmov) hne

theorem Orderly.addChild (h : Orderly g) (hg : g.addChild id c = .ok g') : Orderly g' := by
  unfold Graph.addChild at hg
  obtain ⟨n, hn, hg⟩ := bind_eq_ok.1 hg
  rw [node_eq_ok_iff] at hn
  split at hg
  · exact h.setChild hg
  · rename_i hkind
    obtain ⟨⟨⟩, hc, hg⟩ := bind_eq_ok.1 hg
    obtain ⟨rfl⟩ := hg
    obtain ⟨hid, hne, hmov⟩ := checkChild_eq_ok_iff.1 hc
    have hd := (detach_spec g c id).1
    have hn' := hd.trans (.modify _ id (fun n =>
      if c ∈ n.children then n else { n with children := n.children ++ [c] })
        fun n => by split <;> rfl)
    have hlist := (h.detach c id).modify id (fun n =>
      if c ∈ n.children then n else { n with children := n.children ++ [c] })
      (fun n => by split <;> rfl) fun m hm hf => hf.appended ?_ ((hd.movable_iff c).2 hmov) hne
    · exact hlist.adopt (by rw [hn'.contains, hid]) ((hn'.movable_iff c).2 hmov) hne
    · have hcore := hd.core id
      rw [hm, hn] at hcore
      have hk : m.kind = n.kind := congrArg Prod.fst (Option.some.inj hcore)
      rw [hk]
      simpa using hkind

theorem Orderly.removeChild (h : Orderly g) (hg : g.removeChild id c? = .ok g') : Orderly g' := by
  unfold Graph.removeChild at hg
  obtain ⟨n, -, hg⟩ := bind_eq_ok.1 hg
  cases c? with
  | none =>
    obtain ⟨rfl⟩ := hg
    exact (h.modify id (fun n => { n with children := [] }) (fun _ => rfl)
      fun n _ hn => hn.childless).orphan id n.children
  | some c =>
    simp only at hg
    split at hg
    · obtain ⟨rfl⟩ := hg
      exact (h.modify id (·.withoutChild c) (fun _ => rfl)
        fun n _ hn => hn.withoutChild c).orphan id [c]
    · obtain ⟨rfl⟩ := hg
      exact h

theorem Orderly.remove (h : Orderly g) (hg : g.remove id = .ok g') : Orderly g' := by
  have hlast : ∀ {k : Graph γ}, Orderly k →
      Orderly (k.modify id fun n => { n with parent := none }) :=
    fun hk => hk.modify id _ (fun _ => rfl) fun _ _ hf => hf.parentless
  unfold Graph.remove at hg
  obtain ⟨n, -, hg⟩ := bind_eq_ok.1 hg
  cases hr : n.isRoot with
  | true => simp [hr] at hg
  | false =>
    cases hp : n.parent with
    | none =>
      simp only [hr, hp, Bool.false_eq_true, if_false, pure_eq_ok, ok_bind, Except.ok.injEq] at hg
      exact hg ▸ hlast h
    | some p =>
      simp only [hr, hp, Bool.false_eq_true, if_false, pure_eq_ok] at hg
      obtain ⟨g₁, hg₁, ⟨⟩⟩ := bind_eq_ok.1 hg
      exact hlast (h.removeChild hg₁)

/-! ### Every operation -/

theorem Orderly.run (h : Orderly g) (op : Operation γ) : Orderly (left (op.run g)) := by
  have hset : ∀ {k k' : Graph γ} {x c?}, Orderly k → k.setChild x c? = .ok k' → Orderly k' :=
    fun hk hg => hk.setChild hg
  cases op with
  | insertRoot id content =>
    exact left_attempt (f := (·.insertRoot id content)) h fun _ => h.insertRoot
  | insertContent id content =>
    exact left_attempt (f := (·.insertContent id content)) h fun _ => h.insert (by decide)
  | insertTree id content =>
    exact left_attempt (f := (·.insertTree id content)) h fun _ => h.insert (by decide)
  | editContent id f =>
    exact h.modify id _ (fun _ => rfl) fun _ _ hf => ⟨hf.parent, hf.children, hf.nodup, hf.single⟩
  | setParent id parent => exact left_attempt (f := (·.setParent id parent)) h fun _ => h.setParent
  | setChild id child => exact left_attempt (f := (·.setChild id child)) h fun _ => h.setChild
  | addChild id child => exact left_attempt (f := (·.addChild id child)) h fun _ => h.addChild
  | removeChild id child =>
    exact left_attempt (f := (·.removeChild id child)) h fun _ => h.removeChild
  | remove id => exact left_attempt (f := (·.remove id)) h fun _ => h.remove
  | link nodes =>
    show Orderly (left (discard (Graph.link nodes) g))
    rw [left_discard]
    exact left_link hset h nodes
  | splice id branch => exact left_splice hset h (fun hid => h.remember hid) branch

/-- **Every graph that operations reach is well formed**: the ones that succeed keep it so, and so
does what is left of the ones that fail. -/
theorem Reached.wellFormed (h : Reached g) : WellFormed g := by
  refine WellFormed.of_orderly ?_ h.sound
  induction h with
  | empty => exact ⟨nofun, fun x => by simp [isRoot, get?], fun x hx => by simp at hx⟩
  | withRoot id =>
    have hget : ∀ x, (Graph.withRoot id : Graph γ).get? x =
        if id = x then some { kind := .root, content := none } else none := by
      intro x
      simp only [get?, Graph.withRoot, Std.ExtTreeMap.getElem?_insert, Std.compare_eq_iff_eq]
      split <;> simp
    refine ⟨fun x n hn => ?_, fun x => ?_, fun x hx => by simp [Graph.withRoot] at hx⟩
    · rw [hget] at hn
      split at hn
      · obtain rfl := Option.some.inj hn
        exact .fresh _ x .root none
      · cases hn
    · show _ ↔ some id = some x
      rw [isRoot, hget, Option.some.injEq]
      split <;> simp_all [Node.isRoot]
  | step h op ih => exact ih.run op

/-- A tree node 4 over 1 and 2. The branch at 3 is broken off: its end is no node. -/
def brokenOff : Graph Unit :=
  (withRoot ⟨0⟩).runAll <|
    ([1, 2, 3].map fun n => .insertContent ⟨n⟩ ()) ++
      [.insertTree ⟨4⟩ none, .addChild ⟨4⟩ ⟨1⟩, .addChild ⟨4⟩ ⟨2⟩, .setParent ⟨3⟩ (some ⟨0⟩),
        .addChild ⟨4⟩ ⟨0⟩, .splice ⟨3⟩ (some ⟨⟨1⟩, ⟨9⟩⟩)]

theorem wellFormed_brokenOff :
    (brokenOff.children ⟨4⟩ = [⟨1⟩, ⟨2⟩] ∧ brokenOff.parent? ⟨3⟩ = some ⟨0⟩ ∧
      brokenOff.resumes[(⟨3⟩ : NodeId)]? = some none) ∧ WellFormed brokenOff :=
  ⟨by decide +kernel, Reached.wellFormed ((Reached.withRoot _).runAll _)⟩

end Storyline.Graph
