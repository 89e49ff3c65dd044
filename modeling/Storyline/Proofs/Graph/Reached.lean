import Storyline.Proofs.Graph.Splice

/-!
# The graphs that operations reach

* `Operation`: the operations on a graph as data, and `Reached g`: `g` comes from an empty graph or
  from one with a bare root by operations, of which any may fail;
* `Sound g`: whatever is a child, or is remembered as a continuation, is a node that may be moved;
* `Reached.sound`: every graph that operations reach is sound.
-/

namespace Storyline.Graph

open Effect

variable {γ : Type} {g g' : Graph γ} {id x c k : NodeId} {c? : Option NodeId}

/-! ### Operations -/

/-- The operations that change a graph. -/
inductive Operation (γ : Type) where
  | insertRoot (id : NodeId) (content : Option γ)
  | insertContent (id : NodeId) (content : γ)
  | insertTree (id : NodeId) (content : Option γ)
  | editContent (id : NodeId) (f : γ → γ)
  | setParent (id : NodeId) (parent : Option NodeId)
  | setChild (id : NodeId) (child : Option NodeId)
  | addChild (id child : NodeId)
  | removeChild (id : NodeId) (child : Option NodeId)
  | remove (id : NodeId)
  | link (nodes : List NodeId)
  | splice (id : NodeId) (branch : Option Chain)

/-- What an operation does to a graph, apart from its answer. -/
def Operation.run : Operation γ → Edit γ Unit
  | insertRoot id content => attempt (·.insertRoot id content)
  | insertContent id content => attempt (·.insertContent id content)
  | insertTree id content => attempt (·.insertTree id content)
  | editContent id f => attempt fun g => .ok (g.editContent id f)
  | setParent id parent => attempt (·.setParent id parent)
  | setChild id child => attempt (·.setChild id child)
  | addChild id child => attempt (·.addChild id child)
  | removeChild id child => attempt (·.removeChild id child)
  | remove id => attempt (·.remove id)
  | link nodes => discard (Graph.link nodes)
  | splice id branch => Graph.splice id branch

/-- Operations one after the other, each on what the one before left. -/
def runAll (g : Graph γ) (ops : List (Operation γ)) : Graph γ :=
  ops.foldl (fun g op => left (op.run g)) g

/-- Graphs made by operations, whether these succeed or fail. -/
inductive Reached : Graph γ → Prop
  | empty : Reached {}
  | withRoot (id : NodeId) : Reached (.withRoot id)
  | step {g : Graph γ} (h : Reached g) (op : Operation γ) : Reached (left (op.run g))

theorem Reached.runAll (h : g.Reached) (ops : List (Operation γ)) : (g.runAll ops).Reached := by
  induction ops generalizing g with
  | nil => exact h
  | cons op rest ih => exact ih (h.step op)

/-! ### What every edge operation keeps, a run of them keeps -/

section Runs

variable {P : Graph γ → Prop}

theorem left_attempt {f : Graph γ → Except GraphError (Graph γ)} (h : P g)
    (hf : ∀ g', f g = .ok g' → P g') : P (left (attempt f g)) := by
  unfold attempt
  cases hg : f g with
  | error e => exact h
  | ok g' => exact hf g' hg

variable (hset : ∀ {k k' : Graph γ} {x c?}, P k → k.setChild x c? = .ok k' → P k')
include hset

theorem left_linkAll (h : P g) (nodes : List NodeId) : P (left (linkAll nodes g)) := by
  induction nodes generalizing g with
  | nil => exact h
  | cons a rest ih =>
    cases rest with
    | nil => exact h
    | cons b rest =>
      have ha : P (left (attempt (·.setChild a (some b)) g)) := left_attempt h fun _ => hset h
      refine left_bind ha fun u g' hg => ih ?_
      rw [hg] at ha
      exact ha

theorem left_link (h : P g) (nodes : List NodeId) : P (left (link nodes g)) := by
  have hl := left_linkAll hset h nodes
  refine left_bind hl fun u g' hg => ?_
  rw [hg] at hl
  exact hl

theorem left_splice (h : P g) (hrem : g.contains id = true → P (g.remember id))
    (branch : Option Chain) : P (left (splice id branch g)) := by
  have hstep : ∀ {k : Graph γ} (x : NodeId) (c? : Option NodeId), P k →
      P (left (attempt (·.setChild x c?) k)) :=
    fun x c? hk => left_attempt hk fun _ => hset hk
  unfold splice
  simp only [bind_get_apply]
  split
  · exact h
  · rename_i hid
    simp only [bind_set_apply]
    have hm := hrem (by simpa using hid)
    cases branch with
    | none => exact hstep _ _ hm
    | some chain =>
      have hs := hstep chain.tail (g.continuation id) hm
      refine left_bind hs fun u g' hg => hstep _ _ ?_
      rw [hg] at hs
      exact hs

end Runs

/-! ### Soundness -/

/-- Children and remembered continuations are nodes that may be moved. -/
structure Sound (g : Graph γ) : Prop where
  children : ∀ x, ∀ c ∈ g.children x, g.Movable c
  resumes : ∀ x k : NodeId, g.resumes[x]? = some (some k) → g.Movable k

theorem Sound.child? (h : Sound g) (hc : g.child? x = some c) : g.Movable c := by
  rw [child?_eq_head?] at hc
  exact h.children x c (List.mem_of_head? hc)

theorem Sound.continuation (h : Sound g) (hk : g.continuation x = some k) : g.Movable k := by
  unfold Graph.continuation at hk
  split at hk
  · rename_i hr
    exact h.resumes x k (hr.trans (congrArg some hk))
  · exact h.child? hk

theorem Sound.of_children (h : Sound g) (hn : SameNodes g g') (hr : g'.resumes = g.resumes)
    (hc : ∀ x d, d ∈ g'.children x → d ∈ g.children x ∨ g.Movable d) : Sound g' where
  children x d hx := (hn.movable_iff d).2 ((hc x d hx).elim (h.children x d) fun hm => hm)
  resumes x k hx := (hn.movable_iff k).2 (h.resumes x k (hr ▸ hx))

theorem Sound.of_sameEdges (h : Sound g) (he : SameEdges g g') : Sound g' :=
  h.of_children he.toSameNodes he.resumes fun x _ hc => .inl (he.children x ▸ hc)

theorem Sound.remember (h : Sound g) (id : NodeId) : Sound (g.remember id) where
  children := h.children
  resumes x k hx := by
    rw [resumes_remember] at hx
    split at hx
    · exact h.continuation (Option.some.inj hx)
    · exact h.resumes x k hx

/-! ### New nodes -/

theorem Sound.insert {kind : NodeKind} {content : Option γ} (h : Sound g)
    (hg : g.insert id kind content = .ok g') : Sound g' := by
  obtain ⟨hid, -, hr, hget⟩ := insert_eq_ok hg
  have hmov : ∀ c, g.Movable c → g'.Movable c := by
    intro c hc
    have hne : id ≠ c := by
      rintro rfl
      rw [Movable, contains_eq, hid] at hc
      cases hc.1
    unfold Movable isRoot at hc ⊢
    rw [contains_eq] at hc ⊢
    rwa [hget c, if_neg hne]
  refine ⟨fun x c hc => ?_, fun x k hk => hmov k (h.resumes x k (hr ▸ hk))⟩
  by_cases hx : id = x
  · unfold Graph.children at hc
    rw [hget, if_pos hx] at hc
    cases hc
  · refine hmov c (h.children x c ?_)
    unfold Graph.children at hc
    rwa [hget x, if_neg hx] at hc

theorem Sound.insertRoot {content : Option γ} (h : Sound g)
    (hg : g.insertRoot id content = .ok g') : Sound g' := by
  unfold Graph.insertRoot at hg
  split at hg
  · cases hg
  · cases hi : g.insert id .root content with
    | error e => simp [hi, Except.map] at hg
    | ok g₁ =>
      obtain rfl : { g₁ with root := some id } = g' := by simpa [hi, Except.map] using hg
      exact ⟨(h.insert hi).children, (h.insert hi).resumes⟩

theorem Sound.editContent (h : Sound g) (id : NodeId) (f : γ → γ) : Sound (g.editContent id f) := by
  have hget : ∀ x, ((g.editContent id f).get? x).map (fun n => (n.kind, n.children)) =
      (g.get? x).map fun n => (n.kind, n.children) := by
    intro x
    unfold Graph.editContent
    rw [get?_modify]
    split
    · rw [Option.map_map]; rfl
    · rfl
  have hchildren : ∀ k : Graph γ, ∀ x, k.children x =
      (((k.get? x).map fun n => (n.kind, n.children)).map Prod.snd).getD [] := by
    intro k x; rw [Option.map_map]; rfl
  have hmovable : ∀ k : Graph γ, ∀ x, k.Movable x ↔
      ((k.get? x).map fun n => (n.kind, n.children)).isSome = true ∧
        (((k.get? x).map fun n => (n.kind, n.children)).map fun p => p.1 == .root).getD false =
          false := by
    intro k x; rw [Option.map_map, Option.isSome_map, Movable, contains_eq]; rfl
  refine ⟨fun x c hc => ?_, fun x k hk => ?_⟩
  · rw [hchildren, hget, ← hchildren] at hc
    rw [hmovable, hget, ← hmovable]
    exact h.children x c hc
  · rw [hmovable, hget, ← hmovable]
    exact h.resumes x k hk

/-! ### Edges -/

theorem Sound.setParent {parent : Option NodeId} (h : Sound g)
    (hg : g.setParent id parent = .ok g') : Sound g' :=
  h.of_sameEdges (sameEdges_of_setParent hg)

theorem movable_of_setChild (hg : g.setChild id c? = .ok g') (hc : c? = some c) : g.Movable c :=
  ((setChild_eq_ok_iff.1 ⟨g', hg⟩).2 c hc).2

theorem Sound.setChild (h : Sound g) (hg : g.setChild id c? = .ok g') : Sound g' :=
  have hr := rewired_of_setChild hg
  h.of_children hr.toSameNodes hr.resumes fun _ _ hc =>
    (hr.mem_children hc).imp_right (movable_of_setChild hg)

theorem Sound.addChild (h : Sound g) (hg : g.addChild id c = .ok g') : Sound g' := by
  unfold Graph.addChild at hg
  obtain ⟨n, -, hg⟩ := bind_eq_ok.1 hg
  split at hg
  · exact h.setChild hg
  · obtain ⟨⟨⟩, hc, hg⟩ := bind_eq_ok.1 hg
    obtain ⟨rfl⟩ := hg
    obtain ⟨hd, hdr, hdc⟩ := detach_spec g c id
    have he := SameEdges.modify ((g.detach c id).modify id fun n =>
      if c ∈ n.children then n else { n with children := n.children ++ [c] }) c
        (fun n => { n with parent := some id }) fun _ => ⟨rfl, rfl⟩
    have hm := SameNodes.modify (g.detach c id) id (fun n =>
      if c ∈ n.children then n else { n with children := n.children ++ [c] })
        fun n => by split <;> rfl
    refine h.of_children (hd.trans (hm.trans he.toSameNodes)) (he.resumes.trans hdr) ?_
    intro x d hx
    rw [he.children] at hx
    -- only the new child can be one that was not there before
    have hold : d ∈ (g.detach c id).children x ∨ d = c := by
      unfold Graph.children at hx ⊢
      rw [get?_modify] at hx
      cases hget : (g.detach c id).get? x with
      | none => simp [hget] at hx
      | some m =>
        rw [hget] at hx
        simp only [Option.map_some, Option.getD_some]
        split at hx
        · simp only [Option.map_some, Option.getD_some] at hx
          split at hx
          · exact .inl hx
          · simpa using hx
        · exact .inl hx
    rcases hold with hold | rfl
    · rcases hdc x with hdx | hdx
      · exact .inl (hdx ▸ hold)
      · exact .inl (List.mem_filter.1 (hdx ▸ hold)).1
    · exact .inr (checkChild_eq_ok_iff.1 hc).2.2

theorem Sound.modify (h : Sound g) (id : NodeId) (f : Node γ → Node γ)
    (hf : ∀ n, core (f n) = core n ∧ ∀ c ∈ (f n).children, c ∈ n.children) :
    Sound (g.modify id f) := by
  refine h.of_children (.modify g id f fun n => (hf n).1) rfl fun x c hc => .inl ?_
  unfold Graph.children at hc ⊢
  rw [get?_modify] at hc
  cases hget : g.get? x with
  | none => simp [hget] at hc
  | some n =>
    rw [hget] at hc
    split at hc
    · exact (hf n).2 c hc
    · exact hc

theorem Sound.removeChild (h : Sound g) (hg : g.removeChild id c? = .ok g') : Sound g' := by
  unfold Graph.removeChild at hg
  obtain ⟨n, -, hg⟩ := bind_eq_ok.1 hg
  cases c? with
  | none =>
    obtain ⟨rfl⟩ := hg
    exact (h.modify id (fun n => { n with children := [] }) fun _ => ⟨rfl, nofun⟩).of_sameEdges
      (.orphan _ _ _)
  | some c =>
    simp only at hg
    split at hg
    · obtain ⟨rfl⟩ := hg
      have hc : ∀ n : Node γ, ∀ d ∈ (n.withoutChild c).children, d ∈ n.children :=
        fun n d hd => (List.mem_filter.1 hd).1
      exact (h.modify id (·.withoutChild c) fun n => ⟨rfl, hc n⟩).of_sameEdges (.orphan _ _ _)
    · obtain ⟨rfl⟩ := hg
      exact h

theorem Sound.remove (h : Sound g) (hg : g.remove id = .ok g') : Sound g' := by
  have hlast : ∀ {k : Graph γ}, Sound k → Sound (k.modify id fun n => { n with parent := none }) :=
    fun hk => hk.of_sameEdges (.modify _ id _ fun _ => ⟨rfl, rfl⟩)
  unfold Graph.remove at hg
  obtain ⟨n, -, hg⟩ := bind_eq_ok.1 hg
  cases hr : n.isRoot with
  | true => simp [hr] at hg
  | false =>
    cases hp : n.parent with
    | none =>
      simp only [hr, hp, Bool.false_eq_true, if_false, pure_eq_ok, ok_bind, Except.ok.injEq] at hg
      exact hg ▸ hlast h
    | some p =>
      simp only [hr, hp, Bool.false_eq_true, if_false, pure_eq_ok] at hg
      obtain ⟨g₁, hg₁, ⟨⟩⟩ := bind_eq_ok.1 hg
      exact hlast (h.removeChild hg₁)

/-! ### Every operation -/

theorem Sound.run (h : Sound g) (op : Operation γ) : Sound (left (op.run g)) := by
  have hset : ∀ {k k' : Graph γ} {x c?}, Sound k → k.setChild x c? = .ok k' → Sound k' :=
    fun hk hg => hk.setChild hg
  cases op with
  | insertRoot id content =>
    exact left_attempt (f := (·.insertRoot id content)) h fun _ => h.insertRoot
  | insertContent id content =>
    exact left_attempt (f := (·.insertContent id content)) h fun _ => h.insert
  | insertTree id content => exact left_attempt (f := (·.insertTree id content)) h fun _ => h.insert
  | editContent id f => exact h.editContent id f
  | setParent id parent => exact left_attempt (f := (·.setParent id parent)) h fun _ => h.setParent
  | setChild id child => exact left_attempt (f := (·.setChild id child)) h fun _ => h.setChild
  | addChild id child => exact left_attempt (f := (·.addChild id child)) h fun _ => h.addChild
  | removeChild id child =>
    exact left_attempt (f := (·.removeChild id child)) h fun _ => h.removeChild
  | remove id => exact left_attempt (f := (·.remove id)) h fun _ => h.remove
  | link nodes =>
    show Sound (left (discard (Graph.link nodes) g))
    rw [left_discard]
    exact left_link hset h nodes
  | splice id branch => exact left_splice hset h (fun _ => h.remember id) branch

theorem Reached.sound (h : Reached g) : Sound g := by
  induction h with
  | empty => exact ⟨fun x c hc => by simp [children, get?] at hc, fun x k hk => by simp at hk⟩
  | withRoot id =>
    refine ⟨fun x c hc => ?_, fun x k hk => by simp [Graph.withRoot] at hk⟩
    unfold children at hc
    rw [get?_withRoot] at hc
    split at hc <;> simp at hc
  | step h op ih => exact ih.run op

end Storyline.Graph
