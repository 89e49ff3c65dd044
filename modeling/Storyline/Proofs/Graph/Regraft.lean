import Storyline.Proofs.Graph.Reached
import Storyline.Proofs.Graph.Walk

/-!
# Grafting again and again

A node that branches are grafted in at, one after the other, leads through the last of them to where
it led before the first: earlier branches leave no trace.

* `Spans g branch l`: the branch is a chain of the nodes `l`, or none and `l` is empty;
* `Apart id suffix branches`: the branches are equal or disjoint, and all keep clear of the node and
  of what follows it;
* `Fresh g id suffix branches`: the invariant, which every graft keeps: each branch is linked as it
  was, and so is what follows the node;
* `walk_of_regrafted`: the main statement.
-/

namespace Storyline.Graph

open Effect

variable {γ : Type} {g g' : Graph γ} {id : NodeId} {branch : Option Chain} {l suffix : List NodeId}
  {branches : List (Option Chain × List NodeId)} {b : Option Chain × List NodeId}

/-- The nodes behind the continuation of a node. -/
def beyond (g : Graph γ) (id : NodeId) : List NodeId := ((g.continuation id).map g.walk).getD []

/-- A branch made of the nodes of a list: none if that is empty, else the chain of its ends. -/
structure Spans (g : Graph γ) (branch : Option Chain) (l : List NodeId) : Prop where
  run : g.IsRun l
  ends : Chain.ofNodes? l = branch
  movable : ∀ x ∈ l, g.Movable x

/-- Branches that meet neither each other, unless they are equal, nor a node, nor what follows it. -/
structure Apart (id : NodeId) (suffix : List NodeId)
    (branches : List (Option Chain × List NodeId)) : Prop where
  after : id ∉ suffix
  pairwise : branches.Pairwise fun b b' => b.2 = b'.2 ∨ b.2.Disjoint b'.2
  node : ∀ b ∈ branches, id ∉ b.2
  beyond : ∀ b ∈ branches, b.2.Disjoint suffix

theorem Apart.eq_or_disjoint (h : Apart id suffix branches) {b b' : Option Chain × List NodeId}
    (hb : b ∈ branches) (hb' : b' ∈ branches) : b.2 = b'.2 ∨ b.2.Disjoint b'.2 := by
  have hsymm : Std.Symm fun b b' : Option Chain × List NodeId => b.2 = b'.2 ∨ b.2.Disjoint b'.2 :=
    ⟨fun _ _ h => h.imp Eq.symm fun hd _ hx hy => hd hy hx⟩
  exact h.pairwise.forall_of_forall (fun _ _ => .inl rfl) hb hb'

/-! ### The ends of a branch -/

theorem Spans.head?_eq (h : g.Spans branch l) : l.head? = branch.map (·.head) := by
  rw [← h.ends]
  cases l <;> rfl

theorem Spans.getLast?_eq (h : g.Spans branch l) : l.getLast? = branch.map (·.tail) := by
  rw [← h.ends]
  cases l with
  | nil => rfl
  | cons a rest => exact List.getLast?_eq_getLast_of_ne_nil (List.cons_ne_nil a rest)

/-! ### The invariant -/

/-- What holds of a graph before every graft: the branches and what follows the node are linked as
they should be, and the node goes on to the first of what follows. -/
structure Fresh (g : Graph γ) (id : NodeId) (suffix : List NodeId)
    (branches : List (Option Chain × List NodeId)) : Prop where
  node : g.contains id = true
  next : g.continuation id = suffix.head?
  run : g.IsRun suffix
  last : ∀ x, suffix.getLast? = some x → g.child? x = none
  movable : ∀ x ∈ suffix, g.Movable x
  spans : ∀ b ∈ branches, g.Spans b.1 b.2

/-- A graph that operations reach is fresh for branches that are linked in it. -/
theorem Reached.fresh (h : g.Reached) (hid : g.contains id = true)
    (hlast : ∀ x, (g.beyond id).getLast? = some x → g.child? x = none)
    (hspans : ∀ b ∈ branches, g.Spans b.1 b.2) : g.Fresh id (g.beyond id) branches := by
  have hsound := h.sound
  have hnext : g.continuation id = (g.beyond id).head? := by
    unfold beyond
    cases hk : g.continuation id with
    | none => rfl
    | some k => exact (head?_walk (hsound.continuation hk).1).symm
  have hrun : g.IsRun (g.beyond id) := by
    unfold beyond
    cases g.continuation id with
    | none => exact .nil g
    | some k => exact g.isRun_walk k
  refine ⟨hid, hnext, hrun, hlast, fun x hx => ?_, hspans⟩
  -- the first node is a continuation, every other one a child
  obtain ⟨l₁, l₂, hl⟩ := List.append_of_mem hx
  rcases List.eq_nil_or_concat l₁ with rfl | ⟨l₁, a, rfl⟩
  · exact hsound.continuation (x := id) (by rw [hnext, hl]; rfl)
  · have hl' : g.beyond id = l₁ ++ a :: x :: l₂ := by
      rw [hl]
      simp
    exact hsound.child? (x := a)
      (List.isChain_iff_forall_rel_of_append_cons_cons.1 hrun.linked hl')

theorem Fresh.graftable (h : g.Fresh id suffix branches) (ha : Apart id suffix branches)
    (hb : b ∈ branches) : g.Graftable id b.1 := by
  have hs := h.spans b hb
  have hhead : ∀ c, b.1 = some c → c.head ∈ b.2 := fun c hc =>
    List.mem_of_head? (hs.head?_eq.trans (by rw [hc]; rfl))
  have htail : ∀ c, b.1 = some c → c.tail ∈ b.2 := fun c hc =>
    List.mem_of_getLast? (hs.getLast?_eq.trans (by rw [hc]; rfl))
  have hk : ∀ x ∈ b.2, g.continuation id ≠ some x := by
    intro x hx hk
    rw [h.next] at hk
    exact ha.beyond b hb hx (List.mem_of_head? hk)
  refine ⟨h.node, fun k hk => ?_, fun c hc => ?_, fun c hc => ?_⟩
  · have hks : k ∈ suffix := List.mem_of_head? (h.next ▸ hk)
    exact ⟨fun e => ha.after (e ▸ hks), h.movable k hks⟩
  · exact ⟨fun e => ha.node b hb (e ▸ hhead c hc), hs.movable _ (hhead c hc), hk _ (hhead c hc)⟩
  · exact ⟨fun e => ha.node b hb (e ▸ htail c hc), (hs.movable _ (htail c hc)).1,
      hk _ (htail c hc)⟩

/-- **What a graft keeps.** -/
theorem Fresh.graft (h : g.Fresh id suffix branches) (ha : Apart id suffix branches)
    (hb : b ∈ branches) (hg : Grafted g id b.1 g') : g'.Fresh id suffix branches := by
  have hs := h.spans b hb
  have hhead : ∀ c, b.1 = some c → b.2.head? = some c.head := fun c hc => by
    rw [hs.head?_eq, hc]; rfl
  have htail : ∀ c, b.1 = some c → b.2.getLast? = some c.tail := fun c hc => by
    rw [hs.getLast?_eq, hc]; rfl
  refine ⟨by rw [hg.contains, h.node], by rw [hg.continuation_self, h.next], ?_, fun x hx => ?_,
    fun x hx => (hg.movable_iff x).2 (h.movable x hx), fun b' hb' => ?_⟩
  · refine hg.isRun h.run ha.after (fun k hk _ => h.next ▸ hk) fun c hc => ⟨fun ht => ?_, fun hh => ?_⟩
    · exact absurd ht (ha.beyond b hb (List.mem_of_getLast? (htail c hc)))
    · exact absurd hh (ha.beyond b hb (List.mem_of_head? (hhead c hc)))
  · have hxs := List.mem_of_getLast? hx
    refine hg.bare x (fun e => ha.after (e ▸ hxs)) (fun c hc e => ?_) (h.last x hx)
    exact ha.beyond b hb (List.mem_of_getLast? (htail c hc)) (e ▸ hxs)
  · have hs' := h.spans b' hb'
    refine ⟨?_, hs'.ends, fun x hx => (hg.movable_iff x).2 (hs'.movable x hx)⟩
    refine hg.isRun hs'.run (ha.node b' hb') (fun k hk hkb => ?_) fun c hc => ?_
    · exact absurd (List.mem_of_head? (h.next ▸ hk)) (ha.beyond b' hb' hkb)
    -- an equal branch has the same ends, a disjoint one has none of them
    rcases ha.eq_or_disjoint hb hb' with he | hd
    · rw [← he]
      exact ⟨fun _ => htail c hc, fun _ => hhead c hc⟩
    · exact ⟨fun ht => absurd ht (hd (List.mem_of_getLast? (htail c hc))),
        fun hh => absurd hh (hd (List.mem_of_head? (hhead c hc)))⟩

/-- After a graft the node leads through the branch to what follows. -/
theorem Fresh.walk_graft (h : g.Fresh id suffix branches) (ha : Apart id suffix branches)
    (hb : b ∈ branches) (hg : Grafted g id b.1 g') : g'.walk id = id :: (b.2 ++ suffix) := by
  have hf := h.graft ha hb hg
  have hs := hf.spans b hb
  have hself : g'.child? id = (b.2 ++ suffix).head? := by
    rw [hg.self, h.next, List.head?_append, hs.head?_eq]
    cases b.1 <;> rfl
  have htail : ∀ x, b.2.getLast? = some x → g'.child? x = suffix.head? := by
    intro x hx
    rw [hs.getLast?_eq, Option.map_eq_some_iff] at hx
    obtain ⟨c, hc, rfl⟩ := hx
    rw [hg.tail c hc, h.next]
  refine walk_eq_of_isRun ⟨?_, ?_⟩ ?_ ?_
  · rw [List.nodup_cons, List.nodup_append]
    refine ⟨?_, hs.run.nodup, hf.run.nodup, ?_⟩
    · rw [List.mem_append]
      exact fun hm => hm.elim (ha.node b hb) ha.after
    · rintro x hx y hy rfl
      exact ha.beyond b hb hx hy
  · refine List.isChain_cons.2 ⟨fun y hy => hself.trans hy, ?_⟩
    refine List.isChain_append.2 ⟨hs.run.linked, hf.run.linked, fun x hx y hy => ?_⟩
    rw [htail x hx]
    exact hy
  · intro x hx
    rw [List.mem_cons, List.mem_append] at hx
    rcases hx with rfl | hx | hx
    · exact hf.node
    · exact (hs.movable x hx).1
    · exact (hf.movable x hx).1
  · -- the walk ends where the suffix, else the branch, else the node itself ends
    intro x hx
    rw [List.getLast?_cons, List.getLast?_append] at hx
    cases hsl : suffix.getLast? with
    | some y =>
      rw [hsl] at hx
      obtain rfl : y = x := by simpa using hx
      exact hf.last y hsl
    | none =>
      have hnil : suffix.head? = none := by
        rw [List.getLast?_eq_none_iff] at hsl
        rw [hsl]
        rfl
      cases hbl : b.2.getLast? with
      | some y =>
        rw [hsl, hbl] at hx
        obtain rfl : y = x := by simpa using hx
        rw [htail y hbl, hnil]
      | none =>
        rw [hsl, hbl] at hx
        obtain rfl : id = x := by simpa using hx
        rw [hself, List.head?_append, List.getLast?_eq_none_iff.1 hbl, hnil]
        rfl

theorem Fresh.graft_all (ha : Apart id suffix branches) :
    ∀ (bs : List (Option Chain × List NodeId)), (∀ b ∈ bs, b ∈ branches) →
      ∀ {g : Graph γ}, g.Fresh id suffix branches →
        ∃ g', (bs.map Prod.fst).forM (splice id) g = .ok () g' ∧ g'.Fresh id suffix branches ∧
          ∀ b, bs.getLast? = some b → g'.walk id = id :: (b.2 ++ suffix) := by
  intro bs
  induction bs with
  | nil => exact fun _ g h => ⟨g, rfl, h, nofun⟩
  | cons b rest ih =>
    intro hbs g h
    have hb := hbs b (by simp)
    obtain ⟨g₁, hg₁, hgr⟩ := splice_ok (h.graftable ha hb)
    obtain ⟨g₂, hg₂, hf₂, hw₂⟩ := ih (fun b' hb' => hbs b' (by simp [hb'])) (h.graft ha hb hgr)
    refine ⟨g₂, (bind_of_ok hg₁).trans hg₂, hf₂, fun b' hb' => ?_⟩
    cases rest with
    | nil =>
      obtain rfl : b = b' := by simpa using hb'
      obtain ⟨⟩ := hg₂
      exact h.walk_graft ha hb hgr
    | cons b₂ rest => exact hw₂ b' (by rwa [List.getLast?_cons_cons] at hb')

/-! ### The main statement -/

/-- **Repeated grafting leaves no trace of earlier branches.** In a graph that operations reach,
branches that keep clear of each other, of a node and of what follows it can be grafted in at the
node in any number and order. The node keeps its continuation, and what it leads through at the end
is the last branch and then what followed before the first. Back references need not agree with the
edges for that. -/
theorem walk_of_regrafted (h : g.Reached) (hid : g.contains id = true)
    (hlast : ∀ x, (g.beyond id).getLast? = some x → g.child? x = none)
    (hspans : ∀ b ∈ branches, g.Spans b.1 b.2) (ha : Apart id (g.beyond id) branches)
    (hb : branches.getLast? = some b) :
    ∃ g', (branches.map Prod.fst).forM (splice id) g = .ok () g' ∧
      g'.continuation id = g.continuation id ∧ g'.walk id = id :: (b.2 ++ g.beyond id) := by
  have hf := h.fresh hid hlast hspans
  obtain ⟨g', hg', hf', hw⟩ := Fresh.graft_all ha branches (fun _ hb => hb) hf
  exact ⟨g', hg', hf'.next.trans hf.next.symm, hw b hb⟩

/-- Nodes 1, 2, 3 in a row, and 4, 5 in another. -/
def twoRows : Graph Unit :=
  (withRoot ⟨0⟩).runAll <|
    ([1, 2, 3, 4, 5, 6].map fun n => .insertContent ⟨n⟩ ()) ++
      [.link [⟨1⟩, ⟨2⟩, ⟨3⟩], .link [⟨4⟩, ⟨5⟩]]

theorem walk_of_regrafted_twoRows :
    ∃ g', [some ⟨⟨4⟩, ⟨5⟩⟩, none, some ⟨⟨6⟩, ⟨6⟩⟩, some ⟨⟨4⟩, ⟨5⟩⟩].forM (splice ⟨1⟩) twoRows =
        .ok () g' ∧
      g'.continuation ⟨1⟩ = twoRows.continuation ⟨1⟩ ∧
      g'.walk ⟨1⟩ = [⟨1⟩, ⟨4⟩, ⟨5⟩, ⟨2⟩, ⟨3⟩] := by
  have hbeyond : twoRows.beyond ⟨1⟩ = [⟨2⟩, ⟨3⟩] := by decide +kernel
  have hspans : ∀ b ∈ [(some ⟨⟨4⟩, ⟨5⟩⟩, [⟨4⟩, ⟨5⟩]), (none, []), (some ⟨⟨6⟩, ⟨6⟩⟩, [⟨6⟩]),
      (some ⟨⟨4⟩, ⟨5⟩⟩, [⟨4⟩, ⟨5⟩])], twoRows.Spans b.1 b.2 := by
    intro b hb
    simp only [List.mem_cons, List.not_mem_nil, or_false] at hb
    rcases hb with rfl | rfl | rfl | rfl
    all_goals exact ⟨⟨by decide +kernel, by decide +kernel⟩, rfl, by decide +kernel⟩
  have h := @walk_of_regrafted _ twoRows ⟨1⟩ _ _ ((Reached.withRoot _).runAll _)
    (by decide +kernel) (by rw [hbeyond]; rintro x ⟨⟩; decide +kernel) hspans
    (by rw [hbeyond]; exact ⟨by decide, by simp, by decide, by simp⟩) rfl
  rwa [hbeyond] at h

end Storyline.Graph
