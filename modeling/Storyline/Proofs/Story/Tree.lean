import Mathlib.Data.List.Nodup
import Storyline.Element

/-!
# Stories as trees

* `Tree`: a node of a story and the rows of nodes that it leads into;
* `Outlook`: what the course of a story depends on, and `Role.turn`: which row a node goes on with;
* `Condition.run_eq`: the branch that a condition takes is that of the first predicate that holds;
* `Tree.traceRow`: the nodes that a row of trees plays, by recursion over the trees;
* `traceRow_cons`: playing a row node by node, the rows that were turned to ahead of what is left;
* `Tree.all`: all trees within a tree, and `Tree.within` within rows.
-/

namespace Storyline

/-- What a node of a story does, apart from what is seen and heard of it. -/
inductive Role where
  | statement
  | script (e : ElementId) (handler : Handler)
  | scene
  | condition (tests : List Predicate)
  | menu

/-- A node of a story and the rows that it leads into: the inner row of a scene, the branches of a
condition, with that for all other cases at the end, or what the entries of a menu lead into. -/
inductive Tree where
  | mk (node : NodeId) (role : Role) (rows : List (List Tree))

/-- What the course of a story depends on. -/
structure Outlook where
  store : Store
  /-- The picks that the player will make. -/
  picks : List Nat
  /-- How often the handler of a script was called. -/
  calls : ElementId → Nat

/-- The place of the first predicate that comes out true, the number of all if none does, and the
store that the predicates left. -/
def firstHolding : List Predicate → Store → Nat × Store
  | [], s => (0, s)
  | p :: rest, s =>
    match p.evaluate s with
    | (true, _, s) => (0, s)
    | (false, _, s) =>
      let (i, s) := firstHolding rest s
      (i + 1, s)

theorem Condition.firstTrue_eq (branches : List Branch) (index : Nat) (s : Store) :
    (firstTrue index branches s).2 = (firstHolding (branches.map (·.predicate)) s).2 ∧
      (firstTrue index branches s).1.map (·.chain) =
        (branches[(firstHolding (branches.map (·.predicate)) s).1]?).map (·.chain) ∧
      (firstHolding (branches.map (·.predicate)) s).1 ≤ branches.length := by
  induction branches generalizing index s with
  | nil => exact ⟨rfl, rfl, by simp [firstHolding]⟩
  | cons b rest ih =>
    simp only [firstTrue, firstHolding, List.map_cons]
    obtain ⟨answer, cleaner, left⟩ := b.predicate.evaluate s
    cases answer with
    | true => exact ⟨rfl, rfl, by simp⟩
    | false =>
      obtain ⟨hstore, hchain, hlen⟩ := ih (index + 1) left
      exact ⟨hstore, hchain, by simpa using hlen⟩

/-- **The branch that a condition takes** is that of the first predicate that holds, or else the one
for all other cases. -/
theorem Condition.run_eq (c : Condition) (s : Store) :
    (c.run s).1 = ((c.branches.map (·.chain) ++ (c.fallback.map (·.2)).toList)[
        (firstHolding (c.branches.map (·.predicate)) s).1]?).join ∧
      (c.run s).2.2 = (firstHolding (c.branches.map (·.predicate)) s).2 := by
  obtain ⟨hstore, hchain, hlen⟩ := firstTrue_eq c.branches 0 s
  unfold run evaluate
  generalize firstHolding (c.branches.map (·.predicate)) s = place at hstore hchain hlen ⊢
  obtain ⟨i, left⟩ := place
  generalize firstTrue 0 c.branches s = found at hstore hchain ⊢
  obtain ⟨chosen, left'⟩ := found
  obtain rfl : left' = left := hstore
  cases chosen with
  | some chosen =>
    refine ⟨?_, rfl⟩
    cases hb : c.branches[i]? with
    | none => simp [hb] at hchain
    | some b =>
      have hi : i < (c.branches.map (·.chain)).length := by
        rw [List.length_map]
        exact (List.getElem?_eq_some_iff.1 hb).1
      rw [List.getElem?_append_left hi, List.getElem?_map, hb]
      rw [hb] at hchain
      exact Option.some_inj.1 hchain
  | none =>
    refine ⟨?_, by cases c.fallback <;> rfl⟩
    -- no branch held, so that the position is the one behind them all
    obtain rfl : i = c.branches.length := by
      by_contra hne
      have hi : i < c.branches.length := by
        simp only at hlen
        omega
      simp [List.getElem?_eq_getElem hi] at hchain
    rw [List.getElem?_append_right (by simp)]
    cases c.fallback <;> simp

/-- Which row a node goes on with, counted from zero, and what its turn changes. A scene goes on
with its only row; statements and scripts have none. -/
def Role.turn (node : NodeId) : Role → Outlook → Nat × Outlook
  | statement, v | scene, v => (0, v)
  | script e handler, v =>
    (0, { v with
      store := (handler (v.calls e) node v.store).1
      calls := Function.update v.calls e (v.calls e + 1) })
  | condition tests, v =>
    let (i, store) := firstHolding tests v.store
    (i, { v with store })
  | menu, v => (v.picks.headD 0, { v with picks := v.picks.tail })

namespace Tree

def node : Tree → NodeId
  | mk node _ _ => node

def role : Tree → Role
  | mk _ role _ => role

def rows : Tree → List (List Tree)
  | mk _ _ rows => rows

/-! ### The trace -/

mutual

/-- The nodes that a tree plays, and the outlook afterwards. -/
def trace : Tree → Outlook → List NodeId × Outlook
  | mk node role rows, v =>
    let (i, v) := role.turn node v
    let (nodes, v) := traceNth rows i v
    (node :: nodes, v)

/-- The nodes that a row plays: those of its trees in their order. -/
def traceRow : List Tree → Outlook → List NodeId × Outlook
  | [], v => ([], v)
  | t :: rest, v =>
    let (nodes, v) := t.trace v
    let (more, v) := traceRow rest v
    (nodes ++ more, v)

/-- The nodes that the row at a place plays, none if there is no such row. -/
def traceNth : List (List Tree) → Nat → Outlook → List NodeId × Outlook
  | [], _, v => ([], v)
  | row :: _, 0, v => traceRow row v
  | _ :: rows, i + 1, v => traceNth rows i v

end

/-- The row that a tree turns to, and the outlook then. -/
def turn (t : Tree) (v : Outlook) : List Tree × Outlook :=
  let (i, v) := t.role.turn t.node v
  ((t.rows[i]?).getD [], v)

theorem traceNth_eq (rows : List (List Tree)) (i : Nat) (v : Outlook) :
    traceNth rows i v = traceRow ((rows[i]?).getD []) v := by
  induction rows generalizing i with
  | nil => rfl
  | cons row rows ih =>
    cases i with
    | zero => rfl
    | succ i => exact ih i

theorem trace_eq (t : Tree) (v : Outlook) :
    t.trace v = (t.node :: (traceRow (t.turn v).1 (t.turn v).2).1,
      (traceRow (t.turn v).1 (t.turn v).2).2) := by
  obtain ⟨node, role, rows⟩ := t
  rw [trace]
  simp only [traceNth_eq]
  rfl

theorem traceRow_append (a b : List Tree) (v : Outlook) :
    traceRow (a ++ b) v =
      ((traceRow a v).1 ++ (traceRow b (traceRow a v).2).1, (traceRow b (traceRow a v).2).2) := by
  induction a generalizing v with
  | nil => rfl
  | cons t a ih => simp [traceRow, ih]

/-- **Playing a row node by node**: the first node, then the row that it turns to ahead of what is
left. -/
theorem traceRow_cons (t : Tree) (rest : List Tree) (v : Outlook) :
    (traceRow (t :: rest) v).1 =
      t.node :: (traceRow ((t.turn v).1 ++ rest) (t.turn v).2).1 := by
  rw [traceRow, traceRow_append, trace_eq]
  rfl

/-! ### All trees -/

mutual

/-- All trees within a tree, itself first. -/
def all : Tree → List Tree
  | mk node role rows => mk node role rows :: allOfRows rows

def allOfRow : List Tree → List Tree
  | [] => []
  | t :: rest => t.all ++ allOfRow rest

def allOfRows : List (List Tree) → List Tree
  | [] => []
  | row :: rows => allOfRow row ++ allOfRows rows

end

/-- All trees within the trees of a list. -/
def within (ts : List Tree) : List Tree := ts.flatMap all

theorem allOfRow_eq (ts : List Tree) : allOfRow ts = within ts := by
  induction ts with
  | nil => rfl
  | cons t rest ih =>
    rw [allOfRow, ih]
    rfl

theorem allOfRows_eq (rows : List (List Tree)) : allOfRows rows = within rows.flatten := by
  induction rows with
  | nil => rfl
  | cons row rows ih =>
    rw [allOfRows, ih, allOfRow_eq]
    simp [within]

theorem all_eq (t : Tree) : t.all = t :: within t.rows.flatten := by
  obtain ⟨node, role, rows⟩ := t
  rw [all, allOfRows_eq]
  rfl

/-- The trees that a tree leads into, in all of its rows. -/
def kids (t : Tree) : List Tree := t.rows.flatten

theorem all_eq_kids (t : Tree) : t.all = t :: within t.kids := t.all_eq

theorem within_cons (t : Tree) (ts : List Tree) : within (t :: ts) = t.all ++ within ts := rfl

theorem within_append (a b : List Tree) : within (a ++ b) = within a ++ within b :=
  List.flatMap_append

theorem within_subset {a b : List Tree} (h : a ⊆ b) : within a ⊆ within b := by
  intro s hs
  obtain ⟨t, ht, hst⟩ := List.mem_flatMap.1 hs
  exact List.mem_flatMap.2 ⟨t, h ht, hst⟩

theorem mem_all_self (t : Tree) : t ∈ t.all := by
  rw [all_eq]
  exact List.mem_cons_self

theorem subset_within (ts : List Tree) : ts ⊆ within ts :=
  fun t ht => List.mem_flatMap.2 ⟨t, ht, t.mem_all_self⟩

theorem length_all_lt {s t : Tree} (h : s ∈ t.kids) : s.all.length < t.all.length := by
  have hsub : s.all.length ≤ (within t.kids).length := by
    exact (List.sublist_flatten_of_mem (List.mem_map.2 ⟨s, h, rfl⟩)).length_le
  rw [t.all_eq_kids, List.length_cons]
  omega

/-- What holds of a tree if it holds of all that it leads into, holds of every tree. -/
theorem induct {P : Tree → Prop} (h : ∀ t, (∀ s ∈ t.kids, P s) → P t) (t : Tree) : P t := by
  generalize hn : t.all.length = n
  induction n using Nat.strongRecOn generalizing t with
  | _ n ih =>
    refine h t fun s hs => ih _ ?_ s rfl
    rw [← hn]
    exact length_all_lt hs

/-- Whatever is within a tree within some trees is within these. -/
theorem all_subset_within {s : Tree} {ts : List Tree} (h : s ∈ within ts) : s.all ⊆ within ts := by
  have hall : ∀ t : Tree, ∀ s ∈ t.all, s.all ⊆ t.all := by
    intro t
    induction t using induct with
    | h t ih =>
      intro s hs
      rw [all_eq_kids t] at hs
      rcases List.mem_cons.1 hs with rfl | hs
      · exact fun _ hx => hx
      · obtain ⟨k, hk, hsk⟩ := List.mem_flatMap.1 hs
        intro x hx
        rw [all_eq_kids t]
        exact List.mem_cons_of_mem _ (List.mem_flatMap.2 ⟨k, hk, ih k hk s hsk hx⟩)
  obtain ⟨t, ht, hst⟩ := List.mem_flatMap.1 h
  intro x hx
  exact List.mem_flatMap.2 ⟨t, ht, hall t s hst hx⟩

theorem kids_subset_within {s : Tree} {ts : List Tree} (h : s ∈ within ts) :
    s.kids ⊆ within ts := by
  intro x hx
  refine all_subset_within h ?_
  rw [all_eq_kids]
  exact List.mem_cons_of_mem _ (subset_within _ hx)

/-- Every tree within others is one of these or led into by exactly one tree within them. -/
theorem perm_within (ts : List Tree) : (ts ++ (within ts).flatMap kids).Perm (within ts) := by
  have hlist : ∀ ts : List Tree, (∀ t ∈ ts, (t :: t.all.flatMap kids).Perm t.all) →
      (ts ++ (within ts).flatMap kids).Perm (within ts) := by
    intro ts h
    induction ts with
    | nil => exact .nil
    | cons t ts ih =>
      have hrest := ih fun s hs => h s (List.mem_cons_of_mem _ hs)
      have ht := h t List.mem_cons_self
      rw [within_cons, List.flatMap_append]
      refine List.Perm.trans ?_ (ht.append hrest)
      simp only [List.cons_append, ← List.append_assoc]
      refine .cons _ (List.Perm.append_right _ ?_)
      exact List.perm_append_comm
  refine hlist ts fun t _ => ?_
  clear * - hlist
  induction t using induct with
  | h t ih =>
    rw [all_eq_kids, List.flatMap_cons]
    exact .cons _ (hlist _ ih)

end Tree

end Storyline
