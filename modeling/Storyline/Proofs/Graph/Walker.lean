import Storyline.Proofs.Graph.InLine

/-!
# Walks end

* `Walker`: a walk under way, which goes on one node at a time with nothing that bounds its steps, and
  `Walker.Visits g w l`: from here on it comes past the nodes of `l` and is then over;
* `unseen`: the nodes that a walk has not been at. Each step leaves fewer of them
  (`length_unseen_insert_lt`), so that a walk ends, and a listing that may be longer than they are many
  has all that it comes past (`walkFrom_visits`);
* `descend g id n`: where first children lead to after `n` steps, and `prefix_walk_iff`: the walk is the
  longest beginning of that sequence without a repetition;
* `Reached.walked`: **walks** in every graph that operations reach.
-/

namespace Storyline.Graph

variable {γ : Type} {g : Graph γ} {id x c : NodeId} {l : List NodeId} {seen : Std.ExtTreeSet NodeId}

/-! ### Step by step -/

/-- A walk under way: the node that it comes to next, if any, and those that it has been at. -/
structure Walker where
  next? : Option NodeId
  seen : Std.ExtTreeSet NodeId := ∅

/-- The walk from a node on, before its first step. -/
def walker (g : Graph γ) (id : NodeId) : Walker :=
  { next? := if g.contains id then some id else none }

namespace Walker

variable {w w' : Walker}

/-- The node that a walk comes to, and the walk from there on. It is over when it would come to a node
again. -/
def step (g : Graph γ) (w : Walker) : Option NodeId × Walker :=
  match w.next? with
  | none => (none, w)
  | some id =>
    if w.seen.contains id then (none, { w with next? := none })
    else (some id, { next? := g.child? id, seen := w.seen.insert id })

theorem step_eq_some_iff : w.step g = (some id, w') ↔
    w.next? = some id ∧ id ∉ w.seen ∧ w' = { next? := g.child? id, seen := w.seen.insert id } := by
  cases hnext : w.next? with
  | none => simp [step, hnext]
  | some d =>
    simp only [step, hnext]
    split
    · rename_i hd
      refine ⟨fun h => absurd (Prod.mk.inj h).1 nofun, ?_⟩
      rintro ⟨⟨⟩, hnew, -⟩
      exact absurd (Std.ExtTreeSet.mem_iff_contains.2 hd) hnew
    · rename_i hd
      constructor
      · rintro ⟨⟩
        exact ⟨rfl, mt Std.ExtTreeSet.mem_iff_contains.1 hd, rfl⟩
      · rintro ⟨⟨⟩, -, rfl⟩
        rfl

theorem step_eq_none_iff : (w.step g).1 = none ↔ ∀ id, w.next? = some id → id ∈ w.seen := by
  unfold step
  cases w.next? with
  | none => simp
  | some d => by_cases hd : d ∈ w.seen <;> simp [hd]

theorem step_of_none (h : w.next? = none) : (w.step g).1 = none := by
  rw [step, h]

/-- The walk comes past the nodes of the list, in this order, and is then over. -/
inductive Visits (g : Graph γ) : Walker → List NodeId → Prop
  | ends {w : Walker} (h : (w.step g).1 = none) : Visits g w []
  | goes {w w' : Walker} {id : NodeId} {l : List NodeId} (h : w.step g = (some id, w'))
      (rest : Visits g w' l) : Visits g w (id :: l)

/-- Where a walk is over: the last node that it came past leads to one that it has been at, if it leads
on at all. -/
theorem Visits.child_getLast (h : w.Visits g l) (hx : l.getLast? = some x)
    (hc : g.child? x = some c) : c ∈ w.seen ∨ c ∈ l := by
  induction h with
  | ends h => cases hx
  | @goes w w' id l h rest ih =>
    obtain ⟨-, -, rfl⟩ := step_eq_some_iff.1 h
    have hmem : c ∈ w.seen.insert id ∨ c ∈ l := by
      cases rest with
      | ends hover =>
        -- the child of the last node is where the walk would have gone next
        obtain rfl := Option.some.inj hx
        exact .inl (step_eq_none_iff.1 hover c hc)
      | goes hnext hrest => exact ih hx
    rcases hmem with hmem | hmem
    · rcases Std.ExtTreeSet.mem_insert.1 hmem with he | hold
      · exact .inr (Std.LawfulEqCmp.eq_of_compare he ▸ List.mem_cons_self ..)
      · exact .inl hold
    · exact .inr (List.mem_cons_of_mem _ hmem)

end Walker

/-! ### Walks end -/

/-- The nodes that a walk has not been at. -/
def unseen (g : Graph γ) (seen : Std.ExtTreeSet NodeId) : List NodeId := g.ids.filter (· ∉ seen)

theorem length_unseen_empty (g : Graph γ) : (g.unseen ∅).length = g.size := by
  simp [unseen, ids, size]

theorem length_unseen_insert_lt (hid : g.contains id = true) (hnew : id ∉ seen) :
    (g.unseen (seen.insert id)).length < (g.unseen seen).length := by
  have hmem : id ∈ g.unseen seen :=
    List.mem_filter.2 ⟨Std.ExtTreeMap.mem_keys.2 (Std.ExtTreeMap.mem_iff_contains.2 hid),
      decide_eq_true hnew⟩
  have hfilter : g.unseen (seen.insert id) = (g.unseen seen).filter (· ≠ id) := by
    rw [unseen, unseen, List.filter_filter]
    refine List.filter_congr fun x _ => ?_
    rw [← Bool.decide_and, decide_eq_decide, Std.ExtTreeSet.mem_insert, not_or,
      Std.LawfulEqCmp.compare_eq_iff_eq, eq_comm]
  rw [hfilter]
  exact List.length_filter_lt_length_iff_exists.2 ⟨id, hmem, by simp⟩

/-- **A walk ends**, and the nodes that it comes past are those listed, if more may be listed than are
unseen. -/
theorem walkFrom_visits (hs : g.Sound) (hid : g.contains id = true) (fuel : Nat)
    (hfuel : (g.unseen seen).length < fuel) (past : List NodeId) :
    ∃ l, g.walkFrom fuel seen past id = past.reverse ++ l ∧
      Walker.Visits g { next? := some id, seen } l := by
  -- every node that is listed takes one from the nodes unseen, so that there stay fewer than fuel
  induction fuel generalizing seen past id with
  | zero => omega
  | succ fuel ih =>
    unfold walkFrom
    by_cases hseen : id ∈ seen
    · rw [if_pos (Std.ExtTreeSet.mem_iff_contains.1 hseen)]
      refine ⟨[], by simp, .ends (Walker.step_eq_none_iff.2 ?_)⟩
      rintro _ ⟨⟩
      exact hseen
    · rw [if_neg (mt Std.ExtTreeSet.mem_iff_contains.2 hseen)]
      have hstep : Walker.step g { next? := some id, seen } =
          (some id, { next? := g.child? id, seen := seen.insert id }) :=
        Walker.step_eq_some_iff.2 ⟨rfl, hseen, rfl⟩
      cases hc : g.child? id with
      | none =>
        rw [hc] at hstep
        exact ⟨[id], by simp, .goes hstep (.ends (Walker.step_of_none rfl))⟩
      | some c =>
        rw [hc] at hstep
        have hless : (g.unseen (seen.insert id)).length < fuel :=
          (length_unseen_insert_lt hid hseen).trans_le (Nat.le_of_lt_succ hfuel)
        obtain ⟨l, hl, hvisits⟩ := ih (hs.child? hc).1 hless (id :: past)
        exact ⟨id :: l, by simp [hl], .goes hstep hvisits⟩

theorem walk_visits (hs : g.Sound) (id : NodeId) : (g.walker id).Visits g (g.walk id) := by
  unfold walk walker
  split
  · rename_i hid
    obtain ⟨l, hl, hvisits⟩ := walkFrom_visits hs hid (g.size + 1)
      (by rw [length_unseen_empty]; omega) []
    rw [hl]
    exact hvisits
  · exact .ends (Walker.step_of_none rfl)

theorem walk_stops (hs : g.Sound) (hx : (g.walk id).getLast? = some x) :
    g.children x = [] ∨ ∃ c ∈ g.walk id, g.child? x = some c := by
  cases hc : g.child? x with
  | none => exact .inl (List.head?_eq_none_iff.1 ((child?_eq_head? g x).symm.trans hc))
  | some c =>
    rcases (walk_visits hs id).child_getLast hx hc with hbefore | hmem
    · exact absurd hbefore Std.ExtTreeSet.not_mem_empty
    · exact .inr ⟨c, hmem, rfl⟩

/-! ### The sequence of first children -/

/-- Where first children lead to from a node on after that many steps. -/
def descend (g : Graph γ) (id : NodeId) : Nat → Option NodeId
  | 0 => some id
  | n + 1 => (g.descend id n).bind g.child?

theorem isChain_iff_descend (hl : l.head? = some id) :
    (l.IsChain fun a b => g.child? a = some b) ↔ ∀ n < l.length, l[n]? = g.descend id n := by
  rw [List.isChain_iff_getElem]
  constructor
  · intro h n hn
    induction n with
    | zero => rw [← List.head?_eq_getElem?, hl, descend]
    | succ n ih =>
      have hn' : n < l.length := by omega
      rw [descend, ← ih hn', List.getElem?_eq_getElem hn', Option.bind_some, h n hn,
        List.getElem?_eq_getElem hn]
  · intro h n hn
    have hn' : n < l.length := by omega
    have hnext := h (n + 1) hn
    rw [descend, ← h n hn', List.getElem?_eq_getElem hn', Option.bind_some,
      List.getElem?_eq_getElem hn] at hnext
    exact hnext.symm

theorem IsRun.contains (hrun : g.IsRun (id :: l)) (hs : g.Sound) (hid : g.contains id = true) :
    ∀ x ∈ id :: l, g.contains x = true :=
  hrun.linked.induction (g.contains · = true) _ (fun _ _ hc _ => (hs.child? hc).1) fun _ => hid

/-- **The walk is the longest beginning without a repetition** of the sequence of first children: all of
these are its own beginnings. -/
theorem prefix_walk_iff (hs : g.Sound) (hid : g.contains id = true) :
    l <+: g.walk id ↔ l.Nodup ∧ ∀ n < l.length, l[n]? = g.descend id n := by
  have hrun := g.isRun_walk id
  constructor
  · intro hl
    refine ⟨hrun.nodup.sublist hl.sublist, fun n hn => ?_⟩
    rw [← (isChain_iff_descend (head?_walk hid)).1 hrun.linked n (hn.trans_le hl.length_le),
      List.getElem?_eq_getElem hn, List.prefix_iff_getElem?.1 hl n hn]
  · rintro ⟨hnodup, hl⟩
    cases l with
    | nil => exact List.nil_prefix
    | cons x rest =>
      obtain rfl : x = id := Option.some.inj (hl 0 (by simp))
      have hrest : g.IsRun (x :: rest) := ⟨hnodup, (isChain_iff_descend rfl).2 hl⟩
      exact hrest.prefix_walk (hrest.contains hs hid)

/-! ### What a walk is -/

/-- The list is the walk from a node: it goes along first children, to no node twice, and on for as long
as it can. -/
structure Walked (g : Graph γ) (id : NodeId) (l : List NodeId) : Prop extends IsRun g l where
  starts : l.head? = some id
  inside : ∀ x ∈ l, g.contains x = true
  length_le : l.length ≤ g.size
  stops : ∀ x, l.getLast? = some x → g.children x = [] ∨ ∃ c ∈ l, g.child? x = some c
  longest : ∀ l', l' <+: l ↔ l'.Nodup ∧ ∀ n < l'.length, l'[n]? = g.descend id n

theorem walk_eq_nil_iff : g.walk id = [] ↔ g.contains id = false := by
  rw [← Bool.not_eq_true]
  constructor
  · intro hempty hid
    have hhead := head?_walk hid
    rw [hempty] at hhead
    cases hhead
  · intro hid
    rw [walk, if_neg hid]

theorem contains_of_mem_walk (hs : g.Sound) (hid : g.contains id = true) :
    ∀ x ∈ g.walk id, g.contains x = true := by
  have hrun := g.isRun_walk id
  obtain ⟨rest, hrest⟩ := List.head?_eq_some_iff.1 (head?_walk hid)
  rw [hrest] at hrun ⊢
  exact hrun.contains hs hid

/-- **Walks** in a graph that operations reach, with cycles or without: taken step by step, a walk comes
past finitely many nodes and is then over. It comes past none only where there is no node to start at, and
goes along first children for as long as it can otherwise. -/
theorem Reached.walked (h : g.Reached) (id : NodeId) :
    (g.walker id).Visits g (g.walk id) ∧ (g.walk id = [] ↔ g.contains id = false) ∧
      (g.contains id = true → g.Walked id (g.walk id)) := by
  have hs := h.sound
  refine ⟨walk_visits hs id, walk_eq_nil_iff, fun hid => ?_⟩
  have hrun := g.isRun_walk id
  have hinside := contains_of_mem_walk hs hid
  exact
    { hrun with
      starts := head?_walk hid
      inside := hinside
      length_le := length_le_size hrun.nodup hinside
      stops := fun _ hx => walk_stops hs hx
      longest := fun _ => prefix_walk_iff hs hid }

/-- A round of three nodes, one of them a tree node that leads to 4 as well. -/
def roundabout : Graph Unit :=
  (withRoot ⟨0⟩).runAll <|
    ([1, 2, 4].map fun n => .insertContent ⟨n⟩ ()) ++
      [.insertTree ⟨3⟩ none, .setChild ⟨1⟩ (some ⟨3⟩), .addChild ⟨3⟩ ⟨2⟩, .addChild ⟨3⟩ ⟨4⟩,
        .setChild ⟨2⟩ (some ⟨1⟩)]

theorem walked_roundabout :
    (roundabout.walker ⟨1⟩).Visits roundabout [⟨1⟩, ⟨3⟩, ⟨2⟩] ∧
      roundabout.Walked ⟨1⟩ [⟨1⟩, ⟨3⟩, ⟨2⟩] ∧ roundabout.children ⟨3⟩ = [⟨2⟩, ⟨4⟩] ∧
      roundabout.child? ⟨2⟩ = some ⟨1⟩ ∧ roundabout.walk ⟨77⟩ = [] := by
  have hwalk : roundabout.walk ⟨1⟩ = [⟨1⟩, ⟨3⟩, ⟨2⟩] := by decide +kernel
  have hreached : roundabout.Reached := (Reached.withRoot _).runAll _
  obtain ⟨hvisits, -, hwalked⟩ := Reached.walked hreached ⟨1⟩
  obtain ⟨-, hempty, -⟩ := Reached.walked hreached ⟨77⟩
  rw [hwalk] at hvisits hwalked
  exact ⟨hvisits, hwalked (by decide +kernel), by decide +kernel, by decide +kernel,
    hempty.2 (by decide +kernel)⟩

end Storyline.Graph
