import Storyline.Proofs.Game.Told

/-!
# Where play is

* `Spot`: where nodes lead, what they remember, which node is next, and the unit that follows; of all
  that a game holds, this is what decides where play goes on;
* `Spot.move`, `Spot.moves`: the spot after a node was played, or several;
* `Game.At g s`: the game `g` is at the spot `s`, or waits there;
* `Told.at_moves`: playing on leads from spot to spot;
* `Spot.place?_again`, `Spot.moves_again`: once nodes were played, playing them again leads through
  the same places, and then to the same spot. What a node leads to must have been set by those that
  are played again, or have stayed, and where a unit ends it must have been begun again;
* `Spot.retraces`: the same, with whatever was played behind them.
-/

namespace Storyline

open Effect

variable {σ : Type}

/-- A node that was played, and the chain that it has grafted in, if it has. -/
structure Visit where
  node : NodeId
  graft? : Option (Option Chain)
deriving DecidableEq, Repr

namespace Visit

/-- The edges that are set. -/
def edges (v : Visit) (next : Option NodeId) : List (NodeId × Option NodeId) :=
  match v.graft? with
  | none => []
  | some chain => Graph.joins v.node chain next

/-- The nodes that are led anew. -/
def leads (v : Visit) : List NodeId :=
  match v.graft? with
  | none => []
  | some none => [v.node]
  | some (some chain) => [chain.tail, v.node]

theorem map_fst_edges (v : Visit) (next : Option NodeId) :
    (v.edges next).map Prod.fst = v.leads := by
  unfold edges leads Graph.joins
  rcases v.graft? with _ | _ | chain <;> rfl

end Visit

/-- **Where play is**, and all that decides where it goes on. -/
@[ext] structure Spot where
  child? : NodeId → Option NodeId
  resumes : NodeId → Option (Option NodeId)
  current : Option NodeId
  /-- The unit that comes next. -/
  onward : Option NodeId

namespace Spot

/-- The node that is next. -/
def place? (s : Spot) : Option NodeId := s.current.or s.onward

def continuation (s : Spot) (x : NodeId) : Option NodeId := (s.resumes x).getD (s.child? x)

/-- The unit that comes next once a node was reached. -/
def onwardFrom (units : List NodeId) (s : Spot) (x : NodeId) : Option NodeId :=
  (units.findIdx? (· = x)).elim s.onward fun i => units[i + 1]?

/-- **Playing a node.** -/
def move (units : List NodeId) (s : Spot) (v : Visit) : Spot :=
  let child? := Graph.lead (v.edges (s.continuation v.node)) s.child?
  { child?
    resumes := fun y =>
      if y = v.node ∧ v.graft?.isSome then some (s.continuation v.node) else s.resumes y
    current := child? v.node
    onward := s.onwardFrom units v.node }

def moves (units : List NodeId) (s : Spot) (vs : List Visit) : Spot := vs.foldl (move units) s

/-- The edges that are set when nodes are played. -/
def edges (units : List NodeId) : Spot → List Visit → List (NodeId × Option NodeId)
  | _, [] => []
  | s, v :: vs => v.edges (s.continuation v.node) ++ edges units (s.move units v) vs

variable {units : List NodeId} {s s' r : Spot} {v : Visit} {vs ws : List Visit} {y : NodeId}
  {k : Option NodeId}

@[simp] theorem moves_nil (units : List NodeId) (s : Spot) : s.moves units [] = s := rfl

@[simp] theorem moves_cons (units : List NodeId) (s : Spot) (v : Visit) (vs : List Visit) :
    s.moves units (v :: vs) = (s.move units v).moves units vs := rfl

theorem moves_append (units : List NodeId) (s : Spot) (vs ws : List Visit) :
    s.moves units (vs ++ ws) = (s.moves units vs).moves units ws := List.foldl_append

theorem current_moves (units : List NodeId) (s : Spot) (vs : List Visit) (v : Visit) :
    (s.moves units (vs ++ [v])).current = (s.moves units (vs ++ [v])).child? v.node := by
  rw [moves_append]
  rfl

theorem child?_moves (units : List NodeId) (s : Spot) (vs : List Visit) :
    (s.moves units vs).child? = Graph.lead (s.edges units vs) s.child? := by
  induction vs generalizing s with
  | nil => rfl
  | cons v vs ih =>
    rw [moves_cons, ih, edges, Graph.lead_append]
    rfl

theorem map_fst_edges (units : List NodeId) (s : Spot) (vs : List Visit) :
    (s.edges units vs).map Prod.fst = vs.flatMap Visit.leads := by
  induction vs generalizing s with
  | nil => rfl
  | cons v vs ih => rw [edges, List.map_append, v.map_fst_edges, ih, List.flatMap_cons]

theorem resumes_move (units : List NodeId) (s : Spot) (v : Visit) (y : NodeId) :
    (s.move units v).resumes y =
      if y = v.node ∧ v.graft?.isSome then some (s.continuation v.node) else s.resumes y := rfl

theorem onward_move (units : List NodeId) (s : Spot) (v : Visit) :
    (s.move units v).onward = s.onwardFrom units v.node := rfl

/-! ### What is remembered -/

theorem continuation_of_resumes (h : s.resumes y = some k) : s.continuation y = k := by
  unfold continuation
  rw [h]
  rfl

theorem resumes_move_of_resumes (h : s.resumes y = some k) :
    (s.move units v).resumes y = some k := by
  rw [resumes_move]
  split
  · rename_i he
    rw [← he.1, continuation_of_resumes h]
  · exact h

theorem resumes_moves (h : s.resumes y = some k) : (s.moves units vs).resumes y = some k := by
  induction vs generalizing s with
  | nil => exact h
  | cons v vs ih => exact ih (resumes_move_of_resumes h)

/-- A node that has grafted something in remembers where play went on behind it. -/
theorem resumes_moves_of_graft (hv : v.graft?.isSome) :
    (s.moves units (v :: vs)).resumes v.node = some (s.continuation v.node) := by
  rw [moves_cons]
  refine resumes_moves ?_
  rw [resumes_move, if_pos ⟨rfl, hv⟩]

/-! ### The unit that follows -/

theorem onwardFrom_of_not_mem {x : NodeId} (hx : x ∉ units) : s.onwardFrom units x = s.onward := by
  unfold onwardFrom
  rw [List.findIdx?_eq_none_iff.2 fun u hu => by simpa using fun e : u = x => hx (e ▸ hu)]
  rfl

theorem onward_moves_congr (h : s.onward = s'.onward) :
    (s.moves units vs).onward = (s'.moves units vs).onward := by
  induction vs generalizing s s' with
  | nil => exact h
  | cons v vs ih =>
    refine ih ?_
    rw [onward_move, onward_move, onwardFrom, onwardFrom, h]

/-- Once a unit was played, the unit that follows depends on the nodes that were played alone. -/
theorem onward_moves_of_unit (h : ∃ v ∈ vs, v.node ∈ units) :
    (s.moves units vs).onward = (s'.moves units vs).onward := by
  induction vs generalizing s s' with
  | nil => simp at h
  | cons v vs ih =>
    by_cases hv : v.node ∈ units
    · rw [moves_cons, moves_cons]
      refine onward_moves_congr ?_
      rw [onward_move, onward_move, onwardFrom, onwardFrom]
      cases hi : units.findIdx? (· = v.node) with
      | none =>
        rw [List.findIdx?_eq_none_iff] at hi
        simpa using hi v.node hv
      | some i => rfl
    · obtain ⟨w, hw, hu⟩ := h
      rcases List.mem_cons.1 hw with rfl | hw
      · exact absurd hu hv
      · exact ih ⟨w, hw, hu⟩

theorem onward_moves_of_no_unit (h : ¬ ∃ v ∈ vs, v.node ∈ units) :
    (s.moves units vs).onward = s.onward := by
  induction vs generalizing s with
  | nil => rfl
  | cons v vs ih =>
    rw [moves_cons, ih fun ⟨w, hw, hu⟩ => h ⟨w, List.mem_cons_of_mem _ hw, hu⟩]
    rw [onward_move, onwardFrom_of_not_mem fun hu => h ⟨v, List.mem_cons_self, hu⟩]

/-! ### Playing again -/

section Again

/-- Where the same continuations are remembered, the same edges are set. -/
theorem edges_again (hr : r.resumes = s'.resumes)
    (hs : ∀ y k, (s.moves units vs).resumes y = some k → s'.resumes y = some k) :
    (r.moves units vs).resumes = s'.resumes ∧ r.edges units vs = s.edges units vs := by
  induction vs generalizing r s with
  | nil => exact ⟨hr, rfl⟩
  | cons v vs ih =>
    -- who grafts in remembers what it remembered the first time
    have hkept : v.graft?.isSome → r.resumes v.node = some (s.continuation v.node) := fun hv =>
      (congrFun hr v.node).trans (hs _ _ (resumes_moves_of_graft hv))
    have hedges : v.edges (r.continuation v.node) = v.edges (s.continuation v.node) := by
      unfold Visit.edges
      cases hv : v.graft? with
      | none => rfl
      | some chain => rw [continuation_of_resumes (hkept (by rw [hv]; rfl))]
    have hmove : (r.move units v).resumes = s'.resumes := by
      funext y
      rw [resumes_move]
      split
      · rename_i hy
        rw [hy.1, continuation_of_resumes (hkept hy.2), ← hkept hy.2, hr]
      · exact congrFun hr y
    obtain ⟨hres, hrest⟩ := ih hmove fun y k hk => hs y k hk
    refine ⟨hres, ?_⟩
    rw [edges, edges, hedges, hrest]

variable (hchild : r.child? = (s.moves units (vs ++ ws)).child?)
  (hres : r.resumes = (s.moves units (vs ++ ws)).resumes)

include hres in
theorem resumes_again : (r.moves units vs).resumes = (s.moves units (vs ++ ws)).resumes ∧
    r.edges units vs = s.edges units vs :=
  edges_again hres fun y k hk => by
    rw [moves_append]
    exact resumes_moves hk

include hres in
/-- A node that grafts something in goes on where it did the first time. -/
theorem continuation_again (hw : ws.head? = some v) (hv : v.graft?.isSome) :
    (r.moves units vs).continuation v.node = (s.moves units vs).continuation v.node := by
  obtain ⟨rest, rfl⟩ := List.head?_eq_some_iff.1 hw
  refine continuation_of_resumes ?_
  rw [(resumes_again hres).1, moves_append]
  exact resumes_moves_of_graft hv

include hchild hres in
/-- A node leads where it did the first time, if it is led anew or has stayed as it was then. -/
theorem child?_again (hv : v.node ∈ vs.flatMap Visit.leads ∨
      (s.moves units (vs ++ ws)).child? v.node = (s.moves units vs).child? v.node) :
    (r.moves units vs).child? v.node = (s.moves units vs).child? v.node := by
  rw [child?_moves, (resumes_again hres).2, hchild]
  by_cases hmem : v.node ∈ vs.flatMap Visit.leads
  · rw [child?_moves units s vs]
    exact Graph.lead_congr ((s.map_fst_edges units vs).symm ▸ hmem)
  · have hstays := hv.resolve_left hmem
    have hmem' : v.node ∉ (s.edges units vs).map Prod.fst := (s.map_fst_edges units vs).symm ▸ hmem
    rw [Graph.lead_of_not_mem hmem', hstays]
    -- the place that it led to then was taken by nobody, or it had lost it by then
    rw [child?_moves units s vs, Graph.lead_of_not_mem hmem']
    split <;> simp_all

include hchild hres in
/-- **Nodes that are played again** lead through the same places. -/
theorem place?_again {us : List Visit} (hvs : vs = us ++ [v])
    (hv : v.node ∈ vs.flatMap Visit.leads ∨
      (s.moves units (vs ++ ws)).child? v.node = (s.moves units vs).current)
    (hu : (s.moves units vs).current = none → ∃ v ∈ vs, v.node ∈ units) :
    (r.moves units vs).place? = (s.moves units vs).place? := by
  have hcur : ∀ s : Spot, (s.moves units vs).current = (s.moves units vs).child? v.node := by
    rw [hvs]
    exact fun s => s.current_moves units us v
  have hsame : (r.moves units vs).current = (s.moves units vs).current := by
    rw [hcur, hcur]
    exact child?_again hchild hres (by rwa [hcur] at hv)
  unfold place?
  rw [hsame]
  cases hc : (s.moves units vs).current with
  | some x => rfl
  | none => rw [onward_moves_of_unit (hu hc)]

end Again

/-- **Once all nodes were played again**, play is where it was. -/
theorem moves_again (hchild : r.child? = (s.moves units vs).child?)
    (hres : r.resumes = (s.moves units vs).resumes) (honward : r.onward = (s.moves units vs).onward)
    (hne : vs ≠ []) : r.moves units vs = s.moves units vs := by
  obtain ⟨hr, hedges⟩ := edges_again hres fun _ _ hk => hk
  have hc : (r.moves units vs).child? = (s.moves units vs).child? := by
    rw [child?_moves, hedges, hchild, child?_moves, Graph.lead_lead]
  obtain ⟨us, v, rfl⟩ : ∃ us v, vs = us ++ [v] :=
    ⟨vs.dropLast, vs.getLast hne, (List.dropLast_append_getLast hne).symm⟩
  refine Spot.ext hc hr ?_ ?_
  · rw [current_moves, current_moves, hc]
  · by_cases hu : ∃ w ∈ us ++ [v], w.node ∈ units
    · exact onward_moves_of_unit hu
    · rw [onward_moves_of_no_unit hu, honward]

/-- **Taking nodes back and playing on** leads through the same places as playing them, and then
whatever was played behind them. Who grafts in goes on at the same node as well. -/
theorem retraces (hchild : r.child? = (s.moves units vs).child?)
    (hres : r.resumes = (s.moves units vs).resumes) (honward : r.onward = (s.moves units vs).onward)
    (hcur : r.current = (vs.head?.map (·.node)).or (s.moves units vs).current)
    (hfirst : ∀ v, vs.head? = some v → s.place? = some v.node)
    (hleads : ∀ i (_ : i < vs.length), vs[i].node ∈ (vs.take (i + 1)).flatMap Visit.leads ∨
      (s.moves units vs).child? vs[i].node = (s.moves units (vs.take (i + 1))).current)
    (hunits : ∀ i, i + 1 < vs.length → (s.moves units (vs.take (i + 1))).current = none →
      ∃ v ∈ vs.take (i + 1), v.node ∈ units) (i : Nat) :
    (r.moves units ((vs ++ ws).take i)).place? = (s.moves units ((vs ++ ws).take i)).place? ∧
      ∀ v, (vs ++ ws)[i]? = some v → v.graft?.isSome →
        (r.moves units ((vs ++ ws).take i)).continuation v.node =
          (s.moves units ((vs ++ ws).take i)).continuation v.node := by
  have hchild' : ∀ i, r.child? = (s.moves units (vs.take i ++ vs.drop i)).child? := fun i =>
    (vs.take_append_drop i).symm ▸ hchild
  have hres' : ∀ i, r.resumes = (s.moves units (vs.take i ++ vs.drop i)).resumes := fun i =>
    (vs.take_append_drop i).symm ▸ hres
  -- either position `i` is among the moves that are made again, or it lies behind all of them
  by_cases hi : i < vs.length
  · rw [List.take_append_of_le_length (by omega), List.getElem?_append_left hi]
    refine ⟨?_, fun v hv => continuation_again (hres' i) (List.head?_drop.trans hv)⟩
    cases i with
    | zero =>
      obtain ⟨v, rest, rfl⟩ := List.exists_cons_of_length_pos hi
      have hplace := hfirst v rfl
      rw [List.take_zero, moves_nil, moves_nil, hplace, place?, hcur]
      rfl
    | succ i =>
      refine place?_again (hchild' _) (hres' _) (List.take_succ_eq_append_getElem (by omega)) ?_
        (hunits i hi)
      rw [List.take_append_drop]
      exact hleads i (by omega)
  · -- all were played again
    have hsame : r.moves units vs = s.moves units vs := by
      by_cases hne : vs = []
      · subst hne
        exact Spot.ext hchild hres hcur honward
      · exact moves_again hchild hres honward hne
    rw [List.take_append, List.take_of_length_le (by omega), moves_append, moves_append, hsame]
    exact ⟨rfl, fun _ _ _ => rfl⟩

end Spot

/-! ### Games at a spot -/

namespace Move

/-- The node that was played, and what it has grafted in. -/
def visit (m : Move σ) : Visit := ⟨m.node, m.graft?⟩

end Move

namespace Game

/-- The spot of a game in which no step waits. -/
def spot (g : Game σ) : Spot where
  child? := g.world.graph.child?
  resumes n := g.world.graph.resumes[n]?
  current := g.live.current
  onward := g.live.onward

/-- **A game is at a spot.** If a step waits, its node was reached already. -/
structure At (g : Game σ) (s : Spot) : Prop where
  child? : g.world.graph.child? = s.child?
  resumes : ∀ n : NodeId, g.world.graph.resumes[n]? = s.resumes n
  place : g.place? = s.place?
  onward : ∀ x, s.place? = some x → g.live.onwardFrom x = s.onwardFrom g.live.units x
  idle : g.live.pending = none → g.live.current = s.current ∧ g.live.onward = s.onward

namespace At

variable {g g' : Game σ} {s : Spot} {f : FutureId} {o : Outcome}

theorem of_idle (hchild : g.world.graph.child? = s.child?)
    (hres : ∀ n : NodeId, g.world.graph.resumes[n]? = s.resumes n) (hp : g.live.pending = none)
    (hc : g.live.current = s.current) (ho : g.live.onward = s.onward) : g.At s := by
  refine ⟨hchild, hres, ?_, fun x _ => ?_, fun _ => ⟨hc, ho⟩⟩
  · unfold place? Spot.place?
    rw [hp, hc, ho]
  · unfold Live.onwardFrom Spot.onwardFrom
    rw [ho]

theorem spot (hp : g.live.pending = none) : g.At g.spot := of_idle rfl (fun _ => rfl) hp rfl rfl

theorem continuation (h : g.At s) (n : NodeId) :
    g.world.graph.continuation n = s.continuation n := by
  unfold Graph.continuation Spot.continuation
  rw [h.resumes, h.child?]
  cases s.resumes n <;> rfl

theorem answered (h : g.At s) (answer : FutureId × Resolution) : (g.answered answer).At s :=
  ⟨h.child?, h.resumes, h.place, h.onward, h.idle⟩

theorem halts (h : g.At s) (ha : Halts g f g') : g'.At s := by
  refine ⟨?_, fun n => ?_, ha.place.trans h.place, fun x hx => ?_, fun hp => ?_⟩
  · rw [ha.graph, h.child?]
  · rw [ha.graph, h.resumes]
  · have honward := ha.onward x (h.place.trans hx)
    rw [Live.onwardFrom_of_onward ha.units honward, honward, ha.units]
    exact h.onward x hx
  · obtain ⟨p, hp', -⟩ := ha.pending
    cases hp'.symm.trans hp

/-- **A move** leads to the next spot. -/
theorem advances (h : g.At s) (hg : g.world.graph.SinglyLinked) (ha : Advances g o g') :
    s.place? = some o.node ∧ g'.At (s.move g.live.units (Move.visit ⟨g, o, g'⟩)) := by
  have hplace : s.place? = some o.node := h.place.symm.trans ha.place
  have hgets := ha.graph
  have hgraph : g'.world.graph.child? =
      Graph.lead (Visit.edges ⟨o.node, g.graft? o⟩ (s.continuation o.node)) s.child? ∧
      ∀ n : NodeId, g'.world.graph.resumes[n]? = if n = o.node ∧ (g.graft? o).isSome
        then some (s.continuation o.node) else s.resumes n := by
    -- only a graft gives nodes other edges, and it is made at the node that was reached
    cases hgraft : g.graft? o with
    | none =>
      rw [hgraft] at hgets
      have hsame : g'.world.graph = g.world.graph := hgets
      rw [hsame]
      refine ⟨h.child?, fun n => ?_⟩
      rw [if_neg (fun hn => by cases hn.2), h.resumes]
    | some chain =>
      rw [hgraft] at hgets
      obtain ⟨-, hchild, hres⟩ := hg.splice hgets
      rw [h.continuation, h.child?] at hchild
      refine ⟨hchild, fun n => ?_⟩
      rw [hres, h.continuation, h.resumes]
      simp
  refine ⟨hplace, of_idle hgraph.1 hgraph.2 ha.pending ?_ ?_⟩
  · rw [ha.current, hgraph.1]
    rfl
  · rw [ha.onward]
    exact h.onward o.node hplace

theorem ends (h : g.At s) (hplace : g.place? = none) (hp : g.live.pending = none) :
    ({ g with live := { g.live.aim with terminated := true } } : Game σ).At s := by
  obtain ⟨hc, ho⟩ := h.idle hp
  have hnone : s.current = none ∧ s.onward = none :=
    Option.or_eq_none_iff.1 (h.place.symm.trans hplace)
  have haim : g.live.aim.current = none := (Game.place?_of_idle hp).symm.trans hplace
  refine of_idle h.child? h.resumes ((Live.pending_aim _).trans hp) ?_ ?_
  · exact haim.trans hnone.1.symm
  · exact (Live.onward_aim_of_none (g.live.aim_current ▸ haim)).trans hnone.2.symm

end At

end Game

namespace Told

variable {d : Sheet} {g g' : Game σ} {us vs : List (Move σ)} {m : Move σ} {s : Spot}

/-- **Playing on** leads from spot to spot. -/
theorem at_moves (h : Told g us g') (hg : Playing d g) (hs : g.At s) :
    g'.At (s.moves g.live.units (us.map Move.visit)) := by
  induction h with
  | here => exact hs
  | answer _ answer ih => exact ih.answered answer
  | waits h hn ih => exact ih.halts ((h.playing hg).halts hn)
  | adopts h hn ih =>
    have hplaying := h.playing hg
    obtain ⟨-, hat⟩ := ih.advances hplaying.poised.inSequence.toSinglyLinked (hplaying.advances hn)
    rw [(h.stays hg).units] at hat
    rw [List.map_append, Spot.moves_append]
    exact hat
  | ends h hn ih =>
    obtain ⟨hplace, hp, rfl⟩ := Poised.ends hn
    exact ih.ends hplace hp

/-- A game that was played on before one of its moves, and where play goes on then. -/
theorem at_before (h : Told g us g') (hg : Playing d g) (hs : g.At s) {i : Nat}
    (hi : us[i]? = some m) : Playing d m.before ∧ Stays g m.before ∧
      Advances m.before m.outcome m.after ∧
      m.before.At (s.moves g.live.units ((us.take i).map Move.visit)) ∧
      (s.moves g.live.units ((us.take (i + 1)).map Move.visit)).current = m.led := by
  obtain ⟨hlt, rfl⟩ := List.getElem?_eq_some_iff.1 hi
  rw [← List.take_append_drop i us, List.drop_eq_getElem_cons hlt] at h
  obtain ⟨screen, hbefore, hn, -⟩ := h.split
  have hplaying := hbefore.playing hg
  have ha := hplaying.advances hn
  have hat := (hbefore.adopts hn).at_moves hg hs
  refine ⟨hplaying, hbefore.stays hg, ha, hbefore.at_moves hg hs, ?_⟩
  rw [List.take_succ_eq_append_getElem hlt]
  exact (hat.idle ha.pending).1.symm

end Told

end Storyline
