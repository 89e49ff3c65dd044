import Mathlib.Data.List.Induction
import Storyline.Proofs.Game.Onward

/-!
# Units in their order

* `Move.reached units us`: the units that were played;
* `Move.LeadsOn units us m`: a node that leads to a unit leads to the one behind those that were played;
* `Going.begun`, `Going.all`: a game that is played on from its first unit by such moves plays its units
  in their order, and where nothing is left to be played it has played all of them;
* `Graph.Along L g`: every edge of a graph, and every edge that it remembers, is as `L` says;
* `World.Housed home units w`: every node belongs to one unit at most, and every edge from a node of a
  unit stays among the nodes of that unit or leads to the unit behind. So does every chain that is
  grafted in;
* `Housed.advance`, `Housed.keeps`: play keeps this, and `Lodged.told`: then all moves lead on.
-/

namespace Storyline

open Effect

variable {σ : Type}

/-! ### Playing the units -/

/-- The units that were played. -/
def Move.reached (units : List NodeId) (us : List (Move σ)) : List NodeId :=
  (us.map Move.node).filter (· ∈ units)

theorem Move.reached_concat (units : List NodeId) (us : List (Move σ)) (m : Move σ) :
    Move.reached units (us ++ [m]) =
      Move.reached units us ++ if m.node ∈ units then [m.node] else [] := by
  unfold reached
  rw [List.map_append, List.filter_append]
  congr 1
  by_cases hm : m.node ∈ units
  · rw [if_pos hm]
    exact List.filter_cons_of_pos (by simpa using hm)
  · rw [if_neg hm]
    exact List.filter_cons_of_neg (by simpa using hm)

/-- **A node that leads to a unit** leads to the one behind those that were played. -/
def Move.LeadsOn (units : List NodeId) (us : List (Move σ)) (m : Move σ) : Prop :=
  ∀ y ∈ units, m.led = some y → unitBehind units (us.map Move.node ++ [m.node]) = some y

/-- All moves are so. -/
def Move.LeadOn (units : List NodeId) (us : List (Move σ)) : Prop :=
  ∀ vs m ws, us = vs ++ m :: ws → m.LeadsOn units vs

/-- The first `k` units were played in their order, and the next one is behind them. -/
structure Move.Begun (units : List NodeId) (us : List (Move σ)) (k : Nat) : Prop where
  reached : Move.reached units us = units.take k
  behind : unitBehind units (us.map Move.node) = units[k]?

namespace Move

variable {units : List NodeId} {us : List (Move σ)} {m : Move σ} {k : Nat} {x : NodeId}

theorem LeadOn.nil (units : List NodeId) : LeadOn (σ := σ) units [] := by
  intro vs m ws he
  simp at he

theorem LeadOn.concat (h : LeadOn units us) (hm : m.LeadsOn units us) : LeadOn units (us ++ [m]) := by
  intro vs m' ws he
  rcases List.eq_nil_or_concat ws with rfl | ⟨ws, m'', rfl⟩
  · obtain ⟨rfl, hlast⟩ := List.append_inj' he rfl
    obtain ⟨rfl, -⟩ := List.cons.inj hlast
    exact hm
  · rw [List.concat_eq_append, ← List.cons_append, ← List.append_assoc] at he
    exact h vs m' ws (List.append_inj' he rfl).1

theorem LeadOn.of_concat (h : LeadOn units (us ++ [m])) : LeadOn units us ∧ m.LeadsOn units us := by
  refine ⟨fun vs m' ws he => h vs m' (ws ++ [m]) ?_, h us m [] rfl⟩
  rw [he, List.append_assoc]
  rfl

theorem Begun.nil (units : List NodeId) : Begun (σ := σ) units [] 0 :=
  ⟨rfl, (unitBehind_nil units).trans List.head?_eq_getElem?⟩

theorem Begun.stays (h : Begun units us k) (hm : m.node ∉ units) : Begun units (us ++ [m]) k := by
  have hidx : units.findIdx? (· = m.node) = none :=
    List.findIdx?_eq_none_iff.2 fun y hy => by simpa using fun e : y = m.node => hm (e ▸ hy)
  refine ⟨?_, ?_⟩
  · rw [reached_concat, if_neg hm, List.append_nil, h.reached]
  · rw [List.map_append]
    exact (unitBehind_concat ..).trans (by rw [hidx]; exact h.behind)

theorem Begun.next (h : Begun units us k) (hd : units.Nodup) (hm : units[k]? = some m.node) :
    Begun units (us ++ [m]) (k + 1) := by
  obtain ⟨hk, hget⟩ := List.getElem?_eq_some_iff.1 hm
  have hidx : units.findIdx? (· = m.node) = some k := by
    rw [List.findIdx?_eq_some_iff_getElem]
    refine ⟨hk, by simpa using hget, fun j hj => ?_⟩
    have hne : units[j] ≠ m.node := fun he =>
      Nat.ne_of_lt hj ((List.Nodup.getElem_inj_iff hd).1 (he.trans hget.symm))
    simpa using hne
  refine ⟨?_, ?_⟩
  · rw [reached_concat, if_pos (List.mem_of_getElem? hm), h.reached, List.take_add_one, hm]
    rfl
  · rw [List.map_append]
    exact (unitBehind_concat ..).trans (by rw [hidx]; rfl)

theorem Begun.reached_first (h : Begun units us k) : Move.reached units us <+: units := by
  rw [h.reached]
  exact List.take_prefix k units

end Move

namespace Game.Going

variable {units : List NodeId} {g g' : Game σ} {us : List (Move σ)}

/-- **Moves that lead on** from the first unit play the units in their order. -/
theorem begun (h : g.Going units []) (hd : units.Nodup) (ht : Told g us g')
    (hl : Move.LeadOn units us) :
    ∃ k, Move.Begun units us k ∧ ∀ x ∈ units, g'.place? = some x → units[k]? = some x := by
  induction us using List.reverseRecOn generalizing g' with
  | nil =>
    refine ⟨0, .nil units, fun x _ hx => ?_⟩
    rw [(h.told ht).place] at hx
    exact (Move.Begun.nil (σ := σ) units).behind ▸ hx
  | append_singleton us m ih =>
    obtain ⟨hl, hm⟩ := hl.of_concat
    obtain ⟨screen, hbefore, hn, -⟩ := ht.split
    obtain ⟨k, hbegun, hplace⟩ := ih hbefore hl
    have hnode := ((h.told hbefore).advance hn).1.place
    obtain ⟨k', hbegun'⟩ : ∃ k', Move.Begun units (us ++ [m]) k' := by
      -- a unit that was reached is the next to begin; any other node belongs to the one begun last
      by_cases hunit : m.node ∈ units
      · exact ⟨_, hbegun.next hd (hplace _ hunit hnode)⟩
      · exact ⟨_, hbegun.stays hunit⟩
    refine ⟨k', hbegun', fun x hunit hx => ?_⟩
    rw [(h.told ht).place] at hx
    unfold Move.onward at hx
    rw [List.getLast?_concat] at hx
    -- the last move led to `x`, or left the units behind it to begin
    rcases Option.or_eq_some_iff.1 hx with hled | ⟨-, hbehind⟩
    · rw [← hbegun'.behind, List.map_append]
      exact hm x hunit hled
    · exact hbegun'.behind ▸ hbehind

theorem all (h : g.Going units []) (hd : units.Nodup) (ht : Told g us g')
    (hl : Move.LeadOn units us) (hx : g'.place? = none) : Move.reached units us = units := by
  obtain ⟨k, hbegun, -⟩ := h.begun hd ht hl
  rw [(h.told ht).place] at hx
  have hlast := (Option.or_eq_none_iff.1 hx).2
  rw [hbegun.behind, List.getElem?_eq_none_iff] at hlast
  rw [hbegun.reached, List.take_of_length_le hlast]

end Game.Going

/-! ### Edges of a graph -/

/-- Every edge, and every edge that is remembered, is as `L` says. -/
structure Graph.Along {γ : Type} (L : NodeId → NodeId → Prop) (g : Graph γ) : Prop where
  children : ∀ x, ∀ y ∈ g.children x, L x y
  resumes : ∀ x y : NodeId, g.resumes[x]? = some (some y) → L x y

namespace Graph.Along

variable {γ : Type} {L : NodeId → NodeId → Prop} {g g' : Graph γ} {id x y : NodeId}
  {c? : Option NodeId} {branch : Option Chain}

theorem child? (h : g.Along L) (hy : g.child? x = some y) : L x y := by
  rw [child?_eq_head?] at hy
  exact h.children x y (List.mem_of_head? hy)

theorem continuation (h : g.Along L) (hy : g.continuation x = some y) : L x y := by
  unfold Graph.continuation at hy
  split at hy
  · rename_i hres
    exact h.resumes x y (hy ▸ hres)
  · exact h.child? hy

theorem remember (h : g.Along L) (id : NodeId) : (g.remember id).Along L := by
  refine ⟨h.children, fun x y hres => ?_⟩
  rw [resumes_remember] at hres
  split at hres
  · subst x
    exact h.continuation (Option.some.inj hres)
  · exact h.resumes x y hres

theorem rewired (h : g.Along L) (hr : g.Rewired id c? g') (hc : ∀ c, c? = some c → L id c) :
    g'.Along L := by
  refine ⟨fun x y hy => ?_, fun x y hres => h.resumes x y (hr.resumes ▸ hres)⟩
  by_cases hx : x = id
  · subst x
    rw [hr.self] at hy
    exact hc y (Option.mem_toList.1 hy)
  · rcases hr.other x hx with he | ⟨c, -, he⟩
    · exact h.children x y (he ▸ hy)
    · exact h.children x y (List.mem_filter.1 (he ▸ hy)).1

/-- A branch is grafted in from whose end play may go on wherever it may from the node. -/
theorem splice (h : g.Along L) (hg : Graph.splice id branch g = .ok () g')
    (hb : ∀ c, branch = some c → L id c.head ∧ ∀ y, L id y → L c.tail y) : g'.Along L := by
  obtain ⟨-, hsteps⟩ := splice_eq_ok hg
  have hnext : ∀ k, g.continuation id = some k → L id k := fun k hk => h.continuation hk
  cases branch with
  | none => exact (h.remember id).rewired (rewired_of_setChild hsteps) hnext
  | some c =>
    obtain ⟨g₁, hg₁, hg₂⟩ := hsteps
    obtain ⟨hhead, htail⟩ := hb c rfl
    have h₁ : g₁.Along L :=
      (h.remember id).rewired (rewired_of_setChild hg₁) fun k hk => htail k (hnext k hk)
    refine h₁.rewired (rewired_of_setChild hg₂) ?_
    rintro _ ⟨⟩
    exact hhead

end Graph.Along

/-! ### Units and their nodes -/

/-- Where play may go on once `k` units were begun: at a node of the last of them that is no unit
itself, or at the next unit. -/
def Ensues (home : NodeId → Nat) (units : List NodeId) (k : Nat) (y : NodeId) : Prop :=
  home y = k ∧ y ∉ units ∨ units[k]? = some y

/-- **Every node belongs to one unit at most**, where `home` counts the units from one and is zero for
nodes of none. Edges from a node of a unit stay in the unit or lead to the next one. -/
structure World.Housed (home : NodeId → Nat) (units : List NodeId) (w : World) : Prop where
  home_unit : ∀ i u, units[i]? = some u → home u = i + 1
  edges : w.graph.Along fun x y => home x ≠ 0 → Ensues home units (home x) y
  grafts : ∀ x a store choice c, home x ≠ 0 → w.action? x = some a →
    w.graft? store a choice = some (some c) →
      home c.head = home x ∧ c.head ∉ units ∧ home c.tail = home x

namespace World.Housed

variable {home : NodeId → Nat} {units : List NodeId} {w w' : World} {g g' : Game σ} {o : Outcome}
  {k : Nat} {x : NodeId}

theorem nodup (h : w.Housed home units) : units.Nodup := by
  rw [List.nodup_iff_getElem?_ne_getElem?]
  intro i j hij hj he
  have hu : units[j]? = some units[j] := List.getElem?_eq_getElem hj
  have hhome := (h.home_unit i _ (he.trans hu)).symm.trans (h.home_unit j _ hu)
  omega

theorem keeps (h : w.Housed home units) (hk : w.Keeps w')
    (hg : w'.graph.Along fun x y => home x ≠ 0 → Ensues home units (home x) y) :
    w'.Housed home units := by
  refine ⟨h.home_unit, hg, fun x a store choice c hx ha hgraft => ?_⟩
  refine h.grafts x a store choice c hx (hk.action? x ▸ ha) ?_
  unfold World.graft? at hgraft ⊢
  rwa [hk.shape?] at hgraft

theorem advance (h : g.world.Housed home units) (ha : Advances g o g') (hx : home o.node ≠ 0) :
    g'.world.Housed home units := by
  refine h.keeps ha.keeps ?_
  have hgets := ha.graph
  cases hgraft : g.graft? o with
  | none =>
    rw [hgraft] at hgets
    exact (show g'.world.graph = g.world.graph from hgets) ▸ h.edges
  | some chain =>
    rw [hgraft] at hgets
    refine h.edges.splice hgets fun c hc => ?_
    subst chain
    obtain ⟨a, haction, hgraft⟩ := Option.bind_eq_some_iff.1 hgraft
    obtain ⟨hhead, hunit, htail⟩ := h.grafts _ a _ _ c hx haction hgraft
    exact ⟨fun _ => .inl ⟨hhead, hunit⟩, fun y hy _ => htail ▸ hy hx⟩

theorem halt {f : FutureId} (h : g.world.Housed home units) (ha : Halts g f g') :
    g'.world.Housed home units :=
  h.keeps ha.keeps (ha.graph ▸ h.edges)

end World.Housed

/-- **A game that is played on among the homes of its units**: each move led on, and play is in the
unit that was begun last, or at the next one. -/
structure Game.Lodged (home : NodeId → Nat) (units : List NodeId) (g : Game σ) (us : List (Move σ)) :
    Prop where
  going : g.Going units us
  housed : g.world.Housed home units
  leadOn : Move.LeadOn units us
  begun : ∃ k, Move.Begun units us k ∧
    ∀ x, g.place? = some x → home x ≠ 0 ∧ Ensues home units k x

namespace Game.Lodged

variable {home : NodeId → Nat} {units : List NodeId} {g g' : Game σ} {us : List (Move σ)}
  {screen : Screen σ} {o : Outcome} {f : FutureId}

theorem start (hg : g.Going units []) (hw : g.world.Housed home units) : g.Lodged home units [] := by
  refine ⟨hg, hw, .nil units, 0, .nil units, fun x hx => ?_⟩
  have hfirst : units[0]? = some x := by
    rw [hg.place] at hx
    exact (Move.Begun.nil (σ := σ) units).behind ▸ hx
  exact ⟨by rw [hw.home_unit 0 x hfirst]; exact Nat.one_ne_zero, .inr hfirst⟩

/-- A move stays in the unit that was begun last, or begins the next one. -/
theorem advance (h : g.Lodged home units us) (hn : Play.next screen g = .ok (.advanced o) g') :
    g'.Lodged home units (us ++ [⟨g, o, g'⟩]) := by
  obtain ⟨hg, hw, hl, k, hbegun, hplace⟩ := h
  obtain ⟨ha, hg'⟩ := hg.advance hn
  obtain ⟨hhome, hensues⟩ := hplace _ ha.place
  have hw' := hw.advance ha hhome
  -- the number of units that were begun is the home of the node
  have hbegun' : Move.Begun units (us ++ [⟨g, o, g'⟩]) (home o.node) := by
    rcases hensues with ⟨rfl, hunit⟩ | hunit
    · exact hbegun.stays hunit
    · rw [hw.home_unit k _ hunit]
      exact hbegun.next hw.nodup hunit
  have hled : ∀ x, g'.live.current = some x → Ensues home units (home o.node) x := fun x hx =>
    hw'.edges.child? (ha.current.symm.trans hx) hhome
  refine ⟨hg', hw', hl.concat fun y hy hx => ?_, home o.node, hbegun', fun x hx => ?_⟩
  · have hunit := (hled y hx).resolve_left fun h => h.2 hy
    rw [← hbegun'.behind, List.map_append] at hunit
    exact hunit
  · have hensues' : Ensues home units (home o.node) x := by
      rw [hg'.place] at hx
      unfold Move.onward at hx
      rw [hbegun'.behind, List.getLast?_concat] at hx
      rcases Option.or_eq_some_iff.1 hx with hx | ⟨-, hunit⟩
      · exact hled x hx
      · exact .inr hunit
    refine ⟨?_, hensues'⟩
    rcases hensues' with ⟨he, -⟩ | hunit
    · rwa [he]
    · rw [hw'.home_unit _ x hunit]
      exact Nat.succ_ne_zero _

theorem halt (h : g.Lodged home units us) (hn : Play.next screen g = .ok (.suspended f) g') :
    g'.Lodged home units us := by
  obtain ⟨hg, hw, hl, k, hbegun, hplace⟩ := h
  obtain ⟨ha, hg'⟩ := hg.halt hn
  exact ⟨hg', hw.halt ha, hl, k, hbegun, fun x hx => hplace x (ha.place ▸ hx)⟩

theorem ended (h : g.Lodged home units us) (hn : Play.next screen g = .ok .terminated g') :
    g'.Lodged home units us := by
  obtain ⟨hg, hw, hl, k, hbegun, hplace⟩ := h
  have hg' := hg.ended hn
  obtain ⟨-, -, rfl⟩ := Poised.ends hn
  exact ⟨hg', hw, hl, k, hbegun, fun x hx => hplace x (hg.place.trans (hg'.place.symm.trans hx))⟩

theorem answer (h : g.Lodged home units us) (answer : FutureId × Resolution) :
    (g.answered answer).Lodged home units us := by
  obtain ⟨k, hbegun, hplace⟩ := h.begun
  exact ⟨h.going.answer answer, h.housed, h.leadOn, k, hbegun, hplace⟩

/-- **Playing on from the first unit** among the homes of the units. -/
theorem told (h : g.Lodged home units []) (ht : Told g us g') : g'.Lodged home units us := by
  induction ht with
  | here => exact h
  | answer _ answer ih => exact ih.answer answer
  | waits _ hn ih => exact ih.halt hn
  | adopts _ hn ih => exact ih.advance hn
  | ends _ hn ih => exact ih.ended hn

end Game.Lodged

end Storyline
