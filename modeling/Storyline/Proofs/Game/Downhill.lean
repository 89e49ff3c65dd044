import Storyline.Proofs.Game.Onward
import Storyline.Proofs.Game.Residue
import Storyline.Proofs.Graph.Setting

/-!
# Stories that come to an end

* `World.Downhill height floor w`: every edge leads down, and so does all that may be grafted in: a chain
  lies between its node and the floor of that node, where play goes on behind the chain;
* `Downhill.advance`: taking over an outcome keeps this;
* `Game.Descending`: a game of such a world whose units lie one below the other; next steps, answers,
  undoing and whatever a host does to the store and the screen keep this;
* `Game.stepsLeft`: a bound of the next steps up to the end of the story, which does not depend on what
  was played before;
* `Descending.stepsLeft_lt_of_advances`, `Descending.stepsLeft_lt_of_halts`: **every next step** lowers it.

A unit may be reached twice: as the unit behind the last one, and by an edge. The bound counts the nodes
below the place of play once more for the unit that comes next, unless that one lies below the place.
-/

namespace Storyline

open Effect

variable {σ : Type}

/-! ### Children and continuations -/

namespace Graph

variable {γ : Type} {g g' : Graph γ} {x y : NodeId} {edges : List (NodeId × Option NodeId)}

theorem mem_children_of_setAll (hg : setAll edges g = .ok () g') (hy : y ∈ g'.children x) :
    (x, some y) ∈ edges ∨ y ∈ g.children x := by
  induction edges generalizing g with
  | nil =>
    obtain rfl : g = g' := (EStateM.Result.ok.inj hg).2
    exact .inr hy
  | cons edge edges ih =>
    obtain ⟨z, c?⟩ := edge
    obtain ⟨g₁, hset, hrest⟩ := setAll_cons_eq_ok_iff.1 hg
    rcases ih hrest with hmem | hold
    · exact .inl (List.mem_cons_of_mem _ hmem)
    · have hr := rewired_of_setChild hset
      by_cases hx : x = z
      · subst hx
        rw [hr.self, Option.mem_toList] at hold
        exact .inl (List.mem_cons.2 (.inl (Prod.ext rfl hold.symm)))
      · rcases hr.other x hx with he | ⟨c, -, he⟩
        · exact .inr (he ▸ hold)
        · exact .inr (List.mem_filter.1 (he ▸ hold)).1

/-- The nodes where play may go on behind what a node grafts in. -/
def behind (g : Graph γ) (x : NodeId) : List NodeId :=
  match g.resumes[x]? with
  | some k? => k?.toList
  | none => g.children x

theorem mem_behind_of_continuation (h : g.continuation x = some y) : y ∈ g.behind x := by
  unfold continuation at h
  unfold behind
  cases hr : g.resumes[x]? with
  | some k? =>
    rw [hr] at h
    exact Option.mem_toList.2 h
  | none =>
    rw [hr] at h
    rw [child?_eq_head?] at h
    exact List.mem_of_head? h

end Graph

/-! ### Worlds in which play goes down -/

/-- The chains that an action may graft in. -/
def World.offers (w : World) (a : Action) : List Chain :=
  match a.kind, w.shape? a.callee with
  | .scene chain, _ | .story chain, _ => chain.toList
  | .condition, some (.condition _ chains fallback) => (chains ++ fallback.toList).filterMap id
  | .menu, some (.menu chains) => chains.filterMap id
  | _, _ => []

theorem World.mem_offers_of_graft? {w : World} {store : Store} {a : Action} {choice : Option Nat}
    {c : Chain} (h : w.graft? store a choice = some (some c)) : c ∈ w.offers a := by
  have hget : ∀ {chains : List (Option Chain)} {i : Nat}, (chains[i]?).join = some c →
      c ∈ chains.filterMap id := by
    intro chains i hi
    exact List.mem_filterMap.2 ⟨_, List.mem_of_getElem? (Option.join_eq_some_iff.1 hi), rfl⟩
  unfold World.graft? at h
  -- one case for each kind of action that grafts, with the chains it may graft
  split at h
  · rename_i hk
    unfold World.offers
    rw [hk]
    exact Option.mem_toList.2 (Option.some.inj h)
  · rename_i hk
    unfold World.offers
    rw [hk]
    exact Option.mem_toList.2 (Option.some.inj h)
  · rename_i hk hs
    unfold World.offers
    rw [hk, hs]
    exact hget (Option.some.inj h)
  · rename_i hk hs
    obtain ⟨i, -, hi⟩ := Option.map_eq_some_iff.1 h
    unfold World.offers
    rw [hk, hs]
    exact hget hi
  · cases h

/-- **Play goes down.** -/
structure World.Downhill (height floor : NodeId → Nat) (w : World) : Prop where
  child : ∀ x, ∀ y ∈ w.graph.children x, height y < height x
  /-- Behind what it grafts in play goes on at the floor of a node, or below. -/
  behind : ∀ x a, w.action? x = some a → a.kind.grafts = true →
    floor x < height x ∧ ∀ y ∈ w.graph.behind x, height y ≤ floor x
  /-- What a node grafts in lies below the node and above its floor. -/
  offers : ∀ x a, w.action? x = some a → ∀ c ∈ w.offers a,
    height c.head < height x ∧ floor x < height c.tail ∧ floor x ≤ floor c.tail

namespace World.Downhill

variable {height floor : NodeId → Nat} {w w' : World} {g g' : Game σ} {o : Outcome}

theorem congr (h : w.Downhill height floor) (hk : w.Keeps w') (hg : w'.graph = w.graph) :
    w'.Downhill height floor := by
  refine ⟨?_, fun x a ha => ?_, fun x a ha => ?_⟩
  · rw [hg]
    exact h.child
  · rw [hg]
    exact h.behind x a (by rwa [← hk.action?])
  · unfold World.offers
    rw [hk.shape?]
    exact h.offers x a (by rwa [← hk.action?])

section Splice

variable {n x y : NodeId} {a : Action} {chain : Option Chain}

/-- Play goes on no higher than at the floor of a node behind what it grafts in. -/
theorem continuation_le (h : w.Downhill height floor) (ha : w.action? n = some a)
    (hgrafts : a.kind.grafts = true) (hy : w.graph.continuation n = some y) : height y ≤ floor n :=
  (h.behind n a ha hgrafts).2 y (Graph.mem_behind_of_continuation hy)

theorem lt_of_joins (h : w.Downhill height floor) (ha : w.action? n = some a)
    (hgrafts : a.kind.grafts = true) (hoffers : ∀ c, chain = some c → c ∈ w.offers a)
    (he : (x, some y) ∈ Graph.joins n chain (w.graph.continuation n)) : height y < height x := by
  have hfloor := (h.behind n a ha hgrafts).1
  cases chain with
  | none =>
    obtain ⟨rfl, hy⟩ := Prod.mk.inj (List.mem_singleton.1 he)
    have := h.continuation_le ha hgrafts hy.symm
    omega
  | some c =>
    obtain ⟨hhead, htail, -⟩ := h.offers n a ha c (hoffers c rfl)
    rcases List.mem_cons.1 he with he | he
    · obtain ⟨rfl, hy⟩ := Prod.mk.inj he
      have := h.continuation_le ha hgrafts hy.symm
      omega
    · obtain ⟨rfl, hy⟩ := Prod.mk.inj (List.mem_singleton.1 he)
      obtain rfl := Option.some.inj hy
      exact hhead

/-- The end of a chain, which may be a node that grafts in itself, is led no higher than to its floor. -/
theorem le_floor_of_joins (h : w.Downhill height floor) (ha : w.action? n = some a)
    (hgrafts : a.kind.grafts = true) (hoffers : ∀ c, chain = some c → c ∈ w.offers a)
    (he : (x, some y) ∈ Graph.joins n chain (w.graph.continuation n)) (hx : x ≠ n) :
    height y ≤ floor x := by
  rcases Graph.joins_cases he with hy | ⟨hxn, -⟩
  · rcases Graph.joins_led (List.mem_map_of_mem he) with hxn | ⟨c, hc, rfl⟩
    · exact absurd hxn hx
    · obtain ⟨-, -, hfloors⟩ := h.offers n a ha c (hoffers c hc)
      exact Nat.le_trans (h.continuation_le ha hgrafts hy.symm) hfloors
  · exact absurd hxn hx

/-- **Grafting in** what may be grafted in keeps that play goes down. -/
theorem splice (h : w.Downhill height floor) (hk : w.Keeps w') (ha : w.action? n = some a)
    (hgrafts : a.kind.grafts = true) (hoffers : ∀ c, chain = some c → c ∈ w.offers a)
    (hs : Graph.splice n chain w.graph = .ok () w'.graph) : w'.Downhill height floor := by
  have hset := hs
  rw [Graph.splice_eq_setAll (Graph.splice_eq_ok hs).1] at hset
  have hchild : ∀ x, ∀ y ∈ w'.graph.children x,
      (x, some y) ∈ Graph.joins n chain (w.graph.continuation n) ∨ y ∈ w.graph.children x :=
    fun _ _ hy => Graph.mem_children_of_setAll (g := w.graph.remember n) hset hy
  refine ⟨fun x y hy => ?_, fun x b hb hbg => ?_, fun x b hb => ?_⟩
  · rcases hchild x y hy with hnew | hold
    · exact h.lt_of_joins ha hgrafts hoffers hnew
    · exact h.child x y hold
  · rw [hk.action?] at hb
    refine ⟨(h.behind x b hb hbg).1, fun y hy => ?_⟩
    unfold Graph.behind at hy
    rw [(Graph.keeps_of_setAll hset).2, Graph.resumes_remember] at hy
    -- what a node remembers is fixed at its first graft
    by_cases hx : x = n
    · subst hx
      rw [if_pos rfl] at hy
      exact h.continuation_le ha hgrafts (Option.mem_toList.1 hy)
    · rw [if_neg hx] at hy
      have hold := (h.behind x b hb hbg).2
      unfold Graph.behind at hold
      cases hr : w.graph.resumes[x]? with
      | some k? =>
        rw [hr] at hy hold
        exact hold y hy
      | none =>
        rw [hr] at hy hold
        rcases hchild x y hy with hnew | hy
        · exact h.le_floor_of_joins ha hgrafts hoffers hnew hx
        · exact hold y hy
  · rw [hk.action?] at hb
    unfold World.offers
    rw [hk.shape?]
    exact h.offers x b hb

end Splice

/-- **Taking over an outcome** keeps that play goes down. -/
theorem advance (h : g.world.Downhill height floor) (ha : Advances g o g') :
    g'.world.Downhill height floor := by
  have hgets := ha.graph
  cases hgraft : g.graft? o with
  | none =>
    rw [hgraft] at hgets
    exact h.congr ha.keeps hgets
  | some chain =>
    rw [hgraft] at hgets
    obtain ⟨a, haction, hchain⟩ := Option.bind_eq_some_iff.1 hgraft
    refine h.splice ha.keeps haction ?_ (fun c hc => ?_) hgets
    · by_contra hk
      rw [World.graft?_of_not_grafts (by simpa using hk)] at hchain
      cases hchain
    · rw [hc] at hchain
      exact World.mem_offers_of_graft? hchain

end World.Downhill

/-! ### The unit behind a node -/

namespace Live

variable {height : NodeId → Nat} {l : Live} {x u : NodeId}

theorem onwardFrom_of_not_mem (h : x ∉ l.units) : l.onwardFrom x = l.onward := by
  unfold onwardFrom
  rw [List.findIdx?_eq_none_iff.2 fun u hu => by simpa using fun e : u = x => h (e ▸ hu)]
  rfl

/-- Where units lie one below the other, the one behind a unit lies below it. -/
theorem onwardFrom_of_mem (hp : l.units.Pairwise fun u v => height v < height u) (hx : x ∈ l.units)
    (hu : l.onwardFrom x = some u) : height u < height x := by
  unfold onwardFrom at hu
  cases hi : l.units.findIdx? (· = x) with
  | none =>
    rw [List.findIdx?_eq_none_iff] at hi
    simpa using hi x hx
  | some i =>
    rw [hi] at hu
    obtain ⟨hlt, he, -⟩ := List.findIdx?_eq_some_iff_getElem.1 hi
    obtain ⟨hlt', rfl⟩ := List.getElem?_eq_some_iff.1 hu
    have hbelow := List.pairwise_iff_getElem.1 hp i (i + 1) hlt hlt' (by omega)
    rwa [of_decide_eq_true he] at hbelow

theorem mem_units_of_onward (h : l.onward = some u) : u ∈ l.units := List.mem_of_getElem? h

end Live

/-! ### Games that go down -/

namespace Game.Stepping

variable {g g' : Game σ}

theorem host (h : g.Stepping) (saved : Option SavedGame) (store : Store) (screen : σ) :
    ({ g with
      live := { g.live with saved }
      stage := { g.stage with store, screen } } : Game σ).Stepping :=
  ⟨h.unbegun, fun p hp => ⟨(h.waits p hp).action, (h.waits p hp).onward⟩⟩

theorem undone (h : g.Stepping) (hu : Undone g g') : g'.Stepping := by
  refine ⟨fun hb => ?_, fun p hp => by cases hu.pending.symm.trans hp⟩
  obtain ⟨hc, hp, hh⟩ := h.unbegun (hu.started.symm.trans hb)
  refine ⟨?_, hu.pending, ?_⟩
  · rw [hu.current, hh, hp, hc]
    rfl
  · rw [hu.history, hh]
    rfl

end Game.Stepping

/-- **A game that goes down**, and whose units lie one below the other. -/
structure Game.Descending (height floor : NodeId → Nat) (g : Game σ) : Prop where
  stepping : g.Stepping
  sound : g.world.Sound
  downhill : g.world.Downhill height floor
  units : g.live.units.Pairwise fun u v => height v < height u

namespace Game

variable {height floor : NodeId → Nat} {g g' : Game σ} {o : Outcome} {f : FutureId} {top : Nat}
  {screen : Screen σ} {x : NodeId}

namespace Descending

theorem advance (h : g.Descending height floor) (ha : Advances g o g') :
    g'.Descending height floor :=
  ⟨.advance ha, ha.keeps.sound h.sound, h.downhill.advance ha, ha.units ▸ h.units⟩

theorem halt (h : g.Descending height floor) (ha : Halts g f g') : g'.Descending height floor :=
  ⟨.halt ha, ha.keeps.sound h.sound, h.downhill.congr ha.keeps ha.graph, ha.units ▸ h.units⟩

theorem answer (h : g.Descending height floor) (answer : FutureId × Resolution) :
    (g.answered answer).Descending height floor :=
  ⟨h.stepping.answer answer, h.sound, h.downhill, h.units⟩

theorem host (h : g.Descending height floor) (saved : Option SavedGame) (store : Store)
    (screen : σ) : ({ g with
      live := { g.live with saved }
      stage := { g.stage with store, screen } } : Game σ).Descending height floor :=
  ⟨h.stepping.host saved store screen, h.sound, h.downhill, h.units⟩

theorem undo (h : g.Descending height floor) {out : Option Outcome}
    (hu : Play.undoLast g = .ok out g') :
    g'.Descending height floor ∧ g'.live.pending = none := by
  obtain ⟨⟨hk, -⟩, -⟩ := Play.reverts_undoLast h.sound
  rw [hu] at hk
  have hback := Play.undone_of_undoLast hu hk
  exact ⟨⟨h.stepping.undone hback, hk.sound h.sound, h.downhill.congr hk hback.graph,
    hback.units ▸ h.units⟩, hback.pending⟩

end Descending

/-! ### The steps that are left -/

/-- How far the unit behind a node lies up. -/
def risen (height : NodeId → Nat) (g : Game σ) (x : NodeId) : Nat :=
  (g.live.onwardFrom x).elim 0 (height · + 1)

/-- A bound of the nodes that are played up to the end of the story, in which no node lies above the
top. -/
def nodesLeft (height : NodeId → Nat) (top : Nat) (g : Game σ) : Nat :=
  match g.place? with
  | none => 0
  | some x => 1 + height x + (top + 1) * max (height x) (g.risen height x)

/-- **A bound of the next steps** up to the end of the story: two for each node, of which the first may
have been made already. -/
def stepsLeft (height : NodeId → Nat) (top : Nat) (g : Game σ) : Nat :=
  2 * g.nodesLeft height top + if g.live.pending.isNone then 1 else 0

/-- The most steps that may be left of a story with a top. -/
def mostSteps (top : Nat) : Nat := 2 * (1 + top + (top + 1) * (top + 1)) + 1

theorem stepsLeft_le (htop : ∀ x, height x ≤ top) (g : Game σ) :
    g.stepsLeft height top ≤ mostSteps top := by
  have hnodes : g.nodesLeft height top ≤ 1 + top + (top + 1) * (top + 1) := by
    unfold nodesLeft
    cases hx : g.place? with
    | none => exact Nat.zero_le _
    | some x =>
      have hrisen : g.risen height x ≤ top + 1 := by
        unfold risen
        cases g.live.onwardFrom x with
        | none => exact Nat.zero_le _
        | some u => exact Nat.succ_le_succ (htop u)
      have hmax : max (height x) (g.risen height x) ≤ top + 1 :=
        Nat.max_le.2 ⟨Nat.le_succ_of_le (htop x), hrisen⟩
      have := Nat.mul_le_mul_left (top + 1) hmax
      have := htop x
      simp only
      omega
  unfold stepsLeft mostSteps
  split <;> omega

namespace Descending

theorem risen_le (h : g.Descending height floor) (hx : x ∈ g.live.units) :
    g.risen height x ≤ height x := by
  unfold risen
  cases hu : g.live.onwardFrom x with
  | none => exact Nat.zero_le _
  | some u => exact Live.onwardFrom_of_mem h.units hx hu

/-- Where play goes on at a child, that one lies below, and so does what is behind it. -/
theorem max_risen_le (h : g.Descending height floor) (ha : Advances g o g') {y : NodeId}
    (hy : height y < height o.node) :
    max (height y) (g'.risen height y) ≤ max (height o.node) (g.risen height o.node) := by
  by_cases hmem : y ∈ g'.live.units
  · have := (h.advance ha).risen_le hmem
    omega
  · have hseen : g'.risen height y = g.risen height o.node := by
      unfold risen
      rw [Live.onwardFrom_of_not_mem hmem, show g'.live.onward = g.live.onwardFrom o.node from ha.onward]
    omega

/-- Where play goes on at the next unit, that one lies no higher than it was seen before. -/
theorem max_risen_lt (h : g.Descending height floor) (ha : Advances g o g') {u : NodeId}
    (hu : g'.live.onward = some u) :
    max (height u) (g'.risen height u) < max (height o.node) (g.risen height o.node) := by
  have hrisen := (h.advance ha).risen_le (Live.mem_units_of_onward hu)
  have hseen : g.risen height o.node = height u + 1 := by
    unfold risen
    rw [← show g'.live.onward = g.live.onwardFrom o.node from ha.onward, hu]
    rfl
  omega

/-- **Each outcome that is taken over** leaves fewer nodes. -/
theorem nodesLeft_lt (h : g.Descending height floor) (htop : ∀ x, height x ≤ top)
    (ha : Advances g o g') : g'.nodesLeft height top < g.nodesLeft height top := by
  have hplace : g'.place? = g'.live.current.or g'.live.onward := by
    unfold place?
    rw [ha.pending]
  have hleft : g.nodesLeft height top =
      1 + height o.node + (top + 1) * max (height o.node) (g.risen height o.node) := by
    unfold nodesLeft
    rw [ha.place]
  rw [hleft]
  unfold nodesLeft
  rw [hplace]
  cases hc : g'.live.current with
  | some y =>
    have hbelow : height y < height o.node := by
      refine (h.advance ha).downhill.child o.node y ?_
      rw [ha.current, Graph.child?_eq_head?] at hc
      exact List.mem_of_head? hc
    have := Nat.mul_le_mul_left (top + 1) (h.max_risen_le ha hbelow)
    simp only [Option.some_or]
    omega
  | none =>
    rw [Option.none_or]
    cases hu : g'.live.onward with
    | none =>
      simp only
      omega
    | some u =>
      -- the second digit falls, which outweighs the first
      have hless := Nat.mul_le_mul_left (top + 1) (Nat.succ_le_of_lt (h.max_risen_lt ha hu))
      rw [Nat.succ_eq_add_one, Nat.mul_add] at hless
      have := htop u
      simp only
      omega

theorem stepsLeft_lt_of_advances (h : g.Descending height floor) (htop : ∀ x, height x ≤ top)
    (ha : Advances g o g') : g'.stepsLeft height top < g.stepsLeft height top := by
  have := h.nodesLeft_lt htop ha
  unfold stepsLeft
  split <;> split <;> omega

theorem stepsLeft_lt_of_halts (height : NodeId → Nat) (top : Nat) (hp : g.live.pending = none)
    (ha : Halts g f g') : g'.stepsLeft height top < g.stepsLeft height top := by
  obtain ⟨p, hp', -⟩ := ha.pending
  have hnodes : g'.nodesLeft height top = g.nodesLeft height top := by
    unfold nodesLeft risen
    rw [ha.place]
    cases hx : g.place? with
    | none => rfl
    | some x =>
      have honward := ha.onward x hx
      simp only [Live.onwardFrom_of_onward ha.units honward, honward]
  unfold stepsLeft
  rw [hnodes, hp, hp']
  simp

end Descending

end Game

end Storyline
