import Storyline.Proofs.Game.Told

/-!
# Where play goes on

* `unitBehind units nodes`: the unit behind the last one among some nodes;
* `Move.onward units us`: where play goes on after some moves: where the last one led, or else at the
  unit behind the last one that was played;
* `Stepping.advance`, `Stepping.halt`, `Stepping.ended`, `Stepping.answer`: stepping through a game keeps
  it steppable;
* `Game.Going units g us`: a game that is played on by the moves `us` is where they lead on, and
  `Going.told`: every game is that is played on from its first unit.
-/

namespace Storyline

open Effect

variable {σ : Type}

/-! ### Units behind nodes -/

/-- The unit behind the last one among some nodes, the first unit if there is none among them. -/
def unitBehind (units nodes : List NodeId) : Option NodeId :=
  units[(nodes.filterMap fun n => units.findIdx? (· = n)).getLast?.elim 0 (· + 1)]?

theorem unitBehind_nil (units : List NodeId) : unitBehind units [] = units.head? :=
  List.head?_eq_getElem?.symm

theorem unitBehind_concat (units nodes : List NodeId) (x : NodeId) :
    unitBehind units (nodes ++ [x]) =
      (units.findIdx? (· = x)).elim (unitBehind units nodes) fun i => units[i + 1]? := by
  unfold unitBehind
  cases hx : units.findIdx? (· = x) with
  | none => simp [hx]
  | some i => simp [hx]

/-- The node behind the moves `us`: where the last one led, or else the unit behind the last one that
was played. -/
def Move.onward (units : List NodeId) (us : List (Move σ)) : Option NodeId :=
  (us.getLast?.bind Move.led).or (unitBehind units (us.map Move.node))

/-! ### Stepping through a game -/

namespace Game.Stepping

variable {g g' : Game σ} {o : Outcome} {f : FutureId}

theorem of_started (hs : g.live.started = true) (hw : ∀ p, g.live.pending = some p → p.Stands g) :
    g.Stepping :=
  ⟨fun hn => Bool.noConfusion (hs.symm.trans hn), hw⟩

theorem advance (ha : Advances g o g') : g'.Stepping :=
  of_started ha.started fun p hp => by cases ha.pending.symm.trans hp

theorem halt (ha : Halts g f g') : g'.Stepping := by
  refine of_started ha.started fun p hp => ?_
  obtain ⟨q, hq, -, hstands⟩ := ha.pending
  obtain rfl := Option.some.inj (hq.symm.trans hp)
  exact hstands

theorem ended (hx : g.place? = none) (hp : g.live.pending = none) :
    ({ g with live := { g.live.aim with terminated := true } } : Game σ).Stepping := by
  have hcurrent : g.live.aim.current = none := (place?_of_idle hp).symm.trans hx
  refine of_started ?_ fun p hq => by cases ((Live.pending_aim _).trans hp).symm.trans hq
  exact Live.started_aim (Option.or_eq_none_iff.1 (g.live.aim_current ▸ hcurrent)).1

theorem answer (h : g.Stepping) (answer : FutureId × Resolution) : (g.answered answer).Stepping := by
  refine ⟨h.unbegun, fun p hp => ?_⟩
  obtain ⟨⟨a, ha, hs, hk, hasks⟩, honward⟩ := h.waits p hp
  exact ⟨⟨a, ha, hs, hk, hasks.settle answer⟩, honward⟩

end Game.Stepping

/-! ### Playing on from the first unit -/

/-- A game that is played on by some moves is where they lead on, and knows the unit behind. -/
structure Game.Going (units : List NodeId) (g : Game σ) (us : List (Move σ)) : Prop where
  stepping : g.Stepping
  sound : g.world.Sound
  story : g.live.story.isSome
  units_eq : g.live.units = units
  place : g.place? = Move.onward units us
  onwardFrom : ∀ x, g.place? = some x →
    g.live.onwardFrom x = unitBehind units (us.map Move.node ++ [x])

namespace Game.Going

variable {units : List NodeId} {g g' : Game σ} {us : List (Move σ)} {o : Outcome} {f : FutureId}
  {screen : Screen σ}

theorem start (hl : g.Stepping) (hw : g.world.Sound) (hs : g.live.story.isSome)
    (hplace : g.place? = g.live.units.head?) : g.Going g.live.units [] := by
  refine ⟨hl, hw, hs, rfl, ?_, fun x hx => ?_⟩
  · unfold Move.onward
    rw [List.map_nil, unitBehind_nil]
    exact hplace
  · rw [hplace] at hx
    obtain ⟨rest, hunits⟩ := List.head?_eq_some_iff.1 hx
    have hfirst : g.live.units.findIdx? (· = x) = some 0 := by
      rw [hunits, List.findIdx?_cons]
      simp
    rw [unitBehind_concat, Live.onwardFrom, hfirst]
    rfl

/-- An outcome is taken over at the node where the moves lead on. -/
theorem advance (h : g.Going units us) (hn : Play.next screen g = .ok (.advanced o) g') :
    Advances g o g' ∧ g'.Going units (us ++ [⟨g, o, g'⟩]) := by
  have ha := h.stepping.advances h.sound hn
  have honward : g'.live.onward = unitBehind units (us.map Move.node ++ [o.node]) :=
    ha.onward.trans (h.onwardFrom o.node ha.place)
  have hmoves : (us ++ [(⟨g, o, g'⟩ : Move σ)]).map Move.node = us.map Move.node ++ [o.node] :=
    List.map_append
  refine ⟨ha, .advance ha, ha.keeps.sound h.sound, ha.story ▸ h.story, ha.units.trans h.units_eq, ?_,
    fun x _ => ?_⟩
  · unfold Move.onward place?
    rw [ha.pending, honward, hmoves, List.getLast?_concat]
    rfl
  · rw [hmoves, unitBehind_concat, ← honward, Live.onwardFrom, ha.units, h.units_eq]

theorem halt (h : g.Going units us) (hn : Play.next screen g = .ok (.suspended f) g') :
    Halts g f g' ∧ g'.Going units us := by
  have ha := h.stepping.halts h.sound hn
  refine ⟨ha, .halt ha, ha.keeps.sound h.sound, ha.story ▸ h.story, ha.units.trans h.units_eq,
    ha.place.trans h.place, fun x hx => ?_⟩
  have hplace := ha.place.symm.trans hx
  rw [Live.onwardFrom_of_onward ha.units (ha.onward x hplace), ha.onward x hplace]
  exact h.onwardFrom x hplace

theorem ended (h : g.Going units us) (hn : Play.next screen g = .ok .terminated g') :
    g'.Going units us := by
  obtain ⟨hplace, hp, rfl⟩ := Poised.ends hn
  have hended := Poised.place?_ended hplace hp
  refine ⟨.ended hplace hp, h.sound, g.live.story_aim ▸ h.story, g.live.units_aim.trans h.units_eq,
    ?_, fun x hx => ?_⟩
  · rw [hended, ← h.place, hplace]
  · cases hended.symm.trans hx

theorem answer (h : g.Going units us) (answer : FutureId × Resolution) :
    (g.answered answer).Going units us :=
  ⟨h.stepping.answer answer, h.sound, h.story, h.units_eq, h.place, h.onwardFrom⟩

/-- **Playing on from the first unit** every game is where the moves lead on. -/
theorem told (h : g.Going units []) (ht : Told g us g') : g'.Going units us := by
  induction ht with
  | here => exact h
  | answer _ answer ih => exact ih.answer answer
  | waits _ hn ih => exact (ih.halt hn).2
  | adopts _ hn ih => exact (ih.advance hn).2
  | ends _ hn ih => exact ih.ended hn

/-- Every move is made at the node where those before it lead on. -/
theorem move (h : g.Going units []) {us vs : List (Move σ)} {m : Move σ}
    (ht : Told g (us ++ m :: vs) g') : Move.onward units us = some m.node := by
  obtain ⟨screen, hbefore, hn, -⟩ := ht.split
  have hgoing := h.told hbefore
  exact hgoing.place.symm.trans (hgoing.advance hn).1.place

end Game.Going

end Storyline
