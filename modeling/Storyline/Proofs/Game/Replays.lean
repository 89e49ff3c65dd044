import Storyline.Proofs.Game.Spot
import Storyline.Proofs.Game.TakenBack
import Storyline.Proofs.World.Unplayed

/-!
# Undoing and playing again

* `World.Steady`: the predicates of conditions never change their answers;
* `Playing.undoTimes`: taking several steps back leads to the node of the first of them, and changes
  neither where nodes lead nor the unit that follows;
* `Retraces`: play goes through the same places from one game as it did from another;
* `Retraces.outcomes`: then the same picks lead to the same outcomes;
* `Retraces.offers`: and the next step never fails, on whichever screen;
* `Repeatable us g`: the moves `us` can be taken back from `g` and made again;
* `Told.replays`: they are, and play goes on as if none had been taken back.
-/

namespace Storyline

open Effect

variable {σ : Type}

/-! ### Predicates that never change -/

/-- A predicate that gives the same answer whatever is in the store. -/
def Predicate.Steady (p : Predicate) : Prop := ∀ s s', (p.evaluate s).1 = (p.evaluate s').1

/-- All predicates of conditions are steady. -/
def World.Steady (w : World) : Prop :=
  ∀ e tests chains fallback, w.shape? e = some (.condition tests chains fallback) →
    ∀ p ∈ tests, p.Steady

theorem Predicate.steady_constant (value : Bool) : (Predicate.constant value).Steady :=
  fun _ _ => rfl

theorem firstHolding_of_steady {tests : List Predicate} (h : ∀ p ∈ tests, p.Steady) (s s' : Store) :
    (firstHolding tests s).1 = (firstHolding tests s').1 := by
  induction tests generalizing s s' with
  | nil => rfl
  | cons p tests ih =>
    have hp := h p List.mem_cons_self s s'
    have hrest := fun s s' => ih (fun q hq => h q (List.mem_cons_of_mem _ hq)) s s'
    unfold firstHolding
    rcases he : p.evaluate s with ⟨b, c, left⟩
    rcases he' : p.evaluate s' with ⟨b', c', left'⟩
    rw [he, he'] at hp
    obtain rfl : b = b' := hp
    cases b with
    | true => rfl
    | false => exact congrArg (· + 1) (hrest left left')

theorem World.Steady.graft? {w w' : World} (h : w.Steady) (hk : w.Keeps w') (store store' : Store)
    (a : Action) (choice : Option Nat) : w'.graft? store' a choice = w.graft? store a choice := by
  unfold World.graft?
  rw [hk.shape?]
  split
  · rfl
  · rfl
  · rename_i hs
    rw [firstHolding_of_steady (h _ _ _ _ hs) store' store]
  · rfl
  · rfl

theorem World.Steady.game_graft? {g g' : Game σ} (h : g.world.Steady) (hk : g.world.Keeps g'.world)
    (o : Outcome) : g'.graft? o = g.graft? o := by
  unfold Game.graft?
  rw [hk.action?]
  cases g.world.action? o.node with
  | none => rfl
  | some a => exact h.graft? hk _ _ a o.choice

/-! ### Taking several steps back -/

/-- **Taking several steps back** never fails, and leads to the node of the first of them. -/
theorem Playing.undoTimes {d : Sheet} {g : Game σ} (h : Playing d g) (hp : g.live.pending = none)
    {k : Nat} (hk : k ≤ g.live.history.length) :
    ∃ g', Play.undoTimes k g = .ok () g' ∧ Playing d g' ∧ Stays g g' ∧
      g'.world.graph = g.world.graph ∧ g'.live.onward = g.live.onward ∧ g'.live.pending = none ∧
      g'.live.current =
        ((g.live.history.take k).getLast?.map (·.outcome.node)).or g.live.current := by
  induction k generalizing g with
  | zero => exact ⟨g, rfl, h, ⟨.refl _, rfl, rfl⟩, rfl, rfl, hp, rfl⟩
  | succ k ih =>
    obtain ⟨out, g₁, hundo, hback⟩ := h.undone
    have h₁ : Playing d g₁ := by
      have hleft := h.undo
      rwa [hundo] at hleft
    cases hh : g.live.history with
    | nil => simp [hh] at hk
    | cons e rest =>
      have hrest : g₁.live.history = rest := by rw [hback.history, hh, List.tail_cons]
      rw [hh, List.length_cons] at hk
      obtain ⟨g', htimes, hplaying, hstays, hgraph, honward, hpending, hcurrent⟩ :=
        ih h₁ hback.pending (by rw [hrest]; omega)
      refine ⟨g', ?_, hplaying, ⟨hback.keeps.trans hstays.keeps, hstays.story.trans hback.story,
        hstays.units.trans hback.units⟩, hgraph.trans hback.graph, honward.trans hback.onward,
        hpending, ?_⟩
      · unfold Play.undoTimes
        rw [bind_of_ok (discard_apply_of_ok hundo), htimes]
      · rw [hcurrent, hback.current, hrest, hh, hp, List.take_succ_cons]
        cases rest.take k <;> simp [List.getLast?_cons]

/-! ### The next step -/

section Offers

variable {d : Sheet} {b b' g : Game σ} {o : Outcome} {screen : Screen σ}

/-- What waits was answered with a pick, if it was answered at all. -/
def Game.Heeds (g : Game σ) (choice : Option Nat) : Prop :=
  ∀ p ∈ g.live.pending, ∀ o ∈ g.stage.futures.result? p.future, o.choice = choice

/-- **The next step does not fail**: on any screen it takes the outcome over, or waits for a future
that the outcome may come of. -/
def Game.Offers (g : Game σ) (o : Outcome) : Prop :=
  ∀ screen : Screen σ, ∃ step g', Play.next screen g = .ok step g' ∧
    match step with
    | .advanced o' => o' = o
    | .suspended f => g'.stage.futures.result? f = none →
        ∃ r, (g'.answered (f, r)).stage.futures.result? f = some o
    | .terminated => False

section Action

variable {a : Action} {r : Resolution} (hstory : g.live.story.isSome)
  (hact : g.world.action? o.node = some a) (hserves : a.Serves g.world) (ho : o = a.receive r)
  (hsplice : ∀ chain, g.world.graft? g.store a o.choice = some chain →
    ∃ k, Graph.splice a.node chain g.world.graph = .ok () k)

include hstory hact hserves ho hsplice

theorem Game.offers_of_idle (hp : g.live.pending = none) (hplace : g.place? = some o.node) :
    g.Offers o := by
  intro screen
  have haim : g.live.aim.current = some o.node := (Game.place?_of_idle hp).symm.trans hplace
  have hable : a.Able g.world g.store := by
    refine ⟨hserves, fun chain hc => hsplice chain ?_⟩
    by_cases hm : a.kind = .menu
    · rw [World.graft?_menu hm] at hc
      cases hc
    · rw [ho, Action.choice_of_ne hm, hc]
  obtain ⟨r', s, hs, he⟩ := Perform.execute_of_able (s := g.stage) screen hact hable
  have hexec := Play.execute_of_perform (g := { g with live := g.live.aim }) hact hs
  rw [Play.next_of_idle hstory hp, haim]
  cases r' with
  | immediate o' =>
    obtain ⟨rfl, hm⟩ := he.closes
    refine ⟨_, _, hexec, ?_⟩
    rw [ho, Action.receive_of_ne hm]
  | suspended f =>
    refine ⟨_, _, hexec, fun hn => ⟨r, ?_⟩⟩
    rw [ho]
    exact he.closes.answer hn r

/-- Where a step waits, its future can be answered, or the answer is taken over. -/
theorem Game.offers_of_pending {p : Pending} (hw : g.world.Sound) (hp : g.live.pending = some p)
    (hasks : g.stage.futures.Asks p.future a.receive) (hheeds : g.Heeds o.choice) :
    g.Offers o := by
  intro screen
  rw [Play.next_of_pending hstory hp]
  cases hf : g.stage.futures.result? p.future with
  | none =>
    refine ⟨_, _, rfl, fun _ => ⟨r, ?_⟩⟩
    rw [ho]
    exact hasks.answer hf r
  | some o' =>
    -- the future was answered with the same pick
    have hchoice := hheeds p hp o' hf
    obtain ⟨r', rfl⟩ := hasks.result hf
    obtain rfl : a.receive r' = o := by
      rw [ho] at hchoice ⊢
      exact Action.receive_congr hchoice
    cases hc : (a.receive r').choice with
    | none => exact ⟨_, _, Play.resume_of_choose (w := g.world) (by rw [hc]), rfl⟩
    | some i =>
      have hm : a.kind = .menu := by
        by_cases hm : a.kind = .menu
        · exact hm
        · cases (Action.choice_of_ne hm r').symm.trans hc
      rw [Action.receive_node] at hact
      obtain ⟨w, hchoose⟩ := Build.choose_of_splice hw hact hserves hm fun chain hchain =>
        hsplice chain (by rw [hc, hchain])
      refine ⟨_, _, Play.resume_of_choose (w := w) ?_, rfl⟩
      rw [hc, Action.receive_node]
      exact hchoose

end Action

/-- A game in which an outcome was taken over shows what the next step does at the same node. -/
theorem Game.offers (hg : Playing d g) (hk : b.world.Keeps g.world) (hsteady : b.world.Steady)
    (hstory : g.live.story.isSome) (ha : Advances b o b') (hplace : g.place? = some o.node)
    (hcont : (b.graft? o).isSome →
      g.world.graph.continuation o.node = b.world.graph.continuation o.node)
    (hheeds : g.Heeds o.choice) : g.Offers o := by
  obtain ⟨a, hact, hserves, r, ho⟩ := ha.action
  have hact' : g.world.action? o.node = some a := (hk.action? _).trans hact
  have hserves' := hserves.keeps hk
  have hnode : a.node = o.node := hg.sound.node _ _ hact'
  -- the pick was spliced in the first time, and the same continuation is left to splice it before
  have hsplice : ∀ chain, g.world.graft? g.store a o.choice = some chain →
      ∃ k, Graph.splice a.node chain g.world.graph = .ok () k := by
    intro chain hc
    have hb : b.graft? o = some chain := by
      unfold Game.graft?
      rw [hact, Option.bind_some, ← hsteady.graft? hk b.store g.store, hc]
    have hgets := ha.graph
    rw [hb] at hgets
    rw [hnode]
    exact Graph.splice_ok_of_sameNodes hk.nodes (hcont (by rw [hb]; rfl)) ⟨_, hgets⟩
  cases hp : g.live.pending with
  | none => exact Game.offers_of_idle hstory hact' hserves' ho hsplice hp hplace
  | some p =>
    obtain ⟨-, ⟨a', ha', -, -, hasks⟩, -⟩ := hg.poised.waits p hp
    rw [Option.some.inj ((Game.place?_of_pending hp).symm.trans hplace)] at ha'
    obtain rfl := Option.some.inj (ha'.symm.trans hact')
    exact Game.offers_of_pending hstory hact' hserves' ho hsplice hg.sound hp hasks hheeds

theorem Game.ends_iff (screen : Screen σ) (g : Game σ) :
    (∃ g', Play.next screen g = .ok .terminated g') ↔
      g.live.story.isSome ∧ g.place? = none := by
  constructor
  · rintro ⟨g', hn⟩
    exact ⟨Play.next_eq_ok_story hn, (Poised.ends hn).1⟩
  · rintro ⟨hstory, hplace⟩
    cases hp : g.live.pending with
    | some p => cases (Game.place?_of_pending hp).symm.trans hplace
    | none =>
      have haim : g.live.aim.current = none := (Game.place?_of_idle hp).symm.trans hplace
      rw [Play.next_of_idle hstory hp, haim]
      exact ⟨_, rfl⟩

theorem Advances.outcome_eq {g' : Game σ} {o' : Outcome} (ha : Advances b o b')
    (ha' : Advances g o' g') (hk : b.world.Keeps g.world) (hplace : g.place? = b.place?)
    (hc : o'.choice = o.choice) : o' = o := by
  obtain ⟨a, hact, -, r, ho⟩ := ha.action
  obtain ⟨a', hact', -, r', ho'⟩ := ha'.action
  rw [Option.some.inj ((ha'.place.symm.trans hplace).trans ha.place), hk.action?] at hact'
  obtain rfl := Option.some.inj (hact'.symm.trans hact)
  rw [ho, ho'] at hc ⊢
  exact Action.receive_congr hc

end Offers

/-! ### Playing again -/

section Again

variable {d : Sheet} {g g₁ g₂ h h' : Game σ} {us ts vs ws : List (Move σ)} {m : Move σ}

theorem concat_prefix_iff {α : Type} {l ws : List α} {a : α} :
    l ++ [a] <+: ws ↔ l <+: ws ∧ ws[l.length]? = some a := by
  constructor
  · rintro ⟨rest, rfl⟩
    exact ⟨⟨a :: rest, by simp⟩, by simp⟩
  · rintro ⟨⟨rest, rfl⟩, ha⟩
    cases rest with
    | nil => simp at ha
    | cons b rest =>
      obtain rfl : b = a := by simpa using ha
      exact ⟨rest, by simp⟩

/-- **Play goes through the same places** from the game `h` as it did from `g` by the moves `ws`, and
who grafts something in goes on at the same node. -/
structure Retraces (d : Sheet) (ws : List (Move σ)) (g h : Game σ) : Prop where
  playing : Playing d h
  stays : Stays g h
  spots : ∃ s r : Spot, g.At s ∧ h.At r ∧ ∀ i,
    (r.moves g.live.units ((ws.map Move.visit).take i)).place? =
        (s.moves g.live.units ((ws.map Move.visit).take i)).place? ∧
      ∀ v, (ws.map Move.visit)[i]? = some v → v.graft?.isSome →
        (r.moves g.live.units ((ws.map Move.visit).take i)).continuation v.node =
          (s.moves g.live.units ((ws.map Move.visit).take i)).continuation v.node

namespace Retraces

/-- After moves from `h` at the same nodes as the first of `ws`, play is where it was after these. -/
theorem place (hr : Retraces d ws g h) (hw : Told g ws g₂) (hg : Playing d g) (hv : Told h vs h')
    (hvisits : vs.map Move.visit <+: ws.map Move.visit) :
    (∀ m, ws[vs.length]? = some m → h'.place? = m.before.place? ∧ (m.graft?.isSome →
      h'.world.graph.continuation m.node = m.before.world.graph.continuation m.node)) ∧
    (vs.length = ws.length → h'.place? = g₂.place?) := by
  obtain ⟨s, r, hs, hr', hsame⟩ := hr.spots
  have hat := hv.at_moves hr.playing hr'
  rw [hr.stays.units, List.prefix_iff_eq_take.1 hvisits, List.length_map] at hat
  obtain ⟨hplace, hcont⟩ := hsame vs.length
  refine ⟨fun m hm => ?_, fun hlen => ?_⟩
  · obtain ⟨-, -, -, hbefore, -⟩ := hw.at_before hg hs hm
    rw [List.map_take] at hbefore
    refine ⟨hat.place.trans (hplace.trans hbefore.place.symm), fun hgraft => ?_⟩
    rw [hat.continuation, hbefore.continuation]
    exact hcont m.visit (by rw [List.getElem?_map, hm]; rfl) hgraft
  · rw [hat.place, hplace, hlen, List.take_of_length_le (Nat.le_of_eq (List.length_map _)),
      ← (hw.at_moves hg hs).place]

/-- **The same picks lead to the same outcomes.** -/
theorem outcomes (hr : Retraces d ws g h) (hw : Told g ws g₂) (hg : Playing d g)
    (hsteady : g.world.Steady) (hv : Told h vs h')
    (hc : vs.map (·.outcome.choice) <+: ws.map (·.outcome.choice)) :
    vs.map Move.visit <+: ws.map Move.visit ∧ vs.map (·.outcome) <+: ws.map (·.outcome) := by
  induction hv with
  | here => exact ⟨List.nil_prefix, List.nil_prefix⟩
  | answer _ _ ih | waits _ _ ih | ends _ _ ih => exact ih hc
  -- so far the visits were the same, so that the next outcome comes from the same node and pick
  | @adopts vs h' h'' hv screen o hn ih =>
    rw [List.map_append, List.map_singleton, concat_prefix_iff, List.length_map,
      List.getElem?_map] at hc
    obtain ⟨hc, hpick⟩ := hc
    obtain ⟨m, hm, hpick⟩ := Option.map_eq_some_iff.1 hpick
    obtain ⟨hvisits, houtcomes⟩ := ih hc
    obtain ⟨hplace, -⟩ := (hr.place hw hg hv hvisits).1 m hm
    obtain ⟨s, -, hs, -⟩ := hr.spots
    obtain ⟨hbefore, hstays, ha, -⟩ := hw.at_before hg hs hm
    have hplaying := hv.playing hr.playing
    have hkeeps := hr.stays.keeps.trans (hv.stays hr.playing).keeps
    have hk : m.before.world.Keeps h'.world := (hstays.keeps.symm hg.sound).trans hkeeps
    obtain rfl : o = m.outcome := ha.outcome_eq (hplaying.advances hn) hk hplace hpick.symm
    have hvisit : Move.visit ⟨h', m.outcome, h''⟩ = m.visit := by
      have hgraft : h'.graft? m.outcome = m.before.graft? m.outcome :=
        (hsteady.game_graft? hkeeps _).trans (hsteady.game_graft? hstays.keeps _).symm
      exact congrArg (Visit.mk m.outcome.node) hgraft
    constructor
    · rw [List.map_append, List.map_singleton, concat_prefix_iff, List.length_map, List.getElem?_map,
        hm, hvisit]
      exact ⟨hvisits, rfl⟩
    · rw [List.map_append, List.map_singleton, concat_prefix_iff, List.length_map, List.getElem?_map,
        hm]
      exact ⟨houtcomes, rfl⟩

/-- **The next step leads to the next outcome**, on whichever screen. -/
theorem offers (hr : Retraces d ws g h) (hw : Told g ws g₂) (hg : Playing d g)
    (hsteady : g.world.Steady) (hv : Told h vs h')
    (hc : vs.map (·.outcome.choice) <+: ws.map (·.outcome.choice)) (hm : ws[vs.length]? = some m)
    (hheeds : h'.Heeds m.outcome.choice) : h'.Offers m.outcome := by
  obtain ⟨hvisits, -⟩ := hr.outcomes hw hg hsteady hv hc
  obtain ⟨hplace, hcont⟩ := (hr.place hw hg hv hvisits).1 m hm
  obtain ⟨s, -, hs, -⟩ := hr.spots
  obtain ⟨hbefore, hstays, ha, -⟩ := hw.at_before hg hs hm
  have hstays' := hv.stays hr.playing
  have hkeeps := hr.stays.keeps.trans hstays'.keeps
  have hk : m.before.world.Keeps h'.world := (hstays.keeps.symm hg.sound).trans hkeeps
  have hsteady' : m.before.world.Steady := fun e tests chains fallback he =>
    hsteady e tests chains fallback ((hstays.keeps.shape? e).symm.trans he)
  have hstory : h'.live.story.isSome := by
    obtain ⟨hlt, rfl⟩ := List.getElem?_eq_some_iff.1 hm
    rw [← List.take_append_drop vs.length ws, List.drop_eq_getElem_cons hlt] at hw
    obtain ⟨screen, -, hn, -⟩ := hw.split
    rw [hstays'.story, hr.stays.story, ← hstays.story]
    exact Play.next_eq_ok_story hn
  exact Game.offers (hv.playing hr.playing) hk hsteady' hstory ha (hplace.trans ha.place) hcont hheeds

end Retraces

/-- **What makes moves repeatable** once they were taken back from the game `g`, which leaves alone
where nodes lead and which unit follows. A node leads where it did, unless one of the moves leads it
there anew; and where a unit ends among the moves, one of them has begun it. -/
structure Repeatable (us : List (Move σ)) (g : Game σ) : Prop where
  leads : ∀ i (_ : i < us.length), us[i].node ∈ (us.take (i + 1)).flatMap (·.visit.leads) ∨
    g.world.graph.child? us[i].node = us[i].led
  units : ∀ i (_ : i < us.length), us[i].led = none →
    i + 1 = us.length ∨ ∃ m ∈ us.take (i + 1), m.node ∈ g.live.units

instance : DecidablePred (Repeatable (σ := σ) us) := fun _ =>
  decidable_of_iff _ ⟨fun h => Repeatable.mk h.1 h.2, fun h => And.intro h.leads h.units⟩

/-- What is left of the history once some moves were taken back starts before the first of them. -/
theorem Told.first_of_history (hu : Told g us g₁) (hg : Playing d g) :
    us.length ≤ g₁.live.history.length ∧
      (g₁.live.history.take us.length).getLast?.map (·.outcome.node) = us.head?.map Move.node := by
  have hhistory := hu.history hg
  have hlen := congrArg List.length hhistory
  have hnodes : (g₁.live.history.take us.length).map (·.outcome) =
      (us.map (·.outcome)).reverse := by
    rw [List.map_take, hhistory, List.take_append_of_le_length (by simp), List.take_of_length_le (by simp)]
  refine ⟨by simp at hlen; omega, ?_⟩
  have hlast := congrArg (fun os => os.getLast?.map Outcome.node) hnodes
  simp only [List.getLast?_map, List.getLast?_reverse, List.head?_map, Option.map_map] at hlast
  exact hlast

/-- Taking repeatable moves back leads to a game that retraces them, and whatever follows. -/
theorem Told.retraces (hg : Playing d g) (hp : g.live.pending = none) (hu : Told g us g₁)
    (hp₁ : g₁.live.pending = none) (hrep : Repeatable us g₁) :
    ∃ h, Play.undoTimes us.length g₁ = .ok () h ∧ ∀ ts, Retraces d (us ++ ts) g h := by
  obtain ⟨hle, hfirst⟩ := hu.first_of_history hg
  obtain ⟨h, hundo, hplaying, hstays, hgraph, honward, hpend, hcurrent⟩ :=
    (hu.playing hg).undoTimes hp₁ hle
  have hs : g.At g.spot := .spot hp
  have hstays₁ := hu.stays hg
  have hat := hu.at_moves hg hs
  obtain ⟨hc₁, ho₁⟩ := hat.idle hp₁
  have hmap : ∀ i, (us.map Move.visit).take i = (us.take i).map Move.visit := fun i => List.map_take.symm
  refine ⟨h, hundo, fun ts => ⟨hplaying, ⟨hstays₁.keeps.trans hstays.keeps,
    hstays.story.trans hstays₁.story, hstays.units.trans hstays₁.units⟩, g.spot, h.spot, hs,
    .spot hpend, fun i => ?_⟩⟩
  rw [List.map_append]
  -- the place after undoing, and what the edges lead to from there, put the moves in the same order
  refine Spot.retraces ?_ ?_ (honward.trans ho₁) ?_ (fun v hv => ?_) (fun j hj => ?_)
    (fun j hj hend => ?_) i
  · exact (congrArg Graph.child? hgraph).trans hat.child?
  · funext n
    show h.world.graph.resumes[n]? = _
    rw [hgraph, hat.resumes]
  · refine hcurrent.trans ?_
    rw [hfirst, hc₁, List.head?_map, Option.map_map]
    rfl
  · rw [List.head?_map] at hv
    obtain ⟨m, hm, rfl⟩ := Option.map_eq_some_iff.1 hv
    obtain ⟨-, -, ha, hbefore, -⟩ := hu.at_before hg hs (List.head?_eq_getElem? ▸ hm)
    exact hbefore.place.symm.trans ha.place
  · rw [List.length_map] at hj
    obtain ⟨-, -, -, -, hled⟩ := hu.at_before hg hs (List.getElem?_eq_getElem hj)
    rw [hmap, List.getElem_map, ← hat.child?, List.flatMap_map, hled]
    exact hrep.leads j hj
  · rw [List.length_map] at hj
    have hj' := Nat.lt_of_succ_lt hj
    obtain ⟨-, -, -, -, hled⟩ := hu.at_before hg hs (List.getElem?_eq_getElem hj')
    rw [hmap] at hend ⊢
    obtain ⟨m, hm, hmem⟩ := (hrep.units j hj' (hled.symm.trans hend)).resolve_left (by omega)
    exact ⟨m.visit, List.mem_map_of_mem hm, hstays₁.units ▸ hmem⟩

/-- **Undoing and playing again** reproduces the play. Every node is in one list at most, and the
predicates are steady. The moves `us` were made since the game `g`, and can be made again. Taking them
all back does not fail. Whatever was played on behind them, `ts`, and whatever is played after they
were taken back, `vs`, the same picks lead to the same outcomes. The next step never fails before all
were made, on whichever screen, and then the story ends where it did. -/
theorem Told.replays (hg : Playing d g) (hsteady : g.world.Steady) (hp : g.live.pending = none)
    (hu : Told g us g₁) (hp₁ : g₁.live.pending = none) (hrep : Repeatable us g₁) :
    ∃ h, Play.undoTimes us.length g₁ = .ok () h ∧ ∀ ts g₂, Told g₁ ts g₂ → ∀ vs h', Told h vs h' →
      vs.map (·.outcome.choice) <+: (us ++ ts).map (·.outcome.choice) →
        vs.map (·.outcome) <+: (us ++ ts).map (·.outcome) ∧
        (∀ m, (us ++ ts)[vs.length]? = some m → h'.Heeds m.outcome.choice → h'.Offers m.outcome) ∧
        (vs.length = (us ++ ts).length → ∀ screen,
          (∃ k, Play.next screen h' = .ok .terminated k) ↔
            ∃ k, Play.next screen g₂ = .ok .terminated k) := by
  obtain ⟨h, hundo, hretraces⟩ := hu.retraces hg hp hp₁ hrep
  refine ⟨h, hundo, fun ts g₂ ht vs h' hv hc => ?_⟩
  have hr := hretraces ts
  have hw := hu.trans ht
  obtain ⟨hvisits, houtcomes⟩ := hr.outcomes hw hg hsteady hv hc
  refine ⟨houtcomes, fun m hm hheeds => hr.offers hw hg hsteady hv hc hm hheeds,
    fun hlen screen => ?_⟩
  have hplace := (hr.place hw hg hv hvisits).2 hlen
  have hstory : h'.live.story = g₂.live.story :=
    ((hv.stays hr.playing).story.trans hr.stays.story).trans (hw.stays hg).story.symm
  rw [Game.ends_iff, Game.ends_iff, hplace, hstory]

end Again

/-! ### Going back on the road -/

theorem steady_fork : forkGame.world.Steady := by
  intro e tests chains fallback he p hp
  have hcalls : ∀ c ∈ forkCalls, ∀ p ∈ c.predicates, p.Steady := by
    have hconstant : ∀ p ∈ forkCalls.flatMap Call.predicates, p = .constant true := by
      intro p hp
      exact List.mem_singleton.1 hp
    intro c hc p hp
    rw [hconstant p (List.mem_flatMap.2 ⟨c, hc, hp⟩)]
    exact Predicate.steady_constant true
  obtain ⟨x, hx, hshape⟩ := Option.map_eq_some_iff.1 he
  refine World.each_predicates_callAll forkCalls hcalls e x hx p ?_
  rwa [Element.predicates_of_shape hshape]

/-- The whole road is gone back, and then again: the same fork is met twice, and then the inn. -/
theorem replays_fork :
    (forkGame.tell Headless.screen 17).1.map Move.node =
        [⟨10⟩, ⟨8⟩, ⟨6⟩, ⟨2⟩, ⟨3⟩, ⟨9⟩, ⟨6⟩, ⟨2⟩, ⟨3⟩, ⟨4⟩, ⟨5⟩] ∧
      ∃ h, Play.undoTimes 11 (forkGame.tell Headless.screen 17).2 = .ok () h ∧
        ∀ vs h', Told h vs h' → vs.map (·.outcome.choice) <+: List.replicate 11 none →
          vs.map (·.outcome) <+: (forkGame.tell Headless.screen 17).1.map (·.outcome) := by
  obtain ⟨h, hundo, hreplays⟩ := (Told.tell Headless.screen forkGame 17).replays playing_fork
    steady_fork rfl (by decide +kernel) (by decide +kernel)
  have hlength : (forkGame.tell Headless.screen 17).1.length = 11 := by decide +kernel
  have hchoices : (forkGame.tell Headless.screen 17).1.map (·.outcome.choice) =
      List.replicate 11 none := by decide +kernel
  refine ⟨by decide +kernel, h, hlength ▸ hundo, fun vs h' hv hc => ?_⟩
  obtain ⟨houtcomes, -⟩ := hreplays [] _ .here vs h' hv (by rw [List.append_nil, hchoices]; exact hc)
  rwa [List.append_nil] at houtcomes

end Storyline
