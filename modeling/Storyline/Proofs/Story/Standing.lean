import Storyline.Proofs.Story.Drafted
import Storyline.Proofs.Story.Through

/-!
# Stories that were played before

* `Standing F g`: the invariant of play: a game is ahead of an agenda, or will be once it takes over
  the outcome of the step that waits;
* `Standing.next`, `Standing.newGame`: it is kept by next steps and by new games;
* `Course g g'`: next steps, new games and changes of the store and the screen lead from `g` to `g'`;
* `World.Rehearsed d w`: a world that is written as trees, of which any stories were played, and
  `Rehearsed.carries`: it carries these trees.
-/

namespace Storyline

open Effect Storyline.Tree

variable {F : List (List Tree)} {g g' g₁ : Game Headless} {u : NodeId} {step : Step}
  {w w' : World} {d : Draft} {e : ElementId} {units : List NodeId} {now : Instant}

/-! ### The invariant of play -/

/-- The games that come up in play. -/
structure Standing (F : List (List Tree)) (g : Game Headless) : Prop where
  units : ∀ u ∈ g.live.units, u ∈ nodes F.flatten
  place : (∃ agenda v, Stood F g agenda v) ∨ ∃ o agenda v, Waiting F g o agenda v

theorem Tree.RowsInSequence.ready_of_top {γ : Type} {g : Graph γ} (h : RowsInSequence F g)
    (hu : u ∈ nodes F.flatten) : ∃ t rest, t.node = u ∧ Ready F g (t :: rest) := by
  obtain ⟨t, ht, rfl⟩ := List.mem_map.1 hu
  obtain ⟨r, hr, htr⟩ := List.mem_flatten.1 ht
  obtain ⟨before, rest, rfl⟩ := List.append_of_mem htr
  exact ⟨t, rest, rfl, h.opening hr⟩

namespace Standing

theorem carries (h : Standing F g) : g.world.Carries F := by
  rcases h.place with ⟨agenda, v, hs⟩ | ⟨o, agenda, v, hw⟩
  · exact hs.carries
  · exact hw.carries

/-- **Every next step** keeps the invariant of play. -/
theorem next (h : Standing F g) (hn : Play.next Headless.screen g = .ok step g') :
    Standing F g' := by
  have hstory := Play.next_eq_ok_story hn
  -- play stands at the head of what is ahead, or waits for the outcome of the node before
  rcases h.place with ⟨agenda, v, hc, hp, hcur, hready, -⟩ | ⟨o, agenda, v, hwait⟩
  · rw [Play.next_of_idle hstory hp] at hn
    cases haim : g.live.aim.current with
    | none =>
      rw [haim] at hn
      obtain ⟨-, rfl⟩ := EStateM.Result.ok.inj hn
      refine ⟨fun u hu => h.units u ?_, .inl ⟨[], _, hc, ?_, haim, .nil F _, rfl⟩⟩
      · rwa [← Live.units_aim]
      · exact (Live.pending_aim _).trans hp
    | some u =>
      rw [haim] at hn
      obtain ⟨t, rest, rfl, hready'⟩ : ∃ t rest, t.node = u ∧ Ready F g.world.graph (t :: rest) := by
        rcases Live.aim_cases haim with hu | hu
        · rw [hcur] at hu
          cases agenda with
          | nil => cases hu
          | cons t rest => exact ⟨t, rest, Option.some_inj.1 hu, hready⟩
        · exact hc.inSequence.ready_of_top (h.units u hu)
      obtain ⟨step', g₂, o, hexec, -, hplace, hstep⟩ :=
        Play.execute_node (g := { g with live := g.live.aim }) hc ((Live.pending_aim _).trans hp) hready'
      obtain ⟨rfl, rfl⟩ := EStateM.Result.ok.inj (hexec.symm.trans hn)
      refine ⟨fun u hu => h.units u ?_, ?_⟩
      · rw [hplace.units, Live.units_reach] at hu
        rwa [← Live.units_aim]
      · rcases hstep with ⟨-, hstood⟩ | ⟨f, -, -, hwaiting⟩
        · exact .inl ⟨_, _, hstood⟩
        · exact .inr ⟨_, _, _, hwaiting⟩
  · obtain ⟨g₂, hn', hplace, hstood⟩ := Play.next_of_waiting hwait hstory
    obtain ⟨-, rfl⟩ := EStateM.Result.ok.inj (hn'.symm.trans hn)
    refine ⟨fun u hu => h.units u ?_, .inl ⟨_, _, hstood⟩⟩
    rwa [← hplace.units]

/-- **A new game** may be started at any time. -/
theorem newGame (hc : g.world.Carries F) (hu : ∀ u ∈ g.live.units, u ∈ nodes F.flatten)
    (now : Instant) : Standing F (g.newGame now) := by
  refine ⟨hu, .inl ?_⟩
  cases hhead : g.live.units.head? with
  | none => exact ⟨[], _, hc, rfl, hhead, .nil F _, rfl⟩
  | some u =>
    obtain ⟨t, rest, rfl, hready⟩ := hc.inSequence.ready_of_top (hu u (List.mem_of_head? hhead))
    exact ⟨t :: rest, _, hc, rfl, hhead, hready, rfl⟩

/-- The host may change the store and what the screen shows or picks. -/
theorem host (h : Standing F g) (store : Store) (screen : Headless) :
    Standing F { g with stage := { g.stage with store, screen } } := by
  refine ⟨h.units, ?_⟩
  rcases h.place with ⟨agenda, v, hs⟩ | ⟨o, agenda, v, hc, hp, w, hw, hcw, hready, hchild, -⟩
  · exact .inl ⟨agenda, _, hs.carries, hs.pending, hs.current, hs.ready, rfl⟩
  · exact .inr ⟨o, agenda, _, hc, hp, w, hw, hcw, hready, hchild, rfl⟩

end Standing

/-! ### Earlier plays -/

theorem Play.keeps_of_next {σ : Type} {screen : Screen σ} {g g' : Game σ} (hw : g.world.Sound)
    (h : next screen g = .ok step g') : g.world.Keeps g'.world := by
  cases moved_of_next h with
  | waits | ends => exact .refl _
  | resumes p o w _ _ hchoose =>
    cases hc : o.choice with
    | none =>
      rw [hc] at hchoose
      subst w
      exact .refl _
    | some i =>
      rw [hc] at hchoose
      obtain ⟨a, commit, -, -, hdid⟩ := Build.choose_spec hw hchoose
      exact hdid.keeps
  | executes node a o s _ _ hs =>
    obtain ⟨b, commit, -, hdone⟩ := Perform.execute_spec hw hs
    exact hdone.did.keeps
  | begins node a f s _ _ hs =>
    obtain ⟨b, commit, -, hdone⟩ := Perform.execute_spec hw hs
    exact hdone.did.keeps

/-- What may happen to a game while a story is played. -/
inductive Course (g : Game Headless) : Game Headless → Prop
  | here : Course g g
  | next {g₁ g₂ : Game Headless} {step : Step} (h : Course g g₁)
      (hn : Play.next Headless.screen g₁ = .ok step g₂) : Course g g₂
  | anew {g₁ : Game Headless} (h : Course g g₁) (now : Instant) : Course g (g₁.newGame now)
  | host {g₁ : Game Headless} (h : Course g g₁) (store : Store) (screen : Headless) :
      Course g { g₁ with stage := { g₁.stage with store, screen } }

theorem Course.standing (h : Course g g') (hg : Standing F g) :
    Standing F g' ∧ g.world.Keeps g'.world := by
  induction h with
  | here => exact ⟨hg, .refl _⟩
  | next _ hn ih => exact ⟨ih.1.next hn, ih.2.trans (Play.keeps_of_next ih.1.carries.sound hn)⟩
  | anew _ now ih => exact ⟨.newGame ih.1.carries ih.1.units now, ih.2⟩
  | host _ store screen ih => exact ⟨ih.1.host store screen, ih.2⟩

/-- **Worlds that are written as trees**, of which any stories were played before: each was made the
story of some game, and stopped anywhere. -/
inductive World.Rehearsed (d : Draft) : World → Prop
  | written {w : World} (h : Drafted w d) : Rehearsed d w
  | played {g g₁ g₂ : Game Headless} {h : Handle Story} {now : Instant}
      (hg : Rehearsed d g.world) (hr : Play.registerStory h g = .ok () g₁)
      (hc : Course (g₁.newGame now) g₂) : Rehearsed d g₂.world

namespace Play

theorem registerStory_eq_ok_iff {σ : Type} {h : Handle Story} {g g' : Game σ} :
    registerStory h g = .ok () g' ↔ ∃ units w, Build.setRoot h g.world = .ok units w ∧
      g' = { g with stage := { g.stage with world := w } }.loadStory h.id units := by
  unfold registerStory
  rw [bind_apply_eq_ok]
  constructor
  · rintro ⟨units, g₁, hb, hg⟩
    obtain ⟨w, hw, rfl⟩ := build_eq_ok_iff.1 hb
    obtain ⟨-, rfl⟩ := EStateM.Result.ok.inj hg
    exact ⟨units, w, hw, rfl⟩
  · rintro ⟨units, w, hw, rfl⟩
    exact ⟨units, _, build_eq_ok_iff.2 ⟨w, hw, rfl⟩, rfl⟩

end Play

theorem World.shape?_of_setRoot {h : Handle Story} (hr : Build.setRoot h w = .ok units w') :
    w.shape? h.id = some (.story units) := by
  unfold Build.setRoot at hr
  obtain ⟨s, w₁, hfind, h₁⟩ := bind_apply_eq_ok.1 hr
  obtain ⟨hs, rfl⟩ := Build.find_eq_ok_iff.1 hfind
  rw [bind_get_apply] at h₁
  obtain ⟨_, w₂, -, h₂⟩ := bind_apply_eq_ok.1 h₁
  obtain ⟨rfl, -⟩ := EStateM.Result.ok.inj h₂
  exact shape?_of_get? hs

theorem World.Carries.units_subset (h : w.Carries F) (he : w.shape? e = some (.story units)) :
    ∀ u ∈ units, u ∈ nodes F.flatten := by
  obtain ⟨rows, hrows, rfl⟩ := h.stories e units he
  exact fun u hu => (hrows.flatten.map node).subset hu

/-- **Any story can be registered**, which keeps what is carried. -/
theorem Play.registerStory_ok (hc : g.world.Carries F)
    (he : g.world.shape? e = some (.story units)) :
    ∃ g₁, registerStory ⟨e⟩ g = .ok () g₁ ∧ g₁.world.Carries F ∧
      g₁.world.elements = g.world.elements ∧ g₁.live = { g.live with story := some e, units } ∧
      g₁.stage = { g.stage with world := g₁.world } := by
  obtain ⟨w, hw, hcarries, helements⟩ := hc.setRoot he
  exact ⟨_, registerStory_eq_ok_iff.2 ⟨units, w, hw, rfl⟩, hcarries, helements, rfl, rfl⟩

/-- **What is carried once is carried always**, and stories keep their units. -/
theorem World.Rehearsed.carries (h : w.Rehearsed d) : w.Carries d.forest ∧
    ∀ e units, w.shape? e = some (.story units) → units = nodes (d.units e) := by
  induction h with
  | written h => exact ⟨h.carries, fun e units he => h.holds.units_eq he⟩
  | @played g g₁ g₂ s now hg hr hc ih =>
    obtain ⟨hcarries, hunits⟩ := ih
    obtain ⟨units, w, hw, -⟩ := Play.registerStory_eq_ok_iff.1 hr
    have he := shape?_of_setRoot hw
    obtain ⟨g₁', hr', hcarries', helements, hlive, -⟩ := Play.registerStory_ok hcarries he
    obtain ⟨-, rfl⟩ := EStateM.Result.ok.inj (hr'.symm.trans hr)
    have hopen : Standing d.forest (g₁'.newGame now) := by
      refine .newGame hcarries' ?_ now
      rw [hlive]
      exact hcarries.units_subset he
    obtain ⟨hstanding, hkeeps⟩ := hc.standing hopen
    refine ⟨hstanding.carries, fun e units he => hunits e units ?_⟩
    rw [hkeeps.shape?] at he
    unfold World.shape? at he ⊢
    rw [← helements]
    exact he

end Storyline
