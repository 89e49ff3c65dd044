import Storyline.Proofs.Story.Standing

/-!
# Stories are played as the trees that they were written as

* `Game.opening`: the outlook of a game when it starts anew;
* `Play.finishes_newGame`: a new game plays the trace of the rows of its story and ends;
* `Rehearsed.plays_trace`: so does every story of a world that is written as trees, whatever was
  played of this world before.
-/

namespace Storyline

open Effect Storyline.Tree

variable {F rows : List (List Tree)} {g : Game Headless} {d : Draft} {e : ElementId} {limit : Nat}

/-- What the course of a story depends on when a game starts anew. -/
def Game.opening (g : Game Headless) : Outlook :=
  ⟨Game.emptyNamespaces g.live.namespaces g.store, g.stage.screen.picks, g.world.calls⟩

theorem Placed.start {l : Live} {t : Tree} {rest : List Tree} {rows' : List (List Tree)}
    (hd : Distinct F) (hs : rows.Sublist F) (hu : l.units = nodes rows.flatten) (hsub : rows' ⊆ rows)
    (he : rows.flatten = t :: rest ++ rows'.flatten) : Placed F l [] (t :: rest) rows' := by
  have hnodes : (nodes rows.flatten).Sublist (nodes F.flatten) := hs.flatten.map node
  refine ⟨⟨[], ?_, .inr ⟨rfl, List.cons_ne_nil _ _⟩⟩, ?_, ?_, fun r hr => hs.subset (hsub hr), nofun⟩
  · rw [hu, he]
    rfl
  · rw [hu]
    exact hnodes.nodup (List.nodup_append.1 hd.nodup_allRows).1
  · rw [hu]
    exact fun u hu => hnodes.subset hu

/-- **A new game** plays the trace of the rows of its story and ends. -/
theorem Play.finishes_newGame (hc : g.world.Carries F) (hstory : g.live.story.isSome)
    (hs : rows.Sublist F) (hu : g.live.units = nodes rows.flatten)
    (hlimit : 2 * (traceRow rows.flatten g.opening).1.length < limit) (now : Instant) :
    Finishes (g.newGame now) limit [] (traceRow rows.flatten g.opening).1 := by
  rcases Tree.flatten_cases rows with he | ⟨t, rest, rows', ht, hsub, he⟩
  · -- a story without units ends at once
    obtain ⟨m, rfl⟩ : ∃ m, limit = m + 1 := ⟨limit - 1, by omega⟩
    have hunits : g.live.units = [] := by rw [hu, he]; rfl
    have hcur : (g.newGame now).live.aim.current = none := by
      unfold Live.aim Live.nextUnit Game.newGame Live.restart Game.mapStage
      simp [hunits]
    have hend : next Headless.screen (g.newGame now) = .ok .terminated
        { g.newGame now with live := { (g.newGame now).live.aim with terminated := true } } := by
      have hidle := @next_of_idle _ Headless.screen (g.newGame now) hstory rfl
      rw [hcur] at hidle
      exact hidle
    refine ⟨_, _, playFrom_terminated hend, rfl, rfl, ?_⟩
    rw [he]
    rfl
  · have hplaced : Placed F (g.newGame now).live [] (t :: rest) rows' :=
      .start hc.inSequence.distinct hs hu hsub he
    have hopen : Ready F g.world.graph (t :: rest) :=
      hc.inSequence.opening (l := []) (hs.subset ht)
    have hstood : Stood F (g.newGame now) ([] ++ (t :: rest)) g.opening := by
      refine ⟨hc, rfl, ?_, hopen, rfl⟩
      show g.live.units.head? = _
      rw [hu, he]
      rfl
    rw [he] at hlimit ⊢
    exact @playFrom_of_placed _ _ _ [] _ _ _ _ hstory rfl hstood hplaced hlimit

/-- **Every story is played as the trees that it was written as.** The story is registered, and a
new game ends after the trace of its units, whatever was played before. -/
theorem World.Rehearsed.plays_trace {s : Story} (hw : g.world.Rehearsed d)
    (he : g.world.elements.get? e = some (.story s)) (now : Instant) :
    ∃ g₁, Play.registerStory ⟨e⟩ g = .ok () g₁ ∧
      ∀ limit, 2 * (traceRow (d.units e) g.opening).1.length < limit →
        ∃ progress g₂,
          Play.playUntilBlocked Headless.screen limit (g₁.newGame now) = .ok progress g₂ ∧
            progress.terminated = true ∧ progress.blocked = none ∧
            progress.outcomes.map (·.node) = (traceRow (d.units e) g.opening).1 := by
  obtain ⟨hcarries, hunits⟩ := hw.carries
  have hshape := shape?_of_get? he
  obtain ⟨g₁, hr, hcarries', helements, hlive, hstage⟩ := Play.registerStory_ok hcarries hshape
  refine ⟨g₁, hr, fun limit hlimit => ?_⟩
  have hopening : g₁.opening = g.opening := by
    have hcalls : g₁.world.calls = g.world.calls := by
      unfold World.calls
      rw [helements]
    unfold Game.opening Game.store
    rw [hcalls, hlive, hstage]
  have hstory : g₁.live.story.isSome := by
    rw [hlive]
    rfl
  -- the rows of the story are among those that were written, and make up its units
  have hrows : (d.rowsAt (.unit e)).Sublist d.forest :=
    (List.filter_sublist.map _).trans (List.sublist_append_right _ _)
  have hplays : g₁.live.units = nodes (d.rowsAt (.unit e)).flatten := by
    rw [hlive]
    exact hunits e s.actions hshape
  rw [← hopening] at hlimit ⊢
  exact Play.finishes_newGame hcarries' hstory hrows hplays hlimit now

/-! ### A night at an inn -/

/-- A scene whose menu has two entries and is followed by one more change of the background, as the
only unit of a story. -/
def innCalls : List Call := [
  .scene "Inn" {},
  .append ⟨1⟩ (.setBackground "hall"),
  .append ⟨1⟩ (.setBackground "attic"),
  .append ⟨1⟩ (.setBackground "dawn"),
  .menu none,
  .choose ⟨5⟩ (.plain "Downstairs") [[⟨2⟩]],
  .choose ⟨5⟩ (.plain "Upstairs") [[⟨3⟩]],
  .toAction .menu ⟨5⟩,
  .sceneAction ⟨1⟩ [[⟨6⟩, ⟨4⟩]],
  .story "A night at an inn",
  .storyAction ⟨8⟩ [[⟨7⟩]]]

/-- The world after the first calls. -/
def innWorld (n : Nat) : World := World.new.callAll (innCalls.take n)

/-- The tree of a change of the background. -/
def innLine (n : Nat) : Tree := .mk ⟨n⟩ .statement []

/-- The tree of the only unit. -/
def innTree : Tree :=
  .mk ⟨7⟩ .scene [[.mk ⟨6⟩ .menu [[innLine 2], [innLine 3]], innLine 4]]

theorem get?_of_kind (α : Type) [Elemental α] [LawfulElemental α] {w : World}
    (h : (w.elements.get? e).map Element.kind = some (Elemental.kind α)) :
    ∃ a : α, w.elements.get? e = some (Elemental.toElement a) := by
  obtain ⟨x, hx, hk⟩ := Option.map_eq_some_iff.1 h
  obtain ⟨a, rfl⟩ := (LawfulElemental.kind_eq_iff x).1 hk
  exact ⟨a, hx⟩

theorem drafted_inn : Drafted (innWorld 11)
    { rows := [(.unit ⟨8⟩, [innTree])], wrapped := [⟨5⟩] } := by
  have h₁ : Drafted (innWorld 1) {} := Registered.new.plain (.scene "Inn" {}) trivial
  have h₂ : Drafted (innWorld 2) { free := [innLine 2] } :=
    h₁.append ⟨1⟩ (.setBackground "hall") [] rfl (ok_of_answer (by decide +kernel))
  have h₃ : Drafted (innWorld 3) { free := [innLine 3, innLine 2] } :=
    h₂.append ⟨1⟩ (.setBackground "attic") [] rfl (ok_of_answer (by decide +kernel))
  have h₄ : Drafted (innWorld 4) { free := [innLine 4, innLine 3, innLine 2] } :=
    h₃.append ⟨1⟩ (.setBackground "dawn") [] rfl (ok_of_answer (by decide +kernel))
  have h₅ : Drafted (innWorld 5) { free := [innLine 4, innLine 3, innLine 2] } :=
    h₄.plain (.menu none) trivial
  have h₆ : Drafted (innWorld 6)
      { free := [innLine 4, innLine 3], rows := [(.branch ⟨5⟩, [innLine 2])] } :=
    h₅.enters (.choose ⟨5⟩ (.plain "Downstairs") [[⟨2⟩]]) []
      (Draft.Enters.listed rfl nofun (@List.perm_append_comm _ [innLine 4, innLine 3] _))
      (ok_of_answer (by decide +kernel))
  have h₇ : Drafted (innWorld 7)
      { free := [innLine 4], rows := [(.branch ⟨5⟩, [innLine 2]), (.branch ⟨5⟩, [innLine 3])] } :=
    h₆.enters (.choose ⟨5⟩ (.plain "Upstairs") [[⟨3⟩]]) []
      (Draft.Enters.listed rfl nofun (@List.perm_append_comm _ [innLine 4] _))
      (ok_of_answer (by decide +kernel))
  obtain ⟨m, hm⟩ := get?_of_kind Menu (w := innWorld 7) (e := ⟨5⟩) (by decide +kernel)
  have h₈ : Drafted (innWorld 8)
      { free := [.mk ⟨6⟩ .menu [[innLine 2], [innLine 3]], innLine 4], wrapped := [⟨5⟩] } :=
    h₇.enters (.toAction .menu ⟨5⟩) [⟨6⟩] (Draft.Enters.menu nofun hm)
      (ok_of_answer (by decide +kernel))
  have h₉ : Drafted (innWorld 9) { free := [innTree], wrapped := [⟨5⟩] } :=
    h₈.enters (.sceneAction ⟨1⟩ [[⟨6⟩, ⟨4⟩]]) [⟨7⟩] (Draft.Enters.scene rfl (.refl _))
      (ok_of_answer (by decide +kernel))
  have h₁₀ : Drafted (innWorld 10) { free := [innTree], wrapped := [⟨5⟩] } :=
    h₉.plain (.story "A night at an inn") trivial
  exact h₁₀.enters (.storyAction ⟨8⟩ [[⟨7⟩]]) [⟨9⟩]
    (Draft.Enters.listed rfl (by decide) (.refl _)) (ok_of_answer (by decide +kernel))

/-- The player picks the second entry. -/
def innGame : Game Headless where
  config := {}
  stage := { world := innWorld 11, store := {}, futures := {}, screen := { picks := [1] } }

theorem plays_trace_inn :
    ∃ g₁ progress g₂, Play.registerStory ⟨⟨8⟩⟩ innGame = .ok () g₁ ∧
      Play.playUntilBlocked Headless.screen 9 (g₁.newGame default) = .ok progress g₂ ∧
        progress.terminated = true ∧ progress.blocked = none ∧
        progress.outcomes.map (·.node) = [⟨7⟩, ⟨6⟩, ⟨3⟩, ⟨4⟩] := by
  obtain ⟨s, hs⟩ := get?_of_kind Story (w := innGame.world) (e := ⟨8⟩) (by decide +kernel)
  obtain ⟨g₁, hr, hplays⟩ := World.Rehearsed.plays_trace (g := innGame) (.written drafted_inn) hs default
  have htrace : (traceRow [innTree] innGame.opening).1 = [⟨7⟩, ⟨6⟩, ⟨3⟩, ⟨4⟩] := by decide +kernel
  obtain ⟨progress, g₂, hplay, hterm, hblocked, hnodes⟩ := hplays 9 (by decide +kernel)
  exact ⟨g₁, progress, g₂, hr, hplay, hterm, hblocked, hnodes.trans htrace⟩

end Storyline
