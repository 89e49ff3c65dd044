import Storyline.Proofs.Game.Playing
import Storyline.Proofs.Story.Traced

/-!
# Playing on

* `Move`: an outcome that was taken over, with the game before and after; what was grafted in then,
  and where play went on;
* `Told g us g'`: next steps and answers, without undoing, lead from one game to another by the moves
  `us`;
* `Game.tell`: playing on for a number of steps, without answers;
* `Told.split`, `Told.stays`, `Told.history`: the game at a move, what stays, and what is written
  down.
-/

namespace Storyline

open Effect

variable {σ : Type}

/-- An outcome that was taken over. -/
structure Move (σ : Type) where
  before : Game σ
  outcome : Outcome
  after : Game σ

namespace Move

def node (m : Move σ) : NodeId := m.outcome.node

/-- The chain that was grafted in, if anything was. -/
def graft? (m : Move σ) : Option (Option Chain) := m.before.graft? m.outcome

/-- Where play goes on behind the node, apart from any branch. -/
def next (m : Move σ) : Option NodeId := m.before.world.graph.continuation m.node

/-- Where play went on. -/
def led (m : Move σ) : Option NodeId := m.after.live.current

end Move

/-- **Playing on**, by the moves `us`, without taking anything back. -/
inductive Told (g : Game σ) : List (Move σ) → Game σ → Prop
  | here : Told g [] g
  | answer {us : List (Move σ)} {g' : Game σ} (h : Told g us g') (answer : FutureId × Resolution) :
      Told g us (g'.answered answer)
  | waits {us : List (Move σ)} {g' g'' : Game σ} (h : Told g us g') {screen : Screen σ}
      {f : FutureId} (hn : Play.next screen g' = .ok (.suspended f) g'') : Told g us g''
  | adopts {us : List (Move σ)} {g' g'' : Game σ} (h : Told g us g') {screen : Screen σ}
      {o : Outcome} (hn : Play.next screen g' = .ok (.advanced o) g'') :
      Told g (us ++ [⟨g', o, g''⟩]) g''
  | ends {us : List (Move σ)} {g' g'' : Game σ} (h : Told g us g') {screen : Screen σ}
      (hn : Play.next screen g' = .ok .terminated g'') : Told g us g''

/-- Some next steps, without answers: the moves, and the game that they lead to. -/
def Game.tell (screen : Screen σ) (g : Game σ) : Nat → List (Move σ) × Game σ
  | 0 => ([], g)
  | n + 1 =>
    let r := g.tell screen n
    match Play.next screen r.2 with
    | .ok (.advanced o) g' => (r.1 ++ [⟨r.2, o, g'⟩], g')
    | .ok _ g' => (r.1, g')
    | .error _ _ => r

namespace Told

variable {d : Sheet} {g g' : Game σ} {us : List (Move σ)}

theorem playing (h : Told g us g') (hg : Playing d g) : Playing d g' := by
  induction h with
  | here => exact hg
  | answer _ answer ih => exact ih.answer answer
  | waits _ hn ih | adopts _ hn ih | ends _ hn ih => exact ih.next _ _ hn

theorem trans {g'' : Game σ} {vs : List (Move σ)} (h : Told g us g') (h' : Told g' vs g'') :
    Told g (us ++ vs) g'' := by
  induction h' with
  | here => exact (List.append_nil us).symm ▸ h
  | answer _ answer ih => exact ih.answer answer
  | waits _ hn ih => exact ih.waits hn
  | adopts _ hn ih => exact List.append_assoc us _ _ ▸ ih.adopts hn
  | ends _ hn ih => exact ih.ends hn

theorem split {us vs : List (Move σ)} {m : Move σ} (h : Told g (us ++ m :: vs) g') :
    ∃ screen, Told g us m.before ∧ Play.next screen m.before = .ok (.advanced m.outcome) m.after ∧
      Told m.after vs g' := by
  -- the moves before `m` are those of an earlier part of the same run
  generalize hms : us ++ m :: vs = ms at h
  induction h generalizing vs with
  | here => simp at hms
  | answer _ answer ih =>
    obtain ⟨screen, hbefore, hn, hafter⟩ := ih hms
    exact ⟨screen, hbefore, hn, hafter.answer answer⟩
  | waits _ hw ih =>
    obtain ⟨screen, hbefore, hn, hafter⟩ := ih hms
    exact ⟨screen, hbefore, hn, hafter.waits hw⟩
  | ends _ he ih =>
    obtain ⟨screen, hbefore, hn, hafter⟩ := ih hms
    exact ⟨screen, hbefore, hn, hafter.ends he⟩
  | @adopts ms g' g'' h screen o hn ih =>
    -- `m` is the last move, or one of the run before
    rcases List.eq_nil_or_concat vs with rfl | ⟨vs, m', rfl⟩
    · obtain ⟨rfl, hm⟩ := List.append_inj' hms rfl
      obtain ⟨rfl, -⟩ := List.cons.inj hm
      exact ⟨screen, h, hn, .here⟩
    · rw [List.concat_eq_append, ← List.cons_append, ← List.append_assoc] at hms
      obtain ⟨hms', hm⟩ := List.append_inj' hms rfl
      obtain ⟨rfl, -⟩ := List.cons.inj hm
      obtain ⟨screen', hbefore, hn', hafter⟩ := ih hms'
      exact ⟨screen', hbefore, hn', List.concat_eq_append ▸ hafter.adopts hn⟩

theorem stays (h : Told g us g') (hg : Playing d g) : Stays g g' := by
  induction h with
  | here => exact ⟨.refl _, rfl, rfl⟩
  | answer _ answer ih => exact ⟨ih.keeps, ih.story, ih.units⟩
  | waits h hn ih =>
    have hhalts := (h.playing hg).halts hn
    exact ⟨ih.keeps.trans hhalts.keeps, hhalts.story.trans ih.story, hhalts.units.trans ih.units⟩
  | adopts h hn ih =>
    have ha := (h.playing hg).advances hn
    exact ⟨ih.keeps.trans ha.keeps, ha.story.trans ih.story, ha.units.trans ih.units⟩
  | @ends us g' g'' h screen hn ih =>
    obtain ⟨-, -, rfl⟩ := Poised.ends hn
    exact ⟨ih.keeps, g'.live.story_aim.trans ih.story, g'.live.units_aim.trans ih.units⟩

theorem history (h : Told g us g') (hg : Playing d g) :
    g'.live.history.map (·.outcome) =
      (us.map (·.outcome)).reverse ++ g.live.history.map (·.outcome) := by
  induction h with
  | here => rfl
  | answer _ answer ih => exact ih
  | waits h hn ih => rw [((h.playing hg).halts hn).history, ih]
  | adopts h hn ih =>
    obtain ⟨c, hc⟩ := ((h.playing hg).advances hn).history
    rw [hc, List.map_cons, ih, List.map_append, List.reverse_append]
    rfl
  | @ends us g' g'' h screen hn ih =>
    obtain ⟨-, -, rfl⟩ := Poised.ends hn
    rw [← ih]
    exact congrArg _ g'.live.history_aim

theorem tell (screen : Screen σ) (g : Game σ) (n : Nat) :
    Told g (g.tell screen n).1 (g.tell screen n).2 := by
  induction n with
  | zero => exact .here
  | succ n ih =>
    simp only [Game.tell]
    cases hn : Play.next screen (g.tell screen n).2 with
    | error => exact ih
    | ok step g' =>
      cases step with
      | advanced o => exact ih.adopts hn
      | suspended => exact ih.waits hn
      | terminated => exact ih.ends hn

end Told

/-! ### A road with a fork -/

/-- On a road the same fork is met twice. Its branch runs another scene before its own last node. The
story goes on with a second unit, which it is given in a call of its own. -/
def forkCalls : List Call := [
  .scene "Road" {},
  .append ⟨1⟩ (.setBackground "river"),
  .append ⟨1⟩ (.setBackground "bridge"),
  .append ⟨1⟩ (.setBackground "town"),
  .append ⟨1⟩ (.setBackground "inn"),
  .sceneAction ⟨1⟩ [[⟨2⟩]],
  .condition,
  .when ⟨7⟩ (.constant true) [[⟨6⟩, ⟨3⟩]],
  .toAction .condition ⟨7⟩,
  .toAction .condition ⟨7⟩,
  .sceneAction ⟨1⟩ [[⟨8⟩, ⟨9⟩, ⟨4⟩]],
  .story "A road",
  .storyAction ⟨11⟩ [[⟨10⟩]],
  .storyAction ⟨11⟩ [[⟨5⟩]]]

/-- The world after the first calls. -/
def forkWorld (n : Nat) : World := World.new.callAll (forkCalls.take n)

/-- The lists that were given. -/
def forkSheet : Sheet where
  free := [⟨13⟩, ⟨12⟩]
  rows := [[⟨2⟩], [⟨6⟩, ⟨3⟩], [⟨8⟩, ⟨9⟩, ⟨4⟩], [⟨10⟩], [⟨5⟩]]

theorem sheeted_fork : Sheeted (forkWorld 14) forkSheet := by
  have h₁ : Sheeted (forkWorld 1) {} := Registered.new.plain (.scene "Road" {}) trivial
  have h₂ : Sheeted (forkWorld 2) { free := [⟨2⟩] } :=
    h₁.append ⟨1⟩ (.setBackground "river") [] rfl (ok_of_answer (by decide +kernel))
  have h₃ : Sheeted (forkWorld 3) { free := [⟨3⟩, ⟨2⟩] } :=
    h₂.append ⟨1⟩ (.setBackground "bridge") [] rfl (ok_of_answer (by decide +kernel))
  have h₄ : Sheeted (forkWorld 4) { free := [⟨4⟩, ⟨3⟩, ⟨2⟩] } :=
    h₃.append ⟨1⟩ (.setBackground "town") [] rfl (ok_of_answer (by decide +kernel))
  have h₅ : Sheeted (forkWorld 5) { free := [⟨5⟩, ⟨4⟩, ⟨3⟩, ⟨2⟩] } :=
    h₄.append ⟨1⟩ (.setBackground "inn") [] rfl (ok_of_answer (by decide +kernel))
  have h₆ : Sheeted (forkWorld 6) { free := [⟨6⟩, ⟨3⟩, ⟨5⟩, ⟨4⟩], rows := [[⟨2⟩]] } :=
    h₅.enters (.sceneAction ⟨1⟩ [[⟨2⟩]]) [⟨6⟩] (Sheet.Enters.composite rfl (by decide))
      (ok_of_answer (by decide +kernel))
  have h₇ : Sheeted (forkWorld 7) { free := [⟨6⟩, ⟨3⟩, ⟨5⟩, ⟨4⟩], rows := [[⟨2⟩]] } :=
    h₆.plain .condition trivial
  have h₈ : Sheeted (forkWorld 8) { free := [⟨5⟩, ⟨4⟩], rows := [[⟨2⟩], [⟨6⟩, ⟨3⟩]] } :=
    h₇.enters (.when ⟨7⟩ (.constant true) [[⟨6⟩, ⟨3⟩]]) [] (Sheet.Enters.branch rfl (.refl _))
      (ok_of_answer (by decide +kernel))
  have h₉ : Sheeted (forkWorld 9) { free := [⟨8⟩, ⟨5⟩, ⟨4⟩], rows := [[⟨2⟩], [⟨6⟩, ⟨3⟩]] } :=
    h₈.enters (.toAction .condition ⟨7⟩) [⟨8⟩] Sheet.Enters.toAction
      (ok_of_answer (by decide +kernel))
  have h₁₀ : Sheeted (forkWorld 10) { free := [⟨9⟩, ⟨8⟩, ⟨5⟩, ⟨4⟩], rows := [[⟨2⟩], [⟨6⟩, ⟨3⟩]] } :=
    h₉.enters (.toAction .condition ⟨7⟩) [⟨9⟩] Sheet.Enters.toAction
      (ok_of_answer (by decide +kernel))
  have h₁₁ : Sheeted (forkWorld 11)
      { free := [⟨10⟩, ⟨5⟩], rows := [[⟨2⟩], [⟨6⟩, ⟨3⟩], [⟨8⟩, ⟨9⟩, ⟨4⟩]] } :=
    h₁₀.enters (.sceneAction ⟨1⟩ [[⟨8⟩, ⟨9⟩, ⟨4⟩]]) [⟨10⟩] (Sheet.Enters.composite rfl (by decide))
      (ok_of_answer (by decide +kernel))
  have h₁₂ : Sheeted (forkWorld 12)
      { free := [⟨10⟩, ⟨5⟩], rows := [[⟨2⟩], [⟨6⟩, ⟨3⟩], [⟨8⟩, ⟨9⟩, ⟨4⟩]] } :=
    h₁₁.plain (.story "A road") trivial
  have h₁₃ : Sheeted (forkWorld 13)
      { free := [⟨12⟩, ⟨5⟩], rows := [[⟨2⟩], [⟨6⟩, ⟨3⟩], [⟨8⟩, ⟨9⟩, ⟨4⟩], [⟨10⟩]] } :=
    h₁₂.enters (.storyAction ⟨11⟩ [[⟨10⟩]]) [⟨12⟩] (Sheet.Enters.composite rfl (.refl _))
      (ok_of_answer (by decide +kernel))
  exact h₁₃.enters (.storyAction ⟨11⟩ [[⟨5⟩]]) [⟨13⟩] (Sheet.Enters.composite rfl (by decide))
    (ok_of_answer (by decide +kernel))

/-- The game before its first step. -/
def forkGame : Game Headless where
  config := {}
  live := { story := some ⟨11⟩, units := [⟨10⟩, ⟨5⟩] }
  stage := { world := forkWorld 14, store := {}, futures := {}, screen := {} }

theorem playing_fork : Playing forkSheet forkGame :=
  .start sheeted_fork (by decide +kernel) rfl rfl rfl

end Storyline
