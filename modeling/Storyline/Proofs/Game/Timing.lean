import Storyline.Proofs.Game.Paced
import Storyline.Proofs.Game.Stray
import Storyline.Stage.Headless

/-!
# When answers come does not matter

* `Screen.mute`: a screen that answers nothing, so that steps wait until the host answers;
* `Paced.answered`: a step that waits can be given the answer of the script at any time;
* `Game.taking`, `Paced.takes`: the next step after that takes the outcome over;
* `Paced.catchUp`: a game that has shown less than another goes on until it has shown as much;
* `SameStory.paced`: two runs from a new game show the same, wherever they have come, and neither
  comes to a halt before the other. A next step that waits on changes nothing, and answers that
  nobody waits for change nothing that comes later.
-/

namespace Storyline

open Effect

variable {σ τ : Type}

/-! ### A screen that answers nothing -/

/-- A screen that takes no notice of what it is told. -/
def Screen.mute : Screen σ where
  receive _ s := (s, [])

/-- A game beside itself, in which nothing was answered since there were `n` futures. -/
def Link.unanswered (σ : Type) (n : Nat) : Link σ σ where
  rel fs _ _ _ := n ≤ fs.cells.size ∧ ∀ f : FutureId, n ≤ f.val → fs.result? f = none
  names f _ := n ≤ f.val

theorem Futures.result?_add_of_none {fs : Futures} {f : FutureId} (h : fs.result? f = none)
    (receive : Resolution → Outcome) : (fs.add receive).2.result? f = none := by
  unfold Futures.result? Futures.get? Futures.add at *
  simp only [Array.getElem?_push]
  split
  · rfl
  · exact h

theorem Link.lawful_unanswered (σ : Type) (n : Nat) :
    (Link.unanswered σ n).Lawful Screen.mute Screen.mute where
  future {s t} h receive := by
    obtain ⟨hsize, hnone⟩ := h.rest
    refine ⟨hsize, h.world, h.store, ?_, fun f hf => Futures.result?_add_of_none (hnone f hf) receive⟩
    simp only [Futures.add, Array.size_push]
    omega
  tell h _ := ⟨h.world, h.store, h.rest⟩
  ask h _ _ _ _ := ⟨h.world, h.store, h.rest⟩

/-- A step that is begun on a mute screen is not answered yet. -/
theorem Play.answeredBy_next_mute {g : Game σ} (hstory : g.live.pending.isSome → g.live.story.isSome)
    (hw : ¬ g.Waits) (r : Resolution) : (left (Play.next Screen.mute g)).AnsweredBy r := by
  cases hp : g.live.pending with
  | some p =>
    -- The wait is over, and nothing waits behind it.
    rw [Play.next_of_pending (hstory (by rw [hp]; rfl)) hp]
    cases ho : g.stage.futures.result? p.future with
    | none => exact absurd ⟨p, hp, ho⟩ hw
    | some o => exact Game.answeredBy_of_none (Play.left_resume p o g).1 r
  | none =>
    let n := g.stage.futures.cells.size
    have hself : (Link.unanswered σ n).Games g g := by
      refine ⟨⟨rfl, rfl, Nat.le_refl _, fun f hf => ?_⟩, rfl, fun p q hq => ?_⟩
      · unfold Futures.result? Futures.get?
        rw [Array.getElem?_eq_none hf]
        rfl
      · rw [hp] at hq
        cases hq
    have hnext := (Play.agree_next (Link.lawful_unanswered σ n) hself fun p q hq => by
      rw [hp] at hq
      cases hq).left
    intro p a o hq _ ho
    have hlate : n ≤ p.future.val := hnext.pending p p hq hq
    rw [hnext.stage.rest.2 p.future hlate] at ho
    cases ho

/-! ### Being answered -/

/-- What it shows to take an outcome over: the pick of a menu has to be grafted in first. -/
def Game.taking (g : Game σ) (o : Outcome) : Sign :=
  match o.choice with
  | none => .advanced o
  | some index =>
    match Build.choose o.node index g.world with
    | .ok .. => .advanced o
    | .error e _ => .failed e

theorem Play.sign_resume (p : Pending) (o : Outcome) (g : Game σ) :
    Sign.of (Play.resume p o g) = g.taking o := by
  unfold Game.taking
  cases hc : o.choice with
  | none => rw [Play.resume_of_choose (w := g.world) (by rw [hc]), Sign.of]
  | some index =>
    simp only
    cases hb : Build.choose o.node index g.world with
    | ok u w => rw [Play.resume_of_choose (w := w) (by rw [hc]; exact hb), Sign.of]
    | error e w =>
      have hbuild : Play.build (Build.choose o.node index)
          { g with live := { g.live with pending := none } } = .error e (g.awaited w) :=
        Play.build_of_error hb
      unfold Play.resume
      rw [Play.bind_modifyLive_apply, hc]
      simp only
      rw [bind_of_error hbuild, Sign.of]

namespace Paced

variable {script : Nat → Resolution} {first g : Game σ} {first' h : Game τ} {past newer : List Sign}
  {p : Pending} {picks picks' : List NodeId}

/-- **A step that waits can be answered** as the script says, now as well as later. -/
theorem answered (hp : Paced script first past g) (hg : g.live.pending = some p)
    (hasks : p.Asking g) (hnone : g.stage.futures.result? p.future = none) :
    Paced script first past (g.answered (p.future, script (Sign.begins past))) ∧
      ¬ (g.answered (p.future, script (Sign.begins past))).Waits := by
  obtain ⟨a, ha, -, hasks⟩ := hasks
  have hresult := hasks.answer hnone (script (Sign.begins past))
  refine ⟨hp.answer _ (Game.answeredBy_of hg ha fun o ho => ?_), Game.not_waits_of_result hg ?_⟩
  · exact Option.some_inj.1 (ho.symm.trans hresult)
  · exact Option.isSome_iff_exists.2 ⟨_, hresult⟩

/-- **A step that was answered is taken over by the next step**, on any screen. -/
theorem takes (hp : Paced script first past g) (hf : first.live.pending = none) {a : Action}
    (hg : g.live.pending = some p) (ha : g.world.action? p.node = some a) (hw : ¬ g.Waits)
    (screen : Screen σ) :
    Sign.of (Play.next screen g) = g.taking (a.receive (script (Sign.begins past))) := by
  have hstory := hp.story hf (by rw [hg]; rfl)
  rw [Play.next_of_pending hstory hg, Game.result?_of_answeredBy hw (hp.answeredBy hf) hg ha]
  exact Play.sign_resume p _ g

theorem ready (hp : Paced script first past g) (hexp : Expectant first picks) :
    ∃ k, Paced script first past k ∧ ¬ k.Waits ∧ k.Alike g := by
  by_cases hw : g.Waits
  · obtain ⟨p, hg, hnone⟩ := hw
    obtain ⟨picks, hexp'⟩ := hp.expectant hexp
    obtain ⟨hk, hkw⟩ := hp.answered hg (hexp'.waits p hg) hnone
    exact ⟨_, hk, hkw, .of_eq rfl rfl rfl⟩
  · exact ⟨g, hp, hw, .of_eq rfl rfl rfl⟩

/-- **A game that has shown less than another goes on**: the answers of the script, as soon as steps
wait for them, and next steps lead on until it has shown as much. -/
theorem catchUp (hexp : Expectant first picks) (hf : first.live.pending = none)
    (hf' : first'.live.pending = none) (halike : first.Alike first')
    (hg : Paced script first past g) (hh : Paced script first' (newer ++ past) h) :
    ∃ k, Paced (rest script past) g newer k ∧ k.Alike h := by
  induction newer generalizing h with
  | nil => exact ⟨g, .first, (agree hexp hf hf' halike hg hh).2 rfl⟩
  | cons s newer ih =>
    -- The other game had shown the rest when it took the step that shows the last sign.
    obtain ⟨h₁, screen, hh₁, hw₁, rfl, hlast⟩ := hh.shown (show _ = [] ++ s :: (newer ++ past) from rfl)
    obtain ⟨g₁, hg₁, hstand₁⟩ := ih hh₁
    -- As much was shown now, and both are ready for the same step.
    obtain ⟨picks₁, hexp₁⟩ := hg.expectant hexp
    obtain ⟨k, hk, hkw, hback⟩ := hg₁.ready hexp₁
    have hpaced := hg.append hk
    obtain ⟨picks₂, hexp₂⟩ := hpaced.expectant hexp
    obtain ⟨hsign, hafter⟩ := (hback.trans hstand₁).next hexp₂.waits hkw hw₁ (hpaced.answeredBy hf)
      (hh₁.answeredBy hf') Screen.mute screen
    refine ⟨left (Play.next Screen.mute k), ?_, hafter.trans (hlast rfl)⟩
    rw [hsign]
    exact hk.next hkw Screen.mute (Play.answeredBy_next_mute (hpaced.story hf) hkw _)

end Paced

/-! ### New games of one story -/

/-- Two games of one story, in the same world and with the same store. What was played in them before,
their futures and their screens may be any. -/
structure Game.SameStory (g : Game σ) (h : Game τ) : Prop where
  world : h.world = g.world
  store : h.store = g.store
  story : h.live.story = g.live.story
  units : h.live.units = g.live.units
  namespaces : h.live.namespaces = g.live.namespaces

theorem Game.SameStory.alike {g : Game σ} {h : Game τ} (hs : g.SameStory h) (now now' : Instant) :
    (g.newGame now).Alike (h.newGame now') :=
  Link.Games.restart ⟨hs.world, hs.store, trivial⟩ hs.story hs.units hs.namespaces now now'

theorem Game.SameStory.symm {g : Game σ} {h : Game τ} (hs : g.SameStory h) : h.SameStory g :=
  ⟨hs.world.symm, hs.store.symm, hs.story.symm, hs.units.symm, hs.namespaces.symm⟩

/-- What all games keep is kept by a new game of the same story. -/
theorem Game.SameStory.expectant {g : Game σ} {h : Game τ} {picks : List NodeId}
    (hs : g.SameStory h) (hg : Expectant g picks) (now : Instant) :
    Expectant (h.newGame now) picks where
  sound := hs.world ▸ hg.sound
  chained := hs.world ▸ hg.chained
  unpicked := by
    show ∀ n a, h.world.action? n = some a → a.kind = .menu → n ∉ picks →
      h.world.graph.resumes[n]? = none
    rw [hs.world]
    exact hg.unpicked
  waits := Expectant.waits_of_none rfl

/-- **When futures are answered does not matter, only with what.** Two runs from new games of one story,
on any screens, in which each step that waits is given the same answer, at once or at any later time:

* what the one shows comes first in what the other shows. When both have shown as much, history, current
  node, world and store are the same, and when both have come to the end, all outcomes are;
* the one that has shown less goes on until it has shown as much: a step that waits can be answered, and
  one that was answered is taken over by the next step on any screen, if its pick can be grafted in;
* a next step that waits on changes nothing, and nothing later depends on answers of futures that the game
  does not wait for. -/
theorem Game.SameStory.paced {g : Game σ} {h : Game τ} {picks : List NodeId} (hs : g.SameStory h)
    (hp : Played g picks) (script : Nat → Resolution) (now now' : Instant) :
    (∀ past g' past' h', Paced script (g.newGame now) past g' →
      Paced script (h.newGame now') past' h' →
      (past <:+ past' ∨ past' <:+ past) ∧
        (∀ newer, past' = newer ++ past → ∃ k, Paced (Paced.rest script past) g' newer k ∧ k.Alike h') ∧
        (∀ newer, past = newer ++ past' → ∃ k, Paced (Paced.rest script past') h' newer k ∧ k.Alike g') ∧
        (.terminated ∈ past → .terminated ∈ past' → Sign.outcomes past' = Sign.outcomes past) ∧
        (Sign.Rested past → Sign.Rested past' →
          (Sign.outcomes past').length = (Sign.outcomes past).length →
          Sign.outcomes past' = Sign.outcomes past ∧ h'.live.history = g'.live.history ∧
            h'.live.current = g'.live.current ∧ h'.world = g'.world ∧ h'.store = g'.store)) ∧
      (∀ past g' p, Paced script (g.newGame now) past g' → g'.live.pending = some p →
        ∃ a, g'.world.action? p.node = some a ∧
          (g'.stage.futures.result? p.future = none →
            Paced script (g.newGame now) past (g'.answered (p.future, script (Sign.begins past))) ∧
              ∀ screen, Sign.of (Play.next screen
                (g'.answered (p.future, script (Sign.begins past)))) =
                  g'.taking (a.receive (script (Sign.begins past)))) ∧
          ((g'.stage.futures.result? p.future).isSome →
            ∀ screen, Sign.of (Play.next screen g') =
              g'.taking (a.receive (script (Sign.begins past))))) ∧
      (∀ (k : Game σ) p screen, k.live.story.isSome → k.live.pending = some p →
        k.stage.futures.result? p.future = none →
        Play.next screen k = .ok (.suspended p.future) k) ∧
      ∀ (k : Game σ) f, (∀ p, k.live.pending = some p → p.future ≠ f) → ∀ r calls,
        (k.answered (f, r)).status = k.status ∧
          replies calls (k.answered (f, r)) = replies calls k := by
  have hexp := (hp.newGame now).expectant
  have hexp' := hs.expectant hp.expectant now'
  refine ⟨fun past g' past' h' hg hh => ?_, fun past g' p hg hpend => ?_,
    fun k p screen hstory hpend hf => ?_, fun k f hf r calls => replies_stray hf r calls⟩
  · -- two runs of one script: all they show follows from their agreement
    obtain ⟨hshown, hstand⟩ := Paced.agree hexp rfl rfl (hs.alike now now') hg hh
    refine ⟨hshown, fun newer he => ?_, fun newer he => ?_, fun hend hend' => ?_,
      fun hrest hrest' hlength => ?_⟩
    · exact Paced.catchUp hexp rfl rfl (hs.alike now now') hg (he ▸ hh)
    · exact Paced.catchUp hexp' rfl rfl (hs.symm.alike now' now) hh (he ▸ hg)
    · rcases hshown with ⟨newer, he⟩ | ⟨newer, he⟩
      · exact hh.outcomes_of_ended he.symm hend
      · exact (hg.outcomes_of_ended he.symm hend').symm
    · obtain rfl : past = past' := hshown.elim (Sign.eq_of_suffix · hrest' hlength)
        (fun hshort => (Sign.eq_of_suffix hshort hrest hlength.symm).symm)
      have halike := hstand rfl
      exact ⟨rfl, Live.history_of_bare halike.live, Live.current_of_bare halike.live, halike.world,
        halike.stage.store⟩
  · -- what one run waits for, and what the next step makes of the answer
    obtain ⟨picks', hexp₁⟩ := hg.expectant hexp
    obtain ⟨a, ha, hserves, hasks⟩ := hexp₁.waits p hpend
    refine ⟨a, ha, fun hnone => ?_, fun hsome screen => ?_⟩
    · obtain ⟨hanswered, hready⟩ := hg.answered hpend ⟨a, ha, hserves, hasks⟩ hnone
      exact ⟨hanswered, fun screen => hanswered.takes rfl hpend ha hready screen⟩
    · exact hg.takes rfl hpend ha (Game.not_waits_of_result hpend hsome) screen
  · rw [Play.next_of_pending hstory hpend, hf]

/-! ### At the crossroads -/

/-- The crossroads, on a screen that answers at once. -/
def crossroadsAtOnce : Game Headless where
  config := {}
  live := crossroads.live
  stage := { world := crossroads.world, store := {}, futures := {}, screen := {} }

/-- At the crossroads the traveller turns off, and reads on then. -/
def turnsOff (n : Nat) : Resolution := if n = 1 then .choose 0 else .proceed

/-- One traveller waits before turning off and again at the next line, the other is answered at once and
has read the line. The first one reads it too as soon as it is answered. -/
theorem paced_crossroads :
    ∃ past g past' h, Paced turnsOff (crossroads.newGame default) past g ∧
      Paced turnsOff (crossroadsAtOnce.newGame default) past' h ∧
      Sign.outcomes past = [⟨"menu:action", ⟨6⟩, some 0⟩] ∧
      past' = .advanced ⟨"character:say", ⟨4⟩, none⟩ :: past ∧
      (∃ k, Paced (Paced.rest turnsOff past) g [.advanced ⟨"character:say", ⟨4⟩, none⟩] k ∧
        k.Alike h) ∧
      ∀ screen, Sign.of (Play.next screen (g.answered (⟨1⟩, .proceed))) =
        .advanced ⟨"character:say", ⟨4⟩, none⟩ := by
  have hsame : crossroads.SameStory crossroadsAtOnce := ⟨rfl, rfl, rfl, rfl, rfl⟩
  have hplayed : Played crossroads [] := .start (World.Authored.new.callAll _) rfl
  have hmenu : ∀ {ρ : Type} {k : Game ρ} {n : Nat}, n = 1 →
      k.live.pending = some ⟨⟨6⟩, ⟨0⟩, ⟨3⟩, 0⟩ →
      k.world.action? ⟨6⟩ = some ⟨⟨6⟩, ⟨3⟩, .menu⟩ →
      (∀ o ∈ k.stage.futures.result? ⟨0⟩, o = ⟨"menu:action", ⟨6⟩, some 0⟩) →
      k.AnsweredBy (turnsOff n) := by
    rintro ρ k n rfl hp ha ho
    exact Game.answeredBy_of hp ha ho
  have hline : ∀ {ρ : Type} {k : Game ρ} {n : Nat}, k.live.pending = some ⟨⟨4⟩, ⟨1⟩, ⟨1⟩, 0⟩ →
      k.world.action? ⟨4⟩ = some ⟨⟨4⟩, ⟨1⟩, .say (.plain "the wood")⟩ →
      (∀ o ∈ k.stage.futures.result? ⟨1⟩, o = ⟨"character:say", ⟨4⟩, none⟩) →
      k.AnsweredBy (turnsOff n) := fun hp ha ho => Game.answeredBy_of hp ha ho
  -- One waits on, is answered then, and comes to the line.
  have hlater : Paced turnsOff (crossroads.newGame default) [] _ := .first
  have hasked := hlater.next (Game.not_waits_of_none rfl) Recorder.screen
    (hmenu (by decide +kernel) (by decide +kernel) (by decide +kernel) (by decide +kernel))
  have hwaited := (hasked.wait ⟨⟨⟨6⟩, ⟨0⟩, ⟨3⟩, 0⟩, by decide +kernel, by decide +kernel⟩
    Recorder.screen).answer (⟨0⟩, .choose 0)
    (hmenu (by decide +kernel) (by decide +kernel) (by decide +kernel) (by decide +kernel))
  have hturned := hwaited.next
    (Game.not_waits_of_result (p := ⟨⟨6⟩, ⟨0⟩, ⟨3⟩, 0⟩) (by decide +kernel) (by decide +kernel))
    Recorder.screen (Game.answeredBy_of_none (by decide +kernel) _)
  have hlate := hturned.next (Game.not_waits_of_none (by decide +kernel)) Recorder.screen
    (hline (by decide +kernel) (by decide +kernel) (by decide +kernel))
  -- The other is answered when it asks.
  have hnow : Paced turnsOff (crossroadsAtOnce.newGame default) [] _ := .first
  have hchosen := hnow.next (Game.not_waits_of_none rfl) Headless.screen
    (hmenu (by decide +kernel) (by decide +kernel) (by decide +kernel) (by decide +kernel))
  have hgone := hchosen.next
    (Game.not_waits_of_result (p := ⟨⟨6⟩, ⟨0⟩, ⟨3⟩, 0⟩) (by decide +kernel) (by decide +kernel))
    Headless.screen (Game.answeredBy_of_none (by decide +kernel) _)
  have hread := hgone.next (Game.not_waits_of_none (by decide +kernel)) Headless.screen
    (hline (by decide +kernel) (by decide +kernel) (by decide +kernel))
  have hsoon := hread.next
    (Game.not_waits_of_result (p := ⟨⟨4⟩, ⟨1⟩, ⟨1⟩, 0⟩) (by decide +kernel) (by decide +kernel))
    Headless.screen (Game.answeredBy_of_none (by decide +kernel) _)
  obtain ⟨hruns, hwaits, -⟩ := hsame.paced hplayed turnsOff default default
  obtain ⟨-, hcatch, -⟩ := hruns _ _ _ _ hlate hsoon
  obtain ⟨a, ha, hanswer, -⟩ := hwaits _ _ ⟨⟨4⟩, ⟨1⟩, ⟨1⟩, 0⟩ hlate (by decide +kernel)
  obtain ⟨-, hadopts⟩ := hanswer (by decide +kernel)
  have hscript (past : List Sign) (h : Sign.begins past = 2) :
      turnsOff (Sign.begins past) = .proceed := by
    rw [h]
    rfl
  rw [hscript] at hadopts
  · refine ⟨_, _, _, _, hlate, hsoon, by decide +kernel, by decide +kernel,
      hcatch [.advanced ⟨"character:say", ⟨4⟩, none⟩] (by decide +kernel), fun screen => ?_⟩
    obtain rfl : a = ⟨⟨4⟩, ⟨1⟩, .say (.plain "the wood")⟩ :=
      Option.some_inj.1 (ha.symm.trans (by decide +kernel))
    exact (hadopts screen).trans (by decide +kernel)
  · decide +kernel

end Storyline
