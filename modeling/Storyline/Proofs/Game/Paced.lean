import Storyline.Proofs.Game.Handled
import Storyline.Proofs.Game.Linked
import Storyline.Proofs.Game.Picked

/-!
# Play that is paced by answers

* `Sign`: what a next step shows of the course of play, whether or not it succeeds; waiting on shows
  nothing;
* `Paced script first past g`: next steps and answers lead from the game `first` to `g`, on any screens,
  and have shown `past`; each step that waits is answered as the script says, at once or at any later
  time, or not yet;
* `Paced.agree`: two games of one story, paced in their own ways by one script, show the same and stand
  alike wherever they have shown as much;
* `Paced.append`: what was paced is continued by what is left of the script.
-/

namespace Storyline

open Effect

variable {σ τ : Type}

/-! ### What is shown -/

/-- What a next step shows of the course of play. -/
inductive Sign where
  | advanced (o : Outcome)
  /-- A step was begun that waits. -/
  | begun
  | terminated
  | failed (e : GameError)
deriving DecidableEq

namespace Sign

def of : EStateM.Result GameError (Game σ) Step → Sign
  | .ok (.advanced o) _ => advanced o
  | .ok (.suspended _) _ => begun
  | .ok .terminated _ => terminated
  | .error e _ => failed e

def outcome? : Sign → Option Outcome
  | advanced o => some o
  | _ => none

def isBegun : Sign → Bool
  | begun => true
  | _ => false

/-- The outcomes that were taken over, in the order of the signs. -/
def outcomes (past : List Sign) : List Outcome := past.filterMap outcome?

/-- How many steps were begun that wait. -/
def begins (past : List Sign) : Nat := past.countP isBegun

/-- Nothing was shown since the last outcome was taken over. -/
def Rested (past : List Sign) : Prop := ∀ s ∈ past.head?, s.outcome?.isSome

/-- Nothing more can have been shown with no more outcomes, up to the last of them. -/
theorem eq_of_suffix {past past' : List Sign} (h : past <:+ past') (hr : Rested past')
    (hn : (outcomes past').length = (outcomes past).length) : past = past' := by
  obtain ⟨newer, rfl⟩ := h
  cases newer with
  | nil => rfl
  | cons s newer =>
    have hs := hr s (by simp)
    obtain ⟨o, ho⟩ := Option.isSome_iff_exists.1 hs
    unfold outcomes at hn
    rw [List.cons_append, List.filterMap_cons_some ho, List.filterMap_append] at hn
    simp only [List.length_cons, List.length_append] at hn
    omega

end Sign

/-! ### Waiting and being answered -/

/-- There is no unit behind the last one, however often play aims at it. -/
theorem Live.current_aim_of_ended {l : Live} (h : l.aim.current = none) :
    ({ l.aim with terminated := true } : Live).aim.current = none := by
  have hnone : l.current = none := by
    unfold Live.aim at h
    cases hc : l.current with
    | none => rfl
    | some n =>
      rw [hc] at h
      exact absurd (hc.symm.trans h) nofun
  have hunit : l.units[if l.started then l.unit + 1 else 0]? = none := by
    unfold Live.aim Live.nextUnit at h
    rw [hnone] at h
    cases hu : l.units[if l.started then l.unit + 1 else 0]? with
    | none => rfl
    | some n =>
      simp only [hu, Option.isNone_none, if_true] at h
      cases h
  have hlast : l.units[l.unit + 1]? = none := by
    rw [List.getElem?_eq_none_iff] at hunit ⊢
    split at hunit <;> omega
  unfold Live.aim Live.nextUnit
  simp [hnone, hunit, hlast]

namespace Game

/-- A step waits and was not answered yet. -/
def Waits (g : Game σ) : Prop :=
  ∃ p, g.live.pending = some p ∧ g.stage.futures.result? p.future = none

/-- If the step that waits was answered, then so. -/
def AnsweredBy (g : Game σ) (r : Resolution) : Prop :=
  ∀ p a o, g.live.pending = some p → g.world.action? p.node = some a →
    g.stage.futures.result? p.future = some o → o = a.receive r

theorem not_waits_of_none {g : Game σ} (hp : g.live.pending = none) : ¬ g.Waits := by
  rintro ⟨p, hq, -⟩
  rw [hp] at hq
  cases hq

theorem not_waits_of_result {g : Game σ} {p : Pending} (hp : g.live.pending = some p)
    (hf : (g.stage.futures.result? p.future).isSome) : ¬ g.Waits := by
  rintro ⟨q, hq, hnone⟩
  obtain rfl := Option.some_inj.1 (hp.symm.trans hq)
  rw [hnone] at hf
  cases hf

theorem answeredBy_of_none {g : Game σ} (hp : g.live.pending = none) (r : Resolution) :
    g.AnsweredBy r := by
  intro p a o hq
  rw [hp] at hq
  cases hq

theorem answeredBy_of {g : Game σ} {r : Resolution} {p : Pending} {a : Action}
    (hp : g.live.pending = some p) (ha : g.world.action? p.node = some a)
    (hf : ∀ o ∈ g.stage.futures.result? p.future, o = a.receive r) : g.AnsweredBy r := by
  intro q b o hq hb ho
  obtain rfl := Option.some_inj.1 (hp.symm.trans hq)
  obtain rfl := Option.some_inj.1 (ha.symm.trans hb)
  exact hf o ho

theorem result?_of_answeredBy {g : Game σ} {r : Resolution} {p : Pending} {a : Action}
    (hw : ¬ g.Waits) (hr : g.AnsweredBy r) (hp : g.live.pending = some p)
    (ha : g.world.action? p.node = some a) :
    g.stage.futures.result? p.future = some (a.receive r) := by
  cases ho : g.stage.futures.result? p.future with
  | none => exact absurd ⟨p, hp, ho⟩ hw
  | some o => rw [hr p a o hp ha ho]

/-- The story has come to its end. -/
def Ended (g : Game σ) : Prop :=
  g.live.story.isSome ∧ g.live.pending = none ∧ g.live.aim.current = none

theorem Ended.next {g : Game σ} (h : g.Ended) (screen : Screen σ) :
    Sign.of (Play.next screen g) = .terminated ∧ (left (Play.next screen g)).Ended := by
  obtain ⟨hstory, hpend, haim⟩ := h
  rw [Play.next_of_idle hstory hpend, haim]
  refine ⟨rfl, ?_, (Live.pending_aim _).trans hpend, Live.current_aim_of_ended haim⟩
  have hsome : g.live.aim.story.isSome := by rw [Live.story_aim]; exact hstory
  exact hsome

theorem ended_of_sign {g : Game σ} {screen : Screen σ}
    (h : Sign.of (Play.next screen g) = .terminated) : (left (Play.next screen g)).Ended := by
  suffices hg : g.Ended from (hg.next screen).2
  cases hx : Play.next screen g with
  | error e g' =>
    rw [hx] at h
    cases h
  | ok step g' =>
    rw [hx] at h
    have hstory := Play.next_eq_ok_story hx
    cases step with
    | advanced o | suspended f => cases h
    | terminated =>
      cases Play.moved_of_next hx with
      | ends hp =>
        refine ⟨hstory, hp, ?_⟩
        rw [Play.next_of_idle hstory hp] at hx
        cases haim : g.live.aim.current with
        | none => rfl
        | some node =>
          rw [haim] at hx
          obtain ⟨a, r, s, -, -, hstep⟩ := Play.execute_eq_ok hx
          cases r <;> cases hstep.1

end Game

/-- Play comes from one game to another by next steps, on any screens, and by answers at any time. The
signs are kept last first. The answer to the `n`-th step that waits is `script n`. -/
inductive Paced (script : Nat → Resolution) (first : Game σ) : List Sign → Game σ → Prop
  | first : Paced script first [] first
  /-- A next step that waits on. -/
  | wait {past : List Sign} {g : Game σ} (h : Paced script first past g) (hw : g.Waits)
      (screen : Screen σ) : Paced script first past (left (Play.next screen g))
  | next {past : List Sign} {g : Game σ} (h : Paced script first past g) (hw : ¬ g.Waits)
      (screen : Screen σ)
      (hs : (left (Play.next screen g)).AnsweredBy
        (script (Sign.begins (.of (Play.next screen g) :: past)))) :
      Paced script first (.of (Play.next screen g) :: past) (left (Play.next screen g))
  | answer {past : List Sign} {g : Game σ} (h : Paced script first past g)
      (answer : FutureId × Resolution) (hs : (g.answered answer).AnsweredBy (script (Sign.begins past))) :
      Paced script first past (g.answered answer)

/-! ### Two games that are paced -/

/-- Two games that stand alike: in the same world, with the same store, history and current node. Their
futures and screens may be any. -/
abbrev Game.Alike (g : Game σ) (h : Game τ) : Prop :=
  Link.Games (⟨fun _ _ _ _ => True, fun _ _ => True⟩ : Link σ τ) g h

namespace Game.Alike

variable {g : Game σ} {h : Game τ}

theorem lawful (a : Screen σ) (b : Screen τ) :
    (⟨fun _ _ _ _ => True, fun _ _ => True⟩ : Link σ τ).Lawful a b :=
  ⟨fun hs _ => ⟨trivial, hs.world, hs.store, trivial⟩, fun hs _ => ⟨hs.world, hs.store, trivial⟩,
    fun hs _ _ _ _ => ⟨hs.world, hs.store, trivial⟩⟩

theorem of_eq {g g' : Game σ} (hw : g'.world = g.world) (hs : g'.store = g.store)
    (hl : g'.live = g.live) : g.Alike g' :=
  ⟨⟨hw, hs, trivial⟩, by rw [hl], fun _ _ _ _ => trivial⟩

theorem trans {ρ : Type} {k : Game ρ} (h₁ : g.Alike h) (h₂ : h.Alike k) : g.Alike k :=
  ⟨⟨h₂.stage.world.trans h₁.stage.world, h₂.stage.store.trans h₁.stage.store, trivial⟩,
    h₂.live.trans h₁.live, fun _ _ _ _ => trivial⟩

/-- Two games that stand alike and do not wait any longer go on alike, if the step that waits was
answered in both in one way. -/
theorem next (hg : g.Alike h) {r : Resolution} (hasks : ∀ p, g.live.pending = some p → p.Asking g)
    (hgw : ¬ g.Waits) (hhw : ¬ h.Waits) (hga : g.AnsweredBy r) (hha : h.AnsweredBy r)
    (a : Screen σ) (b : Screen τ) :
    Sign.of (Play.next b h) = Sign.of (Play.next a g) ∧
      (left (Play.next a g)).Alike (left (Play.next b h)) := by
  -- the prompt is about the same action in both games, so that one resolution answers both alike
  have hnext := Play.agree_next (lawful a b) hg fun p q hp hq => by
    obtain ⟨action, haction, -⟩ := hasks p hp
    obtain ⟨q', hq', hnode, -⟩ := Live.pending_of_bare hg.live hp
    obtain rfl := Option.some_inj.1 (hq'.symm.trans hq)
    rw [Game.result?_of_answeredBy hgw hga hp haction,
      Game.result?_of_answeredBy hhw hha hq (by rw [hg.world, hnode, haction])]
  refine ⟨?_, hnext.left⟩
  -- steps of different kinds are excluded by their agreement
  cases hx : Play.next a g with
  | error e g' =>
    cases hy : Play.next b h with
    | error e' h' =>
      rw [hx, hy] at hnext
      exact congrArg Sign.failed hnext.1
    | ok step' h' =>
      rw [hx, hy] at hnext
      exact hnext.elim
  | ok step g' =>
    cases hy : Play.next b h with
    | error e' h' =>
      rw [hx, hy] at hnext
      exact hnext.elim
    | ok step' h' =>
      rw [hx, hy] at hnext
      obtain ⟨hsteps, -⟩ := hnext
      cases step <;> cases step' <;> first | exact hsteps.elim | rfl | exact congrArg Sign.advanced hsteps

end Game.Alike

namespace Paced

variable {script : Nat → Resolution} {first g : Game σ} {first' h : Game τ} {past past' : List Sign}

theorem left_next_of_waits (hw : g.Waits) (screen : Screen σ) : left (Play.next screen g) = g := by
  obtain ⟨p, hp, hf⟩ := hw
  cases hs : g.live.story with
  | none => rw [Play.next_of_no_story hs]; rfl
  | some story =>
    rw [Play.next_of_pending (by rw [hs]; rfl) hp, hf]
    rfl

theorem expectant (hp : Paced script first past g) {picks : List NodeId}
    (hf : Expectant first picks) : ∃ picks, Expectant g picks := by
  induction hp with
  | first => exact ⟨picks, hf⟩
  | wait _ _ screen ih | next _ _ screen _ ih =>
    obtain ⟨picks, ih⟩ := ih
    exact ⟨_, ih.next screen⟩
  | answer _ answer _ ih =>
    obtain ⟨picks, ih⟩ := ih
    exact ⟨_, ih.answer answer⟩

theorem story (hp : Paced script first past g) (hf : first.live.pending = none)
    (hg : g.live.pending.isSome) : g.live.story.isSome := by
  induction hp with
  | first =>
    rw [hf] at hg
    cases hg
  | wait _ hw screen ih =>
    rw [left_next_of_waits hw] at hg ⊢
    exact ih hg
  | @next past g _ _ screen _ ih =>
    cases hs : g.live.story with
    | none =>
      rw [Play.next_of_no_story hs] at hg ⊢
      exact ih hg
    | some story =>
      rw [(Play.nexts_left_next screen g).story, hs]
      rfl
  | answer _ _ _ ih => exact ih hg

/-- The part of a script that is left when something was shown. -/
def rest (script : Nat → Resolution) (past : List Sign) : Nat → Resolution :=
  fun n => script (n + Sign.begins past)

/-- Play that was paced may be continued by what is left of the script. -/
theorem append {newer : List Sign} {k : Game σ} (hp : Paced script first past g)
    (hk : Paced (rest script past) g newer k) : Paced script first (newer ++ past) k := by
  have hbegins : ∀ signs : List Sign, Sign.begins (signs ++ past) =
      Sign.begins signs + Sign.begins past := fun signs => List.countP_append
  induction hk with
  | first => exact hp
  | wait _ hw screen ih => exact ih.wait hw screen
  | @next newer k _ hw screen hs ih =>
    refine ih.next hw screen ?_
    rwa [← List.cons_append, hbegins]
  | answer _ answer hs ih =>
    refine ih.answer answer ?_
    rwa [hbegins]

theorem answeredBy (hp : Paced script first past g) (hf : first.live.pending = none) :
    g.AnsweredBy (script (Sign.begins past)) := by
  induction hp with
  | first => exact Game.answeredBy_of_none hf _
  | wait _ hw screen ih =>
    rw [left_next_of_waits hw]
    exact ih
  | next _ _ _ hs _ => exact hs
  | answer _ _ hs _ => exact hs

/-- A game that has shown something came there by a next step, which its signs tell. -/
theorem shown (hp : Paced script first past g) {newer older : List Sign} {s : Sign}
    (he : past = newer ++ s :: older) :
    ∃ k screen, Paced script first older k ∧ ¬ k.Waits ∧ s = .of (Play.next screen k) ∧
      (newer = [] → (left (Play.next screen k)).Alike g) := by
  induction hp generalizing newer with
  | first => simp at he
  | @wait past g h hw screen ih =>
    rw [left_next_of_waits hw]
    exact ih he
  | @next past g h hw screen hs ih =>
    cases newer with
    | nil =>
      obtain ⟨rfl, rfl⟩ := List.cons.inj he
      exact ⟨g, screen, h, hw, rfl, fun _ => .of_eq rfl rfl rfl⟩
    | cons s' newer =>
      obtain ⟨-, he⟩ := List.cons.inj he
      obtain ⟨k, screen', hk, hkw, hks, -⟩ := ih he
      exact ⟨k, screen', hk, hkw, hks, nofun⟩
  | @answer past g h answer hs ih =>
    obtain ⟨k, screen, hk, hkw, hks, halike⟩ := ih he
    exact ⟨k, screen, hk, hkw, hks, fun hn => (halike hn).trans (.of_eq rfl rfl rfl)⟩

theorem alike_first (hp : Paced script first past g) (he : past = []) : first.Alike g := by
  induction hp with
  | first => exact .of_eq rfl rfl rfl
  | wait _ hw screen ih =>
    rw [left_next_of_waits hw]
    exact ih he
  | next => cases he
  | answer _ _ _ ih => exact (ih he).trans (.of_eq rfl rfl rfl)

/-- **Two games of one story that are paced by one script** show the same, as far as both have come, and
stand alike when they have shown as much. -/
theorem agree {picks : List NodeId} (hexp : Expectant first picks) (hpend : first.live.pending = none)
    (hpend' : first'.live.pending = none) (halike : first.Alike first')
    (hg : Paced script first past g) (hh : Paced script first' past' h) :
    (past <:+ past' ∨ past' <:+ past) ∧ (past = past' → g.Alike h) := by
  induction hg generalizing past' h with
  | first =>
    exact ⟨.inl (List.nil_suffix), fun he => halike.trans (hh.alike_first he.symm)⟩
  | wait _ hw screen ih =>
    rw [left_next_of_waits hw]
    exact ih hh
  | @answer past g hg answer hs ih =>
    obtain ⟨hsuffix, hstand⟩ := ih hh
    have hback : (g.answered answer).Alike g := .of_eq rfl rfl rfl
    exact ⟨hsuffix, fun he => hback.trans (hstand he)⟩
  | @next past g hg hw screen hs ih =>
    rcases (ih hh).1 with ⟨newer, hnewer⟩ | hshort
    · -- the other game has come at least as far: it went on with the same sign, or has stopped here
      cases hlast : newer.reverse with
      | nil =>
        obtain rfl : newer = [] := List.reverse_eq_nil_iff.1 hlast
        obtain rfl : past = past' := hnewer
        refine ⟨.inr (List.suffix_cons _ _), fun he => ?_⟩
        have hlength := congrArg List.length he
        simp at hlength
      | cons s init =>
        obtain rfl : newer = init.reverse ++ [s] := by
          rw [← List.reverse_reverse newer, hlast, List.reverse_cons]
        rw [List.append_assoc, List.singleton_append] at hnewer
        obtain ⟨k, screen', hk, hkw, rfl, hlater⟩ := hh.shown hnewer.symm
        have hstand := (ih hk).2 rfl
        obtain ⟨picks, hgp⟩ := hg.expectant hexp
        obtain ⟨hsign, hafter⟩ := hstand.next hgp.waits hw hkw (hg.answeredBy hpend)
          (hk.answeredBy hpend') screen screen'
        rw [hsign] at hnewer
        refine ⟨.inl ⟨init.reverse, hnewer⟩, fun he => hafter.trans (hlater ?_)⟩
        have hlength := congrArg List.length (hnewer.trans he.symm)
        simp only [List.length_append, List.length_cons] at hlength
        exact List.eq_nil_of_length_eq_zero (by omega)
    · refine ⟨.inr (hshort.trans (List.suffix_cons _ _)), fun he => ?_⟩
      have hlength := hshort.length_le
      rw [← he, List.length_cons] at hlength
      omega

/-! #### The end of a story -/

theorem ended (hp : Paced script first past g) (hm : Sign.terminated ∈ past) : g.Ended := by
  induction hp with
  | first => cases hm
  | wait _ hw screen ih =>
    rw [left_next_of_waits hw]
    exact ih hm
  | next _ _ screen _ ih =>
    rcases List.mem_cons.1 hm with hnow | hbefore
    · exact Game.ended_of_sign hnow.symm
    · exact ((ih hbefore).next screen).2
  | answer _ _ _ ih => exact ih hm

theorem outcomes_of_ended (hp : Paced script first past g) {newer older : List Sign}
    (he : past = newer ++ older) (hm : Sign.terminated ∈ older) :
    Sign.outcomes past = Sign.outcomes older := by
  induction hp generalizing newer with
  | first =>
    obtain ⟨-, rfl⟩ := List.append_eq_nil_iff.1 he.symm
    cases hm
  | wait _ _ _ ih | answer _ _ _ ih => exact ih he
  | @next past g h _ screen _ ih =>
    cases newer with
    | nil => exact congrArg Sign.outcomes he
    | cons s newer =>
      obtain ⟨-, hrest⟩ := List.cons.inj he
      have hended := h.ended (hrest ▸ List.mem_append_right _ hm)
      rw [(hended.next screen).1]
      exact ih hrest

end Paced

end Storyline
