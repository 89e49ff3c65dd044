import Storyline.Proofs.Game.Handled
import Storyline.Stage.Recorder

/-!
# What the status tells

* `Step.told`: the status that tells of a step;
* `Play.status_of_next`, `Play.status_of_undoLast`: the status after a next step and after undoing;
* `Live.Over`: a game that is over is at no node and has no unit left;
* `Game.Handled.status_tells`: the status tells of the last step, unless the game was over before it;
  and in a game that is over there are no more steps until a story is made the one to play.
-/

namespace Storyline

open Effect

variable {σ : Type}

/-- The status that tells of a step. -/
def Step.told (futures : Futures) : Step → Status
  | advanced _ => .running
  | suspended f => if futures.isSolved f then .running else .suspended
  | terminated => .terminated

/-! ### After one call -/

namespace Live

variable {l : Live} {futures : Futures}

theorem status_of_terminated (h : l.terminated = true) : l.status futures = .terminated := by
  unfold status
  rw [if_pos h]

theorem status_of_idle (ht : l.terminated = false) (hp : l.pending = none) (hs : l.started = true) :
    l.status futures = .running := by
  unfold status
  simp [ht, hp, hs]

theorem status_of_pending {p : Pending} (ht : l.terminated = false) (hp : l.pending = some p)
    (hs : l.started = true) :
    l.status futures = if futures.isSolved p.future then .running else .suspended := by
  unfold status
  cases hf : futures.isSolved p.future <;> simp [ht, hp, hs, hf]

theorem status_eq_terminated_iff : l.status futures = .terminated ↔ l.terminated = true := by
  refine ⟨fun h => ?_, status_of_terminated⟩
  unfold status at h
  cases ht : l.terminated with
  | true => rfl
  | false =>
    simp only [ht, Bool.false_eq_true, if_false] at h
    repeat' split at h
    all_goals cases h

theorem terminated_aim (l : Live) : l.aim.terminated = l.terminated := by
  unfold aim nextUnit
  split
  · simp only
    split <;> rfl
  · rfl

theorem terminated_reach (l : Live) (x : NodeId) : (l.reach x).terminated = l.terminated := by
  unfold reach
  split <;> rfl

end Live

/-- A live part that tells of a step. -/
structure Step.TellsOf (s : Step) (l : Live) : Prop where
  started : l.started = true
  pending : match s with
    | .advanced _ => l.pending = none
    | .suspended f => ∃ p, l.pending = some p ∧ p.future = f
    | .terminated => l.terminated = true

theorem Step.TellsOf.status {s : Step} {l : Live} (h : s.TellsOf l) (futures : Futures) :
    l.status futures = if l.terminated then .terminated else s.told futures := by
  obtain ⟨hstarted, hp⟩ := h
  cases ht : l.terminated with
  | true => exact Live.status_of_terminated ht
  | false =>
    rw [if_neg Bool.false_ne_true]
    cases s with
    | advanced o => exact Live.status_of_idle ht hp hstarted
    | suspended f =>
      obtain ⟨p, hp, rfl⟩ := hp
      exact Live.status_of_pending ht hp hstarted
    | terminated => cases ht.symm.trans hp

namespace Play

variable {g g' : Game σ} {screen : Screen σ} {step : Step}

/-- **A next step** leaves a live part that tells of it, and ends no game but by its end. -/
theorem tellsOf_next (h : g.live.Coherent) (hn : next screen g = .ok step g') :
    step.TellsOf g'.live ∧
      (step = .terminated ∨ g'.live.terminated = g.live.terminated) := by
  have hterminated : ∀ x, ((g.live.aim).reach x).terminated = g.live.terminated := fun x =>
    (Live.terminated_reach _ x).trans g.live.terminated_aim
  cases moved_of_next hn with
  | waits p hp hf => exact ⟨⟨h.started_of_pending hp, p, hp, rfl⟩, .inr rfl⟩
  | resumes p o w hp hf hw => exact ⟨⟨h.started_of_pending hp, rfl⟩, .inr rfl⟩
  | ends hp =>
    refine ⟨⟨?_, rfl⟩, .inl rfl⟩
    obtain ⟨hplace, -, -⟩ := Poised.ends hn
    rw [Game.place?_of_idle hp, Live.aim_current] at hplace
    exact Live.started_aim (Option.or_eq_none_iff.1 hplace).1
  | executes x a o s hp ha hs =>
    refine ⟨⟨Live.started_reach _ x, ?_⟩, .inr (hterminated x)⟩
    exact (Live.pending_reach _ x).trans ((Live.pending_aim _).trans hp)
  | begins x a f s hp ha hs => exact ⟨⟨Live.started_reach _ x, _, rfl, rfl⟩, .inr (hterminated x)⟩

/-- Taking the last step of the history back, where that succeeds. -/
theorem undoEntry_eq_some {o : Outcome} (h : undoEntry g = .ok (some o) g') :
    g.live.history ≠ [] ∧ g'.live.started = g.live.started ∧ g'.live.pending = g.live.pending ∧
      g'.live.terminated = false := by
  unfold undoEntry at h
  rw [bind_get_apply] at h
  cases hh : g.live.history with
  | nil =>
    rw [hh] at h
    cases (EStateM.Result.ok.inj h).1
  | cons e rest =>
    rw [hh] at h
    simp only at h
    rw [bind_modifyLive_apply] at h
    obtain ⟨w, store, -, hk⟩ := rolled_of_undoAction (k := fun _ => do
      modifyLive fun l => { l with current := some e.outcome.node, terminated := false }
      return some e.outcome) h
    obtain ⟨-, rfl⟩ := EStateM.Result.ok.inj hk
    exact ⟨List.cons_ne_nil e rest, rfl, rfl, rfl⟩

/-- **Undoing** a step leaves a running game. -/
theorem status_of_undoLast (h : g.live.Coherent) {o : Outcome}
    (hu : undoLast g = .ok (some o) g') : g'.status = .running := by
  rw [undoLast_apply] at hu
  cases hp : g.live.pending with
  | none =>
    rw [hp] at hu
    obtain ⟨hh, hstarted, hpending, hterminated⟩ := undoEntry_eq_some hu
    exact Live.status_of_idle hterminated (hpending.trans hp)
      (hstarted.trans (h.started_of_history hh))
  | some p =>
    rw [hp] at hu
    obtain ⟨_, g₁, h₁, h₂⟩ := bind_apply_eq_ok.1 hu
    obtain ⟨w, store, -, rfl⟩ := undoPending_eq_ok h₁
    obtain ⟨-, hstarted, hpending, hterminated⟩ := undoEntry_eq_some h₂
    exact Live.status_of_idle hterminated hpending (hstarted.trans (h.started_of_pending hp))

end Play

/-! ### Games that are over -/

/-- A game that has a story; and if it is over, it is at no node and has no unit left. -/
structure Live.Over (l : Live) : Prop where
  story : l.story.isSome
  nowhere : l.terminated = true →
    l.started = true ∧ l.pending = none ∧ l.current = none ∧ l.onward = none

namespace Live.Over

variable {l l' : Live}

theorem of_running (hs : l.story.isSome) (ht : l.terminated = false) : l.Over :=
  ⟨hs, fun h => by cases ht.symm.trans h⟩

theorem of_ended (hs : l.story.isSome) (hp : l.pending = none) (hx : l.aim.current = none) :
    ({ l.aim with terminated := true } : Live).Over := by
  rw [aim_current] at hx
  refine ⟨by rw [story_aim]; exact hs, fun _ => ⟨?_, (pending_aim l).trans hp, ?_, ?_⟩⟩
  · exact started_aim (Option.or_eq_none_iff.1 hx).1
  · exact (aim_current l).trans hx
  · exact onward_aim_of_none hx

theorem running_of_pending (h : l.Over) {p : Pending} (hp : l.pending = some p) :
    l.terminated = false := by
  cases ht : l.terminated with
  | false => rfl
  | true => cases (h.nowhere ht).2.1.symm.trans hp

theorem running_of_aim (h : l.Over) {x : NodeId} (hx : l.aim.current = some x) :
    l.terminated = false := by
  cases ht : l.terminated with
  | false => rfl
  | true =>
    obtain ⟨-, -, hc, ho⟩ := h.nowhere ht
    rw [aim_current, hc, ho] at hx
    cases hx

/-- Who is over has gone on to the next unit already, and there was none. -/
theorem aim_eq (h : l.Over) (ht : l.terminated = true) : l.aim = l := by
  obtain ⟨hs, -, hc, ho⟩ := h.nowhere ht
  unfold onward at ho
  unfold aim nextUnit
  simp only [hc, Option.isNone_none, if_true, ho]
  rw [← hc, ← hs]

theorem next (h : l.Over) (hn : l.Nexts l') : l'.Over := by
  cases hn with
  | stands => exact h
  | drops hp => exact of_running h.story (h.running_of_pending hp)
  | resumes hp o committed next => exact of_running h.story (h.running_of_pending hp)
  | ends hp hx => exact of_ended h.story hp hx
  | @fails x hp hx | @executes x hp hx | @begins x hp hx =>
    refine of_running ?_ ?_
    · exact ((story_reach l.aim x).trans l.story_aim).symm ▸ h.story
    · exact (terminated_reach l.aim x).trans (l.terminated_aim.trans (h.running_of_aim hx))

theorem undo (h : l.Over) (hu : l.Undoes l') : l'.Over := by
  induction hu with
  | stands => exact h
  | clears hp => exact of_running h.story (h.running_of_pending hp)
  | returns hp => exact of_running h.story (h.running_of_pending hp)
  | drops _ _ ih => exact ⟨ih.story, ih.nowhere⟩
  | @takes l' _ _ ih =>
    unfold takenBack
    cases l'.history with
    | nil => exact ih
    | cons e rest => exact of_running ih.story rfl

end Live.Over

/-- Calls that make a story the one to play. -/
def Handling.Loads : Handling σ → Prop
  | register _ | load .. => True
  | _ => False

theorem Live.Over.call {g : Game σ} (h : g.live.Over) {c : Handling σ} (hc : ¬c.Loads) :
    (c.run g).live.Over := by
  have hdoes := c.does g
  generalize (c.run g).live = l at hdoes
  cases c with
  | register | load => exact absurd trivial hc
  | newGame =>
    obtain ⟨saved, rfl⟩ := hdoes
    exact .of_running h.story rfl
  | next => exact h.next hdoes
  | undo => exact h.undo hdoes
  | _ =>
    obtain ⟨_, _, rfl⟩ := hdoes
    exact ⟨h.story, h.nowhere⟩

theorem Live.Over.handle {g : Game σ} (h : g.live.Over) {calls : List (Handling σ)}
    (hc : ∀ c ∈ calls, ¬c.Loads) : (g.handle calls).live.Over := by
  induction calls generalizing g with
  | nil => exact h
  | cons c rest ih =>
    exact ih (h.call (hc c List.mem_cons_self)) fun d hd => hc d (List.mem_cons_of_mem c hd)

/-- In a game that is over the next step is its end, and changes nothing. -/
theorem Live.Over.next_eq {g : Game σ} (h : g.live.Over) (hs : g.status = .terminated)
    (screen : Screen σ) : Play.next screen g = .ok .terminated g := by
  have ht := Live.status_eq_terminated_iff.1 hs
  obtain ⟨-, hp, hc, -⟩ := h.nowhere ht
  rw [Play.next_of_idle h.story hp, h.aim_eq ht, hc]
  simp only
  rw [← ht]

/-- The game after some answers. -/
def Game.answeredAll (g : Game σ) (answers : List (FutureId × Resolution)) : Game σ :=
  answers.foldl Game.answered g

theorem Game.live_answeredAll (g : Game σ) (answers : List (FutureId × Resolution)) :
    (g.answeredAll answers).live = g.live := by
  induction answers generalizing g with
  | nil => rfl
  | cons a rest ih => exact ih (g.answered a)

/-- **The status tells of the last step**, whatever is answered since: a game runs after a step that
was done, is suspended after one that waits until its future is solved, is over after the end, and runs
after a step was taken back. Only a game that was over before a step stays so. But where the next step
of a game is its end, it is so again as long as the game is over, whatever the host does but making a
story the one to play. -/
theorem Game.Handled.status_tells {g : Game σ} (h : g.Handled) :
    (∀ screen step g', Play.next screen g = .ok step g' →
      ∀ answers : List (FutureId × Resolution), (g'.answeredAll answers).status =
        if g.status = .terminated then .terminated
        else step.told (g'.answeredAll answers).stage.futures) ∧
    (∀ o g', Play.undoLast g = .ok (some o) g' → g'.status = .running) ∧
    ∀ screen g', Play.next screen g = .ok .terminated g' →
      ∀ calls : List (Handling σ), (∀ c ∈ calls, ¬c.Loads) →
        (g'.handle calls).status = .terminated →
        ∀ screen', Play.next screen' (g'.handle calls) = .ok .terminated (g'.handle calls) := by
  refine ⟨?_, fun o g' => Play.status_of_undoLast h.coherent, ?_⟩
  · -- once terminated, the game says so whatever the step was
    intro screen step g' hn answers
    obtain ⟨htells, hsame⟩ := Play.tellsOf_next h.coherent hn
    have hstatus := htells.status (g'.answeredAll answers).stage.futures
    unfold Game.status
    rw [g'.live_answeredAll, hstatus]
    rcases hsame with rfl | hsame
    · simp [Step.told]
    · rw [hsame]
      exact if_congr Live.status_eq_terminated_iff.symm rfl rfl
  · intro screen g' hn calls hcalls hover screen'
    obtain ⟨hplace, hp, rfl⟩ := Poised.ends hn
    -- the play has ended where no step was pending and no node was left
    have hx : g.live.aim.current = none := (Game.place?_of_idle hp).symm.trans hplace
    have hends := Live.Over.of_ended (Play.next_eq_ok_story hn) hp hx
    exact (Live.Over.handle (g := { g with live := _ }) hends hcalls).next_eq hover screen'

/-! ### A story of one line, and of two -/

/-- A story of one line, before its first step. -/
def oneLine : Game Recorder :=
  (Game.new {} {}).handle [.write (.character "Alice" {}), .write (.story "A word"),
    .write (.append ⟨1⟩ (.say (.plain "Hello"))), .write (.storyAction ⟨2⟩ [[⟨3⟩]]), .register ⟨2⟩]

/-- The line is said and listened to. -/
def oneLineSaid : Game Recorder :=
  oneLine.handle [.next Recorder.screen, .answer (⟨0⟩, .proceed), .next Recorder.screen]

/-- The story has ended. -/
def oneLineOver : Game Recorder := left (Play.next Recorder.screen oneLineSaid)

/-- The story has got a second line and is registered again. -/
def twoLines : Game Recorder :=
  oneLineOver.handle [.write (.append ⟨1⟩ (.say (.plain "Goodbye"))),
    .write (.storyAction ⟨2⟩ [[⟨5⟩]]), .register ⟨2⟩]

/-- The line waits to be listened to and is taken back once it was. The story ends, and goes on to its
second line as a game that is over. -/
theorem status_tells_oneLine :
    (∃ g, Play.next Recorder.screen oneLine = .ok (.suspended ⟨0⟩) g ∧ g.status = .suspended ∧
      (g.answered (⟨0⟩, .proceed)).status = .running) ∧
    (∃ o g, Play.undoLast oneLineSaid = .ok (some o) g ∧ g.status = .running) ∧
    (Play.next Recorder.screen oneLineSaid = .ok .terminated oneLineOver ∧
      Play.next Recorder.screen oneLineOver = .ok .terminated oneLineOver) ∧
    ∃ g, Play.next Recorder.screen twoLines = .ok (.suspended ⟨1⟩) g ∧ g.status = .terminated := by
  have hline : oneLine.Handled := (Game.Handled.new _ _).handle _
  have hsaid : oneLineSaid.Handled := hline.handle _
  have htwo : twoLines.Handled := (hsaid.call (.next Recorder.screen)).handle _
  have hwaits : Play.next Recorder.screen oneLine = .ok (.suspended ⟨0⟩) _ :=
    ok_of_answer (by decide +kernel)
  have hends : Play.next Recorder.screen oneLineSaid = .ok .terminated oneLineOver :=
    ok_of_answer (by decide +kernel)
  have hundo : Play.undoLast oneLineSaid = .ok (some ⟨"character:say", ⟨3⟩, none⟩) _ :=
    ok_of_answer (by decide +kernel)
  have hgoes : Play.next Recorder.screen twoLines = .ok (.suspended ⟨1⟩) _ :=
    ok_of_answer (by decide +kernel)
  refine ⟨⟨_, hwaits, ?_, ?_⟩, ⟨_, _, hundo, ?_⟩, ⟨hends, ?_⟩, ⟨_, hgoes, ?_⟩⟩
  · exact (hline.status_tells.1 _ _ _ hwaits []).trans (by decide +kernel)
  · exact (hline.status_tells.1 _ _ _ hwaits [(⟨0⟩, .proceed)]).trans (by decide +kernel)
  · exact hsaid.status_tells.2.1 _ _ hundo
  · exact hsaid.status_tells.2.2 _ _ hends [] (fun c hc => absurd hc List.not_mem_nil)
      (by decide +kernel) _
  · exact (htwo.status_tells.1 _ _ _ hgoes []).trans (by decide +kernel)

end Storyline
