import Storyline.Proofs.Game.Linked
import Storyline.Proofs.Game.Poised

/-!
# Stray answers

* `Futures.SameBut f fs fs'`: two sets of futures are the same, apart from one that is in both;
* `Link.but f`: two stages that differ in one future only;
* `HostCall`, `replies`: what a host calls, and what it learns from that: steps, undone steps and the
  status of the game;
* `replies_stray`: the answer of a future that a game does not wait for changes nothing of that.
-/

namespace Storyline

open Effect

variable {σ : Type}

namespace Futures

variable {fs fs' : Futures} {f x : FutureId}

/-! ### One answer -/

theorem size_settle (fs : Futures) (answer : FutureId × Resolution) :
    (fs.settle answer).cells.size = fs.cells.size := by
  unfold settle resolve
  cases fs.get? answer.1 with
  | none => rfl
  | some c =>
    unfold Deferred.Cell.begin?
    cases hr : c.receiver with
    | none => simp only [hr]; rfl
    | some receive =>
      simp only [hr]
      exact Array.size_setIfInBounds

theorem get?_settle_other (answer : FutureId × Resolution) (hx : x ≠ answer.1) :
    (fs.settle answer).get? x = fs.get? x := by
  unfold settle
  split
  · rename_i hr
    obtain ⟨-, -, -, -, -, hother⟩ := get?_resolve hr
    exact hother x hx
  · rfl

/-- What becomes of a future that is answered depends on that future alone. -/
theorem get?_settle_congr (h : fs'.get? x = fs.get? x) (r : Resolution) :
    (fs'.settle (x, r)).get? x = (fs.settle (x, r)).get? x := by
  -- whether `x` is resolved now depends on its own cell alone
  unfold settle
  cases hr : fs.resolve x r with
  | ok fs₁ =>
    obtain ⟨cell, receive, hcell, hrec, hself, -⟩ := get?_resolve hr
    cases hr' : fs'.resolve x r with
    | ok fs₂ =>
      obtain ⟨cell', receive', hcell', hrec', hself', -⟩ := get?_resolve hr'
      obtain rfl := Option.some_inj.1 (hcell'.symm.trans (h.trans hcell))
      obtain rfl := Option.some_inj.1 (hrec'.symm.trans hrec)
      exact hself'.trans hself.symm
    | error e =>
      unfold resolve Deferred.Cell.begin? at hr'
      rw [h, hcell] at hr'
      simp only [hrec] at hr'
      cases hr'
  | error e =>
    cases hr' : fs'.resolve x r with
    | ok fs₂ =>
      obtain ⟨cell, receive, hcell, hrec, -, -⟩ := get?_resolve hr'
      unfold resolve Deferred.Cell.begin? at hr
      rw [← h, hcell] at hr
      simp only [hrec] at hr
      cases hr
    | error e' => exact h

/-! ### All futures but one -/

/-- Two sets of futures are the same, apart from one that is in both. -/
structure SameBut (f : FutureId) (fs fs' : Futures) : Prop where
  size : fs'.cells.size = fs.cells.size
  mem : f.val < fs.cells.size
  get? : ∀ x, x ≠ f → fs'.get? x = fs.get? x

theorem SameBut.result? (h : SameBut f fs fs') (hx : x ≠ f) : fs'.result? x = fs.result? x := by
  unfold Futures.result?
  rw [h.get? x hx]

theorem SameBut.add (h : SameBut f fs fs') (receive : Resolution → Outcome) :
    (fs'.add receive).1 = (fs.add receive).1 ∧ (fs.add receive).1 ≠ f ∧
      SameBut f (fs.add receive).2 (fs'.add receive).2 := by
  refine ⟨congrArg FutureId.mk h.size, fun he => ?_, ?_, ?_, fun x hx => ?_⟩
  · have hmem := h.mem
    rw [← he] at hmem
    exact absurd hmem (Nat.lt_irrefl _)
  · unfold Futures.add
    rw [Array.size_push, Array.size_push, h.size]
  · unfold Futures.add
    rw [Array.size_push]
    exact Nat.lt_succ_of_lt h.mem
  · have hget := h.get? x hx
    unfold Futures.add Futures.get? at hget ⊢
    rw [Array.getElem?_push, Array.getElem?_push, h.size, hget]

theorem SameBut.settle (h : SameBut f fs fs') (answer : FutureId × Resolution) :
    SameBut f (fs.settle answer) (fs'.settle answer) := by
  refine ⟨by rw [size_settle, size_settle, h.size], by rw [size_settle]; exact h.mem,
    fun x hx => ?_⟩
  by_cases ha : x = answer.1
  · subst ha
    exact get?_settle_congr (h.get? _ hx) _
  · rw [get?_settle_other _ ha, get?_settle_other _ ha, h.get? x hx]

theorem SameBut.foldl_settle (h : SameBut f fs fs') (answers : List (FutureId × Resolution)) :
    SameBut f (answers.foldl Futures.settle fs) (answers.foldl Futures.settle fs') := by
  induction answers generalizing fs fs' with
  | nil => exact h
  | cons answer rest ih => exact ih (h.settle answer)

theorem sameBut_settle (hf : f.val < fs.cells.size) (r : Resolution) :
    SameBut f fs (fs.settle (f, r)) :=
  ⟨size_settle _ _, hf, fun _ hx => get?_settle_other _ hx⟩

theorem settle_of_size_le (hf : fs.cells.size ≤ f.val) (r : Resolution) : fs.settle (f, r) = fs := by
  have hnone : fs.get? f = none := Array.getElem?_eq_none hf
  unfold settle resolve
  rw [hnone]

end Futures

/-! ### Two games that differ in one future -/

/-- Two stages with the same screens, that differ in one future only. -/
def Link.but (σ : Type) (f : FutureId) : Link σ σ where
  rel fs s fs' s' := Futures.SameBut f fs fs' ∧ s' = s
  names x y := y = x ∧ x ≠ f

theorem Link.lawful_but (screen : Screen σ) (f : FutureId) : (Link.but σ f).Lawful screen screen := by
  have hsent : ∀ {s t : Stage σ}, (Link.but σ f).Stages s t → ∀ cue,
      (Link.but σ f).Stages (s.sent screen cue) (t.sent screen cue) := by
    intro s t hs cue
    obtain ⟨hbut, hscreen⟩ := hs.rest
    refine ⟨hs.world, hs.store, ?_, ?_⟩
    · show Futures.SameBut f
        ((screen.receive cue s.screen).2.foldl Futures.settle s.futures)
        ((screen.receive cue t.screen).2.foldl Futures.settle t.futures)
      rw [hscreen]
      exact hbut.foldl_settle _
    · show (screen.receive cue t.screen).1 = (screen.receive cue s.screen).1
      rw [hscreen]
  refine ⟨fun {s t} hs receive => ?_, hsent, fun {s t} hs cue x y hxy => ?_⟩
  · obtain ⟨hbut, hscreen⟩ := hs.rest
    obtain ⟨hname, hne, hadd⟩ := hbut.add receive
    exact ⟨⟨hname, hne⟩, hs.world, hs.store, hadd, hscreen⟩
  · obtain ⟨rfl, -⟩ := hxy
    exact hsent hs (cue y)

/-- A call of the host. -/
inductive HostCall (σ : Type) where
  | newGame (now : Instant)
  | next (screen : Screen σ)
  | undo
  | answer (answer : FutureId × Resolution)

/-- What the host learns from a call. -/
inductive Reply where
  | done
  | step (r : Except GameError Step)
  | undone (r : Except GameError (Option Outcome))

/-- What came of a program, without the state that it left. -/
def outcome? {ε τ α : Type} : EStateM.Result ε τ α → Except ε α
  | .ok a _ => .ok a
  | .error e _ => .error e

/-- What a call answers and leaves. -/
def HostCall.run : HostCall σ → Game σ → Reply × Game σ
  | .newGame now, g => (.done, g.newGame now)
  | .next screen, g => (.step (outcome? (Play.next screen g)), left (Play.next screen g))
  | .undo, g => (.undone (outcome? (Play.undoLast g)), left (Play.undoLast g))
  | .answer a, g => (.done, g.answered a)

/-- All that a host learns from some calls, with the status of the game after each. -/
def replies : List (HostCall σ) → Game σ → List (Reply × Status)
  | [], _ => []
  | c :: calls, g => ((c.run g).1, (c.run g).2.status) :: replies calls (c.run g).2

section Stray

variable {f : FutureId} {g h : Game σ}

theorem Live.status_of_bare {l l' : Live} (hl : l'.bare = l.bare) {fs fs' : Futures}
    (hfs : ∀ p q, l.pending = some p → l'.pending = some q →
      fs'.isSolved q.future = fs.isSolved p.future) : l'.status fs' = l.status fs := by
  have hterminated := congrArg Live.terminated hl
  have hstarted := congrArg Live.started hl
  change l'.terminated = l.terminated at hterminated
  change l'.started = l.started at hstarted
  unfold Live.status
  rw [hterminated, hstarted]
  cases hp : l.pending with
  | none => rw [Live.pending_none_of_bare hl hp]
  | some p =>
    obtain ⟨q, hq, -⟩ := Live.pending_of_bare hl hp
    simp only [hq, hfs p q hp hq]

namespace Link.Games

theorem result?_but (hg : (Link.but σ f).Games g h) (p q : Pending) (hp : g.live.pending = some p)
    (hq : h.live.pending = some q) :
    h.stage.futures.result? q.future = g.stage.futures.result? p.future := by
  obtain ⟨hname, hne⟩ := hg.pending p q hp hq
  rw [hname, hg.stage.rest.1.result? hne]

theorem status_but (hg : (Link.but σ f).Games g h) : h.status = g.status := by
  refine Live.status_of_bare hg.live fun p q hp hq => ?_
  unfold Futures.isSolved
  rw [hg.result?_but p q hp hq]

theorem answered_but (hg : (Link.but σ f).Games g h) (answer : FutureId × Resolution) :
    (Link.but σ f).Games (g.answered answer) (h.answered answer) :=
  ⟨⟨hg.stage.world, hg.stage.store, hg.stage.rest.1.settle answer, hg.stage.rest.2⟩, hg.live,
    hg.pending⟩

theorem outcome?_of_steps {x y : EStateM.Result GameError (Game σ) Step}
    (hxy : Agree (Link.but σ f).Games (Link.but σ f).Steps x y) : outcome? y = outcome? x := by
  cases x with
  | error e g' =>
    cases y with
    | error e' h' => exact congrArg Except.error hxy.1
    | ok step' h' => exact hxy.elim
  | ok step g' =>
    cases y with
    | error e' h' => exact hxy.elim
    | ok step' h' =>
      obtain ⟨hsteps, -⟩ := hxy
      cases step <;> cases step' <;> first | exact hsteps.elim | rfl | skip
      · exact congrArg (Except.ok ∘ Step.advanced) hsteps
      · exact congrArg (Except.ok ∘ Step.suspended) hsteps.1

/-- A call answers the same in two games that differ in one future, and leaves two that do. -/
theorem run_but (hg : (Link.but σ f).Games g h) (c : HostCall σ) :
    (c.run h).1 = (c.run g).1 ∧ (Link.but σ f).Games (c.run g).2 (c.run h).2 := by
  cases c with
  | newGame now => exact ⟨rfl, hg.newGame now now⟩
  | answer answer => exact ⟨rfl, hg.answered_but answer⟩
  | next screen =>
    have hnext := Play.agree_next (Link.lawful_but screen f) hg hg.result?_but
    exact ⟨congrArg Reply.step (outcome?_of_steps hnext), hnext.left⟩
  | undo =>
    have hundo := Play.agree_undoLast hg
    refine ⟨congrArg Reply.undone ?_, hundo.left⟩
    cases hx : Play.undoLast g <;> cases hy : Play.undoLast h <;> rw [hx, hy] at hundo
    · exact congrArg Except.ok hundo.1.symm
    · exact hundo.elim
    · exact hundo.elim
    · exact congrArg Except.error hundo.1

theorem replies_but (hg : (Link.but σ f).Games g h) (calls : List (HostCall σ)) :
    replies calls h = replies calls g := by
  induction calls generalizing g h with
  | nil => rfl
  | cons c calls ih =>
    obtain ⟨hreply, hleft⟩ := hg.run_but c
    unfold replies
    rw [hreply, hleft.status_but, ih hleft]

end Link.Games

/-- **A stray answer**, of a future that a game does not wait for, changes no later step, nothing that
is undone, and no status. -/
theorem replies_stray (hf : ∀ p, g.live.pending = some p → p.future ≠ f) (r : Resolution)
    (calls : List (HostCall σ)) :
    (g.answered (f, r)).status = g.status ∧ replies calls (g.answered (f, r)) = replies calls g := by
  by_cases hmem : f.val < g.stage.futures.cells.size
  · have hlink : (Link.but σ f).Games g (g.answered (f, r)) := by
      refine ⟨⟨rfl, rfl, Futures.sameBut_settle hmem r, rfl⟩, rfl, ?_⟩
      intro p q hp hq
      obtain rfl := Option.some_inj.1 (hp.symm.trans hq)
      exact ⟨rfl, hf p hp⟩
    exact ⟨hlink.status_but, hlink.replies_but calls⟩
  · have hsettle := Futures.settle_of_size_le (Nat.le_of_not_lt hmem) r
    have hsame : g.answered (f, r) = g := by
      unfold Game.answered Game.mapStage
      simp only [hsettle]
    rw [hsame]
    exact ⟨rfl, rfl⟩

end Stray

end Storyline
