import Storyline.Proofs.Game.Aligned

/-!
# Undoing

* `Stacked.undoAction`: taking the latest commit of the step on top back leads to what there was
  before the step;
* `Aligned.undoLast`: undoing never fails in a run and keeps the account;
* `Run.aligned`: every run agrees with its account.
-/

namespace Storyline

open Effect

variable {σ : Type}

/-- The game after a step was taken back, which leaves a world and a store. -/
def Game.rolled (g : Game σ) (w : World) (store : Store) : Game σ :=
  { g with stage := { g.stage with world := w, store } }

namespace Play

variable {g g' : Game σ}

/-- Taking the last step of the history back. -/
def undoEntry : Play σ (Option Outcome) := do
  match (← get).live.history with
  | [] => return none
  | e :: rest =>
    modifyLive fun l => { l with history := rest }
    if e.committed then discard (perform (Perform.undoAction e.outcome.node))
    modifyLive fun l => { l with current := some e.outcome.node, terminated := false }
    return some e.outcome

theorem undoLast_apply (g : Game σ) :
    undoLast g =
      match g.live.pending with
      | some q => (undoPending q >>= fun _ => undoEntry) g
      | none => undoEntry g := by
  unfold undoLast
  rw [bind_get_apply]
  cases g.live.pending <;> rfl

end Play

/-- **What taking a step back does** to its game: if the step on top has made a commit, that is the
latest one of its element, and without it there is what there was before the step. -/
theorem Stacked.undoAction {g : Game σ} {opening : World} {own : Prop} {p : Posting σ}
    {steps : List (Posting σ)} (h : Stacked opening g.world own g.store (p :: steps)) :
    ∃ w, (∀ {c : Prop} [Decidable c] {α : Type} (k : Unit → Play σ α), (c ↔ p.token.isSome) →
        (if c then do
            discard (Play.perform (Perform.undoAction p.action.node))
            k ()
          else k ()) g = k () (g.rolled w (Cleaner.runIfAny p.cleaner g.store))) ∧
      g.world.Keeps w ∧ w.memory? = p.before.world.memory? ∧
      Stacked opening w own (Cleaner.runIfAny p.cleaner g.store) steps := by
  obtain ⟨hproper, hled, -⟩ := h.unwinds.top
  unfold Posting.Led at hled
  -- a step without a commit has no cleaner and changed no element: nothing is to be undone
  cases ht : p.token with
  | none =>
    rw [ht] at hled
    have hpop := h.pop (.refl _) hled fun _ => rfl
    rw [hproper.cleaner ht] at hpop ⊢
    refine ⟨g.world, fun k hc => ?_, .refl _, hled, hpop⟩
    rw [if_neg (by simp [hc])]
    rfl
  | some t =>
    rw [ht] at hled
    obtain ⟨m, v, hm, hM, hother⟩ := hled
    obtain ⟨count, w, hundo, hk, hself, hrest, hcommits, -⟩ :=
      World.undoAction_spec h.sound h.action? hM g.store
    -- the commit was the last of its element, and no other element has lost one
    have hmem : w.memory? = p.before.world.memory? := by
      funext x
      by_cases hx : x = p.action.callee
      · subst hx
        rw [hself, hm]
      · rw [hrest x hx, hother x hx]
    rw [Cleaner.runAll_toList] at hundo
    have hperform : Play.perform (Perform.undoAction p.action.node) g =
        .ok count (g.rolled w (Cleaner.runIfAny p.cleaner g.store)) := by
      unfold Play.perform Perform.undoAction
      rw [show g.stage.world.undoAction p.action.node g.stage.store = _ from hundo]
      rfl
    refine ⟨w, fun k hc => ?_, hk, hmem, h.pop hk hmem hcommits⟩
    rw [if_pos (by simp [hc]), bind_of_ok (discard_apply_of_ok hperform)]

namespace Aligned

variable {g g' : Game σ} {acc : Account σ} {p : Posting σ}

theorem undoPending {q : Pending} (h : Aligned g acc) (hw : acc.waiting = some p)
    (hq : g.live.pending = some q) :
    ∃ g', Play.undoPending q g = .ok () g' ∧ Aligned g' { acc with waiting := none } ∧
      g'.live.history = g.live.history ∧ g'.store = Cleaner.runIfAny p.cleaner g.store ∧
      g.world.Keeps g'.world := by
  obtain ⟨p', hp', ha⟩ := h.waiting_of_pending hq
  obtain rfl : p' = p := Option.some_inj.1 (hp'.symm.trans hw)
  have hst := h.stacked
  rw [all_eq hw] at hst
  obtain ⟨w, hundo, hk, -, hrest⟩ :=
    Stacked.undoAction (g := { g with live := { g.live with pending := none } }) hst
  have hlt := ha.did.commits_lt_iff
  have hc : q.before < g.world.commits q.callee ↔ p'.token.isSome := by
    rw [ha.before, ha.callee, Posting.commits, hlt, Posting.done, Option.isSome_map]
  have hrun : Play.undoPending q g = .ok () ({ g with live := { g.live with
      pending := none, current := some q.node } }.rolled w
        (Cleaner.runIfAny p'.cleaner g.store)) := by
    unfold Play.undoPending
    rw [Play.bind_modifyLive_apply, bind_get_apply, ha.node]
    exact hundo (fun _ => Play.modifyLive fun l => { l with current := some p'.action.node }) hc
  exact ⟨_, hrun, ⟨hrest, h.history, rfl⟩, rfl, rfl, hk⟩

theorem undoEntry (h : Aligned g acc) (hw : acc.waiting = none) :
    ∃ g', Play.undoEntry g = .ok (g.live.history.head?.map (·.outcome)) g' ∧
      Aligned g' { acc with posts := acc.posts.tail } ∧
      g'.live.history = g.live.history.tail ∧ g'.live.pending = none ∧
      g'.store = acc.posts.head?.elim g.store (fun p => Cleaner.runIfAny p.cleaner g.store) ∧
      g.world.Keeps g'.world ∧
      ∀ p, acc.posts.head? = some p → g'.world.memory? = p.before.world.memory? := by
  have hpend : g.live.pending = none := by
    have hwait := h.waiting
    rw [hw] at hwait
    exact hwait
  have hst := h.stacked
  rw [all_eq_posts hw] at hst
  have hhist := h.history
  unfold Play.undoEntry
  rw [bind_get_apply]
  -- the history and the account are one list, so that both have an entry or neither has
  cases hh : g.live.history with
  | nil =>
    rw [hh, List.map_nil, List.map_eq_nil_iff] at hhist
    refine ⟨g, rfl, ⟨?_, ?_, h.waiting⟩, hh, hpend, ?_, .refl _, ?_⟩
    · have hall : Account.all { acc with posts := acc.posts.tail } = acc.posts.tail :=
        all_eq_posts hw
      rw [hall, hhist]
      rw [hhist] at hst
      exact hst
    · rw [hhist, hh]
      rfl
    · rw [hhist]
      rfl
    · intro p hp
      rw [hhist] at hp
      cases hp
  | cons e rest =>
    cases hposts : acc.posts with
    | nil =>
      rw [hh, hposts] at hhist
      cases hhist
    | cons p posts =>
      rw [hposts] at hst
      rw [hh, hposts, List.map_cons, List.map_cons, List.cons.injEq, Prod.mk.injEq] at hhist
      obtain ⟨⟨hnode, htoken⟩, hrest⟩ := hhist
      obtain ⟨w, hundo, hk, hmem, hpop⟩ :=
        Stacked.undoAction (g := { g with live := { g.live with history := rest } }) hst
      have hc : e.committed = true ↔ p.token.isSome := by rw [htoken]
      let g' := { g with live := { g.live with
        history := rest, current := some p.action.node, terminated := false } }.rolled w
          (Cleaner.runIfAny p.cleaner g.store)
      refine ⟨g', ?_, ⟨?_, hrest, ?_⟩, rfl, hpend, rfl, hk, ?_⟩
      · simp only [List.head?_cons, Option.map_some]
        rw [Play.bind_modifyLive_apply, ← hnode]
        exact hundo (fun _ => do
          Play.modifyLive fun l => { l with current := some p.action.node, terminated := false }
          return some e.outcome) hc
      · have hall : Account.all { acc with posts := posts } = posts := all_eq_posts hw
        show Stacked acc.opening w _ _ (Account.all { acc with posts := posts })
        rw [hall]
        exact hpop
      · show Waits g' acc.waiting
        rw [hw]
        exact hpend
      · rintro p' ⟨⟩
        exact hmem

/-- **Undoing** never fails. It takes back the step that waits and then the last one of the history,
with their cleaners. -/
theorem undoLast (h : Aligned g acc) :
    ∃ g', Play.undoLast g = .ok (g.live.history.head?.map (·.outcome)) g' ∧ Aligned g' acc.back ∧
      g'.live.history = g.live.history.tail ∧ g'.live.pending = none ∧
      g'.store = (acc.waiting.toList ++ acc.posts.head?.toList).foldl
        (fun store p => Cleaner.runIfAny p.cleaner store) g.store ∧
      g.world.Keeps g'.world ∧ (acc.waiting = none → ∀ p, acc.posts.head? = some p →
        g'.world.memory? = p.before.world.memory?) := by
  rw [Play.undoLast_apply]
  -- a pending step is taken back first, and then the last entry as usual
  cases hq : g.live.pending with
  | none =>
    have hw := h.waiting_eq_none hq
    obtain ⟨g', hrun, ha, hhist, hpend, hstore, hk, hmem⟩ := h.undoEntry hw
    refine ⟨g', hrun, ⟨?_, ha.history, hpend⟩, hhist, hpend, ?_, hk, fun _ => hmem⟩
    · have hst := ha.stacked
      rw [@all_eq_posts _ { acc with posts := acc.posts.tail } hw] at hst
      exact hst
    · rw [hstore, hw]
      cases acc.posts.head? <;> rfl
  | some q =>
    obtain ⟨p, hw, -⟩ := h.waiting_of_pending hq
    obtain ⟨g₁, hrun₁, ha₁, hhist₁, hstore₁, hk₁⟩ := h.undoPending hw hq
    obtain ⟨g', hrun, ha, hhist, hpend, hstore, hk, hmem⟩ := ha₁.undoEntry rfl
    refine ⟨g', ?_, ⟨ha.stacked, ha.history, hpend⟩, hhist.trans (by rw [hhist₁]), hpend, ?_,
      hk₁.trans hk, ?_⟩
    · simp only
      rw [bind_of_ok hrun₁, hrun, hhist₁]
    · rw [hstore, hstore₁, hw]
      show acc.posts.head?.elim _ _ = _
      cases acc.posts.head? <;> rfl
    · intro hnone
      rw [hw] at hnone
      cases hnone

end Aligned

/-- **Every run agrees with its account.** -/
theorem Run.aligned {g : Game σ} {acc : Account σ} (h : Run g acc) : Aligned g acc := by
  induction h with
  | @start g hw hh hp => exact .opened hw.sound hh hp { opening := g.world }
  | @newGame g acc h now ih =>
    have hw : (g.newGame now).world.Sound := ih.stacked.sound
    exact .opened hw rfl rfl acc
  | next h screen step hn ih => exact ih.next hn
  | resolve h answer ih => exact ih.resolve answer
  | undo h ih =>
    obtain ⟨g', hrun, ha, -⟩ := ih.undoLast
    rw [hrun]
    exact ha
  | write h store ih => exact ih.write store

end Storyline
