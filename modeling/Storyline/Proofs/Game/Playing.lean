import Storyline.Proofs.Game.Poised

/-!
# Games with every node in one list at most

* `Playing d g`: new games, next steps that succeed, answers of futures and undoing, in any order,
  lead to the game `g`, from a world with every node in one list at most;
* `Undone g g'`: what taking steps back does to where play is and goes on;
* `Playing.poised`: the invariant holds of all such games;
* `Playing.advances`, `Playing.halts`, `Playing.undone`: what their next steps do, and undoing.
-/

namespace Storyline

open Effect

variable {σ : Type}

/-- **Games with every node in one list at most.** -/
inductive Playing (d : Sheet) : Game σ → Prop
  | start {g : Game σ} (hw : Sheeted g.world d) (hu : ∀ u ∈ g.live.units, u ∈ d.nodes)
      (hh : g.live.history = []) (hp : g.live.pending = none) (hc : g.live.current = none) :
      Playing d g
  | newGame {g : Game σ} (h : Playing d g) (now : Instant) : Playing d (g.newGame now)
  | next {g g' : Game σ} (h : Playing d g) (screen : Screen σ) (step : Step)
      (hn : Play.next screen g = .ok step g') : Playing d g'
  | answer {g : Game σ} (h : Playing d g) (answer : FutureId × Resolution) :
      Playing d (g.answered answer)
  | undo {g : Game σ} (h : Playing d g) : Playing d (left (Play.undoLast g))

variable {g g' : Game σ} {d : Sheet} {o : Outcome} {f : FutureId} {screen : Screen σ}

/-! ### Undoing -/

/-- Taking steps back, which leaves the graph as it is. -/
structure Undone (g g' : Game σ) : Prop extends Stays g g' where
  graph : g'.world.graph = g.world.graph
  futures : g'.stage.futures = g.stage.futures
  started : g'.live.started = g.live.started
  onward : g'.live.onward = g.live.onward
  current : g'.live.current = ((g.live.history.head?.map (·.outcome.node)).or
    (g.live.pending.map (·.node))).or g.live.current
  pending : g'.live.pending = none
  history : g'.live.history = g.live.history.tail

/-- The live part after the last step of the history was taken back. -/
def Live.takenBack (l : Live) : Live :=
  match l.history with
  | [] => l
  | e :: rest =>
    { l with history := rest, current := some e.outcome.node, terminated := false }

theorem Live.takenBack_spec (l : Live) :
    l.takenBack.story = l.story ∧ l.takenBack.units = l.units ∧
      l.takenBack.started = l.started ∧ l.takenBack.onward = l.onward ∧
      l.takenBack.pending = l.pending ∧ l.takenBack.history = l.history.tail ∧
      l.takenBack.current = (l.history.head?.map (·.outcome.node)).or l.current := by
  unfold takenBack
  cases hh : l.history with
  | nil => exact ⟨rfl, rfl, rfl, rfl, rfl, hh, rfl⟩
  | cons e rest => exact ⟨rfl, rfl, rfl, rfl, rfl, rfl, rfl⟩

theorem Poised.undone (h : Poised d g) (hu : Undone g g') : Poised d g' := by
  refine h.congr hu.keeps hu.graph hu.units (fun n hn => ?_) (fun e he => ?_) (fun hb => ?_)
    (fun p hp => ?_)
  · rw [hu.current] at hn
    rcases Option.or_eq_some_iff.1 hn with hn | ⟨-, hn⟩
    · rcases Option.or_eq_some_iff.1 hn with hn | ⟨-, hn⟩
      · obtain ⟨e, he, rfl⟩ := Option.map_eq_some_iff.1 hn
        exact h.history e (List.mem_of_head? he)
      · obtain ⟨p, hp, rfl⟩ := Option.map_eq_some_iff.1 hn
        exact (h.waits p hp).1
    · exact h.current n hn
  · rw [hu.history] at he
    exact h.history e (List.mem_of_mem_tail he)
  · obtain ⟨hc, hp, hh⟩ := h.unbegun (hu.started.symm.trans hb)
    refine ⟨?_, hu.pending, ?_⟩
    · rw [hu.current, hh, hp, hc]
      rfl
    · rw [hu.history, hh]
      rfl
  · cases hu.pending.symm.trans hp

theorem World.graph_of_undoAction {w w' : World} {n : NodeId} {store store' : Store} {count : Nat}
    (h : w.undoAction n store = .ok (count, w', store')) : w'.graph = w.graph := by
  unfold undoAction at h
  obtain ⟨callee, -, h⟩ := bind_eq_ok.1 h
  split at h
  · cases h
  · split at h
    · cases h
    · obtain ⟨-, h⟩ := Prod.mk.inj (Except.ok.inj h)
      obtain ⟨rfl, -⟩ := Prod.mk.inj h
      rfl

namespace Play

/-- What is left of taking back the commit of a step, if it has made one. -/
theorem rolled_of_undoAction {c : Prop} [Decidable c] {n : NodeId} {α : Type}
    {k : Unit → Play σ α} {a : α}
    (h : (if c then do discard (perform (Perform.undoAction n)); k () else k ()) g = .ok a g') :
    ∃ w store, w.graph = g.world.graph ∧ k () (g.rolled w store) = .ok a g' := by
  split at h
  · obtain ⟨u, g₁, h₁, hk⟩ := bind_apply_eq_ok.1 h
    obtain ⟨count, h₂⟩ := discard_apply_eq_ok.1 h₁
    obtain ⟨s, hs, rfl⟩ := perform_eq_ok_iff.1 h₂
    unfold Perform.undoAction at hs
    cases hu : g.stage.world.undoAction n g.stage.store with
    | error e =>
      rw [hu] at hs
      cases hs
    | ok r =>
      obtain ⟨count', w, store⟩ := r
      rw [hu] at hs
      obtain ⟨-, rfl⟩ := EStateM.Result.ok.inj hs
      exact ⟨w, store, World.graph_of_undoAction hu, hk⟩
  · exact ⟨g.world, g.store, rfl, h⟩

theorem undoPending_eq_ok {p : Pending} {u : Unit} (h : undoPending p g = .ok u g') :
    ∃ w store, w.graph = g.world.graph ∧
      g' = { g.rolled w store with
        live := { g.live with pending := none, current := some p.node } } := by
  unfold undoPending at h
  rw [bind_modifyLive_apply, bind_get_apply] at h
  obtain ⟨w, store, hgraph, hk⟩ :=
    rolled_of_undoAction (k := fun _ => modifyLive fun l => { l with current := some p.node }) h
  exact ⟨w, store, hgraph, (EStateM.Result.ok.inj hk).2.symm⟩

theorem undoEntry_eq_ok {out : Option Outcome} (h : undoEntry g = .ok out g') :
    ∃ w store, w.graph = g.world.graph ∧
      g' = { g.rolled w store with live := g.live.takenBack } := by
  unfold undoEntry at h
  unfold Live.takenBack
  rw [bind_get_apply] at h
  cases hh : g.live.history with
  | nil =>
    rw [hh] at h
    obtain ⟨-, rfl⟩ := EStateM.Result.ok.inj h
    exact ⟨g.world, g.store, rfl, rfl⟩
  | cons e rest =>
    rw [hh] at h
    simp only at h
    rw [bind_modifyLive_apply] at h
    obtain ⟨w, store, hgraph, hk⟩ := rolled_of_undoAction (k := fun _ => do
      modifyLive fun l => { l with current := some e.outcome.node, terminated := false }
      return some e.outcome) h
    exact ⟨w, store, hgraph, (EStateM.Result.ok.inj hk).2.symm⟩

/-- **What taking the last steps back does** to where play is and goes on. -/
theorem undone_of_undoLast {out : Option Outcome} (h : undoLast g = .ok out g')
    (hk : g.world.Keeps g'.world) : Undone g g' := by
  rw [undoLast_apply] at h
  cases hp : g.live.pending with
  | none =>
    rw [hp] at h
    obtain ⟨w, store, hgraph, rfl⟩ := undoEntry_eq_ok h
    obtain ⟨hstory, hunits, hstarted, honward, hpending, hhistory, hcurrent⟩ :=
      g.live.takenBack_spec
    refine ⟨⟨hk, hstory, hunits⟩, hgraph, rfl, hstarted, honward, ?_, hpending.trans hp, hhistory⟩
    rw [hp, Option.map_none, Option.or_none]
    exact hcurrent
  | some p =>
    rw [hp] at h
    obtain ⟨_, g₁, h₁, h₂⟩ := bind_apply_eq_ok.1 h
    obtain ⟨w₁, store₁, hgraph₁, rfl⟩ := undoPending_eq_ok h₁
    obtain ⟨w, store, hgraph, rfl⟩ := undoEntry_eq_ok h₂
    obtain ⟨hstory, hunits, hstarted, honward, hpending, hhistory, hcurrent⟩ :=
      Live.takenBack_spec { g.live with pending := none, current := some p.node }
    refine ⟨⟨hk, hstory, hunits⟩, hgraph.trans hgraph₁, rfl, hstarted, honward, ?_, hpending,
      hhistory⟩
    refine hcurrent.trans ?_
    rw [hp, Option.or_assoc]
    rfl

end Play

/-! ### Every such game -/

namespace Playing

theorem run (h : Playing d g) : ∃ acc, Run g acc := by
  induction h with
  | start hw _ hh hp => exact ⟨_, .start hw.authored hh hp⟩
  | newGame _ now ih =>
    obtain ⟨acc, hrun⟩ := ih
    exact ⟨_, hrun.newGame now⟩
  | next _ screen step hn ih =>
    obtain ⟨acc, hrun⟩ := ih
    exact ⟨_, hrun.next screen step hn⟩
  | answer _ answer ih =>
    obtain ⟨acc, hrun⟩ := ih
    exact ⟨_, hrun.resolve answer⟩
  | undo _ ih =>
    obtain ⟨acc, hrun⟩ := ih
    exact ⟨_, hrun.undo⟩

theorem sound (h : Playing d g) : g.world.Sound := by
  obtain ⟨acc, hrun⟩ := h.run
  exact hrun.aligned.stacked.sound

theorem undone (h : Playing d g) :
    ∃ out g', Play.undoLast g = .ok out g' ∧ Undone g g' := by
  obtain ⟨acc, hrun⟩ := h.run
  obtain ⟨g', hundo, -, -, -, -, hkeeps, -⟩ := hrun.aligned.undoLast
  exact ⟨_, g', hundo, Play.undone_of_undoLast hundo hkeeps⟩

/-- **The invariant holds of all such games.** -/
theorem poised (h : Playing d g) : Poised d g := by
  induction h with
  | start hw hu hh hp hc =>
    have hlists := hw.holdsLists
    refine ⟨hlists.inSequence, hlists.kinds, hlists.shapes, fun n _ _ _ => hlists.rowsLinked.resumes n, hu,
      fun n hn => ?_, fun e he => ?_, fun _ => ⟨hc, hp, hh⟩, fun p hq => ?_⟩
    · cases hc.symm.trans hn
    · rw [hh] at he
      cases he
    · cases hp.symm.trans hq
  | newGame _ now ih => exact ih.newGame now
  | @next g g' h screen step hn ih =>
    cases step with
    | advanced o => exact ih.advance (ih.advances h.sound hn)
    | suspended f => exact ih.halt (ih.halts h.sound hn)
    | terminated =>
      obtain ⟨hplace, hp, rfl⟩ := Poised.ends hn
      exact ih.ended hplace hp
  | answer _ answer ih => exact ih.answer answer
  | undo h ih =>
    obtain ⟨out, g', hundo, hback⟩ := h.undone
    rw [hundo]
    exact ih.undone hback

/-- **Taking over an outcome** in such a game. -/
theorem advances (h : Playing d g) (hn : Play.next screen g = .ok (.advanced o) g') :
    Advances g o g' := h.poised.advances h.sound hn

/-- **A step that waits** in such a game. -/
theorem halts (h : Playing d g) (hn : Play.next screen g = .ok (.suspended f) g') :
    Halts g f g' := h.poised.halts h.sound hn

end Playing

end Storyline
