import Storyline.Proofs.Game.Undo
import Storyline.Stage.Headless

/-!
# What undoing takes back

* `Accounts g acc`: the commits of every element since the game started, in their order, are those
  of the steps of its account, and no step is counted twice;
* `undoLast_takes_back`: so it is in every run, and undoing takes back the commits of the last steps
  and runs their cleaners, and no others;
* `undo_inverts_play`: undoing `k` times leads to what was seen before the last `k` steps.
-/

namespace Storyline

open Effect

variable {σ : Type} {g g' : Game σ} {acc : Account σ} {opening : World}

/-! ### Commits since the opening -/

theorem Unwinds.proper {M : ElementId → Option (Memory Element.View)} {posts : List (Posting σ)}
    (h : Unwinds opening M posts) : ∀ p ∈ posts, p.Proper opening := by
  induction h with
  | nil => exact fun _ hp => absurd hp List.not_mem_nil
  | cons hp hl h ih =>
    intro q hq
    rcases List.mem_cons.1 hq with rfl | hq
    · exact hp
    · exact ih q hq

theorem World.lt_commits_of_mem_live {w : World} {e : ElementId} {c : Nat × List Cleaner}
    (hc : c ∈ w.live e) : c.1 < w.commits e := by
  unfold World.live World.memory? at hc
  cases hx : w.elements.get? e with
  | none => simp [hx] at hc
  | some x =>
    rw [World.commits_eq hx]
    simp only [hx, Option.map_some, Option.getD_some, Memory.commits, List.mem_map] at hc
    obtain ⟨past, hpast, rfl⟩ := hc
    exact x.lt_commits_of_mem_pasts hpast

/-- The commits of an element since the opening that can be taken back, the last one first. -/
def World.liveSince (opening w : World) (e : ElementId) : List (Nat × List Cleaner) :=
  (w.live e).filter fun c => opening.commits e ≤ c.1

theorem Stacked.live_eq {w : World} {own : Prop} {store : Store} {steps : List (Posting σ)}
    (h : Stacked opening w own store steps) (e : ElementId) :
    w.live e = steps.filterMap (·.item? e) ++ opening.live e :=
  h.unwinds.commits e

theorem Stacked.liveSince_eq {w : World} {own : Prop} {store : Store} {steps : List (Posting σ)}
    (h : Stacked opening w own store steps) (e : ElementId) :
    World.liveSince opening w e = steps.filterMap (·.item? e) := by
  unfold World.liveSince
  rw [h.live_eq, List.filter_append]
  have hnew : (steps.filterMap (·.item? e)).filter (fun c => opening.commits e ≤ c.1) =
      steps.filterMap (·.item? e) := by
    refine List.filter_eq_self.2 fun c hc => ?_
    obtain ⟨p, hp, hpc⟩ := List.mem_filterMap.1 hc
    have hproper := h.unwinds.proper p hp
    unfold Posting.item? Posting.commit? at hpc
    split at hpc
    · rename_i he
      obtain ⟨t, ht, rfl⟩ := Option.map_eq_some_iff.1 hpc
      obtain rfl := hproper.token t ht
      subst he
      exact decide_eq_true (hproper.since _)
    · cases hpc
  have hold : (opening.live e).filter (fun c => opening.commits e ≤ c.1) = [] := by
    refine List.filter_eq_nil_iff.2 fun c hc => ?_
    have hlt := World.lt_commits_of_mem_live hc
    simp only [decide_eq_true_eq]
    omega
  rw [hnew, hold, List.append_nil]

/-! ### Serials -/

/-- No step of an account is counted twice, and the last ones come first. -/
structure Account.Numbered (acc : Account σ) : Prop where
  nodup : (acc.all.map (·.serial) ++ acc.undone).Nodup
  order : (acc.all.map (·.serial)).Pairwise (· > ·)
  bound : ∀ n ∈ acc.all.map (·.serial) ++ acc.undone, n < acc.calls

theorem Account.serial_step? (hw : acc.waiting = none) {p : Posting σ}
    (hp : acc.step? g g' = some p) : p.serial = acc.calls := by
  unfold Account.step? at hp
  rw [hw] at hp
  obtain ⟨n, -, hn⟩ := Option.bind_eq_some_iff.1 hp
  obtain ⟨a, -, ha⟩ := Option.bind_eq_some_iff.1 hn
  obtain rfl := Option.some_inj.1 ha
  rfl

/-- A next step begins one step at most, which has a serial of its own. -/
theorem Account.serials_next (acc : Account σ) (g g' : Game σ) :
    (acc.next g g').all.map (·.serial) = acc.all.map (·.serial) ∨
      (acc.next g g').all.map (·.serial) = acc.calls :: acc.all.map (·.serial) := by
  have hall : (acc.next g g').all = (acc.step? g g').toList ++ acc.posts := by
    unfold Account.next Account.all
    split <;> simp
  rw [hall]
  cases hw : acc.waiting with
  | some p =>
    left
    unfold Account.step? Account.all
    rw [hw]
    rfl
  | none =>
    rw [Aligned.all_eq_posts hw]
    cases hs : acc.step? g g' with
    | none => exact .inl rfl
    | some p =>
      right
      rw [← Account.serial_step? hw hs]
      rfl

theorem Account.Numbered.next (h : acc.Numbered) (g g' : Game σ) : (acc.next g g').Numbered := by
  have hundone : (acc.next g g').undone = acc.undone := by
    unfold Account.next
    split <;> rfl
  have hcalls : (acc.next g g').calls = acc.calls + 1 := by
    unfold Account.next
    split <;> rfl
  -- the step has not posted, or it has, under the number of this call
  rcases acc.serials_next g g' with hs | hs
  · refine ⟨?_, ?_, fun n hn => ?_⟩
    · rw [hs, hundone]
      exact h.nodup
    · rw [hs]
      exact h.order
    · rw [hs, hundone] at hn
      have := h.bound n hn
      omega
  · refine ⟨?_, ?_, fun n hn => ?_⟩
    · rw [hs, hundone, List.cons_append, List.nodup_cons]
      exact ⟨fun hm => Nat.lt_irrefl _ (h.bound _ hm), h.nodup⟩
    · rw [hs, List.pairwise_cons]
      exact ⟨fun n hn => h.bound n (List.mem_append_left _ hn), h.order⟩
    · rw [hs, hundone, List.cons_append] at hn
      rcases List.mem_cons.1 hn with rfl | hn
      · omega
      · have := h.bound n hn
        omega

/-- The steps that undoing takes back, the one that waits first. -/
def Account.last (acc : Account σ) : List (Posting σ) := acc.waiting.toList ++ acc.posts.head?.toList

theorem Account.all_eq_last (acc : Account σ) : acc.all = acc.last ++ acc.back.all := by
  unfold Account.all Account.last Account.back
  cases acc.posts <;> simp

theorem Account.Numbered.back (h : acc.Numbered) : acc.back.Numbered := by
  have hperm : (acc.back.all.map (·.serial) ++ acc.back.undone).Perm
      (acc.all.map (·.serial) ++ acc.undone) := by
    have hundone : acc.back.undone = (acc.posts.head?.toList.map (·.serial) ++
        acc.waiting.toList.map (·.serial)) ++ acc.undone := rfl
    have hlast : acc.last.map (·.serial) = acc.waiting.toList.map (·.serial) ++
        acc.posts.head?.toList.map (·.serial) := List.map_append
    rw [acc.all_eq_last, hundone, List.map_append, hlast, ← List.append_assoc]
    refine .append_right _ (List.perm_append_comm.trans ?_)
    exact .append_right _ List.perm_append_comm
  refine ⟨hperm.nodup_iff.2 h.nodup, ?_, fun n hn => h.bound n (hperm.mem_iff.1 hn)⟩
  have hall := h.order
  rw [acc.all_eq_last, List.map_append] at hall
  exact (List.pairwise_append.1 hall).2.1

theorem Run.numbered (h : Run g acc) : acc.Numbered := by
  induction h with
  | start => exact ⟨List.nodup_nil, .nil, fun _ hn => absurd hn List.not_mem_nil⟩
  | newGame h now ih =>
    refine ⟨(List.nodup_append.1 ih.nodup).2.1, .nil, fun n hn => ih.bound n ?_⟩
    exact List.mem_append_right _ hn
  | next h screen step hn ih => exact ih.next _ _
  | resolve h answer ih => exact ih
  | undo h ih => exact ih.back
  | write h store ih => exact ⟨ih.nodup, ih.order, ih.bound⟩

/-! ### The main statements -/

/-- **What an account says of its game.** Steps and commits stand in it with the last one first. -/
structure Accounts (g : Game σ) (acc : Account σ) : Prop where
  /-- The steps of the account are those of the history, with a commit where the history notes
  one. -/
  history : acc.posts.map (fun p => (p.action.node, p.token.isSome)) =
    g.live.history.map fun e => (e.outcome.node, e.committed)
  /-- The step that waits is the same, with a commit if its element counts one more than before. -/
  pending : acc.waiting.map (fun p => (p.action.node, p.token.isSome)) =
    g.live.pending.map fun q => (q.node, decide (q.before < g.world.commits q.callee))
  callee : ∀ p ∈ acc.all, g.world.calleeOf p.action.node = .ok p.action.callee
  /-- The commits that an element has made since the game started and that were not taken back are
  those of the steps on it, one each, with the cleaner that the host answered in that step. -/
  commits : ∀ e, World.liveSince acc.opening g.world e = acc.all.filterMap (·.item? e)
  /-- No step is there twice or was taken back. -/
  nodup : (acc.all.map (·.serial) ++ acc.undone).Nodup
  order : (acc.all.map (·.serial)).Pairwise (· > ·)

theorem Aligned.accounts (h : Aligned g acc) (hn : acc.Numbered) : Accounts g acc := by
  refine ⟨h.history, ?_, fun p hp => ?_, h.stacked.liveSince_eq, hn.nodup, hn.order⟩
  · cases hq : g.live.pending with
    | none =>
      rw [h.waiting_eq_none hq]
      rfl
    | some q =>
      obtain ⟨p, hp, ha⟩ := h.waiting_of_pending hq
      have hc : p.token.isSome = decide (q.before < g.world.commits q.callee) := by
        have hlt := ha.did.commits_lt_iff
        rw [ha.before, ha.callee, Posting.commits, Bool.eq_iff_iff, decide_eq_true_iff, hlt,
          Posting.done, Option.isSome_map]
      rw [hp, Option.map_some, Option.map_some, ← ha.node, hc]
  · rw [World.calleeOf_eq_ok_iff]
    refine ⟨p.action, ?_, rfl⟩
    rw [(h.stacked.keeps p hp).action?]
    exact (h.stacked.unwinds.proper p hp).action

theorem Play.store_of_next {screen : Screen σ} {step : Step} (hw : g.world.Sound)
    (h : Play.next screen g = .ok step g') :
    g'.store = g.store ∨ ∃ n a, g.world.action? n = some a ∧
      g'.store = (a.host g.world g.store).1 := by
  cases Play.moved_of_next h with
  | waits q hq hf => exact .inl rfl
  | resumes q o w hq hf hw => exact .inl rfl
  | ends hq => exact .inl rfl
  | executes node a o s hq ha hs =>
    obtain ⟨a', commit, ha', hp⟩ := Perform.execute_spec hw hs
    exact .inr ⟨node, a', ha', hp.store⟩
  | begins node a f s hq ha hs =>
    obtain ⟨a', commit, ha', hp⟩ := Perform.execute_spec hw hs
    exact .inr ⟨node, a', ha', hp.store⟩

/-- **Undoing takes back what the last steps have done.** In every game that new games, next steps,
answers, undoing and writes of the host lead to, the commits of all elements are accounted for by
the steps. Undoing never fails there. It takes the commits of the step that waits and of the last
one of the history, in this order, and no others, and runs their cleaners, which nothing else
runs. -/
theorem undoLast_takes_back (h : Run g acc) :
    Accounts g acc ∧
      (∃ g', Play.undoLast g = .ok (g.live.history.head?.map (·.outcome)) g' ∧
        Accounts g' acc.back ∧ acc.all = acc.last ++ acc.back.all ∧
        (∀ e, g.world.live e = acc.last.filterMap (·.item? e) ++ g'.world.live e) ∧
        g'.store = acc.last.foldl (fun store p => Cleaner.runIfAny p.cleaner store) g.store) ∧
      ∀ (screen : Screen σ) step g', Play.next screen g = .ok step g' →
        g'.store = g.store ∨ ∃ n a, g.world.action? n = some a ∧
          g'.store = (a.host g.world g.store).1 := by
  have ha := h.aligned
  have hn := h.numbered
  obtain ⟨g', hrun, ha', -, -, hstore, -, -⟩ := ha.undoLast
  refine ⟨ha.accounts hn, ⟨g', hrun, ha'.accounts hn.back, acc.all_eq_last, fun e => ?_, hstore⟩,
    fun screen step g' hg' => Play.store_of_next ha.stacked.sound hg'⟩
  have hopen : acc.back.opening = acc.opening := rfl
  rw [ha.stacked.live_eq e, ha'.stacked.live_eq e, acc.all_eq_last, List.filterMap_append,
    List.append_assoc, hopen]

/-! ### A short tale -/

/-- The tale of a scene that changes its background and of a script that adds a namespace. -/
def shortTale : Game Headless where
  config := {}
  live := { story := some ⟨5⟩, units := [⟨2⟩, ⟨4⟩] }
  stage := {
    world := World.new.callAll [
      .scene "stage" {}, .append ⟨1⟩ (.setBackground "dawn"),
      .script fun _ _ store => (store.register { name := "dawn", key := "dawn" }, some fun _ => store),
      .toAction .script ⟨3⟩, .story "tale", .storyAction ⟨5⟩ [[⟨2⟩, ⟨4⟩]], .setRoot ⟨5⟩]
    store := {}
    futures := {}
    screen := {} }

/-- The tale and its account after a number of steps. -/
def shortRun : Nat → Game Headless × Account Headless
  | 0 => (shortTale.newGame default, { opening := shortTale.world })
  | n + 1 =>
    let (g, acc) := shortRun n
    let g' := left (Play.next Headless.screen g)
    (g', acc.next g g')

/-- Whether a program succeeded. -/
def succeeds {ε τ α : Type} : EStateM.Result ε τ α → Bool
  | .ok _ _ => true
  | .error _ _ => false

theorem run_shortRun (n : Nat)
    (h : ∀ m < n, succeeds (Play.next Headless.screen (shortRun m).1) = true) :
    Run (shortRun n).1 (shortRun n).2 := by
  induction n with
  | zero =>
    have hstart : Run shortTale { opening := shortTale.world } :=
      .start (World.Authored.new.callAll _) rfl rfl
    exact hstart.newGame default
  | succ n ih =>
    have hn := h n (by omega)
    have hrun := ih fun m hm => h m (by omega)
    cases hr : Play.next Headless.screen (shortRun n).1 with
    | error e g' =>
      rw [hr] at hn
      cases hn
    | ok step g' =>
      have hleft : (shortRun (n + 1)).1 = g' := congrArg left hr
      have hacc : (shortRun (n + 1)).2 = (shortRun n).2.next (shortRun n).1 g' :=
        congrArg ((shortRun n).2.next (shortRun n).1) hleft
      rw [hleft, hacc]
      exact hrun.next Headless.screen step hr

theorem undoLast_takes_back_shortRun :
    (shortRun 3).1.live.history.length = 2 ∧ Accounts (shortRun 3).1 (shortRun 3).2 ∧
      ∃ g' outcome, Play.undoLast (shortRun 3).1 = .ok outcome g' ∧
        Accounts g' (shortRun 3).2.back := by
  obtain ⟨haccounts, ⟨g', hundo, hback, -⟩, -⟩ :=
    undoLast_takes_back (run_shortRun 3 (by decide +kernel))
  exact ⟨by decide +kernel, haccounts, g', _, hundo, hback⟩

/-! ### Undoing many times -/

/-- Undoing a number of times. -/
def Play.undoTimes : Nat → Play σ Unit
  | 0 => pure ()
  | k + 1 => do
    discard Play.undoLast
    undoTimes k

/-- What undoing leads to, one step after the other: the game itself and then the games just before
the steps of the history. -/
def Account.pasts (acc : Account σ) (g : Game σ) : List (Game σ) := g :: acc.posts.map (·.before)

theorem Aligned.undoTimes (h : Aligned g acc) (hp : g.live.pending = none) (k : Nat)
    (hk : k ≤ acc.posts.length) :
    ∃ g' past, Play.undoTimes k g = .ok () g' ∧ (acc.pasts g)[k]? = some past ∧
      g'.world.memory? = past.world.memory? ∧
        (g.world.Mending → acc.written = false → g'.store = past.store) := by
  induction k generalizing g acc with
  | zero => exact ⟨g, g, rfl, rfl, rfl, fun _ _ => rfl⟩
  | succ k ih =>
    obtain ⟨g₁, hrun, ha, -, hpend, hstore, hkeeps, hmem⟩ := h.undoLast
    have hw := h.waiting_eq_none hp
    cases hposts : acc.posts with
    | nil => simp [hposts] at hk
    | cons p posts =>
      have hback : acc.back.posts = posts := by
        unfold Account.back
        rw [hposts]
        rfl
      rw [hposts, List.length_cons] at hk
      obtain ⟨g', past, hrun', hpast, hmem', hstore'⟩ :=
        ih ha hpend (by rw [hback]; omega)
      have hall : Play.undoTimes (k + 1) g = .ok () g' := by
        unfold Play.undoTimes
        rw [bind_of_ok (discard_apply_of_ok hrun), hrun']
      have hm : g.world.Mending → g₁.world.Mending := hkeeps.mending_iff.2
      -- the first undoing leads to what there was before the last step, the others go on from there
      cases k with
      | zero =>
        obtain rfl : g₁ = past := by simpa [Account.pasts] using hpast
        refine ⟨g', p.before, hall, by simp [Account.pasts, hposts], ?_, fun hmend hown => ?_⟩
        · rw [hmem', hmem hw p (by rw [hposts]; rfl)]
        · have hst := h.stacked
          rw [all_eq_posts hw, hposts] at hst
          rw [hstore' (hm hmend) hown, hstore, hw, hposts, ← hst.runIfAny_cleaner hown hmend]
          rfl
      | succ k =>
        refine ⟨g', past, hall, ?_, hmem', fun hmend => hstore' (hm hmend)⟩
        simpa [Account.pasts, hposts, hback] using hpast

/-- **Undo inverts play.** In every game that new games, next steps, answers, undoing and writes of the
host lead to and in which no step waits, undoing `k` times succeeds. What is seen of images, sounds,
scenes, menus, conditions and scripts is then what was seen just before the step of the last entry but
`k - 1`. So is the store if the host mends what its code does and wrote nothing else to it since the game
started. -/
theorem undo_inverts_play (h : Run g acc) (hp : g.live.pending = none) (k : Nat)
    (hk : k ≤ g.live.history.length) :
    acc.posts.map (·.action.node) = g.live.history.map (·.outcome.node) ∧
      ∃ g' past, Play.undoTimes k g = .ok () g' ∧ (acc.pasts g)[k]? = some past ∧
        (∀ e, g'.world.view? e = past.world.view? e) ∧
        (g.world.Mending → acc.written = false → g'.store = past.store) := by
  have ha := h.aligned
  have hlen : acc.posts.length = g.live.history.length := by
    simpa using congrArg List.length ha.history
  have hnodes : acc.posts.map (·.action.node) = g.live.history.map (·.outcome.node) := by
    simpa [Function.comp_def] using congrArg (List.map Prod.fst) ha.history
  obtain ⟨g', past, hrun, hpast, hmem, hstore⟩ := ha.undoTimes hp k (hlen ▸ hk)
  refine ⟨hnodes, g', past, hrun, hpast, fun e => ?_, hstore⟩
  rw [World.view?_eq, World.view?_eq, hmem]

/-- The script of the tale answers a cleaner that leads back to the store that it found. -/
theorem mending_shortRun : (shortRun 3).1.world.Mending := by
  rw [World.mending_iff]
  intro e x hx
  have he : e ∈ (shortRun 3).1.world.elements.table.keys := by
    obtain ⟨y, hy, -⟩ := Option.map_eq_some_iff.1 hx
    have hsome : (shortRun 3).1.world.elements.table[e]?.isSome := Option.isSome_of_eq_some hy
    exact Std.ExtTreeMap.mem_keys.2 (Std.ExtTreeMap.mem_iff_isSome_getElem?.2 hsome)
  have hkeys : (shortRun 3).1.world.elements.table.keys = [⟨1⟩, ⟨3⟩, ⟨5⟩] := by decide +kernel
  have hkind : ((shortRun 3).1.world.written? e).map Element.kind = some x.kind := by
    rw [hx, Option.map_some]
  rw [hkeys] at he
  simp only [List.mem_cons, List.not_mem_nil, or_false] at he
  rcases he with rfl | rfl | rfl
  · have hk : x.kind = .scene := Option.some_inj.1 (hkind.symm.trans (by decide +kernel))
    exact Element.mending_of_kind (by simp [hk]) (by simp [hk])
  · have hscript : (shortRun 3).1.world.written? ⟨3⟩ =
        some (.script { id := ⟨3⟩, handler := fun _ _ store =>
          (store.register { name := "dawn", key := "dawn" }, some fun _ => store) }) := rfl
    obtain rfl := Option.some_inj.1 (hx.symm.trans hscript)
    intro calls node store
    exact ⟨_, rfl, rfl⟩
  · have hk : x.kind = .story := Option.some_inj.1 (hkind.symm.trans (by decide +kernel))
    exact Element.mending_of_kind (by simp [hk]) (by simp [hk])

theorem undo_inverts_play_shortRun :
    ∃ g' past, Play.undoTimes 2 (shortRun 3).1 = .ok () g' ∧
      ((shortRun 3).2.pasts (shortRun 3).1)[2]? = some past ∧
      (∀ e, g'.world.view? e = past.world.view? e) ∧ g'.store = past.store := by
  obtain ⟨-, g', past, hundo, hpast, hview, hstore⟩ :=
    undo_inverts_play (run_shortRun 3 (by decide +kernel)) (by decide +kernel) 2 (by decide +kernel)
  exact ⟨g', past, hundo, hpast, hview, hstore mending_shortRun (by decide +kernel)⟩

end Storyline
