import Storyline.Proofs.Game.Account
import Storyline.Proofs.Stage.Mending

/-!
# Accounts agree with logs

* `Posting.Led p M`: what was seen and could be taken back before a step, and one commit on top of
  that if the step has made one, is what there is in `M`;
* `Unwinds opening M posts`: the steps of `posts` lead, one after the other, from the opening to `M`;
* `Aligned g acc`: the invariant of runs: the history, the step that waits and the logs of all
  elements are those of the account;
* `Run.aligned`: every run keeps it; `Aligned.undoLast`: so that undoing never fails and takes back
  what the last steps have done, no more and no less.
-/

namespace Storyline

open Effect

variable {σ : Type}

/-! ### Steps on top of each other -/

namespace Posting

variable {p : Posting σ} {w : World}

/-- What there was before a step, and one commit on top if the step has made one. -/
def Led (p : Posting σ) (M : ElementId → Option (Memory Element.View)) : Prop :=
  match p.token with
  | none => M = p.before.world.memory?
  | some t => ∃ m v, p.before.world.memory? p.action.callee = some m ∧
      M p.action.callee = some (m.push t v p.cleaner.toList) ∧
      ∀ x, x ≠ p.action.callee → M x = p.before.world.memory? x

/-- What holds of a posting in itself. -/
structure Proper (opening : World) (p : Posting σ) : Prop where
  action : p.before.world.action? p.action.node = some p.action
  token : ∀ t, p.token = some t → t = p.commits
  cleaner : p.token = none → p.cleaner = none
  since : ∀ e, opening.commits e ≤ p.before.world.commits e

/-- The cleaners of the commit of a step, if there is one. -/
def done (p : Posting σ) : Option (List Cleaner) := p.token.map fun _ => p.cleaner.toList

theorem led_of_did (hp : ∀ t, p.token = some t → t = p.commits)
    (h : p.before.world.Did w p.action.callee p.done) : p.Led w.memory? := by
  unfold Led
  unfold done at h
  cases ht : p.token with
  | none =>
    rw [ht] at h
    exact funext (World.Quiet.memory? h)
  | some t =>
    rw [ht] at h
    obtain ⟨m, v, hm, hm'⟩ := World.Recorded.self h
    obtain rfl := hp t ht
    exact ⟨m, v, hm, hm', fun x hx => (World.Recorded.other h x hx).1⟩

/-- Looking again at a log that has the commit of a step or none changes nothing. -/
theorem sign_of_did (hp : ∀ t, p.token = some t → t = p.commits)
    (h : p.before.world.Did w p.action.callee p.done) : p.sign w = p := by
  have hlt := h.commits_lt_iff
  unfold sign commits
  cases ht : p.token with
  | none =>
    have hnot : ¬ p.before.world.commits p.action.callee < w.commits p.action.callee := by
      rw [hlt]
      simp [done, ht]
    rw [if_neg hnot, ← ht]
  | some t =>
    have hyes : p.before.world.commits p.action.callee < w.commits p.action.callee := by
      rw [hlt]
      simp [done, ht]
    rw [if_pos hyes]
    obtain rfl := hp t ht
    show ({ p with token := some p.commits } : Posting σ) = p
    rw [← ht]

/-- A step that has just been looked at has the commit that was made, if one was. -/
theorem sign_spec {commit : Option (List Cleaner)}
    (h : p.before.world.Did w p.action.callee commit) (hc : commit.getD [] = p.cleaner.toList) :
    (p.sign w).done = commit ∧ (∀ t, (p.sign w).token = some t → t = p.commits) ∧
      ((p.sign w).token = none → p.cleaner = none) := by
  have hlt := h.commits_lt_iff
  unfold done sign commits
  cases commit with
  | none =>
    have hnot : ¬ p.before.world.commits p.action.callee < w.commits p.action.callee := by
      rw [hlt]
      simp
    simp only [if_neg hnot]
    refine ⟨rfl, nofun, fun _ => ?_⟩
    cases hcl : p.cleaner with
    | none => rfl
    | some clean => simp [hcl] at hc
  | some cleaners =>
    have hyes : p.before.world.commits p.action.callee < w.commits p.action.callee := by
      rw [hlt]
      simp
    simp only [if_pos hyes]
    refine ⟨?_, fun t ht => (Option.some_inj.1 ht).symm, nofun⟩
    exact congrArg some hc.symm

end Posting

/-- Steps, the last one first, that lead one after the other from an opening. -/
inductive Unwinds (opening : World) :
    (ElementId → Option (Memory Element.View)) → List (Posting σ) → Prop
  | nil : Unwinds opening opening.memory? []
  | cons {M : ElementId → Option (Memory Element.View)} {p : Posting σ} {rest : List (Posting σ)}
      (hp : p.Proper opening) (hl : p.Led M) (h : Unwinds opening p.before.world.memory? rest) :
      Unwinds opening M (p :: rest)

theorem Unwinds.top {opening : World} {M : ElementId → Option (Memory Element.View)}
    {p : Posting σ} {rest : List (Posting σ)} (h : Unwinds opening M (p :: rest)) :
    p.Proper opening ∧ p.Led M ∧ Unwinds opening p.before.world.memory? rest := by
  cases h with
  | cons hp hl h => exact ⟨hp, hl, h⟩

/-- A store that was last changed by the steps, the last one first. -/
def LeftBy : Store → List (Posting σ) → Prop
  | _, [] => True
  | store, p :: rest => store = p.store ∧ LeftBy p.before.store rest

/-- The commits in a memory, the last one first, each with its cleaners. -/
def Memory.commits {ν : Type} (m : Memory ν) : List (Nat × List Cleaner) :=
  m.pasts.map fun past => (past.token, past.cleaners)

/-- The commits of an element that can be taken back, the last one first, with their cleaners. -/
def World.live (w : World) (e : ElementId) : List (Nat × List Cleaner) :=
  ((w.memory? e).map (·.commits)).getD []

/-- The commits of an element are those of its steps, on top of what there was at the opening. -/
theorem Unwinds.commits {opening : World} {M : ElementId → Option (Memory Element.View)}
    {posts : List (Posting σ)} (h : Unwinds opening M posts) (e : ElementId) :
    ((M e).map (·.commits)).getD [] = posts.filterMap (·.item? e) ++ opening.live e := by
  induction h with
  | nil => rfl
  | @cons M p rest hp hl h ih =>
    have hrest : ((p :: rest).filterMap (·.item? e)) =
        (p.item? e).toList ++ rest.filterMap (·.item? e) := by
      rw [List.filterMap_cons]
      cases p.item? e <;> rfl
    rw [hrest, List.append_assoc, ← ih]
    unfold Posting.Led at hl
    unfold Posting.item? Posting.commit?
    cases ht : p.token with
    | none =>
      rw [ht] at hl
      simp [hl]
    | some t =>
      rw [ht] at hl
      obtain ⟨m, v, hm, hM, hother⟩ := hl
      -- a commit is seen at the element of its step only
      by_cases he : p.action.callee = e
      · subst he
        rw [if_pos rfl, hM, hm]
        rfl
      · rw [if_neg he, hother e (Ne.symm he)]
        rfl

/-- **Steps on top of each other**, the last one first, that lead from the opening of a game to the
world that there is, and to the store if it is the steps' own and nobody else wrote to it. -/
structure Stacked (opening w : World) (own : Prop) (store : Store) (steps : List (Posting σ)) :
    Prop where
  sound : w.Sound
  since : ∀ e, opening.commits e ≤ w.commits e
  keeps : ∀ p ∈ steps, p.before.world.Keeps w
  unwinds : Unwinds opening w.memory? steps
  leftBy : own → w.Mending → LeftBy store steps

namespace Stacked

variable {opening w w' : World} {own : Prop} {store : Store} {p p' : Posting σ}
  {steps : List (Posting σ)}

theorem opened (hw : w.Sound) (own : Prop) (store : Store) :
    Stacked w w own store ([] : List (Posting σ)) :=
  ⟨hw, fun _ => Nat.le_refl _, fun _ h => absurd h List.not_mem_nil, .nil, fun _ _ => trivial⟩

theorem action? (h : Stacked opening w own store (p :: steps)) :
    w.action? p.action.node = some p.action := by
  rw [(h.keeps p (by simp)).action?]
  exact h.unwinds.top.1.action

theorem push (h : Stacked opening w own store steps) (hw : p.before.world = w)
    (hs : p.before.store = store) (ha : w.action? p.action.node = some p.action)
    (ht : ∀ t, p.token = some t → t = p.commits) (hc : p.token = none → p.cleaner = none)
    (hd : p.before.world.Did w' p.action.callee p.done) :
    Stacked opening w' own p.store (p :: steps) := by
  subst hw
  have hk := hd.keeps
  refine ⟨hk.sound h.sound, fun e => Nat.le_trans (h.since e) (hd.commits_le e), fun q hq => ?_,
    .cons ⟨ha, ht, hc, h.since⟩ (p.led_of_did ht hd) h.unwinds,
    fun ho hm => ⟨rfl, ?_⟩⟩
  · rcases List.mem_cons.1 hq with rfl | hq
    · exact hk
    · exact (h.keeps q hq).trans hk
  · rw [hs]
    exact h.leftBy ho (hk.mending_iff.1 hm)

theorem resign (h : Stacked opening w own store (p :: steps)) (hk : w.Keeps w')
    (hle : ∀ e, w.commits e ≤ w'.commits e) (hb : p'.before = p.before)
    (ha : p'.action = p.action) (ht : ∀ t, p'.token = some t → t = p'.commits)
    (hc : p'.token = none → p'.cleaner = none)
    (hd : p'.before.world.Did w' p'.action.callee p'.done) :
    Stacked opening w' own store (p' :: steps) := by
  have htop := h.unwinds.top
  have haction : p'.before.world.action? p'.action.node = some p'.action := by
    rw [hb, ha]
    exact htop.1.action
  refine ⟨hk.sound h.sound, fun e => Nat.le_trans (h.since e) (hle e), fun q hq => ?_,
    .cons ⟨haction, ht, hc, hb ▸ htop.1.since⟩ (p'.led_of_did ht hd) (hb ▸ htop.2.2),
    fun ho hm => ?_⟩
  · rcases List.mem_cons.1 hq with rfl | hq
    · exact hd.keeps
    · exact (h.keeps q (by simp [hq])).trans hk
  · obtain ⟨hstore, hrest⟩ := h.leftBy ho (hk.mending_iff.1 hm)
    refine ⟨hstore.trans ?_, hb ▸ hrest⟩
    unfold Posting.store
    rw [ha, hb]

/-- If the host mends what it does, the cleaner of the step on top leads back to the store before. -/
theorem runIfAny_cleaner (h : Stacked opening w own store (p :: steps)) (ho : own)
    (hm : w.Mending) : Cleaner.runIfAny p.cleaner store = p.before.store := by
  obtain ⟨hstore, -⟩ := h.leftBy ho hm
  have hbefore := (h.keeps p (by simp)).mending_iff.1 hm
  rw [hstore]
  exact hbefore.runIfAny_host p.action p.before.store

theorem pop (h : Stacked opening w own store (p :: steps)) (hk : w.Keeps w')
    (hm : w'.memory? = p.before.world.memory?) (hc : ∀ e, w'.commits e = w.commits e) :
    Stacked opening w' own (Cleaner.runIfAny p.cleaner store) steps := by
  refine ⟨hk.sound h.sound, fun e => (hc e).symm ▸ h.since e, fun q hq => ?_, ?_,
    fun ho hmend => ?_⟩
  · exact (h.keeps q (by simp [hq])).trans hk
  · rw [hm]
    exact h.unwinds.top.2.2
  · have hmend' := hk.mending_iff.1 hmend
    rw [h.runIfAny_cleaner ho hmend']
    exact (h.leftBy ho hmend').2

end Stacked

/-! ### The invariant of runs -/

/-- A step of the account that is the one the game waits for. -/
structure Posting.Awaits (p : Posting σ) (q : Pending) (g : Game σ) : Prop where
  node : q.node = p.action.node
  callee : q.callee = p.action.callee
  before : q.before = p.commits
  did : p.before.world.Did g.world p.action.callee p.done
  future : g.stage.futures.Yields q.future fun o =>
    o.node = p.action.node ∧ (p.done.isSome → o.choice = none)

/-- The step that waits in an account is the one that waits in the game. -/
def Waits (g : Game σ) : Option (Posting σ) → Prop
  | none => g.live.pending = none
  | some p => ∃ q, g.live.pending = some q ∧ p.Awaits q g

/-- **An account agrees with its game**: the same steps were played, the same one waits, and they
have left what can be taken back. -/
structure Aligned (g : Game σ) (acc : Account σ) : Prop where
  stacked : Stacked acc.opening g.world (acc.written = false) g.store acc.all
  history : acc.posts.map (fun p => (p.action.node, p.token.isSome)) =
    g.live.history.map fun e => (e.outcome.node, e.committed)
  waiting : Waits g acc.waiting

namespace Aligned

variable {g g' : Game σ} {acc : Account σ} {p : Posting σ} {screen : Screen σ} {step : Step}

theorem opened (hw : g.world.Sound) (hh : g.live.history = []) (hp : g.live.pending = none)
    (acc : Account σ) : Aligned g (acc.reopen g.world) := by
  refine ⟨.opened hw _ _, ?_, hp⟩
  rw [hh]
  rfl

theorem waiting_of_pending {q : Pending} (h : Aligned g acc) (hq : g.live.pending = some q) :
    ∃ p, acc.waiting = some p ∧ p.Awaits q g := by
  have hw := h.waiting
  cases hp : acc.waiting with
  | none =>
    rw [hp] at hw
    rw [show g.live.pending = none from hw] at hq
    cases hq
  | some p =>
    rw [hp] at hw
    obtain ⟨q', hq', ha⟩ := hw
    obtain rfl : q' = q := Option.some_inj.1 (hq'.symm.trans hq)
    exact ⟨p, rfl, ha⟩

theorem waiting_eq_none (h : Aligned g acc) (hq : g.live.pending = none) : acc.waiting = none := by
  have hw := h.waiting
  cases hp : acc.waiting with
  | none => rfl
  | some p =>
    rw [hp] at hw
    obtain ⟨q, hq', -⟩ := hw
    rw [hq] at hq'
    cases hq'

theorem all_eq (hw : acc.waiting = some p) : acc.all = p :: acc.posts := by
  unfold Account.all
  rw [hw]
  rfl

theorem all_eq_posts (hw : acc.waiting = none) : acc.all = acc.posts := by
  unfold Account.all
  rw [hw]
  rfl

/-! ### Answers and next steps -/

theorem resolve (h : Aligned g acc) (answer : FutureId × Resolution) :
    Aligned (g.mapStage fun s => { s with futures := s.futures.settle answer }) acc := by
  refine ⟨h.stacked, h.history, ?_⟩
  have hw := h.waiting
  cases hp : acc.waiting with
  | none =>
    rw [hp] at hw
    exact hw
  | some p =>
    rw [hp] at hw
    obtain ⟨q, hq, ha⟩ := hw
    exact ⟨q, hq, ha.node, ha.callee, ha.before, ha.did, ha.future.settle answer⟩

/-- The host writes to the store, which is not the steps' own any longer. -/
theorem write (h : Aligned g acc) (store : Store) :
    Aligned (g.mapStage fun s => { s with store }) { acc with written := true } where
  stacked := {
    sound := h.stacked.sound
    since := h.stacked.since
    keeps := h.stacked.keeps
    unwinds := h.stacked.unwinds
    leftBy := fun hown => absurd hown (by simp) }
  history := h.history
  waiting := by
    have hw := h.waiting
    show Waits _ acc.waiting
    cases hp : acc.waiting with
    | none =>
      rw [hp] at hw
      exact hw
    | some p =>
      rw [hp] at hw
      obtain ⟨q, hq, ha⟩ := hw
      exact ⟨q, hq, ha.node, ha.callee, ha.before, ha.did, ha.future⟩

theorem congr (h : Aligned g acc) (hs : g'.stage = g.stage)
    (hh : g'.live.history = g.live.history) (hp : g'.live.pending = g.live.pending) (n : Nat) :
    Aligned g' { acc with calls := n } := by
  have hworld : g'.world = g.world := congrArg Stage.world hs
  have hstore : g'.store = g.store := congrArg Stage.store hs
  refine ⟨?_, hh ▸ h.history, ?_⟩
  · rw [hworld, hstore]
    exact h.stacked
  · have hw := h.waiting
    show Waits g' acc.waiting
    cases hwait : acc.waiting with
    | none =>
      rw [hwait] at hw
      exact hp.trans hw
    | some p =>
      rw [hwait] at hw
      obtain ⟨q, hq, ha⟩ := hw
      refine ⟨q, hp.trans hq, ha.node, ha.callee, ha.before, ?_, ?_⟩
      · rw [hworld]
        exact ha.did
      · rw [hs]
        exact ha.future

/-- The posting of an action that was just performed on the stage of a game. -/
theorem posted {s : Stage σ} {r : Executed} {a : Action} {commit : Option (List Cleaner)}
    (h : Aligned g acc) (hw : acc.waiting = none) (ha : g.world.action? a.node = some a)
    (hp : Performed a g.stage s r commit) {post : Posting σ}
    (hpost : post = { serial := acc.calls, before := g, action := a : Posting σ }.sign s.world) :
    Stacked acc.opening s.world (acc.written = false) s.store (post :: acc.posts) ∧ post.done = commit ∧
      post.before.world.Did s.world a.callee post.done ∧
      post.token.isSome = decide (g.world.commits a.callee < s.world.commits a.callee) := by
  obtain ⟨hdone, htoken, hcleaner⟩ := Posting.sign_spec
    (p := { serial := acc.calls, before := g, action := a : Posting σ }) hp.did hp.cleaners
  rw [← hpost] at hdone htoken hcleaner
  have hbefore : post.before = g := by rw [hpost]; rfl
  have haction : post.action = a := by rw [hpost]; rfl
  have hdid : post.before.world.Did s.world a.callee post.done := by
    rw [hdone, hbefore]
    exact hp.did
  have hst := h.stacked
  rw [all_eq_posts hw] at hst
  have hstore : s.store = post.store := by
    rw [hp.store, Posting.store, hbefore, haction]
    rfl
  refine ⟨?_, hdone, hdid, ?_⟩
  · rw [hstore]
    refine hst.push (by rw [hbefore]) (by rw [hbefore]) (by rwa [haction]) (fun t ht => ?_)
      (fun ht => ?_) (by rwa [haction])
    · rw [htoken t ht, hpost]
      rfl
    · rw [← hcleaner ht, hpost]
      rfl
  · rw [hpost]
    unfold Posting.sign Posting.commits
    simp only
    split <;> simp_all

/-! Each way of going on keeps an account. -/

theorem next_waits {q : Pending} (h : Aligned g acc) (hq : g.live.pending = some q) :
    Aligned g (acc.next g g) := by
  obtain ⟨p, hp, ha⟩ := h.waiting_of_pending hq
  have hst := h.stacked
  rw [all_eq hp] at hst
  rw [Account.next_of_waits hp hq, Posting.sign_of_did hst.unwinds.top.1.token ha.did, ← hp]
  exact h.congr rfl rfl rfl _

/-- A step has done nothing more when its future comes to an outcome, or it has made the commit of
the pick, and that one only. -/
theorem did_of_result {q : Pending} {o : Outcome} {w : World} {own : Prop} {store : Store}
    {steps : List (Posting σ)} (hst : Stacked acc.opening g.world own store (p :: steps))
    (ha : p.Awaits q g) (hf : g.stage.futures.result? q.future = some o)
    (hw : match o.choice with
      | some index => Build.choose o.node index g.world = .ok () w
      | none => w = g.world) :
    ∃ commit, p.before.world.Did w p.action.callee commit ∧ commit.getD [] = p.cleaner.toList ∧
      g.world.Keeps w ∧ ∀ e, g.world.commits e ≤ w.commits e := by
  obtain ⟨hnode, hchoice⟩ := ha.future.result hf
  have hproper := hst.unwinds.top.1
  cases hc : o.choice with
  | none =>
    obtain rfl : w = g.world := by simpa [hc] using hw
    refine ⟨p.done, ha.did, ?_, .refl _, fun _ => Nat.le_refl _⟩
    unfold Posting.done
    cases ht : p.token with
    | none =>
      rw [hproper.cleaner ht]
      rfl
    | some t => rfl
  | some index =>
    have hchoose : Build.choose o.node index g.world = .ok () w := by simpa [hc] using hw
    obtain ⟨a, commit, haction, hempty, hd⟩ := Build.choose_spec hst.sound hchoose
    -- a step that has made its commit has no choice left
    have hnone : p.token = none := by
      cases ht : p.token with
      | none => rfl
      | some t =>
        rw [hchoice (by simp [Posting.done, ht])] at hc
        cases hc
    obtain rfl : a = p.action := by
      rw [hnode, hst.action?] at haction
      exact (Option.some_inj.1 haction).symm
    have hquiet : p.before.world.Quiet g.world := by
      have hd' := ha.did
      rw [Posting.done, hnone] at hd'
      exact hd'
    refine ⟨commit, hquiet.did hd, ?_, hd.keeps, hd.commits_le⟩
    rw [hempty, hproper.cleaner hnone]
    rfl

theorem next_resumes {q : Pending} {o : Outcome} {w : World} (h : Aligned g acc)
    (hq : g.live.pending = some q) (hf : g.stage.futures.result? q.future = some o)
    (hw : match o.choice with
      | some index => Build.choose o.node index g.world = .ok () w
      | none => w = g.world) :
    Aligned ((g.awaited w).adopted o q.callee q.before)
      (acc.next g ((g.awaited w).adopted o q.callee q.before)) := by
  obtain ⟨p, hp, ha⟩ := h.waiting_of_pending hq
  have hst := h.stacked
  rw [all_eq hp] at hst
  rw [Account.next_of_resumes hp rfl]
  obtain ⟨commit, hd, hcl, hk, hle⟩ := did_of_result hst ha hf hw
  obtain ⟨hdone, htoken, hcleaner⟩ := Posting.sign_spec hd hcl
  have hd' : (p.sign w).before.world.Did w (p.sign w).action.callee (p.sign w).done := by
    rw [hdone]
    exact hd
  have hst' : Stacked acc.opening w (acc.written = false) g.store (p.sign w :: acc.posts) :=
    hst.resign hk hle rfl rfl htoken hcleaner hd'
  refine ⟨hst', ?_, rfl⟩
  have hcommitted : (p.sign w).token.isSome = decide (q.before < w.commits q.callee) := by
    rw [ha.before, ha.callee]
    unfold Posting.sign
    simp only
    split <;> simp_all
  show _ :: acc.posts.map _ = _ :: g.live.history.map _
  rw [h.history]
  exact congrArg (· :: _) (Prod.ext (ha.future.result hf).1.symm hcommitted)

theorem next_ends (h : Aligned g acc) (hq : g.live.pending = none) :
    Aligned { g with live := { g.live.aim with terminated := true } }
      (acc.next g { g with live := { g.live.aim with terminated := true } }) := by
  have hh : { g with live := { g.live.aim with terminated := true } }.live.history =
    g.live.history := g.live.history_aim
  have hp : { g with live := { g.live.aim with terminated := true } }.live.pending = none :=
    g.live.pending_aim.trans hq
  rw [Account.next_of_ends (h.waiting_eq_none hq) hp hh]
  exact h.congr (by rfl) hh (hp.trans hq.symm) _

theorem next_executes {node : NodeId} {a : Action} {o : Outcome} {s : Stage σ} (h : Aligned g acc)
    (hq : g.live.pending = none) (ha : g.world.action? node = some a)
    (hs : Perform.execute screen node g.stage = .ok (.immediate o) s) :
    Aligned (({ g with live := g.live.aim }.executed node s).adopted o a.callee
        (g.world.commits a.callee))
      (acc.next g (({ g with live := g.live.aim }.executed node s).adopted o a.callee
        (g.world.commits a.callee))) := by
  obtain ⟨a', commit, ha', hp⟩ := Perform.execute_spec h.stacked.sound hs
  obtain rfl : a' = a := Option.some_inj.1 (ha'.symm.trans ha)
  obtain rfl : a'.node = node := h.stacked.sound.node node a' ha
  obtain rfl : o = a'.outcome := hp.ends
  have hw := h.waiting_eq_none hq
  obtain ⟨hst, -, -, htoken⟩ := h.posted hw ha hp rfl
  have hh : (({ g with live := g.live.aim }.executed a'.node s).adopted a'.outcome a'.callee
      (g.world.commits a'.callee)).live.history =
      ⟨a'.outcome, g.world.commits a'.callee < s.world.commits a'.callee⟩ :: g.live.history := by
    show _ :: (g.live.aim.reach a'.node).history = _
    rw [Live.history_reach, Live.history_aim]
    rfl
  have hpend : (({ g with live := g.live.aim }.executed a'.node s).adopted a'.outcome a'.callee
      (g.world.commits a'.callee)).live.pending = none := by
    show (g.live.aim.reach a'.node).pending = none
    rw [Live.pending_reach, Live.pending_aim, hq]
  rw [Account.next_of_executes hw hpend hh ha]
  refine ⟨hst, ?_, hpend⟩
  rw [hh, List.map_cons, List.map_cons, h.history]
  refine congrArg (· :: _) (Prod.ext rfl ?_)
  exact htoken

theorem next_begins {node : NodeId} {a : Action} {f : FutureId} {s : Stage σ} (h : Aligned g acc)
    (hq : g.live.pending = none) (ha : g.world.action? node = some a)
    (hs : Perform.execute screen node g.stage = .ok (.suspended f) s) :
    Aligned (({ g with live := g.live.aim }.executed node s).awaiting
        ⟨node, f, a.callee, g.world.commits a.callee⟩)
      (acc.next g (({ g with live := g.live.aim }.executed node s).awaiting
        ⟨node, f, a.callee, g.world.commits a.callee⟩)) := by
  obtain ⟨a', commit, ha', hp⟩ := Perform.execute_spec h.stacked.sound hs
  obtain rfl : a' = a := Option.some_inj.1 (ha'.symm.trans ha)
  obtain rfl : a'.node = node := h.stacked.sound.node node a' ha
  have hw := h.waiting_eq_none hq
  obtain ⟨hst, hdone, hdid, -⟩ := h.posted hw ha hp rfl
  rw [Account.next_of_begins hw rfl ha]
  refine ⟨hst, ?_, ⟨_, rfl, rfl, rfl, rfl, hdid, ?_⟩⟩
  · show _ = (g.live.aim.reach a'.node).history.map _
    rw [Live.history_reach, Live.history_aim, h.history]
  · have hends : s.futures.Yields f fun o =>
        o.node = a'.node ∧ (commit.isSome → o.choice = none) := hp.ends
    rw [← hdone] at hends
    exact hends

/-- **A next step** keeps an account. -/
theorem next (h : Aligned g acc) (hn : Play.next screen g = .ok step g') :
    Aligned g' (acc.next g g') := by
  cases Play.moved_of_next hn with
  | waits q hq hf => exact h.next_waits hq
  | resumes q o w hq hf hw => exact h.next_resumes hq hf hw
  | ends hq => exact h.next_ends hq
  | executes node a o s hq ha hs => exact h.next_executes hq ha hs
  | begins node a f s hq ha hs => exact h.next_begins hq ha hs

end Aligned

end Storyline
