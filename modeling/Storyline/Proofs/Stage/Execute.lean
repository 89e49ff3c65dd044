import Storyline.Proofs.World.Change
import Storyline.Stage.Execute

/-!
# What executing an action does

* `Futures.Yields fs f good`: whatever the future comes to is good, now or after any answers;
* `Action.host`: what the host's code behind an action answers, the store it leaves and a cleaner;
* `Performed`: an action makes one commit of its element at most, which keeps the cleaner; the store
  is the one that the host left; and what ends the action is an outcome of its node;
* `executeAction_spec`, `execute_spec`: every action that does not fail is performed so.
-/

namespace Storyline

open Effect

/-! ### Futures -/

namespace Futures

variable {fs : Futures} {f : FutureId} {good : Outcome → Prop} {o : Outcome}

/-- Whatever the future comes to is good. -/
def Yields (fs : Futures) (f : FutureId) (good : Outcome → Prop) : Prop :=
  ∃ cell, fs.get? f = some cell ∧
    (∀ receive, cell.receiver = some receive → ∀ r, good (receive r)) ∧
    ∀ o, cell.result = some o → good o

theorem Yields.result (h : fs.Yields f good) (ho : fs.result? f = some o) : good o := by
  obtain ⟨cell, hcell, -, hresult⟩ := h
  unfold result? at ho
  rw [hcell] at ho
  exact hresult o ho

/-- A new future comes to what its receiver makes of an answer. -/
theorem yields_add {receiver : Resolution → Outcome} (h : ∀ r, good (receiver r)) :
    (fs.add receiver).2.Yields (fs.add receiver).1 good := by
  refine ⟨.fresh receiver, ?_, ?_, nofun⟩
  · unfold get? add
    simp
  · rintro receive ⟨⟩
    exact h

/-- An answer that is taken turns the receiver of its future into the result. -/
theorem get?_resolve {fs' : Futures} {g : FutureId} {r : Resolution}
    (h : fs.resolve g r = .ok fs') :
    ∃ cell receive, fs.get? g = some cell ∧ cell.receiver = some receive ∧
      fs'.get? g = some { receiver := none, result := some (receive r) } ∧
      ∀ f, f ≠ g → fs'.get? f = fs.get? f := by
  unfold Futures.resolve at h
  cases hg : fs.get? g with
  | none => simp [hg] at h
  | some cell =>
    simp only [hg] at h
    obtain ⟨⟨receive, begun⟩, hbegin, h₁⟩ := bind_eq_ok.1 h
    obtain ⟨rfl⟩ := h₁
    unfold Deferred.Cell.begin? at hbegin
    cases hrec : cell.receiver with
    | none => simp [hrec] at hbegin
    | some receive' =>
      rw [hrec] at hbegin
      obtain ⟨rfl, rfl⟩ := Prod.mk.inj (Except.ok.inj hbegin)
      unfold get? at hg ⊢
      refine ⟨cell, receive', rfl, hrec, ?_, fun f hf => ?_⟩
      · rw [Array.getElem?_setIfInBounds, if_pos rfl,
          if_pos (Array.getElem?_eq_some_iff.1 hg).1]
        rfl
      · have hval : g.val ≠ f.val := fun e => hf (congrArg FutureId.mk e.symm)
        rw [Array.getElem?_setIfInBounds, if_neg hval]

theorem Yields.resolve {fs' : Futures} {g : FutureId} {r : Resolution} (h : fs.Yields f good)
    (hr : fs.resolve g r = .ok fs') : fs'.Yields f good := by
  obtain ⟨cell, hcell, hreceiver, hresult⟩ := h
  obtain ⟨answered, receive, hg, hrec, hself, hother⟩ := get?_resolve hr
  by_cases hf : f = g
  · -- the future itself is answered
    subst hf
    obtain rfl : cell = answered := Option.some_inj.1 (hcell.symm.trans hg)
    refine ⟨_, hself, nofun, fun o ho => ?_⟩
    obtain rfl : receive r = o := Option.some_inj.1 ho
    exact hreceiver receive hrec r
  · exact ⟨cell, (hother f hf).trans hcell, hreceiver, hresult⟩

theorem Yields.settle (h : fs.Yields f good) (answer : FutureId × Resolution) :
    (fs.settle answer).Yields f good := by
  unfold Futures.settle
  split
  · exact h.resolve ‹_›
  · exact h

theorem Yields.foldl_settle (h : fs.Yields f good) (answers : List (FutureId × Resolution)) :
    (answers.foldl Futures.settle fs).Yields f good := by
  induction answers generalizing fs with
  | nil => exact h
  | cons answer rest ih => exact ih (h.settle answer)

end Futures

/-! ### Single changes of a stage -/

/-- The stage after the screen was given a cue. -/
def Stage.sent {σ : Type} (screen : Screen σ) (cue : Cue) (s : Stage σ) : Stage σ :=
  { s with
    screen := (screen.receive cue s.screen).1
    futures := (screen.receive cue s.screen).2.foldl Futures.settle s.futures }

namespace Perform

variable {σ α β : Type} {screen : Screen σ} {s s' : Stage σ} {a : Action} {r : Executed}

@[simp] theorem bind_send_apply (cue : Cue) (k : PUnit → Perform σ β) (s : Stage σ) :
    (send screen cue >>= k) s = k ⟨⟩ (s.sent screen cue) := rfl

@[simp] theorem bind_put_apply [Elemental α] (x : α) (k : PUnit → Perform σ β) (s : Stage σ) :
    (build (Build.put x) >>= k) s = k ⟨⟩ { s with world := s.world.put x } := rfl

@[simp] theorem bind_suspend_apply (a : Action) (k : FutureId → Perform σ β) (s : Stage σ) :
    (suspend a >>= k) s =
      k (s.futures.add fun _ => a.outcome).1
        { s with futures := (s.futures.add fun _ => a.outcome).2 } := rfl

theorem build_eq_ok_iff {change : Build α} {x : α} :
    build change s = .ok x s' ↔
      ∃ w, change s.world = .ok x w ∧ s' = { s with world := w } := by
  unfold build
  cases change s.world with
  | ok y w =>
    constructor
    · rintro ⟨⟩
      exact ⟨w, rfl, rfl⟩
    · rintro ⟨w', ⟨⟩, rfl⟩
      rfl
  | error e w => simp

theorem build_find_eq_ok_iff [Elemental α] [LawfulElemental α] {e : ElementId} {x : α} :
    build (Build.find α e) s = .ok x s' ↔
      s.world.elements.get? e = some (Elemental.toElement x) ∧ s' = s := by
  rw [build_eq_ok_iff]
  constructor
  · rintro ⟨w, hw, rfl⟩
    obtain ⟨hx, rfl⟩ := Build.find_eq_ok_iff.1 hw
    exact ⟨hx, rfl⟩
  · rintro ⟨hx, rfl⟩
    exact ⟨_, Build.find_eq_ok_iff.2 ⟨hx, rfl⟩, rfl⟩

theorem bind_find_eq_ok [Elemental α] [LawfulElemental α] {e : ElementId} {k : α → Perform σ β}
    {y : β} (h : (build (Build.find α e) >>= k) s = .ok y s') :
    ∃ x, s.world.elements.get? e = some (Elemental.toElement x) ∧ k x s = .ok y s' := by
  obtain ⟨x, s₁, hfind, h₁⟩ := bind_apply_eq_ok.1 h
  obtain ⟨hx, rfl⟩ := build_find_eq_ok_iff.1 hfind
  exact ⟨x, hx, h₁⟩

theorem bind_splice_eq_ok {node : NodeId} {branch : Option Chain} {k : Unit → Perform σ β} {y : β}
    (h : (build (Build.ofEdit (Graph.splice node branch)) >>= k) s = .ok y s') :
    ∃ w, s.world.Quiet w ∧ k () { s with world := w } = .ok y s' := by
  obtain ⟨_, s₁, hsplice, h₁⟩ := bind_apply_eq_ok.1 h
  obtain ⟨w, hg, rfl⟩ := build_eq_ok_iff.1 hsplice
  exact ⟨w, Build.ofEdit_splice hg, h₁⟩

end Perform

/-! ### Actions -/

/-- What the host's code behind an action answers on a store: the store it leaves and a cleaner, if
any. Only scripts and conditions call the host. -/
def Action.host (a : Action) (w : World) (store : Store) : Store × Option Cleaner :=
  match a.kind, w.elements.get? a.callee with
  | .script, some (.script s) => s.handler s.calls a.node store
  | .condition, some (.condition c) =>
    ((c.evaluate store).2, (c.evaluate store).1.bind (·.cleaner))
  | _, _ => (store, none)

/-- An action ends in its own outcome, or in a future of one. Only where nothing was committed a
choice may be waited for. -/
def Action.Ends (a : Action) (commit : Option (List Cleaner)) (fs : Futures) : Executed → Prop
  | .immediate o => o = a.outcome
  | .suspended f => fs.Yields f fun o => o.node = a.node ∧ (commit.isSome → o.choice = none)

/-- What an action does that does not fail. -/
structure Performed {σ : Type} (a : Action) (s s' : Stage σ) (r : Executed)
    (commit : Option (List Cleaner)) : Prop where
  did : s.world.Did s'.world a.callee commit
  store : s'.store = (a.host s.world s.store).1
  cleaners : commit.getD [] = (a.host s.world s.store).2.toList
  ends : a.Ends commit s'.futures r

namespace Perform

variable {σ : Type} {screen : Screen σ} {s s' : Stage σ} {a : Action} {r : Executed}

theorem host_of_ne (hs : a.kind ≠ .script) (hc : a.kind ≠ .condition) (w : World) (store : Store) :
    a.host w store = (store, none) := by
  unfold Action.host
  split <;> simp_all

theorem ends_suspend (commit : Option (List Cleaner)) (fs : Futures) (cue : Cue) (s : Stage σ) :
    a.Ends commit
      (Stage.sent screen cue { s with futures := (fs.add fun _ => a.outcome).2 }).futures
      (.suspended (fs.add fun _ => a.outcome).1) := by
  have h : (fs.add fun _ => a.outcome).2.Yields (fs.add fun _ => a.outcome).1
      fun o => o.node = a.node ∧ (commit.isSome → o.choice = none) :=
    Futures.yields_add fun _ => ⟨rfl, fun _ => rfl⟩
  exact h.foldl_settle _

/-! ### Every kind of action -/

theorem performed_of_did {commit : Option (List Cleaner)} (hs : a.kind ≠ .script)
    (hc : a.kind ≠ .condition) (hd : s.world.Did s'.world a.callee commit)
    (hstore : s'.store = s.store) (hcl : commit.getD [] = []) (he : a.Ends commit s'.futures r) :
    Performed a s s' r commit := by
  refine ⟨hd, ?_, ?_, he⟩
  · rw [host_of_ne hs hc, hstore]
  · rw [host_of_ne hs hc, hcl]
    rfl

/-- What an action does to an image that has its name on the screen. -/
def actOn (screen : Screen σ) (a : Action) (event : Option ImageEvent) (name : String) (i : Image) :
    Perform σ Executed := do
  build (Build.put i)
  match event with
  | none => return .immediate a.outcome
  | some event =>
    let f ← suspend a
    send screen (.animate name event f)
    return .suspended f

theorem actOn_ok (event : Option ImageEvent) (name : String) (i : Image)
    (h : actOn screen a event name i s = .ok r s') (commit : Option (List Cleaner)) :
    s'.world = s.world.put i ∧ s'.store = s.store ∧ a.Ends commit s'.futures r := by
  unfold actOn at h
  rw [bind_put_apply] at h
  cases event with
  | none =>
    obtain ⟨rfl, rfl⟩ := EStateM.Result.ok.inj h
    exact ⟨rfl, rfl, rfl⟩
  | some event =>
    simp only [bind_suspend_apply, bind_send_apply] at h
    obtain ⟨rfl, rfl⟩ := EStateM.Result.ok.inj h
    exact ⟨rfl, rfl, ends_suspend _ _ _ _⟩

theorem image_spec {change : Image → Image} {event : Option ImageEvent} (hw : s.world.Sound)
    (hchange : Element.ImageChange change) (hs : a.kind ≠ .script) (hc : a.kind ≠ .condition)
    (h : image screen a change event s = .ok r s') : ∃ commit, Performed a s s' r commit := by
  unfold image at h
  obtain ⟨i, hi, h₁⟩ := bind_find_eq_ok h
  cases hp : i.presented with
  | some name =>
    simp only [hp] at h₁
    obtain ⟨hworld, hstore, hends⟩ := actOn_ok event name (change i) h₁ (some [])
    have hr := World.recorded_put (a := change i) hw hi (hchange i (hw.settled _ _ hi))
    exact ⟨some [], performed_of_did hs hc (hworld ▸ hr) hstore rfl hends⟩
  | none =>
    simp only [hp, bind_get_apply, bind_modify_apply, bind_put_apply, bind_send_apply] at h₁
    obtain ⟨hworld, hstore, hends⟩ := actOn_ok event _ (change _) h₁ (some [])
    have hquiet := World.quiet_named hw hi
    have hi' := (World.get?_named hw hi a.callee).trans (if_pos rfl)
    have hr := World.recorded_put (a := change (s.world.naming i)) (hquiet.sound hw) hi'
      (hchange _ ((hquiet.sound hw).settled _ _ hi'))
    exact ⟨some [], performed_of_did hs hc (hworld ▸ hquiet.recorded hr) hstore rfl hends⟩

section Kinds

variable (hw : s.world.Sound) (h : executeAction screen a s = .ok r s')

include hw h

theorem say_spec {line : Sentence} (hk : a.kind = .say line) :
    ∃ commit, Performed a s s' r commit := by
  unfold executeAction at h
  simp only [hk] at h
  obtain ⟨c, hc, h₁⟩ := bind_find_eq_ok h
  have hr := World.recorded_put (a := c.say a.node) hw hc
    (Element.recorded_say (hw.settled _ _ hc) a.node)
  simp only [bind_put_apply, bind_suspend_apply, bind_send_apply] at h₁
  obtain ⟨hres, rfl⟩ := EStateM.Result.ok.inj h₁
  refine ⟨some [], performed_of_did (by simp [hk]) (by simp [hk]) hr rfl rfl ?_⟩
  rw [← hres]
  -- a line that does not pause is over at once, although it has got a future
  split
  · exact ends_suspend _ _ _ _
  · rfl

theorem hideLine_spec {line : NodeId} (hk : a.kind = .hideLine line) :
    ∃ commit, Performed a s s' r commit := by
  unfold executeAction at h
  simp only [hk] at h
  obtain ⟨c, hc, h₁⟩ := bind_find_eq_ok h
  cases hhide : c.hide? line with
  | some c' =>
    have hr := World.recorded_put (a := c') hw hc
      (Element.recorded_hide (hw.settled _ _ hc) hhide)
    simp only [hhide, bind_put_apply, bind_send_apply] at h₁
    obtain ⟨rfl, rfl⟩ := EStateM.Result.ok.inj h₁
    exact ⟨some [], performed_of_did (by simp [hk]) (by simp [hk]) hr rfl rfl rfl⟩
  | none =>
    -- the line is not on the screen, and nothing is recorded
    simp only [hhide] at h₁
    obtain ⟨rfl, rfl⟩ := EStateM.Result.ok.inj h₁
    exact ⟨none, performed_of_did (by simp [hk]) (by simp [hk]) (World.Quiet.refl _) rfl rfl rfl⟩

omit hw in
theorem scene_spec {chain : Option Chain} (hk : a.kind = .scene chain) :
    ∃ commit, Performed a s s' r commit := by
  unfold executeAction at h
  simp only [hk] at h
  obtain ⟨c, -, h₁⟩ := bind_find_eq_ok h
  rw [bind_send_apply] at h₁
  obtain ⟨w, hquiet, h₂⟩ := bind_splice_eq_ok h₁
  obtain ⟨rfl, rfl⟩ := EStateM.Result.ok.inj h₂
  exact ⟨none, performed_of_did (by simp [hk]) (by simp [hk]) hquiet rfl rfl rfl⟩

omit hw in
theorem story_spec {chain : Option Chain} (hk : a.kind = .story chain) :
    ∃ commit, Performed a s s' r commit := by
  unfold executeAction at h
  simp only [hk] at h
  obtain ⟨w, hquiet, h₁⟩ := bind_splice_eq_ok h
  obtain ⟨rfl, rfl⟩ := EStateM.Result.ok.inj h₁
  exact ⟨none, performed_of_did (by simp [hk]) (by simp [hk]) hquiet rfl rfl rfl⟩

theorem setBackground_spec {src : String} (hk : a.kind = .setBackground src) :
    ∃ commit, Performed a s s' r commit := by
  unfold executeAction at h
  simp only [hk] at h
  obtain ⟨c, hc, h₁⟩ := bind_find_eq_ok h
  have hr := World.recorded_put (a := c.setBackground src) hw hc
    (Element.recorded_setBackground (hw.settled _ _ hc) src)
  simp only [bind_put_apply, bind_suspend_apply, bind_send_apply] at h₁
  obtain ⟨rfl, rfl⟩ := EStateM.Result.ok.inj h₁
  exact ⟨some [], performed_of_did (by simp [hk]) (by simp [hk]) hr rfl rfl (ends_suspend _ _ _ _)⟩

omit hw in
theorem sleep_spec {d : Span} (hk : a.kind = .sleep d) :
    ∃ commit, Performed a s s' r commit := by
  unfold executeAction at h
  simp only [hk] at h
  obtain ⟨_, s₁, hfind, h₁⟩ := bind_apply_eq_ok.1 h
  obtain ⟨c, hfind'⟩ := discard_apply_eq_ok.1 hfind
  obtain ⟨-, rfl⟩ := build_find_eq_ok_iff.1 hfind'
  simp only [bind_suspend_apply, bind_send_apply] at h₁
  obtain ⟨rfl, rfl⟩ := EStateM.Result.ok.inj h₁
  exact ⟨none, performed_of_did (by simp [hk]) (by simp [hk]) (World.Quiet.refl _) rfl rfl
    (ends_suspend _ _ _ _)⟩

theorem condition_spec (hk : a.kind = .condition) : ∃ commit, Performed a s s' r commit := by
  unfold executeAction at h
  simp only [hk] at h
  obtain ⟨c, hc, h₁⟩ := bind_find_eq_ok h
  have hr := World.recorded_put (a := (c.run s.store).2.1) hw hc
    (Element.recorded_condition (hw.settled _ _ hc) s.store)
  simp only [bind_get_apply, bind_modify_apply, bind_put_apply] at h₁
  obtain ⟨w, hquiet, h₂⟩ := bind_splice_eq_ok h₁
  obtain ⟨rfl, rfl⟩ := EStateM.Result.ok.inj h₂
  have hhost : a.host s.world s.store =
      ((c.evaluate s.store).2, (c.evaluate s.store).1.bind (·.cleaner)) := by
    unfold Action.host
    rw [hk, hc]
    rfl
  refine ⟨some _, hr.quiet hquiet, ?_, ?_, rfl⟩
  · rw [hhost]
    rfl
  · rw [hhost]
    rfl

theorem script_spec (hk : a.kind = .script) : ∃ commit, Performed a s s' r commit := by
  unfold executeAction at h
  simp only [hk] at h
  obtain ⟨c, hc, h₁⟩ := bind_find_eq_ok h
  have hr := World.recorded_put (a := (c.run a.node s.store).1) hw hc
    (Element.recorded_script (hw.settled _ _ hc) a.node s.store)
  simp only [bind_get_apply, bind_modify_apply, bind_put_apply] at h₁
  obtain ⟨rfl, rfl⟩ := EStateM.Result.ok.inj h₁
  have hhost : a.host s.world s.store = c.handler c.calls a.node s.store := by
    unfold Action.host
    rw [hk, hc]
    rfl
  refine ⟨some _, hr, ?_, ?_, rfl⟩
  · rw [hhost]
    rfl
  · rw [hhost]
    rfl

omit hw in
theorem menu_spec (hk : a.kind = .menu) : ∃ commit, Performed a s s' r commit := by
  unfold executeAction at h
  simp only [hk] at h
  obtain ⟨m, -, h₁⟩ := bind_find_eq_ok h
  obtain ⟨rfl, rfl⟩ := EStateM.Result.ok.inj h₁
  refine ⟨none, performed_of_did (by simp [hk]) (by simp [hk]) (World.Quiet.refl _) rfl rfl ?_⟩
  -- the one future that may end in a choice, and nothing is committed before the pick
  have hyields : (s.futures.add a.outcome.answered).2.Yields
      (s.futures.add a.outcome.answered).1
      fun o => o.node = a.node ∧ ((none : Option (List Cleaner)).isSome → o.choice = none) :=
    Futures.yields_add fun r => ⟨by cases r <;> rfl, nofun⟩
  exact hyields.foldl_settle _

theorem play_spec (hk : a.kind = .play) : ∃ commit, Performed a s s' r commit := by
  unfold executeAction at h
  simp only [hk] at h
  obtain ⟨c, hc, h₁⟩ := bind_find_eq_ok h
  have hr := World.recorded_put (a := c.play) hw hc (Element.recorded_play (hw.settled _ _ hc))
  rw [bind_put_apply] at h₁
  -- only a sound that blocks is waited for
  split at h₁
  · simp only [bind_suspend_apply, bind_send_apply] at h₁
    obtain ⟨rfl, rfl⟩ := EStateM.Result.ok.inj h₁
    exact ⟨some [], performed_of_did (by simp [hk]) (by simp [hk]) hr rfl rfl
      (ends_suspend _ _ _ _)⟩
  · rw [bind_send_apply] at h₁
    obtain ⟨rfl, rfl⟩ := EStateM.Result.ok.inj h₁
    exact ⟨some [], performed_of_did (by simp [hk]) (by simp [hk]) hr rfl rfl rfl⟩

theorem stop_spec (hk : a.kind = .stop) : ∃ commit, Performed a s s' r commit := by
  unfold executeAction at h
  simp only [hk] at h
  obtain ⟨c, hc, h₁⟩ := bind_find_eq_ok h
  have hr := World.recorded_put (a := c.stop) hw hc (Element.recorded_stop (hw.settled _ _ hc))
  simp only [bind_put_apply, bind_send_apply] at h₁
  obtain ⟨rfl, rfl⟩ := EStateM.Result.ok.inj h₁
  exact ⟨some [], performed_of_did (by simp [hk]) (by simp [hk]) hr rfl rfl rfl⟩

end Kinds

/-- **What an action does** that does not fail, whichever it is. -/
theorem executeAction_spec (hw : s.world.Sound) (h : executeAction screen a s = .ok r s') :
    ∃ commit, Performed a s s' r commit := by
  cases hk : a.kind with
  | say line => exact say_spec hw h hk
  | hideLine line => exact hideLine_spec hw h hk
  | scene chain => exact scene_spec h hk
  | story chain => exact story_spec h hk
  | setBackground src => exact setBackground_spec hw h hk
  | sleep d => exact sleep_spec h hk
  | condition => exact condition_spec hw h hk
  | script => exact script_spec hw h hk
  | menu => exact menu_spec h hk
  | play => exact play_spec hw h hk
  | stop => exact stop_spec hw h hk
  -- the kinds for an image are one change with its own values
  | setSrc src =>
    unfold executeAction at h
    simp only [hk] at h
    exact image_spec hw (Element.imageChange_setSrc src) (by simp [hk]) (by simp [hk]) h
  | setPosition p t =>
    unfold executeAction at h
    simp only [hk] at h
    exact image_spec hw (Element.imageChange_setPosition p) (by simp [hk]) (by simp [hk]) h
  | showImage t =>
    unfold executeAction at h
    simp only [hk] at h
    exact image_spec hw (Element.imageChange_setDisplayed true) (by simp [hk]) (by simp [hk]) h
  | hideImage t =>
    unfold executeAction at h
    simp only [hk] at h
    exact image_spec hw (Element.imageChange_setDisplayed false) (by simp [hk]) (by simp [hk]) h
  | applyTransform t =>
    unfold executeAction at h
    simp only [hk] at h
    exact image_spec hw (Element.imageChange_applyTransform t) (by simp [hk]) (by simp [hk]) h

/-- What executing the action of a node does that does not fail. -/
theorem execute_spec {node : NodeId} (hw : s.world.Sound)
    (h : execute screen node s = .ok r s') :
    ∃ a commit, s.world.action? node = some a ∧ Performed a s s' r commit := by
  unfold execute at h
  rw [bind_get_apply] at h
  cases ha : s.world.action? node with
  | none =>
    simp only [ha] at h
    cases h
  | some a =>
    simp only [ha, bind_send_apply] at h
    obtain ⟨commit, hp⟩ := executeAction_spec (s := s.sent screen (.handle a)) hw h
    exact ⟨a, commit, rfl, hp.did, hp.store, hp.cleaners, hp.ends⟩

end Perform

end Storyline
