import Storyline.Player.Console
import Storyline.Proofs.Stage.Grafts

/-!
# The screen of the terminal player keeps its prompt

* `Waiting.Asks q w a f`: what the player is asked for is what the action waits for: a line, or one of as
  many entries as its menu has;
* `Action.Pauses`: whether an action waits for the player;
* `Console.Shown a s s' r`: what the screen makes of an action: the future of an action that pauses is what
  the screen asks for, and all others are answered by the screen itself;
* `Console.shown_of_execute`: **every action** that is executed is shown so.
-/

namespace Storyline

open Effect

/-! ### Futures that were just made -/

namespace Futures

variable (fs : Futures) (receive : Resolution → Outcome) (r : Resolution)

theorem isSolved_add : (fs.add receive).2.isSolved (fs.add receive).1 = false := by
  unfold isSolved result? get? add
  simp [Deferred.Cell.fresh]

theorem isSolved_settle_add :
    ((fs.add receive).2.settle ((fs.add receive).1, r)).isSolved (fs.add receive).1 = true := by
  have hnone : (fs.add receive).2.result? (fs.add receive).1 = none :=
    Option.not_isSome_iff_eq_none.1 (Bool.not_eq_true _ ▸ isSolved_add fs receive)
  unfold isSolved
  rw [(asks_add fs receive).answer hnone r]
  rfl

end Futures

namespace Player

/-! ### What the player is asked for -/

/-- What the player is asked for is what an action waits for. -/
def Waiting.Asks (q : Waiting) (w : World) (a : Action) (f : FutureId) : Prop :=
  match a.kind with
  | .say _ => q = .line f
  | .menu => ∃ m : Menu, w.elements.get? a.callee = some (.menu m) ∧ q = .menu f m.choices.length
  | _ => False

/-- The future that the player answers. -/
def Waiting.future : Waiting → FutureId
  | .line f | .menu f _ => f

theorem Waiting.Asks.future {q : Waiting} {w : World} {a : Action} {f : FutureId}
    (h : q.Asks w a f) : q.future = f := by
  unfold Waiting.Asks at h
  split at h
  · subst h
    rfl
  · obtain ⟨m, -, rfl⟩ := h
    rfl
  · exact h.elim

end Player

/-- An action that waits for the player: a line that pauses, or a menu. -/
def Action.Pauses (a : Action) : Prop :=
  match a.kind with
  | .say line => line.style.pause = true
  | .menu => True
  | _ => False

theorem Action.not_pauses_of_kind {a : Action} {kind : ActionKind} (hk : a.kind = kind)
    (hs : ∀ line, kind ≠ .say line) (hm : kind ≠ .menu) : ¬ a.Pauses := by
  unfold Action.Pauses
  rw [hk]
  split
  · exact absurd rfl (hs _)
  · exact absurd rfl hm
  · exact id

theorem Character.pause_speak (c : Character) (line : Sentence) :
    (c.speak line).style.pause = line.style.pause := by
  unfold Character.speak
  cases c.config.color with
  | none => rfl
  | some color =>
    simp only
    split <;> rfl

namespace Player.Console

variable {c : Console} {s s' : Stage Console} {a : Action} {r : Executed} {cue : Cue}

/-! ### The screen goes on as it is -/

theorem auto_printEntries (n : Nat) (choices : List Sentence) :
    (c.printEntries n choices).auto = c.auto := by
  induction choices generalizing c n with
  | nil => rfl
  | cons choice rest ih => exact ih (n + 1)

theorem auto_ask (q : Waiting) (f : FutureId) (r : Resolution) : (c.ask q f r).1.auto = c.auto := by
  unfold ask
  split <;> rfl

theorem auto_receive (cue : Cue) (c : Console) : (screen.receive cue c).1.auto = c.auto := by
  show (receive cue c).1.auto = c.auto
  cases cue with
  | say n line f => exact auto_ask _ _ _
  | menu n prompt choices f =>
    refine (auto_ask _ _ _).trans ?_
    unfold printMenu
    rw [auto_printEntries]
    cases prompt <;> rfl
  | sleep d f =>
    unfold receive
    simp only
    split <;> rfl
  | _ => rfl

@[simp] theorem auto_sent (cue : Cue) (s : Stage Console) :
    (s.sent screen cue).screen.auto = s.screen.auto := auto_receive cue s.screen

/-! ### What comes of an action -/

/-- **What the screen makes of an action.** -/
structure Shown (a : Action) (s s' : Stage Console) (r : Executed) : Prop where
  auto : s'.screen.auto = s.screen.auto
  /-- What the screen has not answered, it asks for. -/
  asks : ∀ f, r = .suspended f → s'.futures.isSolved f = false →
    s.screen.auto = false ∧ a.Pauses ∧ ∃ q, s'.screen.waiting = some q ∧ q.Asks s'.world a f
  pauses : s.screen.auto = false → a.Pauses → ∃ f, r = .suspended f ∧ s'.futures.isSolved f = false

namespace Shown

theorem of_passes (hp : ¬ a.Pauses) (hauto : s'.screen.auto = s.screen.auto)
    (h : ∀ f, r = .suspended f → s'.futures.isSolved f = true) : Shown a s s' r :=
  ⟨hauto, fun f hf hn => Bool.noConfusion (hn.symm.trans (h f hf)), fun _ ha => absurd ha hp⟩

theorem of_immediate (hp : ¬ a.Pauses) (hauto : s'.screen.auto = s.screen.auto) (o : Outcome) :
    Shown a s s' (.immediate o) := of_passes hp hauto fun _ hf => nomatch hf

theorem of_answered (hp : ¬ a.Pauses) {f : FutureId} {r : Resolution} {fs : Futures}
    {receive : Resolution → Outcome} (hauto : s'.screen.auto = s.screen.auto)
    (hf : f = (fs.add receive).1) (hfs : s'.futures = (fs.add receive).2.settle (f, r)) :
    Shown a s s' (.suspended f) := by
  refine of_passes hp hauto fun g hg => ?_
  obtain rfl := Executed.suspended.inj hg
  rw [hfs, hf]
  exact Futures.isSolved_settle_add fs receive r

/-- An action whose future the player is asked for, unless the screen answers all by itself. -/
theorem of_asked (hp : a.Pauses) {f : FutureId} {q : Waiting} {r : Resolution} {fs : Futures}
    {receive : Resolution → Outcome} {c : Console} (hf : f = (fs.add receive).1)
    (hq : q.Asks s'.world a f) (hc : c.auto = s.screen.auto)
    (hs : s'.screen = (c.ask q f r).1)
    (hfs : s'.futures = (c.ask q f r).2.foldl Futures.settle (fs.add receive).2) :
    Shown a s s' (.suspended f) := by
  have hasks := Futures.isSolved_add fs receive
  have hsolved := Futures.isSolved_settle_add fs receive r
  rw [← hf] at hasks hsolved
  refine ⟨?_, fun g hg hn => ?_, fun hauto _ => ⟨f, rfl, ?_⟩⟩
  · rw [hs, auto_ask, hc]
  · obtain rfl := Executed.suspended.inj hg
    unfold ask at hs hfs
    rw [hc] at hs hfs
    -- in automatic mode the prompt is solved at once, else it is put on the screen
    cases hauto : s.screen.auto with
    | true =>
      rw [hauto, if_pos rfl] at hfs
      rw [hfs] at hn
      exact absurd (hn.symm.trans hsolved) Bool.false_ne_true
    | false =>
      rw [hauto, if_neg Bool.false_ne_true] at hs
      exact ⟨rfl, hp, q, by rw [hs], hq⟩
  · unfold ask at hfs
    rw [hc, hauto, if_neg Bool.false_ne_true] at hfs
    rw [hfs]
    exact hasks

end Shown

theorem shown_actOn (hp : ¬ a.Pauses) (event : Option ImageEvent) (name : String) (i : Image)
    {s₀ : Stage Console} (hauto : s.screen.auto = s₀.screen.auto)
    (h : Perform.actOn screen a event name i s = .ok r s') : Shown a s₀ s' r := by
  unfold Perform.actOn at h
  rw [Perform.bind_put_apply] at h
  cases event with
  | none =>
    obtain ⟨rfl, rfl⟩ := EStateM.Result.ok.inj h
    exact .of_immediate hp (by exact hauto) _
  | some event =>
    simp only [Perform.bind_suspend_apply, Perform.bind_send_apply] at h
    obtain ⟨rfl, rfl⟩ := EStateM.Result.ok.inj h
    exact .of_answered hp ((auto_sent _ _).trans hauto) rfl rfl

theorem shown_image (hp : ¬ a.Pauses) {change : Image → Image} {event : Option ImageEvent}
    (h : Perform.image screen a change event s = .ok r s') : Shown a s s' r := by
  unfold Perform.image at h
  obtain ⟨i, -, h₁⟩ := Perform.bind_find_eq_ok h
  cases hn : i.presented with
  | some name =>
    rw [hn] at h₁
    exact shown_actOn hp event name (change i) rfl h₁
  | none =>
    simp only [hn, bind_get_apply, bind_modify_apply, Perform.bind_put_apply,
      Perform.bind_send_apply, bind_pure_apply] at h₁
    exact shown_actOn hp event _ (change _) (by exact auto_sent _ _) h₁

theorem shown_say {line : Sentence} (hk : a.kind = .say line)
    (h : Perform.executeAction screen a s = .ok r s') : Shown a s s' r := by
  unfold Perform.executeAction at h
  simp only [hk] at h
  obtain ⟨c, -, h₁⟩ := Perform.bind_find_eq_ok h
  simp only [Perform.bind_put_apply, Perform.bind_suspend_apply, Perform.bind_send_apply] at h₁
  obtain ⟨hr, rfl⟩ := EStateM.Result.ok.inj h₁
  have hpause := Character.pause_speak c line
  by_cases hp : line.style.pause = true
  · rw [hpause, if_pos hp] at hr
    subst hr
    refine .of_asked (c := s.screen.printLine (c.speak line)) (r := .proceed)
      (q := .line _) ?_ rfl ?_ rfl rfl rfl
    · unfold Action.Pauses
      rwa [hk]
    · unfold Waiting.Asks
      rw [hk]
  · rw [hpause, if_neg hp] at hr
    subst hr
    refine .of_immediate (fun hpauses => hp ?_) (by exact auto_sent _ _) _
    unfold Action.Pauses at hpauses
    rwa [hk] at hpauses

theorem shown_menu (hk : a.kind = .menu) (h : Perform.executeAction screen a s = .ok r s') :
    Shown a s s' r := by
  unfold Perform.executeAction at h
  simp only [hk] at h
  obtain ⟨m, hm, h₁⟩ := Perform.bind_find_eq_ok h
  obtain ⟨rfl, rfl⟩ := EStateM.Result.ok.inj h₁
  have hcount : m.prompts.length = m.choices.length := List.length_map _
  refine .of_asked (c := s.screen.printMenu m.prompt m.prompts) (r := .choose 0)
    (q := .menu _ m.prompts.length) ?_ rfl ?_ ?_ rfl rfl
  · unfold Action.Pauses
    rw [hk]
    trivial
  · unfold Waiting.Asks
    rw [hk]
    exact ⟨m, hm, by rw [hcount]⟩
  · unfold printMenu
    rw [auto_printEntries]
    cases m.prompt <;> rfl

/-- **Every action** that is executed asks the player, or is answered by the screen. -/
theorem shown_of_executeAction (h : Perform.executeAction screen a s = .ok r s') :
    Shown a s s' r := by
  have hexecute := h
  unfold Perform.executeAction at h
  -- a line and a menu ask; whatever else is executed leaves the console as it was
  cases hk : a.kind with
  | say line => exact shown_say hk hexecute
  | menu => exact shown_menu hk hexecute
  | hideLine line =>
    simp only [hk] at h
    obtain ⟨c, -, h₁⟩ := Perform.bind_find_eq_ok h
    have hp := Action.not_pauses_of_kind hk nofun nofun
    cases hhide : c.hide? line with
    | some c' =>
      simp only [hhide, Perform.bind_put_apply, Perform.bind_send_apply] at h₁
      obtain ⟨rfl, rfl⟩ := EStateM.Result.ok.inj h₁
      exact .of_immediate hp (by exact auto_sent _ _) _
    | none =>
      simp only [hhide] at h₁
      obtain ⟨rfl, rfl⟩ := EStateM.Result.ok.inj h₁
      exact .of_immediate hp (by rfl) _
  | scene chain =>
    simp only [hk] at h
    obtain ⟨c, -, h₁⟩ := Perform.bind_find_eq_ok h
    rw [Perform.bind_send_apply] at h₁
    obtain ⟨w, -, h₂⟩ := Perform.bind_splice_eq_ok h₁
    obtain ⟨rfl, rfl⟩ := EStateM.Result.ok.inj h₂
    exact .of_immediate (Action.not_pauses_of_kind hk nofun nofun) (by exact auto_sent _ _) _
  | story chain =>
    simp only [hk] at h
    obtain ⟨w, -, h₂⟩ := Perform.bind_splice_eq_ok h
    obtain ⟨rfl, rfl⟩ := EStateM.Result.ok.inj h₂
    exact .of_immediate (Action.not_pauses_of_kind hk nofun nofun) (by rfl) _
  | setBackground src =>
    simp only [hk] at h
    obtain ⟨c, -, h₁⟩ := Perform.bind_find_eq_ok h
    simp only [Perform.bind_put_apply, Perform.bind_suspend_apply, Perform.bind_send_apply] at h₁
    obtain ⟨rfl, rfl⟩ := EStateM.Result.ok.inj h₁
    exact .of_answered (Action.not_pauses_of_kind hk nofun nofun) (auto_sent _ _) rfl rfl
  | sleep d =>
    simp only [hk] at h
    obtain ⟨_, s₁, hfind, h₁⟩ := bind_apply_eq_ok.1 h
    obtain ⟨c, hfind'⟩ := discard_apply_eq_ok.1 hfind
    obtain ⟨-, rfl⟩ := Perform.build_find_eq_ok_iff.1 hfind'
    simp only [Perform.bind_suspend_apply, Perform.bind_send_apply] at h₁
    obtain ⟨rfl, rfl⟩ := EStateM.Result.ok.inj h₁
    exact .of_answered (Action.not_pauses_of_kind hk nofun nofun) (auto_sent _ _) rfl rfl
  | setSrc | setPosition | showImage | hideImage | applyTransform =>
    simp only [hk] at h
    exact shown_image (Action.not_pauses_of_kind hk nofun nofun) h
  | condition =>
    simp only [hk] at h
    obtain ⟨c, -, h₁⟩ := Perform.bind_find_eq_ok h
    simp only [bind_get_apply, bind_modify_apply, Perform.bind_put_apply] at h₁
    obtain ⟨w, -, h₂⟩ := Perform.bind_splice_eq_ok h₁
    obtain ⟨rfl, rfl⟩ := EStateM.Result.ok.inj h₂
    exact .of_immediate (Action.not_pauses_of_kind hk nofun nofun) (by rfl) _
  | script =>
    simp only [hk] at h
    obtain ⟨c, -, h₁⟩ := Perform.bind_find_eq_ok h
    simp only [bind_get_apply, bind_modify_apply, Perform.bind_put_apply] at h₁
    obtain ⟨rfl, rfl⟩ := EStateM.Result.ok.inj h₁
    exact .of_immediate (Action.not_pauses_of_kind hk nofun nofun) (by rfl) _
  | play =>
    simp only [hk] at h
    obtain ⟨c, -, h₁⟩ := Perform.bind_find_eq_ok h
    rw [Perform.bind_put_apply] at h₁
    split at h₁
    · simp only [Perform.bind_suspend_apply, Perform.bind_send_apply] at h₁
      obtain ⟨rfl, rfl⟩ := EStateM.Result.ok.inj h₁
      exact .of_answered (Action.not_pauses_of_kind hk nofun nofun) (auto_sent _ _) rfl rfl
    · rw [Perform.bind_send_apply] at h₁
      obtain ⟨rfl, rfl⟩ := EStateM.Result.ok.inj h₁
      exact .of_immediate (Action.not_pauses_of_kind hk nofun nofun) (by exact auto_sent _ _) _
  | stop =>
    simp only [hk] at h
    obtain ⟨c, -, h₁⟩ := Perform.bind_find_eq_ok h
    simp only [Perform.bind_put_apply, Perform.bind_send_apply] at h₁
    obtain ⟨rfl, rfl⟩ := EStateM.Result.ok.inj h₁
    exact .of_immediate (Action.not_pauses_of_kind hk nofun nofun) (by exact auto_sent _ _) _

/-- **Every node** that is executed asks the player, or is answered by the screen. -/
theorem shown_of_execute {n : NodeId} (ha : s.world.action? n = some a)
    (h : Perform.execute screen n s = .ok r s') : Shown a s s' r := by
  rw [Perform.execute_apply ha] at h
  have hshown := shown_of_executeAction h
  have hauto := auto_sent (.handle a) s
  exact ⟨hshown.auto.trans hauto, fun f hf hn => hauto ▸ hshown.asks f hf hn,
    fun hs hp => hshown.pauses (hauto.trans hs) hp⟩

end Player.Console

end Storyline
