import Std.Data.ExtTreeMap

/-!
# Programs that may fail, opened

What a sequence of steps answers, for the two kinds of programs in use: those that answer a value or
an error, and those that change a state and keep what they did when they fail.
-/

namespace Storyline.Effect

variable {ε σ α β : Type}

/-! ### Values or errors -/

theorem bind_eq_ok {x : Except ε α} {f : α → Except ε β} {b : β} :
    x >>= f = .ok b ↔ ∃ a, x = .ok a ∧ f a = .ok b := by
  cases x <;> simp [bind, Except.bind]

theorem mapError_eq_ok_iff {ε' : Type} {f : ε → ε'} {x : Except ε α} {a : α} :
    x.mapError f = .ok a ↔ x = .ok a := by
  cases x with
  | ok b =>
    constructor
    · intro h
      exact congrArg Except.ok (Except.ok.inj h)
    · intro h
      exact congrArg Except.ok (Except.ok.inj h)
  | error e => exact ⟨nofun, nofun⟩

@[simp] theorem ok_bind (a : α) (f : α → Except ε β) : (Except.ok a >>= f) = f a := rfl
@[simp] theorem error_bind (e : ε) (f : α → Except ε β) : (Except.error e >>= f) = .error e := rfl
@[simp] theorem throw_bind (e : ε) (f : α → Except ε β) :
    ((throw e : Except ε α) >>= f) = .error e := rfl
@[simp] theorem throw_eq_error (e : ε) : (throw e : Except ε α) = .error e := rfl
@[simp] theorem pure_eq_ok (a : α) : (pure a : Except ε α) = .ok a := rfl
@[simp] theorem discard_ok (a : α) : (discard (Except.ok a : Except ε α)) = .ok () := rfl
@[simp] theorem discard_error (e : ε) : (discard (Except.error e : Except ε α)) = .error e := rfl

/-! ### Changes of a state -/

/-- The state that a program leaves, whether it fails or not. -/
def left : EStateM.Result ε σ α → σ
  | .ok _ s => s
  | .error _ s => s

@[simp] theorem left_ok (a : α) (s : σ) : left (.ok a s : EStateM.Result ε σ α) = s := rfl
@[simp] theorem left_error (e : ε) (s : σ) : left (.error e s : EStateM.Result ε σ α) = s := rfl

/-- The answer of a program that succeeded. -/
def answer? : EStateM.Result ε σ α → Option α
  | .ok a _ => some a
  | .error _ _ => none

theorem ok_of_answer {r : EStateM.Result ε σ α} {a : α} (h : answer? r = some a) :
    r = .ok a (left r) := by
  cases r with
  | ok b s =>
    obtain rfl := Option.some_inj.1 h
    rfl
  | error e s => cases h

@[simp] theorem pure_apply (a : α) (s : σ) : (pure a : EStateM ε σ α) s = .ok a s := rfl
@[simp] theorem get_apply (s : σ) : (get : EStateM ε σ σ) s = .ok s s := rfl
@[simp] theorem set_apply (s t : σ) : (set t : EStateM ε σ PUnit) s = .ok ⟨⟩ t := rfl
@[simp] theorem modify_apply (f : σ → σ) (s : σ) :
    (modify f : EStateM ε σ PUnit) s = .ok ⟨⟩ (f s) := rfl
@[simp] theorem throw_apply (e : ε) (s : σ) : (throw e : EStateM ε σ α) s = .error e s := rfl

theorem bind_of_ok {x : EStateM ε σ α} {f : α → EStateM ε σ β} {s s' : σ} {a : α}
    (h : x s = .ok a s') : (x >>= f) s = f a s' := by
  show (match x s with | .ok a s => f a s | .error e s => .error e s) = _
  rw [h]

theorem bind_of_error {x : EStateM ε σ α} {f : α → EStateM ε σ β} {s s' : σ} {e : ε}
    (h : x s = .error e s') : (x >>= f) s = .error e s' := by
  show (match x s with | .ok a s => f a s | .error e s => .error e s) = _
  rw [h]

@[simp] theorem bind_pure_apply (a : α) (f : α → EStateM ε σ β) (s : σ) :
    ((pure a : EStateM ε σ α) >>= f) s = f a s := rfl
@[simp] theorem bind_get_apply (f : σ → EStateM ε σ β) (s : σ) :
    ((get : EStateM ε σ σ) >>= f) s = f s s := rfl
@[simp] theorem bind_set_apply (t : σ) (f : PUnit → EStateM ε σ β) (s : σ) :
    ((set t : EStateM ε σ PUnit) >>= f) s = f ⟨⟩ t := rfl
@[simp] theorem bind_modify_apply (h : σ → σ) (f : PUnit → EStateM ε σ β) (s : σ) :
    ((modify h : EStateM ε σ PUnit) >>= f) s = f ⟨⟩ (h s) := rfl
@[simp] theorem bind_throw_apply (e : ε) (f : α → EStateM ε σ β) (s : σ) :
    ((throw e : EStateM ε σ α) >>= f) s = .error e s := rfl

theorem bind_apply_eq_ok {x : EStateM ε σ α} {f : α → EStateM ε σ β} {s s'' : σ} {b : β} :
    (x >>= f) s = .ok b s'' ↔ ∃ a s', x s = .ok a s' ∧ f a s' = .ok b s'' := by
  cases h : x s with
  | ok a t =>
    rw [bind_of_ok h]
    exact ⟨fun hf => ⟨a, t, rfl, hf⟩, by rintro ⟨a', t', ⟨⟩, hf⟩; exact hf⟩
  | error e t => simp [bind_of_error h]

/-- A program fails in its first half or, once that has succeeded, in its second. -/
theorem bind_apply_eq_error {x : EStateM ε σ α} {f : α → EStateM ε σ β} {s s'' : σ} {e : ε} :
    (x >>= f) s = .error e s'' ↔
      x s = .error e s'' ∨ ∃ a s', x s = .ok a s' ∧ f a s' = .error e s'' := by
  cases h : x s with
  | ok a t =>
    rw [bind_of_ok h]
    refine ⟨fun hf => .inr ⟨a, t, rfl, hf⟩, ?_⟩
    rintro (herror | ⟨a', t', ⟨⟩, hf⟩)
    · cases herror
    · exact hf
  | error e t => simp [bind_of_error h]

/-- A property of the state that both halves of a program leave behind, of which the second starts
where the first succeeded. -/
theorem left_bind {P : σ → Prop} {x : EStateM ε σ α} {f : α → EStateM ε σ β} {s : σ}
    (h₁ : P (left (x s))) (h₂ : ∀ a s', x s = .ok a s' → P (left (f a s'))) :
    P (left ((x >>= f) s)) := by
  cases hx : x s with
  | error e s' =>
    rw [hx] at h₁
    rw [bind_of_error hx]
    exact h₁
  | ok a s' =>
    rw [bind_of_ok hx]
    exact h₂ a s' hx

/-- A program that can only fail for errors with a property. -/
def FailsBy (P : ε → Prop) : EStateM.Result ε σ α → Prop
  | .ok _ _ => True
  | .error e _ => P e

theorem failsBy_bind {P : ε → Prop} {x : EStateM ε σ α} {f : α → EStateM ε σ β} {s : σ}
    (h₁ : FailsBy P (x s)) (h₂ : ∀ a s', x s = .ok a s' → FailsBy P (f a s')) :
    FailsBy P ((x >>= f) s) := by
  cases hx : x s with
  | error e s' =>
    rw [hx] at h₁
    rw [bind_of_error hx]
    exact h₁
  | ok a s' =>
    rw [bind_of_ok hx]
    exact h₂ a s' hx

theorem discard_apply (x : EStateM ε σ α) (s : σ) :
    (discard x : EStateM ε σ PUnit) s =
      match x s with
      | .ok _ s' => .ok ⟨⟩ s'
      | .error e s' => .error e s' := rfl

theorem discard_apply_of_ok {x : EStateM ε σ α} {s s' : σ} {a : α} (h : x s = .ok a s') :
    (discard x : EStateM ε σ PUnit) s = .ok ⟨⟩ s' := by
  rw [discard_apply, h]

theorem discard_bind_apply (x : EStateM ε σ α) (f : PUnit → EStateM ε σ β) (s : σ) :
    (discard x >>= f) s = (x >>= fun _ => f ⟨⟩) s := by
  cases h : x s with
  | ok a s' => rw [bind_of_ok (discard_apply_of_ok h), bind_of_ok h]
  | error e s' =>
    have hdiscard : (discard x : EStateM ε σ PUnit) s = .error e s' := by rw [discard_apply, h]
    rw [bind_of_error hdiscard, bind_of_error h]

theorem discard_apply_eq_ok {x : EStateM ε σ α} {s s' : σ} {u : PUnit} :
    (discard x : EStateM ε σ PUnit) s = .ok u s' ↔ ∃ a, x s = .ok a s' := by
  rw [discard_apply]
  cases x s <;> simp

theorem failsBy_discard {P : ε → Prop} {x : EStateM ε σ α} {s : σ} (h : FailsBy P (x s)) :
    FailsBy P ((discard x : EStateM ε σ PUnit) s) := by
  rw [discard_apply]
  cases hx : x s with
  | ok a s' => trivial
  | error e s' =>
    rw [hx] at h
    exact h

theorem left_discard (x : EStateM ε σ α) (s : σ) :
    left ((discard x : EStateM ε σ PUnit) s) = left (x s) := by
  rw [discard_apply]
  cases x s <;> rfl

end Storyline.Effect
