import Storyline.Element.Character
import Storyline.Proofs.Log.Single

/-!
# Lines that are taken back

* `Character.Call`, `Character.callAll`: what is done to a character in play, one call after the other;
* `Character.undo_say`: once it is taken back that a line was said, the line is not on screen, however
  often it had been said before;
* `Character.undo_hide`: once it is taken back that a line was hidden, the line stands last, and once;
* `Character.undo_lines`: when the lines are those that were on screen before.
-/

namespace Storyline

/-! ### Lists of lines -/

section Lists

variable {l : List NodeId} {line : NodeId}

theorem filter_ne_eq_self_iff : l.filter (· ≠ line) = l ↔ line ∉ l := by
  rw [List.filter_eq_self]
  constructor
  · intro h hmem
    exact absurd (h line hmem) (by simp)
  · intro h x hx
    refine decide_eq_true ?_
    rintro rfl
    exact h hx

/-- A line that is put last was last already, and nowhere else. -/
theorem filter_ne_concat_eq_self_iff :
    l.filter (· ≠ line) ++ [line] = l ↔ ∃ l', line ∉ l' ∧ l = l' ++ [line] := by
  constructor
  · intro h
    exact ⟨l.filter (· ≠ line), fun hmem => by simpa using (List.mem_filter.1 hmem).2, h.symm⟩
  · rintro ⟨l', hl', rfl⟩
    rw [List.filter_append, filter_ne_eq_self_iff.2 hl']
    simp

end Lists

namespace Character

variable {c c' : Character} {line : NodeId} {token? : Option Nat} {store : Store}

/-! ### Calls -/

/-- What is done to a character in play. -/
inductive Call where
  | say (line : NodeId)
  | hide (line : NodeId)
  | undo (token? : Option Nat) (store : Store)

/-- What a call leaves. A line that is not showing is not hidden, and what cannot be taken back
stays. -/
def call (c : Character) : Call → Character
  | .say line => c.say line
  | .hide line => (c.hide? line).getD c
  | .undo token? store => { c with tracked := c.tracked.undone token? store }

/-- Calls one after the other. -/
def callAll (c : Character) (calls : List Call) : Character := calls.foldl call c

theorem later_call (c : Character) (call : Call) : c.tracked.Later (c.call call).tracked := by
  cases call with
  | say line => exact .change .refl _ _
  | hide line =>
    show c.tracked.Later ((c.hide? line).getD c).tracked
    unfold hide?
    split
    · exact .change .refl _ _
    · exact .refl
  | undo token? store => exact .undone .refl token? store

theorem later_callAll (c : Character) (calls : List Call) :
    c.tracked.Later (c.callAll calls).tracked := by
  induction calls generalizing c with
  | nil => exact .refl
  | cons call calls ih => exact (c.later_call call).trans (ih (c.call call))

/-! ### One call taken back -/

theorem isShowing_iff : c.isShowing line = true ↔ line ∈ c.lines := by
  unfold isShowing lines
  rw [decide_eq_true_iff, List.mem_reverse]

/-- **A line that was said** goes off screen, also where it was on screen before. -/
theorem undo_say (hb : c.tracked.log.buffer = none)
    (ht : token? = none ∨ token? = some c.tracked.log.size) (line : NodeId) (store : Store) :
    ∃ t, (c.say line).tracked.undo token? store = .ok (1, t, store) ∧
      ({ c with tracked := t } : Character).lines = c.lines.filter (· ≠ line) := by
  refine ⟨_, Tracked.undo_change hb ht _ _ store, ?_⟩
  show ((line :: c.tracked.state.recent).filter (· ≠ line)).reverse = _
  unfold lines
  rw [List.filter_cons_of_neg (by simp), List.filter_reverse]

theorem hide?_eq_some_iff : c.hide? line = some c' ↔ line ∈ c.lines ∧
    c' = { c with tracked := c.tracked.change (c.tracked.state.without line) (.hid line) } := by
  unfold hide?
  split
  · rename_i h
    rw [Option.some_inj, eq_comm]
    exact ⟨fun hc => ⟨isShowing_iff.1 h, hc⟩, And.right⟩
  · rename_i h
    exact ⟨nofun, fun hc => absurd (isShowing_iff.2 hc.1) h⟩

/-- **A line that was hidden** comes back behind all others, also where it stood elsewhere. -/
theorem undo_hide (hb : c.tracked.log.buffer = none)
    (ht : token? = none ∨ token? = some c.tracked.log.size) (hc : c.hide? line = some c')
    (store : Store) :
    ∃ t, c'.tracked.undo token? store = .ok (1, t, store) ∧
      ({ c' with tracked := t } : Character).lines = c.lines.filter (· ≠ line) ++ [line] := by
  obtain ⟨-, rfl⟩ := hide?_eq_some_iff.1 hc
  refine ⟨_, Tracked.undo_change hb ht _ _ store, ?_⟩
  have hgone : line ∉ (c.tracked.state.without line).recent := by
    unfold CharacterState.without
    simp
  have hback : (Undoable.rollback (CharacterRecord.hid line) (c.tracked.state.without line) store).1 =
      ⟨line :: (c.tracked.state.without line).recent⟩ := if_neg hgone
  unfold lines
  rw [hback, List.reverse_cons, List.filter_reverse]
  rfl

/-! ### The main statement -/

/-- **What is said and hidden is not always brought back.** After any calls on a new character, what it
said last can be taken back at once, and what it hid; but the lines are those from before exactly if the
line that was said was not on screen yet, and the line that was hidden was the last one and on screen
once. -/
theorem undo_lines (hnew : c.tracked = { state := {} }) (calls : List Call) (line : NodeId)
    (store : Store) :
    let d := c.callAll calls
    ∀ token?, token? = none ∨ token? = some d.tracked.log.size →
      (∃ t, (d.say line).tracked.undo token? store = .ok (1, t, store) ∧
        ({ d with tracked := t } : Character).lines = d.lines.filter (· ≠ line) ∧
        (({ d with tracked := t } : Character).lines = d.lines ↔ line ∉ d.lines)) ∧
      ((∃ d', d.hide? line = some d') ↔ line ∈ d.lines) ∧
      ∀ d', d.hide? line = some d' →
        ∃ t, d'.tracked.undo token? store = .ok (1, t, store) ∧
          ({ d' with tracked := t } : Character).lines = d.lines.filter (· ≠ line) ++ [line] ∧
          (({ d' with tracked := t } : Character).lines = d.lines ↔
            ∃ l, line ∉ l ∧ d.lines = l ++ [line]) := by
  intro d token? ht
  have hb : d.tracked.log.buffer = none := (c.later_callAll calls).buffer (by rw [hnew]; rfl)
  refine ⟨?_, ?_, fun d' hd' => ?_⟩
  · obtain ⟨t, hundo, hlines⟩ := undo_say hb ht line store
    refine ⟨t, hundo, hlines, ?_⟩
    rw [hlines, filter_ne_eq_self_iff]
  · simp only [hide?_eq_some_iff, exists_and_left, exists_eq, and_true]
  · obtain ⟨t, hundo, hlines⟩ := undo_hide hb ht hd' store
    refine ⟨t, hundo, hlines, ?_⟩
    rw [hlines, filter_ne_concat_eq_self_iff]

/-- Two lines on screen. The first is said again or hidden, and that is taken back. -/
theorem undo_lines_twoLines :
    let d := ({ id := ⟨0⟩, name := "Alice" } : Character).callAll [.say ⟨1⟩, .say ⟨2⟩]
    d.lines = [⟨1⟩, ⟨2⟩] ∧
      (∃ t, (d.say ⟨1⟩).tracked.undo none {} = .ok (1, t, {}) ∧
        ({ d with tracked := t } : Character).lines = [⟨2⟩]) ∧
      ∃ d' t, d.hide? ⟨1⟩ = some d' ∧ d'.tracked.undo none {} = .ok (1, t, {}) ∧
        ({ d' with tracked := t } : Character).lines = [⟨2⟩, ⟨1⟩] := by
  intro d
  obtain ⟨⟨t, hundo, hlines, -⟩, hshown, hhide⟩ :=
    undo_lines (c := { id := ⟨0⟩, name := "Alice" }) rfl [.say ⟨1⟩, .say ⟨2⟩] ⟨1⟩ {} none (.inl rfl)
  obtain ⟨d', hd'⟩ := hshown.2 (by decide)
  obtain ⟨t', hundo', hlines', -⟩ := hhide d' hd'
  refine ⟨by decide, ⟨t, hundo, hlines.trans ?_⟩, d', t', hd', hundo', hlines'.trans ?_⟩
  · decide
  · decide

end Character

end Storyline
