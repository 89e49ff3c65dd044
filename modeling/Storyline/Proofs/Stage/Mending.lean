import Storyline.Proofs.Stage.Execute

/-!
# Host code that mends what it does

* `World.Mending w`: the cleaners of handlers and of chosen predicates lead back to the store that
  these found, and other predicates leave the store alone;
* `World.Mending.runIfAny_host`: then whatever the host answers for an action can be mended.
-/

namespace Storyline

/-- The host's code mends what it does: every handler and every predicate that is chosen answers a
cleaner that leads back from the store it left to the store it found, and other predicates leave the
store alone. -/
def Element.Mending : Element → Prop
  | script s => ∀ calls node store, ∃ clean, (s.handler calls node store).2 = some clean ∧
      clean (s.handler calls node store).1 = store
  | condition c => ∀ b ∈ c.branches, ∀ store,
      if (b.predicate.evaluate store).1 = true then
        ∃ clean, (b.predicate.evaluate store).2.1 = some clean ∧
          clean (b.predicate.evaluate store).2.2 = store
      else (b.predicate.evaluate store).2.2 = store
  | _ => True

/-- All elements of a world mend what they do. -/
def World.Mending (w : World) : Prop := ∀ e x, w.elements.get? e = some x → x.Mending

theorem Element.mending_of_kind {x : Element} (hs : x.kind ≠ .script) (hc : x.kind ≠ .condition) :
    x.Mending := by
  cases x with
  | script s => exact absurd rfl hs
  | condition c => exact absurd rfl hc
  | _ => trivial

theorem Element.mending_written (x : Element) : x.written.Mending ↔ x.Mending := by cases x <;> rfl

theorem World.mending_iff (w : World) : w.Mending ↔ ∀ e x, w.written? e = some x → x.Mending := by
  constructor
  · intro h e x hx
    obtain ⟨y, hy, rfl⟩ := Option.map_eq_some_iff.1 hx
    exact y.mending_written.2 (h e y hy)
  · intro h e x hx
    exact x.mending_written.1 (h e x.written (by rw [written?, hx, Option.map_some]))

theorem World.Keeps.mending_iff {w w' : World} (h : w.Keeps w') : w'.Mending ↔ w.Mending := by
  rw [World.mending_iff, World.mending_iff]
  simp only [h.written?]

/-- The cleaner of the branch that was taken leads back to the store that the branches found. -/
theorem Condition.runIfAny_firstTrue {branches : List Branch} (h : ∀ b ∈ branches, ∀ store,
      if (b.predicate.evaluate store).1 = true then
        ∃ clean, (b.predicate.evaluate store).2.1 = some clean ∧
          clean (b.predicate.evaluate store).2.2 = store
      else (b.predicate.evaluate store).2.2 = store) (index : Nat) (store : Store) :
    Cleaner.runIfAny ((firstTrue index branches store).1.bind (·.cleaner))
      (firstTrue index branches store).2 = store := by
  induction branches generalizing index store with
  | nil => rfl
  | cons b rest ih =>
    have hb := h b (by simp) store
    unfold firstTrue
    generalize b.predicate.evaluate store = verdict at hb ⊢
    obtain ⟨answer, cleaner, left⟩ := verdict
    cases answer with
    | true =>
      obtain ⟨clean, hclean, hback⟩ := hb
      simp only at hclean hback ⊢
      rw [Option.bind_some, hclean]
      exact hback
    | false =>
      have hleft : left = store := hb
      subst hleft
      exact ih (fun b' hb' => h b' (by simp [hb'])) _ _

/-- What the host answers for an action leads back to the store that it found. -/
theorem World.Mending.runIfAny_host {w : World} (h : w.Mending) (a : Action) (store : Store) :
    Cleaner.runIfAny (a.host w store).2 (a.host w store).1 = store := by
  unfold Action.host
  split
  · rename_i s _ hs
    obtain ⟨clean, hclean, hback⟩ := h _ _ hs s.calls a.node store
    rw [hclean]
    exact hback
  · rename_i c _ hc
    have hfirst := Condition.runIfAny_firstTrue (h _ _ hc) 0 store
    unfold Condition.evaluate
    generalize Condition.firstTrue 0 c.branches store = r at hfirst ⊢
    obtain ⟨chosen, left⟩ := r
    cases chosen with
    | some chosen => exact hfirst
    | none =>
      -- the branch for all other cases has no cleaner
      cases c.fallback with
      | none => exact hfirst
      | some fallback => exact hfirst
  · rfl

end Storyline
