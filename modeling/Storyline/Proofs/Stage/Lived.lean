import Storyline.Proofs.Stage.Residue

/-!
# Worlds that are written and played

* `World.Turn`: all that play may do to a world at a time: graft a chain in, change an element in a way
  that is recorded or taken back, or give an image its name on the screen;
* `Perform.turns_execute`, `Build.shifts_choose`, `World.shift_undoAction`: executing, picking and
  taking back are made of turns, also where they fail;
* `World.Lived fair w`: `w` comes from a new world by calls that are `fair` and by executing actions,
  picking menu entries and taking commits back, in any order and whether or not these succeed;
* `Lived.keep`: what such calls and turns keep holds of all these worlds.
-/

namespace Storyline

open Effect
open Relation (ReflTransGen)

variable {σ : Type} {w w' : World}

/-! ### Turns -/

/-- What play does to a world at a time, apart from naming images. -/
inductive World.Shift : World → World → Prop
  | graft (w : World) (node : NodeId) (chain : Option Chain) :
      Shift w (left (Build.ofEdit (Graph.splice node chain) w))
  | record {w : World} {e : ElementId} {x y : Element} (hx : w.elements.get? e = some x)
      (hy : x.Acted y) : Shift w { w with elements := w.elements.put y }

/-- One turn that play takes in a world. -/
inductive World.Turn : World → World → Prop
  | shift {w w' : World} (h : w.Shift w') : Turn w w'
  | name {w : World} {e : ElementId} {i : Image} (hi : w.elements.get? e = some (.image i))
      (hn : i.presented = none) : Turn w (w.named i)

/-- Turns lead from one world to another. -/
abbrev World.Turns : World → World → Prop := ReflTransGen World.Turn

/-- The name under which the screen knows an element, if it does. -/
def World.shown? (w : World) (e : ElementId) : Option String :=
  (w.elements.get? e).bind Element.presented?

theorem World.Shift.keeps (h : w.Shift w') (hw : w.Sound) : w.Keeps w' := by
  cases h with
  | graft node chain => exact (World.Touches.left_splice node w chain).keeps
  | record hx hy => exact keeps_replace hw hx hy.written (hy.settled (hw.settled _ _ hx))

theorem World.Shift.shown? (h : w.Shift w') (hw : w.Sound) (e : ElementId) :
    w'.shown? e = w.shown? e := by
  cases h with
  | graft node chain => rw [left_ofEdit, World.shown?, World.shown?]
  | record hx hy =>
    rw [World.shown?, World.shown?, get?_replace hw hx hy.written]
    split
    · subst e
      rw [hx]
      exact hy.presented?
    · rfl

theorem World.shown?_named (hw : w.Sound) {i : Image} {e : ElementId}
    (hi : w.elements.get? e = some (.image i)) (x : ElementId) :
    (w.named i).shown? x = if x = e then some (Image.screenName w.ids.next) else w.shown? x := by
  rw [World.shown?, get?_named hw hi]
  split <;> rfl

theorem World.Turn.keeps (h : w.Turn w') (hw : w.Sound) : w.Keeps w' := by
  cases h with
  | shift h => exact h.keeps hw
  | name hi _ => exact (quiet_named hw hi).toKeeps

theorem Stage.Beats.turns {screen : Screen σ} {a : Action} {s s' : Stage σ}
    (h : Stage.Beats screen a s s') : s.world.Turns s'.world := by
  induction h with
  | refl => exact .refl
  | tail _ hbeat ih =>
    cases hbeat with
    | graft chain => exact ih.tail (.shift (.graft _ a.node chain))
    | record hx hy => exact ih.tail (.shift (.record hx hy))
    | name hi hn => exact ih.tail (.name hi hn)
    | store | future | tell | animate => exact ih

theorem Perform.turns_executeAction {s : Stage σ} (hw : s.world.Sound) (screen : Screen σ)
    (a : Action) : s.world.Turns (left (executeAction screen a s)).world :=
  (beats_executeAction screen a hw).turns

theorem Perform.turns_execute {s : Stage σ} (hw : s.world.Sound) (screen : Screen σ)
    (n : NodeId) : s.world.Turns (left (execute screen n s)).world := by
  rw [left_execute]
  cases s.world.action? n with
  | none => exact .refl
  | some a => exact turns_executeAction (s := s.sent screen (.handle a)) hw screen a

theorem Build.shifts_choose (hw : w.Sound) (n : NodeId) (i : Nat) :
    ReflTransGen World.Shift w (left (choose n i w)) := by
  unfold choose
  rw [bind_get_apply]
  cases hc : w.calleeOf n with
  | error e => exact .refl
  | ok callee =>
    rw [bind_of_ok (ofExcept_eq_ok_iff.2 ⟨rfl, rfl⟩)]
    refine left_bind (P := ReflTransGen World.Shift w) (by rw [World.left_find]) fun m w₁ hm => ?_
    obtain ⟨hm, rfl⟩ := Build.find_eq_ok_iff.1 hm
    cases hp : m.pick? i with
    | none => exact ReflTransGen.single (.graft w₁ n none)
    | some pick =>
      obtain ⟨chain, m'⟩ := pick
      have hr := (Element.recorded_pick (hw.settled _ _ hm) hp).acted rfl
      exact (ReflTransGen.single (.record hm hr)).tail (.graft _ n chain)

/-- Taking a commit back changes the tracked state of an element only. -/
theorem Element.rebuilt_of_undoIn {ρ τ : Type} [Undoable τ ρ] {t : Tracked τ ρ}
    {rebuild : Tracked τ ρ → Element} {y : Element} {store store' : Store} {count : Nat}
    (h : undoIn t rebuild store = .ok (count, y, store')) : ∃ t', y = rebuild t' := by
  unfold undoIn at h
  cases hu : t.undo none store with
  | error e =>
    rw [hu] at h
    cases h
  | ok p =>
    rw [hu] at h
    obtain ⟨⟩ := h
    exact ⟨_, rfl⟩

theorem Element.acted_of_undo {x y : Element} {store store' : Store} {count : Nat}
    (h : x.undo store = .ok (count, y, store')) : x.Acted y := by
  obtain ⟨hwritten, hsettled⟩ := undo_keeps h
  refine ⟨hwritten, hsettled, ?_⟩
  cases x with
  | story => cases h
  | _ =>
    unfold undo at h
    obtain ⟨t, rfl⟩ := rebuilt_of_undoIn h
    rfl

theorem World.shift_undoAction {n : NodeId} {store store' : Store} {count : Nat}
    (h : w.undoAction n store = .ok (count, w', store')) : w.Shift w' := by
  obtain ⟨e, x, y, hx, hu, rfl⟩ := undoAction_eq_ok h
  exact .record hx (Element.acted_of_undo hu)

/-! ### Lives of worlds -/

/-- Worlds that are written by calls that are `fair` and played, whether the calls and the steps of
play succeed or fail. -/
inductive World.Lived (fair : World → Call → Prop) : World → Prop
  | new : Lived fair World.new
  | call {w : World} (h : Lived fair w) {c : Call} (hc : fair w c) : Lived fair (left (c.run w))
  | perform {σ : Type} {s : Stage σ} (h : Lived fair s.world) (screen : Screen σ) (a : Action) :
      Lived fair (left (Perform.executeAction screen a s)).world
  | execute {σ : Type} {s : Stage σ} (h : Lived fair s.world) (screen : Screen σ) (n : NodeId) :
      Lived fair (left (Perform.execute screen n s)).world
  | choose {w : World} (h : Lived fair w) (n : NodeId) (i : Nat) :
      Lived fair (left (Build.choose n i w))
  | undo {w w' : World} {n : NodeId} {store store' : Store} {count : Nat} (h : Lived fair w)
      (hu : w.undoAction n store = .ok (count, w', store')) : Lived fair w'

namespace World.Lived

variable {fair : World → Call → Prop}

/-- **What fair calls and turns keep** holds of every world that is written and played. -/
theorem keep {P : World → Prop} (h : w.Lived fair) (hnew : P World.new)
    (hstroke : ∀ {w₀ : World} {c : Call}, fair w₀ c →
      ∀ {w w' : World}, c.Stroke w₀.graph w w' → w.Sound → P w → P w')
    (hturn : ∀ {w w' : World}, w.Turn w' → w.Sound → P w → P w') : w.Sound ∧ P w := by
  have hturns : ∀ {w w' : World}, w.Turns w' → w.Sound ∧ P w → w'.Sound ∧ P w' :=
    fun ht => kept_of_steps (P := fun w => w.Sound ∧ P w) ht
      fun _ _ h hw => ⟨(h.keeps hw.1).sound hw.1, hturn h hw.1 hw.2⟩
  induction h with
  | new => exact ⟨Authored.new.sound, hnew⟩
  | @call w h c hc ih =>
    exact kept_of_steps (P := fun w => w.Sound ∧ P w) (c.strokes w)
      (fun _ _ hs hw => ⟨hw.1.stroke hs, hstroke hc hs hw.1 hw.2⟩) ih
  | perform h screen a ih => exact hturns (Perform.turns_executeAction ih.1 screen a) ih
  | execute h screen n ih => exact hturns (Perform.turns_execute ih.1 screen n) ih
  | choose h n i ih =>
    exact hturns (ReflTransGen.mono (fun _ _ => Turn.shift) _ _ (Build.shifts_choose ih.1 n i)) ih
  | undo h hu ih => exact hturns (ReflTransGen.single (.shift (shift_undoAction hu))) ih

theorem callAll {calls : List Call} (h : w.Lived fair) (hc : ∀ c ∈ calls, ∀ w, fair w c) :
    (w.callAll calls).Lived fair := by
  induction calls generalizing w with
  | nil => exact h
  | cons c rest ih =>
    exact ih (h.call (hc c List.mem_cons_self w)) fun d hd => hc d (List.mem_cons_of_mem c hd)

theorem of_authored (h : w.Authored) : w.Lived fun _ _ => True := by
  induction h with
  | new => exact .new
  | call h c ih => exact ih.call trivial

theorem sound (h : w.Lived fair) : w.Sound :=
  (h.keep (P := fun _ => True) trivial (fun _ _ _ _ _ _ => trivial) fun _ _ _ => trivial).1

end World.Lived

end Storyline
