import Storyline.Element
import Storyline.Proofs.Effect
import Storyline.Proofs.Log

/-!
# Elements: what is looked up, recorded and taken back

* `Elements.find_eq_ok_iff`, `Elements.get?_put`: looking elements up and putting them back;
* `Element.written`: an element as it was written, apart from what play and undoing change;
* `Element.memory`: what is seen of an element now, and after taking its commits back;
* `Element.Kept e e'`: `e'` is `e`, for all that was written, is seen or can be taken back;
* `Element.Recorded e e' cleaners`: `e'` is `e` with one commit more, which leads back to `e`;
* `Element.undo_spec`: taking the latest commit back pops the memory;
* `Condition.setWhen_eq_ok_iff`, `addElseWhen_eq_ok_iff`, `setOtherwise_eq_ok_iff`: which branches may
  be declared, and what is declared by them.
-/

namespace Storyline

open Effect

/-! ### Looking up -/

/-- The types of elements stand for the elements of their kind. -/
class LawfulElemental (α : Type) [Elemental α] : Prop where
  ofElement?_eq_some_iff : ∀ (e : Element) (a : α),
    Elemental.ofElement? e = some a ↔ Elemental.toElement a = e
  kind_eq_iff : ∀ e : Element, e.kind = Elemental.kind α ↔ ∃ a : α, Elemental.toElement a = e

instance : LawfulElemental Character where
  ofElement?_eq_some_iff e a := by
    cases e <;> simp [Elemental.ofElement?, Elemental.toElement, eq_comm]
  kind_eq_iff e := by cases e <;> simp [Elemental.kind, Elemental.toElement, Element.kind]

instance : LawfulElemental Image where
  ofElement?_eq_some_iff e a := by
    cases e <;> simp [Elemental.ofElement?, Elemental.toElement, eq_comm]
  kind_eq_iff e := by cases e <;> simp [Elemental.kind, Elemental.toElement, Element.kind]

instance : LawfulElemental Sound where
  ofElement?_eq_some_iff e a := by
    cases e <;> simp [Elemental.ofElement?, Elemental.toElement, eq_comm]
  kind_eq_iff e := by cases e <;> simp [Elemental.kind, Elemental.toElement, Element.kind]

instance : LawfulElemental Scene where
  ofElement?_eq_some_iff e a := by
    cases e <;> simp [Elemental.ofElement?, Elemental.toElement, eq_comm]
  kind_eq_iff e := by cases e <;> simp [Elemental.kind, Elemental.toElement, Element.kind]

instance : LawfulElemental Story where
  ofElement?_eq_some_iff e a := by
    cases e <;> simp [Elemental.ofElement?, Elemental.toElement, eq_comm]
  kind_eq_iff e := by cases e <;> simp [Elemental.kind, Elemental.toElement, Element.kind]

instance : LawfulElemental Script where
  ofElement?_eq_some_iff e a := by
    cases e <;> simp [Elemental.ofElement?, Elemental.toElement, eq_comm]
  kind_eq_iff e := by cases e <;> simp [Elemental.kind, Elemental.toElement, Element.kind]

instance : LawfulElemental Condition where
  ofElement?_eq_some_iff e a := by
    cases e <;> simp [Elemental.ofElement?, Elemental.toElement, eq_comm]
  kind_eq_iff e := by cases e <;> simp [Elemental.kind, Elemental.toElement, Element.kind]

instance : LawfulElemental Menu where
  ofElement?_eq_some_iff e a := by
    cases e <;> simp [Elemental.ofElement?, Elemental.toElement, eq_comm]
  kind_eq_iff e := by cases e <;> simp [Elemental.kind, Elemental.toElement, Element.kind]

namespace Elements

variable {es : Elements} {α : Type} [Elemental α] [LawfulElemental α] {id : ElementId} {a : α}

theorem get?_put (es : Elements) (e : Element) (id : ElementId) :
    (es.put e).get? id = if e.id = id then some e else es.get? id := by
  unfold get? put
  rw [Std.ExtTreeMap.getElem?_insert]
  simp only [Std.LawfulEqOrd.compare_eq_iff_eq]

theorem find_eq_ok_iff : es.find α id = .ok a ↔ es.get? id = some (Elemental.toElement a) := by
  unfold find
  cases es.get? id with
  | none => simp
  | some e =>
    have hof := LawfulElemental.ofElement?_eq_some_iff e a
    rw [Option.some_inj, eq_comm (a := e), ← hof]
    simp only
    split
    · rename_i b hb
      rw [hb, Except.ok.injEq, Option.some_inj]
    · rename_i hb
      simp [hb]

end Elements

namespace Element

variable {e e' e'' : Element} {cleaners : List Cleaner}

/-! ### What was written, and what is seen -/

/-- An element as it was written. Play and undoing change nothing of that. -/
def written : Element → Element
  | character e => character { e with tracked := { state := {} } }
  | image e => image { e with
      presented := none
      tracked := { state := ⟨e.config.src, e.config.position, e.config.display, none⟩ } }
  | sound e => sound { e with tracked := { state := {} } }
  | scene e => scene { e with tracked := { state := {} } }
  | story e => story e
  | script e => script { e with calls := 0, tracked := { state := {} } }
  | condition e => condition { e with tracked := { state := {} } }
  | menu e => menu { e with tracked := { state := {} } }

theorem id_written (e : Element) : e.written.id = e.id := by cases e <;> rfl

theorem id_eq_of_written (h : e'.written = e.written) : e'.id = e.id := by
  rw [← id_written, h, id_written]

/-- What is seen of an element. The lines of characters are left out. -/
inductive View where
  | hidden
  | image (s : ImageState)
  | sound (s : SoundState)
  | scene (s : SceneState)
  | script (s : ScriptState)
  | condition (s : ConditionState)
  | menu (s : MenuState)

end Element

instance : Rolling CharacterState CharacterRecord where
  back
    | .said line, s => s.without line
    | .hid line, s => if line ∈ s.recent then s else ⟨line :: s.recent⟩
  cleaner _ := none
  rollback_eq r _ _ := by cases r <;> rfl

instance : Rolling ImageState ImageRecord where
  back
    | .src previous, s => { s with src := previous }
    | .position previous, s => { s with position := previous }
    | .displayed previous, s => { s with displayed := previous }
    | .transform previous, s => { s with transform := previous }
  cleaner _ := none
  rollback_eq r _ _ := by cases r <;> rfl

instance : Rolling SoundState SoundRecord where
  back
    | .play previous, _ => ⟨previous⟩
    | .stop previous, _ => ⟨previous⟩
  cleaner _ := none
  rollback_eq r _ _ := by cases r <;> rfl

instance : Rolling SceneState SceneRecord where
  back r _ := ⟨r.previous⟩
  cleaner _ := none
  rollback_eq _ _ _ := rfl

instance : Rolling ScriptState ScriptRecord where
  back _ s := ⟨s.runs - 1⟩
  cleaner r := r.cleaner
  rollback_eq _ _ _ := rfl

instance : Rolling ConditionState ConditionRecord where
  back r _ := ⟨r.previous⟩
  cleaner r := r.cleaner
  rollback_eq _ _ _ := rfl

instance : Rolling MenuState MenuRecord where
  back r _ := ⟨r.previous⟩
  cleaner _ := none
  rollback_eq _ _ _ := rfl

namespace Element

variable {e e' e'' : Element} {cleaners : List Cleaner}

/-- What is seen of an element now and after taking its commits back. -/
def memory : Element → Memory View
  | character e => e.tracked.memory fun _ => .hidden
  | image e => e.tracked.memory .image
  | sound e => e.tracked.memory .sound
  | scene e => e.tracked.memory .scene
  | story _ => ⟨.hidden, []⟩
  | script e => e.tracked.memory .script
  | condition e => e.tracked.memory .condition
  | menu e => e.tracked.memory .menu

/-- What is seen of an element. -/
def view (e : Element) : View := e.memory.view

/-- No buffer of records is open. -/
def Settled : Element → Prop
  | character e => e.tracked.log.buffer = none
  | image e => e.tracked.log.buffer = none
  | sound e => e.tracked.log.buffer = none
  | scene e => e.tracked.log.buffer = none
  | story _ => True
  | script e => e.tracked.log.buffer = none
  | condition e => e.tracked.log.buffer = none
  | menu e => e.tracked.log.buffer = none

theorem lt_commits_of_mem_pasts {p : Past View} (hp : p ∈ e.memory.pasts) : p.token < e.commits := by
  cases e with
  | story => cases hp
  | _ => exact Tracked.lt_size_of_mem_pasts hp

/-! ### Changes of an element -/

/-- Nothing that was written, is seen or can be taken back is changed. -/
structure Kept (e e' : Element) : Prop where
  written : e'.written = e.written
  memory : e'.memory = e.memory
  commits : e'.commits = e.commits
  settled : e.Settled → e'.Settled

/-- One commit is made, which leads back to what was seen and runs the given cleaners. -/
structure Recorded (e e' : Element) (cleaners : List Cleaner) : Prop where
  written : e'.written = e.written
  memory : ∃ v, e'.memory = e.memory.push e.commits v cleaners
  commits : e'.commits = e.commits + 1
  settled : e'.Settled

theorem Kept.recorded (h : Kept e e') (h' : Recorded e' e'' cleaners) : Recorded e e'' cleaners := by
  obtain ⟨v, hv⟩ := h'.memory
  refine ⟨h'.written.trans h.written, ⟨v, ?_⟩, ?_, h'.settled⟩
  · rw [hv, h.memory, h.commits]
  · rw [h'.commits, h.commits]

/-- A tracked state is put into an element, of which it is all that play changes. -/
structure Holds {σ ρ : Type} [Undoable σ ρ] [Rolling σ ρ] (rebuild : Tracked σ ρ → Element)
    (view : σ → View) : Prop where
  memory : ∀ t, (rebuild t).memory = t.memory view
  commits : ∀ t, (rebuild t).commits = t.log.size
  settled : ∀ t, (rebuild t).Settled ↔ t.log.buffer = none
  written : ∀ t t', (rebuild t').written = (rebuild t).written

section Holds

variable {σ ρ : Type} [Undoable σ ρ] [Rolling σ ρ] {rebuild : Tracked σ ρ → Element}
  {view : σ → View} {t : Tracked σ ρ}

/-- A change is recorded if its record leads back to what was there. -/
theorem Holds.recorded (h : Holds rebuild view) (ht : (rebuild t).Settled) (s : σ) (r : ρ)
    (hview : view (Rolling.back r s) = view t.state)
    (hpasts : Tracked.unwind view t.log.live (Rolling.back r s) =
      Tracked.unwind view t.log.live t.state) :
    Recorded (rebuild t) (rebuild (t.change s r)) (Rolling.cleaner σ r).toList := by
  obtain ⟨hmem, hsize, hbuffer⟩ := Tracked.memory_change ((h.settled t).1 ht) s r hview hpasts
  refine ⟨h.written _ _, ⟨view s, ?_⟩, ?_, (h.settled _).2 hbuffer⟩
  · rw [h.memory, h.memory, h.commits, hmem]
  · rw [h.commits, h.commits, hsize]

theorem Holds.recorded_of_eq (h : Holds rebuild view) (ht : (rebuild t).Settled) (s : σ) (r : ρ)
    (hback : Rolling.back r s = t.state) :
    Recorded (rebuild t) (rebuild (t.change s r)) (Rolling.cleaner σ r).toList :=
  h.recorded ht s r (by rw [hback]) (by rw [hback])

theorem Holds.undo_spec (h : Holds rebuild view) {p : Past View} {rest : List (Past View)}
    (hp : (rebuild t).memory.pasts = p :: rest) (store : Store) :
    ∃ count e', undoIn t rebuild store = .ok (count, e', Cleaner.runAll p.cleaners store) ∧
      e'.memory = ⟨p.view, rest⟩ ∧ e'.commits = (rebuild t).commits ∧
      e'.written = (rebuild t).written ∧ ((rebuild t).Settled → e'.Settled) := by
  rw [h.memory] at hp
  obtain ⟨count, t', hundo, hmem, hsize, hbuffer⟩ := Tracked.undo_spec hp store
  refine ⟨count, rebuild t', ?_, ?_, ?_, h.written _ _, fun hs => ?_⟩
  · unfold undoIn
    rw [hundo]
    rfl
  · rw [h.memory, hmem]
  · rw [h.commits, h.commits, hsize]
  · rw [h.settled] at hs ⊢
    rw [hbuffer, hs]

end Holds

theorem holds_character (c : Character) :
    Holds (fun t => character { c with tracked := t }) fun _ => .hidden :=
  ⟨fun _ => rfl, fun _ => rfl, fun _ => .rfl, fun _ _ => rfl⟩

theorem holds_image (i : Image) : Holds (fun t => image { i with tracked := t }) .image :=
  ⟨fun _ => rfl, fun _ => rfl, fun _ => .rfl, fun _ _ => rfl⟩

theorem holds_sound (s : Sound) : Holds (fun t => sound { s with tracked := t }) .sound :=
  ⟨fun _ => rfl, fun _ => rfl, fun _ => .rfl, fun _ _ => rfl⟩

theorem holds_scene (s : Scene) : Holds (fun t => scene { s with tracked := t }) .scene :=
  ⟨fun _ => rfl, fun _ => rfl, fun _ => .rfl, fun _ _ => rfl⟩

theorem holds_script (s : Script) : Holds (fun t => script { s with tracked := t }) .script :=
  ⟨fun _ => rfl, fun _ => rfl, fun _ => .rfl, fun _ _ => rfl⟩

theorem holds_condition (c : Condition) :
    Holds (fun t => condition { c with tracked := t }) .condition :=
  ⟨fun _ => rfl, fun _ => rfl, fun _ => .rfl, fun _ _ => rfl⟩

theorem holds_menu (m : Menu) : Holds (fun t => menu { m with tracked := t }) .menu :=
  ⟨fun _ => rfl, fun _ => rfl, fun _ => .rfl, fun _ _ => rfl⟩

/-- **Taking the latest commit of an element back** pops its memory and runs the cleaners. -/
theorem undo_spec {p : Past View} {rest : List (Past View)} (h : e.memory.pasts = p :: rest)
    (store : Store) :
    ∃ count e', e.undo store = .ok (count, e', Cleaner.runAll p.cleaners store) ∧
      e'.memory = ⟨p.view, rest⟩ ∧ e'.commits = e.commits ∧ e'.written = e.written ∧
      (e.Settled → e'.Settled) := by
  cases e with
  | character c => exact (holds_character c).undo_spec h store
  | image i => exact (holds_image i).undo_spec h store
  | sound s => exact (holds_sound s).undo_spec h store
  | scene s => exact (holds_scene s).undo_spec h store
  | story => cases h
  | script s => exact (holds_script s).undo_spec h store
  | condition c => exact (holds_condition c).undo_spec h store
  | menu m => exact (holds_menu m).undo_spec h store

/-! ### What the actions change -/

/-- The lines of a character are not seen, so that no record of them can fail to restore them. -/
theorem recorded_lines {c : Character} (h : (character c).Settled) (s : CharacterState)
    (r : CharacterRecord) :
    Recorded (character c) (character { c with tracked := c.tracked.change s r }) [] :=
  (holds_character c).recorded h s r rfl (Tracked.unwind_const _ _ _ _)

theorem recorded_say {c : Character} (h : (character c).Settled) (line : NodeId) :
    Recorded (character c) (character (c.say line)) [] :=
  recorded_lines h _ _

theorem recorded_hide {c c' : Character} (h : (character c).Settled) {line : NodeId}
    (hc : c.hide? line = some c') : Recorded (character c) (character c') [] := by
  unfold Character.hide? at hc
  split at hc
  · obtain ⟨⟩ := hc
    exact recorded_lines h _ _
  · cases hc

/-- The changes of an image, each of which records what it replaces. -/
def ImageChange (change : Image → Image) : Prop :=
  ∀ i : Image, (image i).Settled → Recorded (image i) (image (change i)) []

theorem imageChange_setSrc (src : String) : ImageChange (·.setSrc src) :=
  fun i h => (holds_image i).recorded_of_eq h _ _ rfl

theorem imageChange_setPosition (p : Position) : ImageChange (·.setPosition p) :=
  fun i h => (holds_image i).recorded_of_eq h _ _ rfl

theorem imageChange_setDisplayed (displayed : Bool) : ImageChange (·.setDisplayed displayed) :=
  fun i h => (holds_image i).recorded_of_eq h _ _ rfl

theorem imageChange_applyTransform (t : Transform) : ImageChange (·.applyTransform t) :=
  fun i h => (holds_image i).recorded_of_eq h _ _ rfl

theorem kept_presented (i : Image) (name : Option String) :
    Kept (image i) (image { i with presented := name }) :=
  ⟨rfl, rfl, rfl, fun h => h⟩

theorem recorded_play {s : Sound} (h : (sound s).Settled) :
    Recorded (sound s) (sound s.play) [] :=
  (holds_sound s).recorded_of_eq h _ _ rfl

theorem recorded_stop {s : Sound} (h : (sound s).Settled) :
    Recorded (sound s) (sound s.stop) [] :=
  (holds_sound s).recorded_of_eq h _ _ rfl

theorem recorded_setBackground {s : Scene} (h : (scene s).Settled) (src : String) :
    Recorded (scene s) (scene (s.setBackground src)) [] :=
  (holds_scene s).recorded_of_eq h _ _ rfl

theorem recorded_pick {m m' : Menu} (h : (menu m).Settled) {index : Nat} {chain : Option Chain}
    (hm : m.pick? index = some (chain, m')) : Recorded (menu m) (menu m') [] := by
  obtain ⟨c, -, hc⟩ := Option.map_eq_some_iff.1 hm
  obtain ⟨-, rfl⟩ := Prod.mk.inj hc
  exact (holds_menu m).recorded_of_eq h _ _ rfl

/-- The cleaner that is recorded is the one that the handler answered. -/
theorem recorded_script {s : Script} (h : (script s).Settled) (node : NodeId) (store : Store) :
    Recorded (script s) (script (s.run node store).1)
      (s.handler s.calls node store).2.toList := by
  have hcalls : Kept (script s) (script { s with calls := s.calls + 1 }) :=
    ⟨rfl, rfl, rfl, fun h => h⟩
  have hback : Rolling.back (ScriptRecord.mk (s.handler s.calls node store).2)
      (ScriptState.mk (s.runs + 1)) = s.tracked.state := rfl
  exact hcalls.recorded ((holds_script { s with calls := s.calls + 1 }).recorded_of_eq h _ _ hback)

/-- The cleaner that is recorded is the one of the predicate that was chosen. -/
theorem recorded_condition {c : Condition} (h : (condition c).Settled) (store : Store) :
    Recorded (condition c) (condition (c.run store).2.1)
      ((c.evaluate store).1.bind (·.cleaner)).toList :=
  (holds_condition c).recorded_of_eq h _ _ rfl

end Element

/-! ### Declaring branches -/

namespace Condition

variable {c c' : Condition} {b : Branch} {actions : List NodeId} {chain : Option Chain}

theorem setWhen_eq_ok_iff :
    c.setWhen b = .ok c' ↔ c.branches = [] ∧ c' = { c with branches := [b] } := by
  unfold setWhen
  split
  · rename_i hempty
    rw [Except.ok.injEq, eq_comm]
    exact ⟨fun h => ⟨List.isEmpty_iff.1 hempty, h⟩, fun h => h.2⟩
  · rename_i hne
    exact ⟨nofun, fun h => absurd (List.isEmpty_iff.2 h.1) hne⟩

theorem addElseWhen_eq_ok_iff :
    c.addElseWhen b = .ok c' ↔
      c.branches ≠ [] ∧ c' = { c with branches := c.branches ++ [b] } := by
  unfold addElseWhen
  split
  · rename_i hempty
    exact ⟨nofun, fun h => absurd (List.isEmpty_iff.1 hempty) h.1⟩
  · rename_i hne
    rw [Except.ok.injEq, eq_comm]
    exact ⟨fun h => ⟨fun hnil => hne (List.isEmpty_iff.2 hnil), h⟩, fun h => h.2⟩

theorem setOtherwise_eq_ok_iff :
    c.setOtherwise actions chain = .ok c' ↔
      c.fallback = none ∧ c' = { c with fallback := some (actions, chain) } := by
  unfold setOtherwise
  split
  · rename_i hsome
    exact ⟨nofun, fun h => by rw [hsome] at h; cases h.1⟩
  · rename_i hnone
    rw [Except.ok.injEq, eq_comm]
    exact ⟨fun h => ⟨hnone, h⟩, fun h => h.2⟩

end Condition

end Storyline
