import Storyline.Proofs.World.Change
import Storyline.World.Author

/-!
# The calls that write a world

* `Call`: the calls of a builder as data, each a new element or one call of an author;
* `Build.declare`: what the branches of conditions and the entries of menus have in common;
* `World.Authored w`: `w` comes from a new world by calls, of which any may fail;
* `Build.author_finish`, `Build.author_apply`: a chain of calls with its author opened.

An author's chain of calls is as good as its calls one by one: after the first call that fails a
chain does nothing more.
-/

namespace Storyline

open Effect

/-- The kind of the elements that write a statement, if an action is one. -/
def ActionKind.writer? : ActionKind → Option Kind
  | say _ | hideLine _ => some .character
  | setSrc _ | setPosition .. | showImage _ | hideImage _ | applyTransform _ => some .image
  | play | stop => some .sound
  | setBackground _ | sleep _ => some .scene
  | scene _ | story _ | condition | script | menu => none

/-- The calls that write a world. -/
inductive Call where
  | character (name : String) (config : CharacterConfig)
  | image (name : String) (config : ImageConfig)
  | sound (name : String) (config : SoundConfig)
  | scene (name : String) (config : SceneConfig)
  | story (name : String)
  | script (handler : Handler)
  | condition
  | menu (prompt : Option Sentence)
  /-- Appends a statement for an element. -/
  | append (e : ElementId) (kind : ActionKind)
  /-- Takes the statements that were appended for an element of a kind. -/
  | take (kind : Kind) (e : ElementId)
  | sceneAction (e : ElementId) (lists : List (List NodeId))
  | storyAction (e : ElementId) (lists : List (List NodeId))
  | when (e : ElementId) (p : Predicate) (lists : List (List NodeId))
  | elseWhen (e : ElementId) (p : Predicate) (lists : List (List NodeId))
  | otherwise (e : ElementId) (lists : List (List NodeId))
  | choose (e : ElementId) (prompt : Sentence) (lists : List (List NodeId))
  /-- A node that runs a script, a condition or a menu. -/
  | toAction (kind : Kind) (e : ElementId)
  /-- An action of any kind for any element, without an author. -/
  | newAction (e : ElementId) (kind : ActionKind)
  /-- Links nodes without an author. -/
  | construct (nodes : List NodeId)
  | setRoot (e : ElementId)

/-- Ends a chain of calls without an answer. -/
def Author.close {α : Type} (a : Author α) : EStateM.Result GameError World (List NodeId) :=
  a.finish fun _ => pure []

/-- Links the nodes of some lists and hands them to an element, which may object. -/
def Build.declare {α : Type} [Elemental α] (h : Handle α) (lists : List (List NodeId))
    (f : α → List NodeId × Option Chain → Except GameError α) : Build (List NodeId) :=
  author h fun a : Author α => (a.apply fun id => do
    let p ← detached lists
    let x ← find α id
    put (← ofExcept (f x p))).close

/-- What a call does to a world; answers the nodes that it makes known. -/
def Call.run : Call → Build (List NodeId)
  | character name config => do
    discard (Build.character name config)
    return []
  | image name config => do
    discard (Build.image name config)
    return []
  | sound name config => do
    discard (Build.sound name config)
    return []
  | scene name config => do
    discard (Build.scene name config)
    return []
  | story name => do
    discard (Build.story name)
    return []
  | script handler => do
    discard (Build.script handler)
    return []
  | condition => do
    discard Build.condition
    return []
  | menu prompt => do
    discard (Build.menu prompt)
    return []
  | append e kind =>
    match kind.writer? with
    | some .character => Build.author (⟨e⟩ : Handle Character) fun a => (a.append kind).close
    | some .image => Build.author (⟨e⟩ : Handle Image) fun a => (a.append kind).close
    | some .sound => Build.author (⟨e⟩ : Handle Sound) fun a => (a.append kind).close
    | some .scene => Build.author (⟨e⟩ : Handle Scene) fun a => (a.append kind).close
    | _ => return []
  | take kind e =>
    match kind with
    | .character => Build.author (⟨e⟩ : Handle Character) Author.takeActions
    | .image => Build.author (⟨e⟩ : Handle Image) Author.takeActions
    | .sound => Build.author (⟨e⟩ : Handle Sound) Author.takeActions
    | .scene => Build.author (⟨e⟩ : Handle Scene) Author.takeActions
    | _ => return []
  | sceneAction e lists => do
    return [← Build.author (⟨e⟩ : Handle Scene) (·.action lists)]
  | storyAction e lists => do
    return [← Build.author (⟨e⟩ : Handle Story) (·.action lists)]
  | when e p lists => Build.author (⟨e⟩ : Handle Condition) fun a => (a.when p lists).close
  | elseWhen e p lists => Build.author (⟨e⟩ : Handle Condition) fun a => (a.elseWhen p lists).close
  | otherwise e lists => Build.author (⟨e⟩ : Handle Condition) fun a => (a.otherwise lists).close
  | choose e prompt lists => Build.author (⟨e⟩ : Handle Menu) fun a => (a.choose prompt lists).close
  | toAction kind e =>
    match kind with
    | .script => do return [← Build.author (⟨e⟩ : Handle Script) Author.toAction]
    | .condition => do return [← Build.author (⟨e⟩ : Handle Condition) Author.toAction]
    | .menu => do return [← Build.author (⟨e⟩ : Handle Menu) Author.toAction]
    | _ => return []
  | newAction e kind => do return [← Build.newAction e kind]
  | construct nodes => do
    discard (Build.construct nodes)
    return []
  | setRoot e => Build.setRoot ⟨e⟩

namespace Call

variable (e : ElementId) (lists : List (List NodeId))

theorem run_when (p : Predicate) : (when e p lists).run =
    Build.declare (⟨e⟩ : Handle Condition) lists fun c q =>
      (c.setWhen ⟨p, q.1, q.2⟩).mapError .element := rfl

theorem run_elseWhen (p : Predicate) : (elseWhen e p lists).run =
    Build.declare (⟨e⟩ : Handle Condition) lists fun c q =>
      (c.addElseWhen ⟨p, q.1, q.2⟩).mapError .element := rfl

theorem run_otherwise : (otherwise e lists).run =
    Build.declare (⟨e⟩ : Handle Condition) lists fun c q =>
      (c.setOtherwise q.1 q.2).mapError .element := rfl

theorem run_choose (prompt : Sentence) : (choose e prompt lists).run =
    Build.declare (⟨e⟩ : Handle Menu) lists fun m q => .ok (m.addChoice ⟨prompt, q.1, q.2⟩) := rfl

end Call

/-- Worlds that are written by calls, whether these succeed or fail. -/
inductive World.Authored : World → Prop
  | new : Authored World.new
  | call {w : World} (h : Authored w) (c : Call) : Authored (left (c.run w))

/-- Calls one after the other, each on what the one before left. -/
def World.callAll (w : World) (calls : List Call) : World :=
  calls.foldl (fun w c => left (c.run w)) w

theorem World.Authored.of_run {w w' : World} {c : Call} (h : w.Authored)
    (hr : left (c.run w) = w') : w'.Authored := hr ▸ h.call c

theorem World.Authored.callAll {w : World} (h : w.Authored) (calls : List Call) :
    (w.callAll calls).Authored := by
  induction calls generalizing w with
  | nil => exact h
  | cons c rest ih => exact ih (h.call c)

/-! ### Chains of calls -/

namespace Build

variable {α β : Type} [Elemental α] {w w' : World}

/-- An author who was begun for an element of another kind does nothing. -/
theorem author_finish (h : Handle α) (change : ElementId → Build β) (w : World) :
    author h (fun a : Author α => a.finish change) w =
      match w.find α h.id with
      | .ok _ => change h.id w
      | .error e => .error e w := by
  unfold author World.author Author.finish
  cases w.find α h.id <;> rfl

theorem author_apply (h : Handle α) (change : ElementId → Build Unit) (w : World) :
    author h (fun a : Author α => (a.apply change).close) w =
      match w.find α h.id with
      | .ok _ => (do change h.id; return []) w
      | .error e => .error e w := by
  unfold author World.author Author.close Author.finish Author.apply
  cases w.find α h.id with
  | error e => rfl
  | ok a =>
    simp only
    cases hc : change h.id w with
    | ok u w' => rw [bind_of_ok hc]
    | error e w' => rw [bind_of_error hc]

theorem left_author_finish {P : World → Prop} (h : Handle α) {change : ElementId → Build β}
    (hw : P w) (hchange : P (left (change h.id w))) :
    P (left (author h (fun a : Author α => a.finish change) w)) := by
  rw [author_finish]
  split
  · exact hchange
  · exact hw

theorem left_author_apply {P : World → Prop} (h : Handle α) {change : ElementId → Build Unit}
    (hw : P w) (hchange : P (left (change h.id w))) :
    P (left (author h (fun a : Author α => (a.apply change).close) w)) := by
  rw [author_apply]
  split
  · refine left_bind hchange fun u w' hw' => ?_
    rw [hw'] at hchange
    exact hchange
  · exact hw

end Build

/-! ### Elements that gather and compose -/

/-- Gathering and composing change lists of nodes only. -/
class LawfulGathering (α : Type) [Gathering α] : Prop extends LawfulElemental α where
  id_withPending : ∀ (a : α) (nodes : List NodeId),
    (Elemental.toElement (Gathering.withPending a nodes)).id = (Elemental.toElement a).id
  settled_withPending : ∀ (a : α) (nodes : List NodeId), (Elemental.toElement a).Settled →
    (Elemental.toElement (Gathering.withPending a nodes)).Settled

instance : LawfulGathering Character := ⟨fun _ _ => rfl, fun _ _ h => h⟩
instance : LawfulGathering Image := ⟨fun _ _ => rfl, fun _ _ h => h⟩
instance : LawfulGathering Sound := ⟨fun _ _ => rfl, fun _ _ h => h⟩
instance : LawfulGathering Scene := ⟨fun _ _ => rfl, fun _ _ h => h⟩

class LawfulComposing (α : Type) [Composing α] : Prop extends LawfulElemental α where
  id_withActions : ∀ (a : α) (nodes : List NodeId),
    (Elemental.toElement (Composing.withActions a nodes)).id = (Elemental.toElement a).id
  settled_withActions : ∀ (a : α) (nodes : List NodeId), (Elemental.toElement a).Settled →
    (Elemental.toElement (Composing.withActions a nodes)).Settled

instance : LawfulComposing Scene := ⟨fun _ _ => rfl, fun _ _ h => h⟩
instance : LawfulComposing Story := ⟨fun _ _ => rfl, fun _ _ h => h⟩

end Storyline
