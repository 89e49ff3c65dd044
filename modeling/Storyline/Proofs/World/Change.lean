import Storyline.Proofs.Element
import Storyline.Proofs.Graph.Splice
import Storyline.World

/-!
# What play changes in a world

* `World.Sound`: actions and elements carry the identity that they are found under, and no element
  holds an open buffer;
* `World.Keeps w w'`: all nodes with their actions and all that was written of elements stay;
* `World.Quiet w w'`: in addition nothing is seen or can be taken back that was not before;
* `World.Recorded w w' e cleaners`: one commit was made, by the element `e`, that leads back;
* `Build.ofEdit_splice`, `Build.choose_spec`: grafting is quiet, a pick is recorded by its menu;
* `World.undoAction_spec`: taking the latest commit of an element back.
-/

namespace Storyline

open Effect

/-! ### Grafting keeps the nodes -/

namespace Graph

variable {γ : Type} {g g' : Graph γ} {id : NodeId}

theorem sameNodes_attempt {f : Graph γ → Except GraphError (Graph γ)} {u : Unit}
    (hf : ∀ g', f g = .ok g' → SameNodes g g') (h : attempt f g = .ok u g') : SameNodes g g' :=
  hf _ (attempt_eq_ok_iff.1 h)

theorem sameNodes_attempt_setChild {c? : Option NodeId} {u : Unit}
    (h : attempt (·.setChild id c?) g = .ok u g') : SameNodes g g' :=
  sameNodes_attempt (fun _ hg => (rewired_of_setChild hg).toSameNodes) h

theorem sameNodes_left_attempt {f : Graph γ → Except GraphError (Graph γ)}
    (hf : ∀ g', f g = .ok g' → SameNodes g g') : SameNodes g (left (attempt f g)) := by
  unfold attempt
  cases hg : f g with
  | error e => exact .refl g
  | ok g' => exact hf g' hg

theorem sameNodes_left_link (nodes : List NodeId) : SameNodes g (left (link nodes g)) := by
  have hall : ∀ (nodes : List NodeId) {g : Graph γ}, SameNodes g (left (linkAll nodes g)) := by
    intro nodes
    induction nodes with
    | nil => exact fun {g} => .refl g
    | cons a rest ih =>
      intro g
      cases rest with
      | nil => exact .refl g
      | cons b rest =>
        have hset : SameNodes g (left (attempt (·.setChild a (some b)) g)) :=
          sameNodes_left_attempt fun _ hg => (rewired_of_setChild hg).toSameNodes
        refine left_bind hset fun u g' hg => ?_
        rw [hg] at hset
        exact hset.trans ih
  refine left_bind (hall nodes) fun u g' hg => ?_
  have h := hall nodes (g := g)
  rw [hg] at h
  exact h

theorem sameNodes_remember (g : Graph γ) (id : NodeId) : SameNodes g (g.remember id) :=
  ⟨fun _ => rfl, rfl⟩

theorem sameNodes_splice {branch : Option Chain} {u : Unit}
    (h : splice id branch g = .ok u g') : SameNodes g g' := by
  unfold splice at h
  simp only [bind_get_apply] at h
  split at h
  · cases h
  · simp only [bind_set_apply] at h
    refine (sameNodes_remember g id).trans ?_
    cases branch with
    | none => exact sameNodes_attempt_setChild h
    | some chain =>
      obtain ⟨_, g₁, h₁, h₂⟩ := bind_apply_eq_ok.1 h
      exact (sameNodes_attempt_setChild h₁).trans (sameNodes_attempt_setChild h₂)

end Graph

/-- The name on the screen that a number makes. -/
def Image.screenName (n : Nat) : String := Counter.label "image" (toString n) ":"

namespace World

variable {w w' w'' : World} {e x : ElementId} {cleaners : List Cleaner}

/-! ### Sound worlds -/

/-- Actions and elements carry the identity that they are found under; no buffer is open. -/
structure Sound (w : World) : Prop where
  node : ∀ n a, w.action? n = some a → a.node = n
  id : ∀ e x, w.elements.get? e = some x → x.id = e
  settled : ∀ e x, w.elements.get? e = some x → x.Settled

/-- An element as it was written. -/
def written? (w : World) (e : ElementId) : Option Element := (w.elements.get? e).map Element.written

/-- What is seen of an element now and after taking its commits back. -/
def memory? (w : World) (e : ElementId) : Option (Memory Element.View) :=
  (w.elements.get? e).map Element.memory

/-- What is seen of an element. -/
def view? (w : World) (e : ElementId) : Option Element.View := (w.elements.get? e).map Element.view

theorem view?_eq (w : World) (e : ElementId) : w.view? e = (w.memory? e).map (·.view) := by
  unfold view? memory?
  rw [Option.map_map]
  rfl

theorem commits_eq {y : Element} (h : w.elements.get? e = some y) : w.commits e = y.commits := by
  unfold World.commits Elements.commits
  rw [h]
  rfl

theorem find_eq_ok_iff {α : Type} [Elemental α] [LawfulElemental α] {a : α} :
    w.find α e = .ok a ↔ w.elements.get? e = some (Elemental.toElement a) := by
  rw [← Elements.find_eq_ok_iff]
  exact mapError_eq_ok_iff

theorem calleeOf_eq_ok_iff {n : NodeId} :
    w.calleeOf n = .ok e ↔ ∃ a, w.action? n = some a ∧ a.callee = e := by
  unfold calleeOf
  cases w.action? n <;> simp

/-! ### Changes -/

/-- All nodes with their actions and all that was written of elements stay. -/
structure Keeps (w w' : World) : Prop where
  root : w'.root = w.root
  nodes : w.graph.SameNodes w'.graph
  written? : ∀ x, w'.written? x = w.written? x
  sound : w.Sound → w'.Sound

/-- Nothing is seen or can be taken back that was not before. -/
structure Quiet (w w' : World) : Prop extends Keeps w w' where
  memory? : ∀ x, w'.memory? x = w.memory? x
  commits : ∀ x, w'.commits x = w.commits x

/-- One commit is made, which leads back to what was seen and runs the given cleaners. -/
structure Recorded (w w' : World) (e : ElementId) (cleaners : List Cleaner) : Prop
    extends Keeps w w' where
  self : ∃ m v, w.memory? e = some m ∧ w'.memory? e = some (m.push (w.commits e) v cleaners)
  commits_self : w'.commits e = w.commits e + 1
  other : ∀ x, x ≠ e → w'.memory? x = w.memory? x ∧ w'.commits x = w.commits x

theorem Keeps.action? (h : Keeps w w') (n : NodeId) : w'.action? n = w.action? n :=
  h.nodes.content? n

theorem Keeps.image (h : w.Keeps w') {i : Image} (hi : w.elements.get? e = some (.image i)) :
    ∃ i', w'.elements.get? e = some (.image i') := by
  have hwritten := h.written? e
  unfold World.written? at hwritten
  rw [hi] at hwritten
  obtain ⟨y, hy, hyi⟩ := Option.map_eq_some_iff.1 hwritten
  cases y with
  | image i' => exact ⟨i', hy⟩
  | _ => cases hyi

theorem Keeps.refl (w : World) : Keeps w w := ⟨rfl, .refl _, fun _ => rfl, fun h => h⟩

theorem Keeps.symm (h : Keeps w w') (hw : w.Sound) : Keeps w' w :=
  ⟨h.root.symm, h.nodes.symm, fun x => (h.written? x).symm, fun _ => hw⟩

theorem Keeps.trans (h : Keeps w w') (h' : Keeps w' w'') : Keeps w w'' :=
  ⟨h'.root.trans h.root, h.nodes.trans h'.nodes,
    fun x => (h'.written? x).trans (h.written? x), fun hs => h'.sound (h.sound hs)⟩

theorem Quiet.refl (w : World) : Quiet w w := ⟨.refl w, fun _ => rfl, fun _ => rfl⟩

theorem Quiet.trans (h : Quiet w w') (h' : Quiet w' w'') : Quiet w w'' :=
  ⟨h.toKeeps.trans h'.toKeeps, fun x => (h'.memory? x).trans (h.memory? x),
    fun x => (h'.commits x).trans (h.commits x)⟩

theorem Quiet.recorded (h : Quiet w w') (h' : Recorded w' w'' e cleaners) :
    Recorded w w'' e cleaners := by
  obtain ⟨m, v, hm, hm'⟩ := h'.self
  refine ⟨h.toKeeps.trans h'.toKeeps, ⟨m, v, ?_, ?_⟩, ?_, fun x hx => ?_⟩
  · rw [← h.memory?, hm]
  · rw [hm', h.commits]
  · rw [h'.commits_self, h.commits]
  · rw [(h'.other x hx).1, (h'.other x hx).2]
    exact ⟨h.memory? x, h.commits x⟩

theorem Recorded.quiet (h : Recorded w w' e cleaners) (h' : Quiet w' w'') :
    Recorded w w'' e cleaners := by
  obtain ⟨m, v, hm, hm'⟩ := h.self
  refine ⟨h.toKeeps.trans h'.toKeeps, ⟨m, v, hm, ?_⟩, ?_, fun x hx => ?_⟩
  · rw [h'.memory?, hm']
  · rw [h'.commits, h.commits_self]
  · rw [h'.memory?, h'.commits]
    exact h.other x hx

/-- What a step does to a world: nothing that can be taken back, or a commit of one element. -/
def Did (w w' : World) (e : ElementId) : Option (List Cleaner) → Prop
  | none => Quiet w w'
  | some cleaners => Recorded w w' e cleaners

theorem Quiet.did {commit : Option (List Cleaner)} (h : Quiet w w') (h' : Did w' w'' e commit) :
    Did w w'' e commit := by
  cases commit with
  | none => exact h.trans h'
  | some cleaners => exact h.recorded h'

theorem Did.keeps {commit : Option (List Cleaner)} (h : Did w w' e commit) : Keeps w w' := by
  cases commit with
  | none => exact h.toKeeps
  | some cleaners => exact h.toKeeps

/-- A step has made a commit if its element counts more of them. -/
theorem Did.commits_lt_iff {commit : Option (List Cleaner)} (h : Did w w' e commit) :
    w.commits e < w'.commits e ↔ commit.isSome := by
  cases commit with
  | none => simp [Quiet.commits h]
  | some cleaners => simp [Recorded.commits_self h]

theorem Did.commits_le {commit : Option (List Cleaner)} (h : Did w w' e commit) (x : ElementId) :
    w.commits x ≤ w'.commits x := by
  cases commit with
  | none =>
    have hsame := Quiet.commits h x
    omega
  | some cleaners =>
    by_cases hx : x = e
    · subst hx
      have hself := Recorded.commits_self h
      omega
    · have hother := (Recorded.other h x hx).2
      omega

/-! ### Putting elements back -/

section Replace

variable {y y' : Element}

theorem Sound.replace (hw : w.Sound) (hset : y'.Settled) :
    Sound { w with elements := w.elements.put y' } := by
  refine ⟨hw.node, fun x z hz => ?_, fun x z hz => ?_⟩
  · rw [Elements.get?_put] at hz
    split at hz
    · obtain ⟨⟩ := hz
      assumption
    · exact hw.id x z hz
  · rw [Elements.get?_put] at hz
    split at hz
    · obtain ⟨⟩ := hz
      exact hset
    · exact hw.settled x z hz

theorem get?_replace (hw : w.Sound) (hy : w.elements.get? e = some y) (hwr : y'.written = y.written)
    (x : ElementId) :
    (w.elements.put y').get? x = if x = e then some y' else w.elements.get? x := by
  have hid : y'.id = e := by rw [Element.id_eq_of_written hwr, hw.id e y hy]
  rw [Elements.get?_put, hid]
  simp only [eq_comm]

/-- An element that was written the same takes the place of another. -/
theorem keeps_replace (hw : w.Sound) (hy : w.elements.get? e = some y)
    (hwr : y'.written = y.written) (hset : y'.Settled) :
    Keeps w { w with elements := w.elements.put y' } := by
  refine ⟨rfl, .refl _, fun x => ?_, fun _ => hw.replace hset⟩
  unfold World.written?
  rw [get?_replace hw hy hwr]
  split
  · subst x
    rw [hy, Option.map_some, Option.map_some, hwr]
  · rfl

end Replace

section Put

variable {α : Type} [Elemental α] {a : α} {y : Element}

theorem Sound.put (hw : w.Sound) (hset : (Elemental.toElement a).Settled) : (w.put a).Sound :=
  hw.replace hset

theorem get?_put (hw : w.Sound) (hy : w.elements.get? e = some y)
    (hwr : (Elemental.toElement a).written = y.written) (x : ElementId) :
    (w.put a).elements.get? x =
      if x = e then some (Elemental.toElement a) else w.elements.get? x := get?_replace hw hy hwr x

theorem keeps_put (hw : w.Sound) (hy : w.elements.get? e = some y)
    (hwr : (Elemental.toElement a).written = y.written)
    (hset : (Elemental.toElement a).Settled) : Keeps w (w.put a) := keeps_replace hw hy hwr hset

theorem quiet_put (hw : w.Sound) (hy : w.elements.get? e = some y)
    (h : y.Kept (Elemental.toElement a)) : Quiet w (w.put a) := by
  have hget := get?_put hw hy h.written
  refine ⟨keeps_put hw hy h.written (h.settled (hw.settled e y hy)), fun x => ?_, fun x => ?_⟩
  · unfold World.memory?
    rw [hget]
    split
    · subst x
      rw [hy, Option.map_some, Option.map_some, h.memory]
    · rfl
  · unfold World.commits Elements.commits
    rw [hget]
    split
    · subst x
      rw [hy, Option.map_some, Option.map_some, h.commits]
    · rfl

theorem recorded_put (hw : w.Sound) (hy : w.elements.get? e = some y)
    (h : y.Recorded (Elemental.toElement a) cleaners) : Recorded w (w.put a) e cleaners := by
  have hget := get?_put hw hy h.written
  have hself : (w.put a).elements.get? e = some (Elemental.toElement a) := by rw [hget, if_pos rfl]
  obtain ⟨v, hv⟩ := h.memory
  refine ⟨keeps_put hw hy h.written h.settled, ⟨y.memory, v, ?_, ?_⟩, ?_, fun x hx => ⟨?_, ?_⟩⟩
  · rw [World.memory?, hy, Option.map_some]
  · rw [World.memory?, hself, Option.map_some, hv, commits_eq hy]
  · rw [commits_eq hself, commits_eq hy, h.commits]
  · rw [World.memory?, World.memory?, hget, if_neg hx]
  · unfold World.commits Elements.commits
    rw [hget, if_neg hx]

end Put

/-! ### Changes of other parts -/

theorem quiet_of_elements (he : w'.elements = w.elements) (hr : w'.root = w.root)
    (hn : w.graph.SameNodes w'.graph) : Quiet w w' := by
  refine ⟨⟨hr, hn, fun x => ?_, fun hw => ⟨fun n a ha => hw.node n a ?_, ?_, ?_⟩⟩, fun x => ?_,
    fun x => ?_⟩
  · rw [World.written?, World.written?, he]
  · exact (hn.content? n).symm.trans ha
  · rw [he]
    exact hw.id
  · rw [he]
    exact hw.settled
  · rw [World.memory?, World.memory?, he]
  · rw [World.commits, World.commits, he]

/-! ### Names on the screen -/

/-- The image under the name that it gets in a world. -/
def naming (w : World) (i : Image) : Image :=
  { i with presented := some (Image.screenName w.ids.next) }

/-- The world after an image has got its name. -/
def named (w : World) (i : Image) : World :=
  { w with ids := w.ids.take.2, elements := w.elements.put (.image (w.naming i)) }

theorem quiet_take (w : World) : w.Quiet { w with ids := w.ids.take.2 } :=
  quiet_of_elements rfl rfl (.refl _)

section Named

variable {i : Image}

theorem get?_named (hw : w.Sound) (hi : w.elements.get? e = some (.image i)) (x : ElementId) :
    (w.named i).elements.get? x =
      if x = e then some (.image (w.naming i)) else w.elements.get? x :=
  get?_put (a := w.naming i) ((quiet_take w).sound hw) hi rfl x

theorem quiet_named (hw : w.Sound) (hi : w.elements.get? e = some (.image i)) :
    w.Quiet (w.named i) :=
  (quiet_take w).trans <| quiet_put (a := w.naming i) ((quiet_take w).sound hw) hi
    (Element.kept_presented i _)

end Named

end World

namespace Build

variable {w w' : World} {α : Type} {node : NodeId}

theorem ofExcept_eq_ok_iff {x : Except GameError α} {a : α} :
    ofExcept x w = .ok a w' ↔ x = .ok a ∧ w' = w := by
  cases x <;> simp [ofExcept, eq_comm]

theorem find_eq_ok_iff [Elemental α] [LawfulElemental α] {e : ElementId} {a : α} :
    find α e w = .ok a w' ↔ w.elements.get? e = some (Elemental.toElement a) ∧ w' = w := by
  unfold find
  rw [bind_get_apply, ofExcept_eq_ok_iff, World.find_eq_ok_iff]

theorem ofEdit_eq_ok_iff {edit : Graph.Edit Action α} {a : α} :
    ofEdit edit w = .ok a w' ↔ ∃ g, edit w.graph = .ok a g ∧ w' = { w with graph := g } := by
  unfold ofEdit
  cases edit w.graph with
  | ok b g =>
    constructor
    · rintro ⟨⟩
      exact ⟨g, rfl, rfl⟩
    · rintro ⟨g', ⟨⟩, rfl⟩
      rfl
  | error e g => simp

theorem ofEdit_splice {branch : Option Chain} {u : Unit}
    (h : ofEdit (Graph.splice node branch) w = .ok u w') : World.Quiet w w' := by
  obtain ⟨g, hg, rfl⟩ := ofEdit_eq_ok_iff.1 h
  exact World.quiet_of_elements rfl rfl (Graph.sameNodes_splice hg)

/-- **A pick** is recorded by its menu, unless there is no such entry. -/
theorem choose_spec {index : Nat} {u : Unit} (hw : w.Sound) (h : choose node index w = .ok u w') :
    ∃ a commit, w.action? node = some a ∧ commit.getD [] = [] ∧ w.Did w' a.callee commit := by
  unfold choose at h
  rw [bind_get_apply] at h
  obtain ⟨e, w₁, he, h₁⟩ := bind_apply_eq_ok.1 h
  obtain ⟨hcallee, rfl⟩ := ofExcept_eq_ok_iff.1 he
  obtain ⟨a, ha, rfl⟩ := World.calleeOf_eq_ok_iff.1 hcallee
  obtain ⟨m, w₂, hfind, h₂⟩ := bind_apply_eq_ok.1 h₁
  obtain ⟨hm, rfl⟩ := find_eq_ok_iff.1 hfind
  cases hpick : m.pick? index with
  | some pick =>
    obtain ⟨chain, m'⟩ := pick
    rw [hpick] at h₂
    have hr := World.recorded_put (a := m') hw hm (Element.recorded_pick (hw.settled _ _ hm) hpick)
    exact ⟨a, some [], ha, rfl, hr.quiet (ofEdit_splice h₂)⟩
  | none =>
    rw [hpick] at h₂
    exact ⟨a, none, ha, rfl, ofEdit_splice h₂⟩

end Build

/-! ### Taking back -/

/-- **Taking the latest commit of an element back** pops its memory, runs the cleaners of the commit
and leaves everything else. -/
theorem World.undoAction_spec {w : World} {n : NodeId} {a : Action} {v : Element.View}
    {p : Past Element.View} {rest : List (Past Element.View)} (hw : w.Sound)
    (ha : w.action? n = some a) (hm : w.memory? a.callee = some ⟨v, p :: rest⟩) (store : Store) :
    ∃ count w', w.undoAction n store = .ok (count, w', Cleaner.runAll p.cleaners store) ∧
      w.Keeps w' ∧ w'.memory? a.callee = some ⟨p.view, rest⟩ ∧
      (∀ x, x ≠ a.callee → w'.memory? x = w.memory? x) ∧ (∀ x, w'.commits x = w.commits x) ∧
      w'.graph = w.graph := by
  obtain ⟨y, hy, hym⟩ := Option.map_eq_some_iff.1 hm
  obtain ⟨count, y', hundo, hmem, hcommits, hwr, hset⟩ :=
    Element.undo_spec (congrArg Memory.pasts hym) store
  have hget := World.get?_replace hw hy hwr
  refine ⟨count, { w with elements := w.elements.put y' }, ?_,
    World.keeps_replace hw hy hwr (hset (hw.settled _ _ hy)), ?_, fun x hx => ?_, fun x => ?_, rfl⟩
  · unfold undoAction calleeOf
    simp only [ha, ok_bind, hy, hundo, pure_eq_ok]
  · rw [World.memory?, hget, if_pos rfl, Option.map_some, hmem]
  · rw [World.memory?, World.memory?, hget, if_neg hx]
  · unfold World.commits Elements.commits
    rw [hget]
    split
    · subst x
      rw [hy, Option.map_some, Option.map_some, hcommits]
    · rfl

end Storyline
