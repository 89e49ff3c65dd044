import Storyline.Proofs.Stage.Execute
import Storyline.Proofs.Story.Roles
import Storyline.Stage.Headless

/-!
# Statements on a screen without a display

* `World.calls`: how often the handler of a script was called, and `Stage.outlook`: what the course
  of a story depends on at a stage;
* `Answered o fs r`: an action ended in an outcome, or in a future that has it already;
* `Perform.execute_statement`: a statement whose element is there is executed without a failure,
  changes nothing that the course of the story depends on, and is answered at once.
-/

namespace Storyline

open Effect

/-! ### What the course of a story depends on -/

def Element.calls : Element → Nat
  | script s => s.calls
  | _ => 0

/-- How often the handler of a script was called. -/
def World.calls (w : World) (e : ElementId) : Nat := ((w.elements.get? e).map Element.calls).getD 0

def Stage.outlook (s : Stage Headless) : Outlook := ⟨s.store, s.screen.picks, s.world.calls⟩

theorem World.calls_put {w : World} {e : ElementId} {x : Element} {α : Type} [Elemental α] {a : α}
    (hx : w.elements.get? e = some x) (hid : (Elemental.toElement a).id = e)
    (hc : (Elemental.toElement a).calls = x.calls) : (w.put a).calls = w.calls := by
  funext e'
  show (((w.elements.put (Elemental.toElement a)).get? e').map Element.calls).getD 0 = _
  rw [Elements.get?_put, hid]
  split
  · subst e'
    rw [World.calls, hx, Option.map_some, Option.map_some, hc]
  · rfl

/-! ### Answers at once -/

/-- An action ended in an outcome, or in a future that has it already. -/
def Answered (o : Outcome) (fs : Futures) : Executed → Prop
  | .immediate o' => o' = o
  | .suspended f => fs.result? f = some o

/-- A new future that is answered has what its receiver makes of the answer. -/
theorem Futures.result?_settle_add (fs : Futures) (receiver : Resolution → Outcome)
    (r : Resolution) :
    ((fs.add receiver).2.settle ((fs.add receiver).1, r)).result? (fs.add receiver).1 =
      some (receiver r) := by
  have hget : (fs.add receiver).2.get? (fs.add receiver).1 = some (.fresh receiver) := by
    unfold get? add
    simp
  cases hr : (fs.add receiver).2.resolve (fs.add receiver).1 r with
  | error e =>
    unfold resolve at hr
    rw [hget] at hr
    cases hr
  | ok fs' =>
    obtain ⟨cell, receive, hcell, hreceive, hself, -⟩ := get?_resolve hr
    obtain rfl : Deferred.Cell.fresh receiver = cell := Option.some_inj.1 (hget.symm.trans hcell)
    obtain rfl : receiver = receive := Option.some_inj.1 hreceive
    unfold settle result?
    simp only [hr, hself]
    rfl

namespace Perform

variable {s s' : Stage Headless} {a : Action} {r : Executed} {kind : Kind}

/-- What executing a statement comes to. -/
structure Stated (a : Action) (s s' : Stage Headless) (r : Executed) : Prop where
  graph : s'.world.graph = s.world.graph
  outlook : s'.outlook = s.outlook
  answered : Answered a.outcome s'.futures r

/-- A future that ends in the plain outcome of an action, given away with a cue that is answered. -/
theorem stated_suspend {cue : FutureId → Cue}
    (hc : ∀ f h, (Headless.receive (cue f) h).1.picks = h.picks ∧
      (Headless.receive (cue f) h).2 = [(f, .proceed)]) (s : Stage Headless) :
    Stated a s (Stage.sent Headless.screen (cue (s.futures.add fun _ => a.outcome).1)
        { s with futures := (s.futures.add fun _ => a.outcome).2 })
      (.suspended (s.futures.add fun _ => a.outcome).1) := by
  obtain ⟨hpicks, hanswers⟩ := hc (s.futures.add fun _ => a.outcome).1 s.screen
  refine ⟨rfl, ?_, ?_⟩
  · show (⟨s.store, (Headless.receive _ s.screen).1.picks, s.world.calls⟩ : Outlook) = _
    rw [hpicks]
    rfl
  · show Futures.result? (List.foldl Futures.settle _ (Headless.receive _ s.screen).2) _ = _
    rw [hanswers]
    exact s.futures.result?_settle_add _ _

theorem Stated.of_world {w : World} (h : Stated a { s with world := w } s' r)
    (hg : w.graph = s.world.graph) (hc : w.calls = s.world.calls) : Stated a s s' r := by
  refine ⟨h.graph.trans hg, h.outlook.trans ?_, h.answered⟩
  unfold Stage.outlook
  rw [hc]

/-- Putting back an element that is no script changes nothing that matters. -/
theorem Stated.of_put {α : Type} [Elemental α] {x : α} {y : Element}
    (h : Stated a { s with world := s.world.put x } s' r)
    (hy : s.world.elements.get? a.callee = some y) (hid : (Elemental.toElement x).id = a.callee)
    (hc : (Elemental.toElement x).calls = y.calls) : Stated a s s' r :=
  h.of_world rfl (World.calls_put hy hid hc)

theorem stated_sent {cue : Cue} (hc : ∀ h, (Headless.receive cue h).1.picks = h.picks ∧
      (Headless.receive cue h).2 = []) (s : Stage Headless) :
    Stated a s (s.sent Headless.screen cue) (.immediate a.outcome) := by
  refine ⟨rfl, ?_, rfl⟩
  show (⟨s.store, (Headless.receive cue s.screen).1.picks, s.world.calls⟩ : Outlook) = _
  rw [(hc s.screen).1]
  rfl

/-! ### Every kind of statement -/

/-- An image that is on the screen is changed, and the change is shown. -/
theorem actOn_stated {i : Image} {y : Element} (event : Option ImageEvent) (name : String)
    (hy : s.world.elements.get? a.callee = some y) (hid : i.id = a.callee) (hc : y.calls = 0) :
    ∃ r s', actOn Headless.screen a event name i s = .ok r s' ∧ Stated a s s' r := by
  have hput : ∀ {s' r}, Stated a { s with world := s.world.put i } s' r → Stated a s s' r :=
    fun h => h.of_put hy hid hc.symm
  unfold actOn
  rw [bind_put_apply]
  cases event with
  | none => exact ⟨_, _, rfl, hput ⟨rfl, rfl, rfl⟩⟩
  | some event => exact ⟨_, _, rfl, hput (stated_suspend (fun _ _ => ⟨rfl, rfl⟩) _)⟩

/-- An image gets a name, is put on the screen and is changed. -/
theorem actOn_named {i named changed : Image} (event : Option ImageEvent) (name : String)
    (ids : Counter) (hi : s.world.elements.get? a.callee = some (.image i)) (hn : named.id = a.callee)
    (hc : changed.id = a.callee) :
    ∃ r s', actOn Headless.screen a event name changed
        (Stage.sent Headless.screen (.addImage name named)
          { s with world := ({ s.world with ids } : World).put named }) = .ok r s' ∧
      Stated a s s' r := by
  have hget : (({ s.world with ids } : World).put named).elements.get? a.callee =
      some (.image named) := by
    show (s.world.elements.put (.image named)).get? _ = _
    rw [Elements.get?_put]
    exact if_pos hn
  obtain ⟨r, s', hs', h⟩ := actOn_stated (s := Stage.sent Headless.screen (.addImage name named)
    { s with world := ({ s.world with ids } : World).put named }) event name hget hc rfl
  have hput : Stated a { s with world := s.world.put named } s' r :=
    ⟨h.graph, h.outlook, h.answered⟩
  exact ⟨r, s', hs', hput.of_put hi hn rfl⟩

theorem image_stated {change : Image → Image} {event : Option ImageEvent} {i : Image}
    (hi : s.world.elements.get? a.callee = some (.image i)) (hid : i.id = a.callee)
    (hchange : ∀ i : Image, (change i).id = i.id) :
    ∃ r s', image Headless.screen a change event s = .ok r s' ∧ Stated a s s' r := by
  unfold image
  rw [bind_of_ok (build_find_eq_ok_iff.2 ⟨hi, rfl⟩)]
  cases hp : i.presented with
  | some name => exact actOn_stated event name hi ((hchange i).trans hid) rfl
  | none => exact actOn_named event _ _ hi hid ((hchange _).trans hid)

theorem execute_say {line : Sentence} (hk : a.kind = .say line) (hw : s.world.Sound)
    (hs : s.world.shape? a.callee = some (.plain .character)) :
    ∃ r s', executeAction Headless.screen a s = .ok r s' ∧ Stated a s s' r := by
  obtain ⟨c, hx, -⟩ := World.get?_of_shape Character hs rfl
  have hid : c.id = a.callee := hw.id _ _ hx
  unfold executeAction
  simp only [hk]
  rw [bind_of_ok (build_find_eq_ok_iff.2 ⟨hx, rfl⟩)]
  simp only [bind_put_apply, bind_suspend_apply, bind_send_apply]
  have hsay := (@stated_suspend a (fun f => .say a.node (c.speak line) f) (fun _ _ => ⟨rfl, rfl⟩)
    { s with world := s.world.put (c.say a.node) }).of_put hx hid rfl
  refine ⟨_, _, rfl, hsay.graph, hsay.outlook, ?_⟩
  -- a line that does not pause is over at once, and its outcome is the same
  split
  · exact hsay.answered
  · rfl

theorem execute_hideLine {line : NodeId} (hk : a.kind = .hideLine line) (hw : s.world.Sound)
    (hs : s.world.shape? a.callee = some (.plain .character)) :
    ∃ r s', executeAction Headless.screen a s = .ok r s' ∧ Stated a s s' r := by
  obtain ⟨c, hx, -⟩ := World.get?_of_shape Character hs rfl
  have hid : c.id = a.callee := hw.id _ _ hx
  unfold executeAction
  simp only [hk]
  rw [bind_of_ok (build_find_eq_ok_iff.2 ⟨hx, rfl⟩)]
  cases hhide : c.hide? line with
  | none => exact ⟨_, _, rfl, rfl, rfl, rfl⟩
  | some c' =>
    have hid' : c'.id = c.id := by
      unfold Character.hide? at hhide
      split at hhide
      · obtain ⟨⟩ := hhide
        rfl
      · cases hhide
    have hsent := (@stated_sent a (.hideSay line) (fun _ => ⟨rfl, rfl⟩)
      { s with world := s.world.put c' }).of_put hx (hid'.trans hid) rfl
    exact ⟨_, _, rfl, hsent⟩

theorem execute_setBackground {src : String} (hk : a.kind = .setBackground src) (hw : s.world.Sound)
    (hs : s.world.shape? a.callee = some (.plain .scene)) :
    ∃ r s', executeAction Headless.screen a s = .ok r s' ∧ Stated a s s' r := by
  obtain ⟨c, hx, -⟩ := World.get?_of_shape Scene hs rfl
  have hid : c.id = a.callee := hw.id _ _ hx
  unfold executeAction
  simp only [hk]
  rw [bind_of_ok (build_find_eq_ok_iff.2 ⟨hx, rfl⟩)]
  exact ⟨_, _, rfl, (stated_suspend (fun _ _ => ⟨rfl, rfl⟩) _).of_put
    (x := c.setBackground src) hx hid rfl⟩

theorem execute_sleep {d : Span} (hk : a.kind = .sleep d)
    (hs : s.world.shape? a.callee = some (.plain .scene)) :
    ∃ r s', executeAction Headless.screen a s = .ok r s' ∧ Stated a s s' r := by
  obtain ⟨c, hx, -⟩ := World.get?_of_shape Scene hs rfl
  unfold executeAction
  simp only [hk]
  rw [bind_of_ok (discard_apply_of_ok (build_find_eq_ok_iff.2 ⟨hx, rfl⟩))]
  exact ⟨_, _, rfl, stated_suspend (fun _ _ => ⟨rfl, rfl⟩) _⟩

/-- A sound is waited for or not, and in both cases the cue is answered. -/
theorem execute_play (hk : a.kind = .play) (hw : s.world.Sound)
    (hs : s.world.shape? a.callee = some (.plain .sound)) :
    ∃ r s', executeAction Headless.screen a s = .ok r s' ∧ Stated a s s' r := by
  obtain ⟨c, hx, -⟩ := World.get?_of_shape Sound hs rfl
  have hid : c.id = a.callee := hw.id _ _ hx
  unfold executeAction
  simp only [hk]
  rw [bind_of_ok (build_find_eq_ok_iff.2 ⟨hx, rfl⟩), bind_put_apply]
  split
  · exact ⟨_, _, rfl, (@stated_suspend a (fun f => .play c.play (some f))
      (fun _ _ => ⟨rfl, rfl⟩) _).of_put (x := c.play) hx hid rfl⟩
  · exact ⟨_, _, rfl, (@stated_sent a (.play c.play none)
      (fun _ => ⟨rfl, rfl⟩) _).of_put (x := c.play) hx hid rfl⟩

theorem execute_stop (hk : a.kind = .stop) (hw : s.world.Sound)
    (hs : s.world.shape? a.callee = some (.plain .sound)) :
    ∃ r s', executeAction Headless.screen a s = .ok r s' ∧ Stated a s s' r := by
  obtain ⟨c, hx, -⟩ := World.get?_of_shape Sound hs rfl
  have hid : c.id = a.callee := hw.id _ _ hx
  unfold executeAction
  simp only [hk]
  rw [bind_of_ok (build_find_eq_ok_iff.2 ⟨hx, rfl⟩)]
  exact ⟨_, _, rfl, (@stated_sent a (.stop c.stop)
    (fun _ => ⟨rfl, rfl⟩) _).of_put (x := c.stop) hx hid rfl⟩

/-- **A statement** whose element is there is executed without a failure. -/
theorem execute_statement (hw : s.world.Sound) (hk : a.kind.writer? = some kind)
    (hs : s.world.shape? a.callee = some (.plain kind)) :
    ∃ r s', executeAction Headless.screen a s = .ok r s' ∧ Stated a s s' r := by
  cases hact : a.kind with
  | say line =>
    rw [hact] at hk
    obtain rfl := Option.some_inj.1 hk
    exact execute_say hact hw hs
  | hideLine line =>
    rw [hact] at hk
    obtain rfl := Option.some_inj.1 hk
    exact execute_hideLine hact hw hs
  | setBackground src =>
    rw [hact] at hk
    obtain rfl := Option.some_inj.1 hk
    exact execute_setBackground hact hw hs
  | sleep d =>
    rw [hact] at hk
    obtain rfl := Option.some_inj.1 hk
    exact execute_sleep hact hs
  | setSrc | setPosition | showImage | hideImage | applyTransform =>
    rw [hact] at hk
    obtain rfl := Option.some_inj.1 hk
    obtain ⟨i, hx, -⟩ := World.get?_of_shape Image hs rfl
    unfold executeAction
    rw [hact]
    exact image_stated hx (hw.id _ _ hx) fun _ => rfl
  | play =>
    rw [hact] at hk
    obtain rfl := Option.some_inj.1 hk
    exact execute_play hact hw hs
  | stop =>
    rw [hact] at hk
    obtain rfl := Option.some_inj.1 hk
    exact execute_stop hact hw hs
  | scene | story | condition | script | menu =>
    rw [hact] at hk
    cases hk

end Perform

end Storyline
