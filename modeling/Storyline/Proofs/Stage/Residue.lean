import Storyline.Proofs.Graph.Reached
import Storyline.Proofs.Graph.Splice
import Storyline.Proofs.Stage.Beats
import Storyline.Proofs.Stage.Grafts

/-!
# What is left behind, also by what fails

* `World.Touches n w w'`: nothing written is changed and no node but `n` comes to remember anything;
* `Build.touches_left_choose`, `Perform.touches_left_execute`: so much and no more is done to a world by
  a pick and by executing a node, whether or not they succeed;
* `Perform.graph_left_execute_menu`: executing a menu changes no edge;
* `World.undoAction_keeps`: taking a commit back changes no edge.
-/

namespace Storyline

open Effect

namespace Graph

variable {γ : Type}

theorem resumes_left_splice (g : Graph γ) (n : NodeId) (branch : Option Chain) :
    SameNodes g (left (splice n branch g)) ∧
      ∀ x, x ≠ n → (left (splice n branch g)).resumes[x]? = g.resumes[x]? := by
  refine left_splice (P := fun k => SameNodes g k ∧ ∀ x, x ≠ n → k.resumes[x]? = g.resumes[x]?)
    ?_ ⟨.refl g, fun _ _ => rfl⟩ (fun _ => ⟨⟨fun _ => rfl, rfl⟩, fun x hx => ?_⟩) branch
  · rintro k k' x c? ⟨hn, hr⟩ hk
    have hset := rewired_of_setChild hk
    exact ⟨hn.trans hset.toSameNodes, fun y hy => by rw [hset.resumes, hr y hy]⟩
  · rw [resumes_remember, if_neg hx]

end Graph

/-- `w'` is `w` after a node was executed or picked at: all that was written is there, and no other
node remembers anything new. -/
structure World.Touches (n : NodeId) (w w' : World) : Prop where
  keeps : w.Keeps w'
  resumes : ∀ x, x ≠ n → w'.graph.resumes[x]? = w.graph.resumes[x]?

namespace World.Touches

variable {n : NodeId} {w w' w'' : World}

theorem of_graph (hk : w.Keeps w') (hg : w'.graph = w.graph) : Touches n w w' :=
  ⟨hk, fun _ _ => by rw [hg]⟩

theorem refl (n : NodeId) (w : World) : Touches n w w := .of_graph (.refl w) rfl

theorem trans (h : Touches n w w') (h' : Touches n w' w'') : Touches n w w'' :=
  ⟨h.keeps.trans h'.keeps, fun x hx => (h'.resumes x hx).trans (h.resumes x hx)⟩

theorem left_splice (n : NodeId) (w : World) (branch : Option Chain) :
    Touches n w (left (Build.ofEdit (Graph.splice n branch) w)) := by
  obtain ⟨hn, hr⟩ := Graph.resumes_left_splice w.graph n branch
  rw [left_ofEdit]
  have hquiet : w.Quiet { w with graph := left (Graph.splice n branch w.graph) } :=
    quiet_of_elements rfl rfl hn
  exact ⟨hquiet.toKeeps, hr⟩

end World.Touches

/-- **A pick** records itself and grafts in behind its own node, if it does not fail half way. -/
theorem Build.touches_left_choose {w : World} (hw : w.Sound) (n : NodeId) (i : Nat) :
    w.Touches n (left (Build.choose n i w)) := by
  unfold Build.choose
  rw [bind_get_apply]
  cases hc : w.calleeOf n with
  | error e => exact .refl n w
  | ok callee =>
    rw [bind_of_ok (ofExcept_eq_ok_iff.2 ⟨rfl, rfl⟩)]
    refine left_bind (P := w.Touches n) (by rw [World.left_find]; exact .refl n w) fun m w₁ hm => ?_
    obtain ⟨hm, rfl⟩ := Build.find_eq_ok_iff.1 hm
    cases hp : m.pick? i with
    | none => exact .left_splice n _ none
    | some pick =>
      obtain ⟨chain, m'⟩ := pick
      have hr := World.recorded_put (a := m') hw hm (Element.recorded_pick (hw.settled _ _ hm) hp)
      exact (World.Touches.of_graph hr.toKeeps rfl).trans (.left_splice n _ chain)

/-! ### Executing a node -/

/-- No beat of an action changes what was written, nor what another node remembers. -/
theorem World.Touches.beat {σ : Type} {screen : Screen σ} {s s' : Stage σ} {a : Action}
    (h : Stage.Beat screen a s s') (hw : s.world.Sound) : s.world.Touches a.node s'.world := by
  cases h with
  | graft chain => exact .left_splice a.node s.world chain
  | record hx hy =>
    exact .of_graph (keeps_replace hw hx hy.written (hy.settled (hw.settled _ _ hx))) rfl
  | name hi _ => exact .of_graph (quiet_named hw hi).toKeeps rfl
  | store | future | tell | animate => exact .refl _ _

namespace Perform

variable {σ : Type} {s : Stage σ} {a : Action}

/-- An action keeps what was written, and no other node comes to remember anything. -/
theorem touches_left_executeAction (screen : Screen σ) (a : Action) (hw : s.world.Sound) :
    s.world.Touches a.node (left (executeAction screen a s)).world :=
  kept_of_steps (P := fun t => s.world.Touches a.node t.world) (beats_executeAction screen a hw)
    (fun _ _ hbeat ht => ht.trans (.beat hbeat (ht.keeps.sound hw))) (.refl _ _)

theorem left_execute (screen : Screen σ) (n : NodeId) (s : Stage σ) :
    left (execute screen n s) =
      match s.world.action? n with
      | some a => left (executeAction screen a (s.sent screen (.handle a)))
      | none => s := by
  cases ha : s.world.action? n with
  | none =>
    unfold execute
    rw [bind_get_apply, ha]
    rfl
  | some a => rw [execute_apply ha]

/-- **Executing a node** keeps what was written, and no other node comes to remember anything. -/
theorem touches_left_execute (screen : Screen σ) (n : NodeId) (hw : s.world.Sound) :
    s.world.Touches n (left (execute screen n s)).world := by
  rw [left_execute]
  cases ha : s.world.action? n with
  | none => exact .refl n _
  | some a =>
    simp only
    rw [← hw.node n a ha]
    exact touches_left_executeAction (s := s.sent screen (.handle a)) screen a hw

/-- Executing a menu changes no edge and remembers nothing: it waits for a pick. -/
theorem graph_left_execute_menu (screen : Screen σ) {n : NodeId}
    (ha : s.world.action? n = some a) (hk : a.kind = .menu) :
    (left (execute screen n s)).world.graph = s.world.graph := by
  rw [execute_apply ha]
  unfold executeAction
  rw [hk]
  refine left_bind (P := fun t : Stage σ => t.world.graph = s.world.graph) ?_ fun m t hm => ?_
  · rw [left_find]
    rfl
  · obtain ⟨-, rfl⟩ := build_find_eq_ok_iff.1 hm
    rfl

end Perform

/-! ### Taking back -/

namespace Element

theorem Holds.undo_keeps {ρ τ : Type} [Undoable τ ρ] [Rolling τ ρ] {rebuild : Tracked τ ρ → Element}
    {view : τ → View} (hh : Holds rebuild view) {t : Tracked τ ρ} {store store' : Store} {count : Nat}
    {e : Element} (h : undoIn t rebuild store = .ok (count, e, store')) :
    e.written = (rebuild t).written ∧ ((rebuild t).Settled → e.Settled) := by
  unfold undoIn Tracked.undo at h
  cases htake : t.log.take none with
  | error err =>
    rw [htake] at h
    cases h
  | ok p =>
    rw [htake] at h
    obtain ⟨⟩ := h
    refine ⟨hh.written _ _, fun hs => ?_⟩
    rw [hh.settled] at hs ⊢
    unfold Log.take at htake
    split at htake
    · cases htake
    · split at htake
      · obtain ⟨⟩ := htake
        exact hs
      · cases htake

theorem undo_keeps {x e : Element} {store store' : Store} {count : Nat}
    (h : x.undo store = .ok (count, e, store')) :
    e.written = x.written ∧ (x.Settled → e.Settled) := by
  cases x with
  | character c => exact (holds_character c).undo_keeps h
  | image i => exact (holds_image i).undo_keeps h
  | sound s => exact (holds_sound s).undo_keeps h
  | scene s => exact (holds_scene s).undo_keeps h
  | story => cases h
  | script s => exact (holds_script s).undo_keeps h
  | condition c => exact (holds_condition c).undo_keeps h
  | menu m => exact (holds_menu m).undo_keeps h

end Element

/-- Taking a commit back puts the element of the node into its state before. -/
theorem World.undoAction_eq_ok {w w' : World} {n : NodeId} {store store' : Store} {count : Nat}
    (h : w.undoAction n store = .ok (count, w', store')) :
    ∃ e x y, w.elements.get? e = some x ∧ x.undo store = .ok (count, y, store') ∧
      w' = { w with elements := w.elements.put y } := by
  unfold World.undoAction at h
  obtain ⟨e, -, h₁⟩ := bind_eq_ok.1 h
  cases hx : w.elements.get? e with
  | none =>
    rw [hx] at h₁
    cases h₁
  | some x =>
    simp only [hx] at h₁
    cases hu : x.undo store with
    | error err =>
      rw [hu] at h₁
      cases h₁
    | ok p =>
      obtain ⟨k, y, store₁⟩ := p
      rw [hu] at h₁
      obtain ⟨⟩ := h₁
      exact ⟨e, x, y, hx, hu, rfl⟩

/-- **Taking a commit back** changes no edge and nothing that was written. -/
theorem World.undoAction_keeps {w w' : World} {n : NodeId} {store store' : Store} {count : Nat}
    (hw : w.Sound) (h : w.undoAction n store = .ok (count, w', store')) :
    w.Keeps w' ∧ w'.graph = w.graph := by
  obtain ⟨e, x, y, hx, hu, rfl⟩ := undoAction_eq_ok h
  obtain ⟨hwr, hset⟩ := Element.undo_keeps hu
  exact ⟨World.keeps_replace hw hx hwr (hset (hw.settled _ _ hx)), rfl⟩

end Storyline
