import Storyline.Proofs.Stage.Execute

/-!
# Two stages that actions cannot tell apart

* `Effect.Agree S R x y`: two results are both answers that are related by `R`, or the same error, and
  leave states that are related by `S`;
* `Link`: how the futures and the screens of two stages may differ, and which futures stand for each
  other; `Link.Lawful`: new futures and cues keep this up;
* `Link.Stages`: two stages with the same world and the same store, and futures and screens as a link
  allows;
* `Perform.agree_execute`: executing a node on the one is executing it on the other.
-/

namespace Storyline

/-! ### Results that agree -/

namespace Effect

variable {ε σ τ α β α' β' : Type} {S : σ → τ → Prop} {R : α → β → Prop} {R' : α' → β' → Prop}

/-- Two results are both answers that are related, or the same error, and leave related states. -/
def Agree (S : σ → τ → Prop) (R : α → β → Prop) :
    EStateM.Result ε σ α → EStateM.Result ε τ β → Prop
  | .ok a s, .ok b t => R a b ∧ S s t
  | .error e s, .error e' t => e' = e ∧ S s t
  | _, _ => False

theorem Agree.bind {x : EStateM ε σ α} {y : EStateM ε τ β} {k : α → EStateM ε σ α'}
    {l : β → EStateM ε τ β'} {s : σ} {t : τ} (h : Agree S R (x s) (y t))
    (hk : ∀ a b s t, R a b → S s t → Agree S R' (k a s) (l b t)) :
    Agree S R' ((x >>= k) s) ((y >>= l) t) := by
  cases hx : x s with
  | ok a s' =>
    cases hy : y t with
    | ok b t' =>
      rw [hx, hy] at h
      rw [bind_of_ok hx, bind_of_ok hy]
      exact hk a b s' t' h.1 h.2
    | error e t' =>
      rw [hx, hy] at h
      exact h.elim
  | error e s' =>
    cases hy : y t with
    | ok b t' =>
      rw [hx, hy] at h
      exact h.elim
    | error e' t' =>
      rw [hx, hy] at h
      rw [bind_of_error hx, bind_of_error hy]
      exact h

theorem Agree.left {x : EStateM.Result ε σ α} {y : EStateM.Result ε τ β} (h : Agree S R x y) :
    S (left x) (left y) := by
  cases x <;> cases y <;> first | exact h.2 | exact h.elim

end Effect

open Effect

/-! ### Links -/

/-- How the futures and the screens of two stages may differ, and which of their futures stand for
each other. -/
structure Link (σ τ : Type) where
  rel : Futures → σ → Futures → τ → Prop
  names : FutureId → FutureId → Prop

variable {σ τ : Type} {L : Link σ τ} {a : Screen σ} {b : Screen τ}

/-- Two stages with the same world and the same store, whose futures and screens are linked. -/
structure Link.Stages (L : Link σ τ) (s : Stage σ) (t : Stage τ) : Prop where
  world : t.world = s.world
  store : t.store = s.store
  rest : L.rel s.futures s.screen t.futures t.screen

theorem Link.Stages.withWorld {s : Stage σ} {t : Stage τ} (h : L.Stages s t) (world : World) :
    L.Stages { s with world } { t with world } :=
  ⟨rfl, h.store, h.rest⟩

theorem Link.Stages.withStore {s : Stage σ} {t : Stage τ} (h : L.Stages s t) (store : Store) :
    L.Stages { s with store } { t with store } :=
  ⟨h.world, rfl, h.rest⟩

/-- A link is kept up by new futures, which stand for each other, and by cues, which may carry futures
that do. -/
structure Link.Lawful (L : Link σ τ) (a : Screen σ) (b : Screen τ) : Prop where
  future : ∀ {s : Stage σ} {t : Stage τ}, L.Stages s t → ∀ receive,
    L.names (s.futures.add receive).1 (t.futures.add receive).1 ∧
      L.Stages { s with futures := (s.futures.add receive).2 }
        { t with futures := (t.futures.add receive).2 }
  tell : ∀ {s : Stage σ} {t : Stage τ}, L.Stages s t → ∀ cue, L.Stages (s.sent a cue) (t.sent b cue)
  ask : ∀ {s : Stage σ} {t : Stage τ}, L.Stages s t → ∀ (cue : FutureId → Cue) {f f'},
    L.names f f' → L.Stages (s.sent a (cue f)) (t.sent b (cue f'))

/-- Two actions have ended alike. -/
def Link.Ends (L : Link σ τ) : Executed → Executed → Prop
  | .immediate o, .immediate o' => o' = o
  | .suspended f, .suspended f' => L.names f f'
  | _, _ => False

namespace Perform

variable {s : Stage σ} {t : Stage τ} {α : Type}

/-- Two programs agree on two stages if they do so far and linked stages are left. -/
abbrev Agrees (L : Link σ τ) (x : EStateM.Result GameError (Stage σ) Executed)
    (y : EStateM.Result GameError (Stage τ) Executed) : Prop :=
  Agree L.Stages L.Ends x y

/-! ### Single changes -/

theorem agree_build (h : L.Stages s t) (change : Build α) :
    Agree L.Stages Eq (build change s) (build change t) := by
  unfold build
  rw [h.world]
  cases change s.world with
  | ok x w => exact ⟨rfl, rfl, h.store, h.rest⟩
  | error e w => exact ⟨rfl, rfl, h.store, h.rest⟩

theorem Agrees.build (h : L.Stages s t) (change : Build α) {k : α → Perform σ Executed}
    {l : α → Perform τ Executed}
    (hk : ∀ x s t, L.Stages s t → Agrees L (k x s) (l x t)) :
    Agrees L ((Perform.build change >>= k) s) ((Perform.build change >>= l) t) := by
  refine (agree_build h change).bind ?_
  rintro x _ s t rfl h
  exact hk x s t h

theorem Agrees.immediate (h : L.Stages s t) (o : Outcome) :
    Agrees L ((return .immediate o : Perform σ Executed) s)
      ((return .immediate o : Perform τ Executed) t) :=
  ⟨rfl, h⟩

theorem Agrees.tell (hL : L.Lawful a b) (h : L.Stages s t) (cue : Cue) (o : Outcome) :
    Agrees L ((do send a cue; return .immediate o : Perform σ Executed) s)
      ((do send b cue; return .immediate o : Perform τ Executed) t) :=
  ⟨rfl, hL.tell h cue⟩

/-- A statement that asks the screen and may wait for the answer. -/
theorem Agrees.ask (hL : L.Lawful a b) (h : L.Stages s t) (receive : Resolution → Outcome)
    (cue : FutureId → Cue) (waits : Bool) (o : Outcome) :
    Agrees L
      ((do
        let f ← future receive
        send a (cue f)
        return if waits then .suspended f else .immediate o : Perform σ Executed) s)
      ((do
        let f ← future receive
        send b (cue f)
        return if waits then .suspended f else .immediate o : Perform τ Executed) t) := by
  obtain ⟨hnames, hstages⟩ := hL.future h receive
  have hsent := hL.ask hstages cue hnames
  cases waits with
  | true => exact ⟨hnames, hsent⟩
  | false => exact ⟨rfl, hsent⟩

theorem Agrees.splice (h : L.Stages s t) (node : NodeId) (chain : Option Chain) (o : Outcome) :
    Agrees L
      ((do Perform.build (Build.ofEdit (Graph.splice node chain)); return .immediate o :
        Perform σ Executed) s)
      ((do Perform.build (Build.ofEdit (Graph.splice node chain)); return .immediate o :
        Perform τ Executed) t) :=
  .build h _ fun _ _ _ h => .immediate h o

/-! ### Actions -/

theorem agrees_actOn (hL : L.Lawful a b) (h : L.Stages s t) (action : Action)
    (event : Option ImageEvent) (name : String) (i : Image) :
    Agrees L (actOn a action event name i s) (actOn b action event name i t) := by
  unfold actOn
  refine .build h _ fun _ s t h => ?_
  cases event with
  | none => exact .immediate h _
  | some event => exact .ask hL h (fun _ => action.outcome) (.animate name event) true action.outcome

theorem agrees_image (hL : L.Lawful a b) (h : L.Stages s t) (action : Action)
    (change : Image → Image) (event : Option ImageEvent) :
    Agrees L (image a action change event s) (image b action change event t) := by
  unfold image
  refine .build h _ fun i s t h => ?_
  cases i.presented with
  | some name => exact agrees_actOn hL h action event name (change i)
  | none =>
    simp only [bind_get_apply, bind_modify_apply, bind_put_apply, bind_send_apply]
    rw [h.world]
    exact agrees_actOn hL (hL.tell (h.withWorld _) _) action event _ (change _)

/-- **What an action does** is the same on linked stages. -/
theorem agrees_executeAction (hL : L.Lawful a b) (h : L.Stages s t) (action : Action) :
    Agrees L (executeAction a action s) (executeAction b action t) := by
  unfold executeAction
  cases action.kind with
  | say line =>
    exact .build h _ fun c s t h => .build h _ fun _ s t h =>
      .ask hL h (fun _ => action.outcome) (.say action.node (c.speak line)) _ _
  | hideLine line =>
    refine .build h _ fun c s t h => ?_
    cases c.hide? line with
    | none => exact .immediate h _
    | some c' => exact .build h _ fun _ s t h => .tell hL h _ _
  | scene chain =>
    exact .build h _ fun c s t h => Agrees.splice (hL.tell h (.scene c)) _ _ _
  | setBackground src =>
    exact .build h _ fun c s t h => .build h _ fun _ s t h =>
      .ask hL h (fun _ => action.outcome) (.background src) true action.outcome
  | sleep d =>
    refine Agree.bind (R := Eq) ?_ ?_
    · -- to look for the scene reads the world alone, which both sides share
      have hfind := agree_build h (Build.find Scene action.callee)
      rw [discard_apply, discard_apply]
      cases hs : build (Build.find Scene action.callee) s <;>
        cases ht : build (Build.find Scene action.callee) t <;> rw [hs, ht] at hfind
      · exact ⟨rfl, hfind.2⟩
      · exact hfind.elim
      · exact hfind.elim
      · exact hfind
    · rintro _ _ s t - h
      exact Agrees.ask hL h (fun _ => action.outcome) (.sleep d) true action.outcome
  | story chain => exact .splice h _ _ _
  | setSrc | setPosition | showImage | hideImage | applyTransform => exact agrees_image hL h _ _ _
  | condition =>
    refine .build h _ fun c s t h => ?_
    simp only [bind_get_apply, bind_modify_apply]
    rw [h.store]
    exact .build (h.withStore _) _ fun _ s t h => .splice h _ _ _
  | script =>
    refine .build h _ fun c s t h => ?_
    simp only [bind_get_apply, bind_modify_apply]
    rw [h.store]
    exact .build (h.withStore _) _ fun _ s t h => .immediate h _
  | menu =>
    exact .build h _ fun m s t h =>
      .ask hL h action.outcome.answered (.menu action.node m.prompt m.prompts) true action.outcome
  | play =>
    refine .build h _ fun c s t h => .build h _ fun _ s t h => ?_
    split
    · exact .ask hL h (fun _ => action.outcome) (fun f => .play c.play (some f)) true action.outcome
    · exact .tell hL h _ _
  | stop => exact .build h _ fun c s t h => .build h _ fun _ s t h => .tell hL h _ _

/-- **Executing a node** is the same on linked stages. -/
theorem agrees_execute (hL : L.Lawful a b) (h : L.Stages s t) (node : NodeId) :
    Agrees L (execute a node s) (execute b node t) := by
  unfold execute
  rw [bind_get_apply, bind_get_apply, h.world]
  cases s.world.action? node with
  | none => exact ⟨rfl, h⟩
  | some action => exact agrees_executeAction hL (hL.tell h _) action

end Perform

end Storyline
