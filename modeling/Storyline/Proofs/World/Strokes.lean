import Mathlib.Logic.Relation
import Storyline.Proofs.Graph.Paired
import Storyline.Proofs.World.Calls

/-!
# What the calls of a builder are made of

* `Call.Stroke c start`: all that a call may do to a world at a time: spend a number, add an element,
  revise one, add a node, set one edge among the nodes that were given to it, set the back reference
  of the first of these, or hang a story under the root;
* `Call.strokes`: every call is a sequence of strokes, also one that fails;
* `Graph.Lasting P ns`: a property of graphs that new nodes keep, and edges to nodes of `ns` apart
  from the first, and any back reference of the first; `Call.left_graph`: every call keeps such
  properties of the nodes that are given to it, also when it fails, unless it hangs up a story;
* `Authored.sound`: every world that calls write is sound.

Whatever the strokes keep is kept by all calls.
-/

namespace Storyline

open Effect
open Relation (ReflTransGen)

theorem Effect.kept_of_steps {σ : Type} {step : σ → σ → Prop} {P : σ → Prop} {s s' : σ}
    (h : ReflTransGen step s s') (hstep : ∀ s s', step s s' → P s → P s') (hs : P s) : P s' := by
  induction h with
  | refl => exact hs
  | tail _ hlast ih => exact hstep _ _ hlast ih

/-! ### Elements in the course of writing -/

namespace Element

/-- The name under which the screen knows an element, which only images may have. -/
def presented? : Element → Option String
  | image i => i.presented
  | _ => none

/-- The chain of each entry of a menu is that of its list. Of other elements nothing is said. -/
def Chained : Element → Prop
  | .menu m => ∀ c ∈ m.choices, c.chain = Chain.ofNodes? c.actions
  | _ => True

/-- The predicates of a condition. Other elements have none. -/
def predicates : Element → List Predicate
  | condition c => c.branches.map (·.predicate)
  | _ => []

/-- An element without the lists that calls write. -/
def bare : Element → Element
  | character c => character { c with pending := [] }
  | image i => image { i with pending := [] }
  | sound s => sound { s with pending := [] }
  | scene s => scene { s with pending := [], actions := [] }
  | story s => story { s with actions := [] }
  | script s => script s
  | condition c => condition { c with branches := [], fallback := none }
  | menu m => menu { m with choices := [] }

/-- An element as it is before anything is written for it. An image is as its configuration makes it. -/
structure Blank (x : Element) : Prop where
  settled : x.Settled
  chained : x.Chained
  presented? : x.presented? = none
  predicates : x.predicates = []
  checked : ∀ i, x = .image i → Image.new i.id i.name i.config = .ok i

theorem checked_of_kind {x : Element} (hx : x.kind ≠ .image) (i : Image) (h : x = .image i) :
    Image.new i.id i.name i.config = .ok i := by
  subst h
  exact absurd rfl hx

/-- What writing may change of an element: its lists of nodes, and the branches of a condition, which
gets some more predicates. -/
structure Revised (new : List Predicate) (x y : Element) : Prop where
  id : y.id = x.id
  settled : x.Settled → y.Settled
  chained : x.Chained → y.Chained
  presented? : y.presented? = x.presented?
  predicates : ∀ p ∈ y.predicates, p ∈ x.predicates ∨ p ∈ new
  bare : y.bare = x.bare

end Element

/-! ### Strokes -/

namespace Call

/-- The nodes that are given to a call. -/
def nodes : Call → List NodeId
  | sceneAction _ lists | storyAction _ lists | when _ _ lists | elseWhen _ _ lists
  | otherwise _ lists | choose _ _ lists => lists.flatten
  | construct nodes => nodes
  | _ => []

/-- The predicate that is given to a call. -/
def predicates : Call → List Predicate
  | when _ p _ | elseWhen _ p _ => [p]
  | _ => []

/-- Calls that give a chain a composite action. -/
def Composes : Call → Prop
  | sceneAction .. | storyAction .. => True
  | _ => False

/-- The actions that a call may make. Those of images are made if nothing speaks against them. -/
def Makes : Call → ActionKind → Prop
  | append _ kind, made =>
    made = kind ∧ (kind.writer? = some .image → Gathering.problem? Image kind = none)
  | sceneAction .., made => ∃ chain, made = .scene chain
  | storyAction .., made => ∃ chain, made = .story chain
  | toAction .., made => made = .script ∨ made = .condition ∨ made = .menu
  | newAction _ kind, made => made = kind
  | _, _ => False

/-- One stroke of a call on a world whose graph was `start` before the call. -/
inductive Stroke (c : Call) (start : Graph Action) : World → World → Prop
  | spend (w : World) : Stroke c start w { w with ids := w.ids.take.2 }
  | add {w : World} {x : Element} (hid : x.id = ⟨w.ids.next⟩) (hx : x.Blank) :
      Stroke c start w { w with ids := w.ids.take.2, elements := w.elements.put x }
  | revise {w : World} {e : ElementId} {x y : Element} (hx : w.elements.get? e = some x)
      (hy : x.Revised c.predicates y) : Stroke c start w { w with elements := w.elements.put y }
  | insert {w : World} {g : Graph Action} {e : ElementId} {kind : ActionKind}
      (hg : w.graph.insertContent ⟨w.ids.next⟩ { node := ⟨w.ids.next⟩, callee := e, kind } = .ok g)
      (hk : c.Makes kind) : Stroke c start w { w with ids := w.ids.take.2, graph := g }
  | child {w : World} {g : Graph Action} {a b : NodeId} (hb : b ∈ c.nodes.tail)
      (hg : w.graph.setChild a (some b) = .ok g) : Stroke c start w { w with graph := g }
  /-- The first node refers back to another once all are linked. -/
  | parent {w : World} {g : Graph Action} {a n : NodeId} (hc : c.Composes)
      (ha : c.nodes.head? = some a)
      (hlinked : ∀ x, a ∈ w.graph.children x → a ∈ (left (Graph.link c.nodes start)).children x)
      (hg : w.graph.setParent a (some n) = .ok g) : Stroke c start w { w with graph := g }
  | root {w : World} {g : Graph Action} {e : ElementId} {unit? : Option NodeId}
      (hc : c = .setRoot e) (hg : w.graph.setChild w.root unit? = .ok g) :
      Stroke c start w { w with graph := g }

/-- Strokes of a call lead from one world to another. -/
abbrev Strokes (c : Call) (start : Graph Action) : World → World → Prop :=
  ReflTransGen (c.Stroke start)

end Call

/-- Strokes of any calls lead from one world to another. -/
abbrev World.Strokes : World → World → Prop :=
  ReflTransGen fun w w' => ∃ (c : Call) (start : Graph Action), c.Stroke start w w'

/-! ### Parts of calls -/

section Parts

variable {α β : Type} {c : Call} {start : Graph Action} {w₀ w w' : World}

theorem World.left_find [Elemental α] (e : ElementId) : left (Build.find α e w) = w := by
  unfold Build.find
  rw [bind_get_apply]
  cases w.find α e <;> rfl

theorem World.left_ofEdit (edit : Graph.Edit Action α) :
    left (Build.ofEdit edit w) = { w with graph := left (edit w.graph) } := by
  unfold Build.ofEdit
  cases edit w.graph <;> rfl

theorem Build.construct_eq_ok {nodes : List NodeId} {chain : Option Chain}
    (h : construct nodes w = .ok chain w') :
    chain = Chain.ofNodes? nodes ∧ w' = { w with graph := left (Graph.link nodes w.graph) } := by
  obtain ⟨g, hg, rfl⟩ := ofEdit_eq_ok_iff.1 h
  rw [hg]
  obtain ⟨_, g₁, -, hg₁⟩ := bind_apply_eq_ok.1 hg
  exact ⟨(EStateM.Result.ok.inj hg₁).1.symm, rfl⟩

/-- A new node takes the next number, which is spent even if there is such a node already. -/
theorem Build.newAction_apply (e : ElementId) (kind : ActionKind) (w : World) :
    newAction e kind w =
      match w.graph.insertContent ⟨w.ids.next⟩ { node := ⟨w.ids.next⟩, callee := e, kind } with
      | .ok g => .ok ⟨w.ids.next⟩ { w with ids := w.ids.take.2, graph := g }
      | .error x => .error (.graph x) { w with ids := w.ids.take.2 } := by
  unfold newAction
  simp only [bind_get_apply, bind_modify_apply]
  cases hg : w.graph.insertContent ⟨w.ids.next⟩ { node := ⟨w.ids.next⟩, callee := e, kind } with
  | ok g => exact bind_of_ok (ofEdit_eq_ok_iff.2 ⟨g, Graph.attempt_of_ok hg, rfl⟩)
  | error x =>
    have hattempt : Graph.attempt (·.insertContent ⟨w.ids.next⟩
        { node := ⟨w.ids.next⟩, callee := e, kind : Action }) w.graph = .error x w.graph := by
      simp only [Graph.attempt, hg]
    refine bind_of_error (?_ : ofEdit (Graph.attempt _) { w with ids := w.ids.take.2 } = _)
    unfold ofEdit
    exact hattempt ▸ rfl

namespace Call.Strokes

theorem bind_find [Elemental α] [LawfulElemental α] {e : ElementId} {k : α → Build β}
    (h : c.Strokes start w₀ w)
    (hk : ∀ a, w.elements.get? e = some (Elemental.toElement a) →
      c.Strokes start w₀ (left (k a w))) :
    c.Strokes start w₀ (left ((Build.find α e >>= k) w)) := by
  refine left_bind (by rw [World.left_find]; exact h) fun a w' ha => ?_
  obtain ⟨ha, rfl⟩ := Build.find_eq_ok_iff.1 ha
  exact hk a ha

theorem put [Elemental α] {e : ElementId} {x : Element} {a : α} (h : c.Strokes start w₀ w)
    (hx : w.elements.get? e = some x) (ha : x.Revised c.predicates (Elemental.toElement a)) :
    c.Strokes start w₀ (w.put a) :=
  h.tail (.revise hx ha)

/-- Putting a revised element back, unless the revision is refused. -/
theorem put_ofExcept [Elemental α] {e : ElementId} {x : Element} {r : Except GameError α}
    (h : c.Strokes start w₀ w) (hx : w.elements.get? e = some x)
    (hr : ∀ a, r = .ok a → x.Revised c.predicates (Elemental.toElement a)) :
    c.Strokes start w₀ (left ((do Build.put (← Build.ofExcept r)) w)) := by
  cases r with
  | error e => exact h
  | ok a => exact h.put hx (hr a rfl)

theorem newAction (h : c.Strokes start w₀ w) (e : ElementId) {kind : ActionKind} (hk : c.Makes kind) :
    c.Strokes start w₀ (left (Build.newAction e kind w)) := by
  rw [Build.newAction_apply]
  split
  · exact h.tail (.insert ‹_› hk)
  · exact h.tail (.spend w)

theorem construct (h : c.Strokes start w₀ w) :
    c.Strokes start w₀ (left (Build.construct c.nodes w)) := by
  -- along the nodes, of which all but the first are behind the first given one
  have hall : ∀ (nodes : List NodeId) {w : World}, (∀ b ∈ nodes.tail, b ∈ c.nodes.tail) →
      c.Strokes start w₀ w →
      c.Strokes start w₀ { w with graph := left (Graph.linkAll nodes w.graph) } := by
    intro nodes
    induction nodes with
    | nil => exact fun _ h => h
    | cons a rest ih =>
      intro w hsub h
      cases rest with
      | nil => exact h
      | cons b rest =>
        unfold Graph.linkAll
        cases hg : w.graph.setChild a (some b) with
        | error x =>
          have ha : Graph.attempt (·.setChild a (some b)) w.graph = .error x w.graph := by
            simp only [Graph.attempt, hg]
          rw [bind_of_error ha]
          exact h
        | ok g =>
          rw [bind_of_ok (Graph.attempt_of_ok hg)]
          exact ih (fun b hb => hsub b (List.mem_cons_of_mem _ hb))
            (h.tail (.child (hsub b List.mem_cons_self) hg))
  have hlink : left (Build.construct c.nodes w) =
      { w with graph := left (Graph.linkAll c.nodes w.graph) } := by
    unfold Build.construct Build.ofEdit Graph.link
    cases hl : Graph.linkAll c.nodes w.graph with
    | ok u g =>
      rw [bind_of_ok hl]
      rfl
    | error x g =>
      rw [bind_of_error hl]
      rfl
  rw [hlink]
  exact hall c.nodes (fun _ hb => hb) h

theorem silent {k : Build α} (h : c.Strokes start w₀ (left (k w))) :
    c.Strokes start w₀ (left ((do discard k; return ([] : List NodeId)) w)) := by
  rw [← left_discard] at h
  refine left_bind h fun u w' hw' => ?_
  rwa [hw'] at h

theorem single {k : Build NodeId} (h : c.Strokes start w₀ (left (k w))) :
    c.Strokes start w₀ (left ((do return [← k]) w)) := by
  refine left_bind h fun u w' hw' => ?_
  rwa [hw'] at h

/-! ### Chains of an author -/

theorem append [Gathering α] [LawfulElemental α]
    (hrev : ∀ (a : α) (nodes : List NodeId),
      (Elemental.toElement a).Revised c.predicates (Elemental.toElement (Gathering.withPending a nodes)))
    (h : c.Strokes start w₀ w) (e : Handle α) {kind : ActionKind}
    (hk : Gathering.problem? α kind = none → c.Makes kind) :
    c.Strokes start w₀ (left (Build.author e (fun a => (a.append kind).close) w)) := by
  refine Build.left_author_apply e h ?_
  cases hproblem : Gathering.problem? α kind with
  | some problem => exact h
  | none =>
    simp only
    have hnode := h.newAction e.id (hk hproblem)
    refine left_bind hnode fun node w' hw' => ?_
    rw [hw'] at hnode
    exact hnode.bind_find fun a ha => hnode.put ha (hrev a _)

theorem takeActions [Gathering α] [LawfulElemental α]
    (hrev : ∀ (a : α) (nodes : List NodeId),
      (Elemental.toElement a).Revised c.predicates (Elemental.toElement (Gathering.withPending a nodes)))
    (h : c.Strokes start w₀ w) (e : Handle α) :
    c.Strokes start w₀ (left (Build.author e Author.takeActions w)) :=
  Build.left_author_finish e h <| h.bind_find fun a ha => h.put ha (hrev a _)

/-- The chain is linked, the composite added and the head of the chain refers back to it. -/
theorem action [Composing α] [LawfulElemental α]
    (hrev : ∀ (a : α) (nodes : List NodeId),
      (Elemental.toElement a).Revised c.predicates (Elemental.toElement (Composing.withActions a nodes)))
    (h : c.Strokes w.graph w₀ w) {lists : List (List NodeId)} (hcomp : c.Composes)
    (hc : c.nodes = lists.flatten) (hk : ∀ chain, c.Makes (Composing.composite α chain))
    (e : Handle α) :
    c.Strokes w.graph w₀ (left (Build.author e (·.action lists) w)) := by
  refine Build.left_author_finish e h <| h.bind_find fun a ha => ?_
  rw [← hc]
  have hlink := (h.put ha (hrev a (Composing.actions a ++ c.nodes))).construct
  unfold Build.put
  rw [bind_modify_apply]
  refine left_bind hlink fun chain w₁ hw₁ => ?_
  rw [hw₁] at hlink
  obtain ⟨hchain, hlinks⟩ := Build.construct_eq_ok hw₁
  have hnode := newAction (w := w₁) hlink e.id (hk chain)
  refine left_bind hnode fun node w₂ hw₂ => ?_
  rw [hw₂] at hnode
  cases chain with
  | none => exact hnode
  | some ends =>
    have hhead := (Chain.ends_of_ofNodes hchain.symm).1
    -- a new node is in no list, so that the lists are those that linking left
    have hlinked : ∀ x, ends.head ∈ w₂.graph.children x →
        ends.head ∈ (left (Graph.link c.nodes w.graph)).children x := by
      intro x hx
      rw [Build.newAction_apply] at hw₂
      split at hw₂
      · obtain ⟨-, rfl⟩ := EStateM.Result.ok.inj hw₂
        rwa [(Graph.edges_insert ‹_› x).1, hlinks] at hx
      · cases hw₂
    have hparent : c.Strokes w.graph w₀
        (left (Build.ofEdit (Graph.attempt (·.setParent ends.head (some node))) w₂)) := by
      unfold Build.ofEdit Graph.attempt
      simp only
      cases hg : w₂.graph.setParent ends.head (some node) with
      | ok g => exact hnode.tail (.parent hcomp hhead hlinked hg)
      | error x => exact hnode
    refine left_bind hparent fun u w₃ hw₃ => ?_
    rwa [hw₃] at hparent

theorem declare [Elemental α] [LawfulElemental α] (h : c.Strokes start w₀ w)
    {lists : List (List NodeId)} (hc : c.nodes = lists.flatten) (e : Handle α)
    {f : α → List NodeId × Option Chain → Except GameError α}
    (hf : ∀ a b, f a (lists.flatten, Chain.ofNodes? lists.flatten) = .ok b →
      (Elemental.toElement a).Revised c.predicates (Elemental.toElement b)) :
    c.Strokes start w₀ (left (Build.declare e lists f w)) := by
  refine Build.left_author_apply e h ?_
  have hlink := h.construct
  rw [hc] at hlink
  cases hw : Build.construct lists.flatten w with
  | error x w₁ =>
    rw [hw] at hlink
    have hd : Build.detached lists w = .error x w₁ := bind_of_error hw
    rw [bind_of_error hd]
    exact hlink
  | ok chain w₁ =>
    rw [hw] at hlink
    obtain ⟨rfl, -⟩ := Build.construct_eq_ok hw
    have hd : Build.detached lists w = .ok (lists.flatten, Chain.ofNodes? lists.flatten) w₁ :=
      bind_of_ok hw
    rw [bind_of_ok hd]
    exact bind_find (w := w₁) hlink fun a ha => put_ofExcept hlink ha (hf a)

end Call.Strokes

end Parts

/-! ### Elements that are written for -/

theorem Image.eq_of_new {id : ElementId} {name : String} {config : ImageConfig} {i : Image}
    (h : Image.new id name config = .ok i) : i = {
      id, name, config
      tracked := { state := ⟨config.src, config.position, config.display, none⟩ } } := by
  unfold new at h
  split at h
  · cases h
  · exact (Except.ok.inj h).symm

namespace Element

section Revised

variable {new : List Predicate}

theorem Revised.character (c : Character) (nodes : List NodeId) :
    (character c).Revised new (character { c with pending := nodes }) :=
  ⟨rfl, fun h => h, fun h => h, rfl, nofun, rfl⟩

theorem Revised.image (i : Image) (nodes : List NodeId) :
    (image i).Revised new (image { i with pending := nodes }) :=
  ⟨rfl, fun h => h, fun h => h, rfl, nofun, rfl⟩

theorem Revised.sound (s : Sound) (nodes : List NodeId) :
    (sound s).Revised new (sound { s with pending := nodes }) :=
  ⟨rfl, fun h => h, fun h => h, rfl, nofun, rfl⟩

theorem Revised.scene (s : Scene) (pending actions : List NodeId) :
    (scene s).Revised new (scene { s with pending, actions }) :=
  ⟨rfl, fun h => h, fun h => h, rfl, nofun, rfl⟩

theorem Revised.story (s : Story) (nodes : List NodeId) :
    (story s).Revised new (story { s with actions := nodes }) :=
  ⟨rfl, fun h => h, fun h => h, rfl, nofun, rfl⟩

theorem Revised.condition (c : Condition) {branches : List Branch}
    (h : ∀ b ∈ branches, b ∈ c.branches ∨ b.predicate ∈ new)
    (fallback : Option (List NodeId × Option Chain)) :
    (condition c).Revised new (condition { c with branches, fallback }) := by
  refine ⟨rfl, fun h => h, fun h => h, rfl, fun p hp => ?_, rfl⟩
  obtain ⟨b, hb, rfl⟩ := List.mem_map.1 hp
  exact (h b hb).imp_left fun hb => List.mem_map_of_mem hb

theorem Revised.menu (m : Menu) (prompt : Sentence) (nodes : List NodeId) :
    (menu m).Revised new (menu (m.addChoice ⟨prompt, nodes, Chain.ofNodes? nodes⟩)) := by
  refine ⟨rfl, fun h => h, fun hm c hc => ?_, rfl, nofun, rfl⟩
  rcases List.mem_append.1 hc with hc | hc
  · exact hm c hc
  · obtain rfl := List.mem_singleton.1 hc
    rfl

end Revised

end Element

/-! ### Every call -/

namespace Call

variable (w : World) (e : ElementId)

theorem strokes_add {c : Call} {w : World} {x : Element} (hid : x.id = ⟨w.ids.next⟩) (hx : x.Blank) :
    c.Strokes w.graph w { w with ids := w.ids.take.2, elements := w.elements.put x } :=
  ReflTransGen.single (.add hid hx)

/-- An image is added if its configuration is accepted. Its number is spent in any case. -/
theorem strokes_image (name : String) (config : ImageConfig) :
    (Call.image name config).Strokes w.graph w (left ((Call.image name config).run w)) := by
  refine .silent (k := Build.image name config) ?_
  unfold Build.image
  refine left_bind (ReflTransGen.single (.spend w)) fun id w₁ hw₁ => ?_
  obtain ⟨rfl, rfl⟩ := EStateM.Result.ok.inj hw₁
  cases hi : Image.new ⟨w.ids.take.1⟩ name config with
  | error e => exact ReflTransGen.single (.spend w)
  | ok i =>
    obtain rfl := Image.eq_of_new hi
    exact strokes_add (x := .image { id := ⟨w.ids.next⟩, name, config, tracked := _ }) rfl
      ⟨rfl, trivial, rfl, rfl, fun _ h => Element.image.inj h ▸ hi⟩

theorem strokes_append (kind : ActionKind) :
    (append e kind).Strokes w.graph w (left ((append e kind).run w)) := by
  simp only [Call.run]
  cases hwriter : kind.writer? with
  | none => exact .refl
  | some k =>
    -- only what images do is checked by the call of an image
    have hmakes : k ≠ .image → (append e kind).Makes kind :=
      fun hne => ⟨rfl, fun himage => absurd (Option.some.inj (hwriter.symm.trans himage)) hne⟩
    cases k with
    | character => exact .append Element.Revised.character .refl _ fun _ => hmakes nofun
    | image => exact .append Element.Revised.image .refl _ fun hk => ⟨rfl, fun _ => hk⟩
    | sound => exact .append Element.Revised.sound .refl _ fun _ => hmakes nofun
    | scene => exact .append (fun s nodes => .scene s nodes s.actions) .refl _ fun _ => hmakes nofun
    | _ => exact .refl

theorem strokes_take (kind : Kind) :
    (take kind e).Strokes w.graph w (left ((take kind e).run w)) := by
  cases kind with
  | character => exact .takeActions Element.Revised.character .refl _
  | image => exact .takeActions Element.Revised.image .refl _
  | sound => exact .takeActions Element.Revised.sound .refl _
  | scene => exact .takeActions (fun s nodes => .scene s nodes s.actions) .refl _
  | _ => exact .refl

theorem strokes_newAction {c : Call} {w : World} {kind : ActionKind} (hk : c.Makes kind) :
    c.Strokes w.graph w (left (Build.newAction e kind w)) :=
  Strokes.newAction .refl e hk

theorem strokes_toAction (kind : Kind) :
    (toAction kind e).Strokes w.graph w (left ((toAction kind e).run w)) := by
  cases kind with
  | script =>
    exact .single (Build.left_author_finish (α := Script) _ .refl (strokes_newAction e (.inl rfl)))
  | condition =>
    exact .single (Build.left_author_finish (α := Condition) _ .refl
      (strokes_newAction e (.inr (.inl rfl))))
  | menu =>
    exact .single (Build.left_author_finish (α := Menu) _ .refl
      (strokes_newAction e (.inr (.inr rfl))))
  | _ => exact .refl

theorem strokes_branch {c : Call} {w : World} {lists : List (List NodeId)} {e : ElementId}
    (hc : c.nodes = lists.flatten) {f : Condition → List NodeId × Option Chain →
      Except ElementError Condition}
    (hf : ∀ x y q, f x q = .ok y → (Element.condition x).Revised c.predicates (.condition y)) :
    c.Strokes w.graph w (left (Build.declare (⟨e⟩ : Handle Condition) lists
      (fun x q => (f x q).mapError .element) w)) :=
  .declare .refl hc _ fun x y hy => hf x y _ (mapError_eq_ok_iff.1 hy)

theorem strokes_setRoot : (setRoot e).Strokes w.graph w (left ((setRoot e).run w)) := by
  refine .bind_find (α := Story) .refl fun s _ => ?_
  rw [bind_get_apply]
  have hset : (setRoot e).Strokes w.graph w
      (left (Build.ofEdit (Graph.attempt (·.setChild w.root s.actions.head?)) w)) := by
    unfold Build.ofEdit Graph.attempt
    simp only
    cases hg : w.graph.setChild w.root s.actions.head? with
    | ok g => exact ReflTransGen.single (.root rfl hg)
    | error x => exact .refl
  refine left_bind hset fun u w₁ hw₁ => ?_
  rwa [hw₁] at hset

/-- **Every call is a sequence of strokes**, also one that fails. -/
theorem strokes (c : Call) (w : World) : c.Strokes w.graph w (left (c.run w)) := by
  cases c with
  -- calls that add an element
  | character name config =>
    exact .silent (k := Build.character name config) <|
      strokes_add (x := .character { id := ⟨w.ids.next⟩, name, config }) rfl
        ⟨rfl, trivial, rfl, rfl, Element.checked_of_kind nofun⟩
  | image name config => exact strokes_image w name config
  | sound name config =>
    exact .silent (k := Build.sound name config) <|
      strokes_add (x := .sound { id := ⟨w.ids.next⟩, name, config }) rfl
        ⟨rfl, trivial, rfl, rfl, Element.checked_of_kind nofun⟩
  | scene name config =>
    exact .silent (k := Build.scene name config) <|
      strokes_add (x := .scene (.new ⟨w.ids.next⟩ name config)) rfl
        ⟨rfl, trivial, rfl, rfl, Element.checked_of_kind nofun⟩
  | story name =>
    exact .silent (k := Build.story name) <|
      strokes_add (x := .story { id := ⟨w.ids.next⟩, name }) rfl
        ⟨trivial, trivial, rfl, rfl, Element.checked_of_kind nofun⟩
  | script handler =>
    exact .silent (k := Build.script handler) <|
      strokes_add (x := .script { id := ⟨w.ids.next⟩, handler }) rfl
        ⟨rfl, trivial, rfl, rfl, Element.checked_of_kind nofun⟩
  | condition =>
    exact .silent (k := Build.condition) <|
      strokes_add (x := .condition { id := ⟨w.ids.next⟩ }) rfl
        ⟨rfl, trivial, rfl, rfl, Element.checked_of_kind nofun⟩
  | menu prompt =>
    exact .silent (k := Build.menu prompt) <|
      strokes_add (x := .menu { id := ⟨w.ids.next⟩, prompt }) rfl
        ⟨rfl, nofun, rfl, rfl, Element.checked_of_kind nofun⟩
  -- calls that add nodes
  | append e kind => exact strokes_append w e kind
  | take kind e => exact strokes_take w e kind
  | toAction kind e => exact strokes_toAction w e kind
  | newAction e kind => exact .single (strokes_newAction e rfl)
  | sceneAction e lists =>
    exact .single (.action (c := .sceneAction e lists) (fun s nodes => .scene s s.pending nodes)
      .refl trivial rfl (fun chain => ⟨chain, rfl⟩) _)
  | storyAction e lists =>
    exact .single (.action (c := .storyAction e lists) Element.Revised.story .refl trivial rfl
      (fun chain => ⟨chain, rfl⟩) _)
  -- calls that link the nodes of their lists
  | when e p lists =>
    refine strokes_branch (c := .when e p lists) (f := fun c q => c.setWhen ⟨p, q.1, q.2⟩) rfl ?_
    intro x y q hy
    obtain ⟨-, rfl⟩ := Condition.setWhen_eq_ok_iff.1 hy
    refine .condition x (fun b hb => ?_) _
    obtain rfl := List.mem_singleton.1 hb
    exact .inr (List.mem_singleton_self p)
  | elseWhen e p lists =>
    refine strokes_branch (c := .elseWhen e p lists) (f := fun c q => c.addElseWhen ⟨p, q.1, q.2⟩)
      rfl ?_
    intro x y q hy
    obtain ⟨-, rfl⟩ := Condition.addElseWhen_eq_ok_iff.1 hy
    refine .condition x (fun b hb => (List.mem_append.1 hb).imp_right fun hb => ?_) _
    obtain rfl := List.mem_singleton.1 hb
    exact List.mem_singleton_self p
  | otherwise e lists =>
    refine strokes_branch (c := .otherwise e lists) (f := fun c q => c.setOtherwise q.1 q.2) rfl ?_
    intro x y q hy
    obtain ⟨-, rfl⟩ := Condition.setOtherwise_eq_ok_iff.1 hy
    exact .condition x (fun b hb => .inl hb) _
  | choose e prompt lists =>
    rw [run_choose]
    refine .declare .refl rfl _ fun m m' hm => ?_
    obtain ⟨⟩ := hm
    exact .menu m prompt lists.flatten
  | construct nodes => exact .silent (.construct .refl)
  | setRoot e => exact strokes_setRoot w e

end Call

/-! ### Which edges are set -/

/-- A property of graphs that is kept when the nodes `ns` are linked and get a composite. -/
structure Graph.Lasting (P : Graph Action → Prop) (ns : List NodeId) : Prop where
  insert : ∀ {g g' : Graph Action} {id : NodeId} {a : Action}, P g →
    g.insertContent id a = .ok g' → P g'
  child : ∀ {g g' : Graph Action} {a b : NodeId}, b ∈ ns.tail → P g →
    g.setChild a (some b) = .ok g' → P g'
  parent : ∀ {g g' : Graph Action} {a : NodeId} {p? : Option NodeId}, ns.head? = some a → P g →
    g.setParent a p? = .ok g' → P g'

/-- **Every call keeps what lasts**, also when it fails. -/
theorem Call.left_graph {P : Graph Action → Prop} {w : World} {c : Call} (hroot : ∀ e, c ≠ setRoot e)
    (hp : Graph.Lasting P c.nodes) (h : P w.graph) : P (left (c.run w)).graph := by
  refine kept_of_steps (P := fun w => P w.graph) (c.strokes w) (fun w w' hs hw => ?_) h
  cases hs with
  | spend | add | revise => exact hw
  | insert hg => exact hp.insert hw hg
  | child hb hg => exact hp.child hb hw hg
  | parent _ ha _ hg => exact hp.parent ha hw hg
  | root hc => exact absurd hc (hroot _)

/-! ### Soundness -/

namespace World.Sound

variable {w w' : World}

theorem of_sameNodes (hw : w.Sound) {g : Graph Action} (hg : w.graph.SameNodes g) :
    ({ w with graph := g } : World).Sound :=
  ⟨fun n a ha => hw.node n a ((hg.content? n).symm.trans ha), hw.id, hw.settled⟩

theorem of_insertContent (hw : w.Sound) {node : NodeId} {a : Action} {g : Graph Action}
    (ha : a.node = node) (hg : w.graph.insertContent node a = .ok g) :
    ({ w with graph := g } : World).Sound := by
  obtain ⟨-, -, -, hget⟩ := Graph.insert_eq_ok hg
  refine ⟨fun n b hb => ?_, hw.id, hw.settled⟩
  unfold action? Graph.content? at hb
  rw [hget] at hb
  split at hb
  · subst n
    obtain ⟨⟩ := hb
    exact ha
  · exact hw.node n b hb

theorem stroke {c : Call} {start : Graph Action} (h : c.Stroke start w w') (hw : w.Sound) :
    w'.Sound := by
  cases h with
  | spend => exact (World.quiet_take w).sound hw
  | add _ hx => exact ⟨hw.node, (hw.replace hx.settled).id, (hw.replace hx.settled).settled⟩
  | revise hx hy => exact hw.replace (hy.settled (hw.settled _ _ hx))
  | @insert g e kind hg =>
    exact of_insertContent (a := ⟨⟨w.ids.next⟩, e, kind⟩) ((World.quiet_take w).sound hw) rfl hg
  | child _ hg => exact hw.of_sameNodes (Graph.rewired_of_setChild hg).toSameNodes
  | parent _ _ _ hg => exact hw.of_sameNodes (Graph.sameEdges_of_setParent hg).toSameNodes
  | root _ hg => exact hw.of_sameNodes (Graph.rewired_of_setChild hg).toSameNodes

theorem strokes (hs : w.Strokes w') (hw : w.Sound) : w'.Sound :=
  kept_of_steps hs (fun _ _ ⟨_, _, hs⟩ hw => hw.stroke hs) hw

end World.Sound

/-- **Every world that calls write is sound.** -/
theorem World.Authored.sound {w : World} (h : w.Authored) : w.Sound := by
  induction h with
  | new =>
    refine ⟨fun n a ha => ?_, fun e x hx => ?_, fun e x hx => ?_⟩
    · unfold World.new action? Graph.content? at ha
      rw [Graph.get?_withRoot] at ha
      split at ha <;> simp at ha
    · simp [World.new, Elements.get?] at hx
    · simp [World.new, Elements.get?] at hx
  | call h c ih => exact kept_of_steps (c.strokes _) (fun _ _ hs hw => hw.stroke hs) ih

end Storyline
