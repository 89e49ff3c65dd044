import Storyline.Proofs.World.Gathered

/-!
# Chains that append and take

An author appends actions for an element, one call after the other, and takes what the element has
gathered at the end of the chain.

* `Build.gather_cons`: a chain is its first call and then the rest, unless the first call fails;
* `World.newActions w w'`: the actions that were made between two worlds;
* `Build.gather_spec`: a chain appends its actions up to the first that is refused; if none is, it
  takes all that its element has gathered by then;
* `Stint`, `Stint.ran`: such chains for elements of every kind, as data, and what they leave.
-/

namespace Storyline

open Effect

/-- Appends actions for an element in one chain of calls, and takes what it has gathered. -/
def Build.gather {α : Type} [Gathering α] (h : Handle α) (kinds : List ActionKind) :
    Build (List NodeId) :=
  Build.author h fun a => (kinds.foldl Author.append a).takeActions

section

variable {α : Type} [Gathering α] [Draining α] {w w' : World} {h : Handle α} {x : α}
  {kind : ActionKind} {kinds : List ActionKind}

/-! ### One call after the other -/

/-- What the call that appends an action does unless an error was met. -/
def Build.append (α : Type) [Gathering α] (kind : ActionKind) (id : ElementId) : Build Unit := do
  match Gathering.problem? α kind with
  | some problem => throw (.element (.invalidConfig problem))
  | none => pure ()
  let node ← newAction id kind
  let e ← find α id
  put (Gathering.withPending e (node :: Gathering.pending e))

omit [Draining α] in
theorem Author.append_eq (a : Author α) (kind : ActionKind) :
    a.append kind = a.apply (Build.append α kind) :=
  rfl

omit [Draining α] in
theorem Author.foldl_append_of_error (w : World) (e : ElementId) (error : GameError) :
    kinds.foldl Author.append (⟨w, e, some error⟩ : Author α) = ⟨w, e, some error⟩ := by
  induction kinds with
  | nil => rfl
  | cons kind kinds ih => exact ih

namespace Build

omit [Draining α] in
theorem gather_of_error {e : GameError} (hx : w.find α h.id = .error e) :
    gather h kinds w = .error e w := by
  unfold gather author World.author
  rw [hx]
  show (kinds.foldl Author.append _).takeActions = _
  rw [Author.foldl_append_of_error]
  rfl

theorem author_of_find {β : Type} {chain : Author α → EStateM.Result GameError World β}
    (hx : w.elements.get? h.id = some (Elemental.toElement x)) :
    author h chain w = chain ⟨w, h.id, none⟩ := by
  unfold author World.author
  rw [World.find_eq_ok_iff.2 hx]

theorem gather_nil (hx : w.elements.get? h.id = some (Elemental.toElement x)) :
    gather h [] w = .ok (w.gathered h.id) (w.put (Gathering.withPending x [])) := by
  unfold gather
  rw [author_of_find hx, World.gathered_of_get? hx]
  refine (bind_of_ok (find_eq_ok_iff.2 ⟨hx, rfl⟩)).trans ?_
  rfl

/-- A chain is its first call and then the rest, unless the first call fails. -/
theorem gather_cons (hx : w.elements.get? h.id = some (Elemental.toElement x)) :
    gather h (kind :: kinds) w =
      match append α kind h.id w with
      | .ok _ w' => (kinds.foldl Author.append (⟨w', h.id, none⟩ : Author α)).takeActions
      | .error e w' => .error e w' := by
  unfold gather
  rw [author_of_find hx, List.foldl_cons, Author.append_eq]
  unfold Author.apply
  cases append α kind h.id w with
  | ok u w' => rfl
  | error e w' =>
    show (kinds.foldl Author.append _).takeActions = _
    rw [Author.foldl_append_of_error]
    rfl

omit [Draining α] in
theorem append_of_problem {problem : String} (hk : Gathering.problem? α kind = some problem)
    (e : ElementId) (w : World) : append α kind e w = .error (.element (.invalidConfig problem)) w := by
  unfold append
  rw [hk]
  rfl

end Build

/-! ### New nodes -/

/-- No node has a number that was not handed out yet. -/
def World.Ahead (w : World) : Prop := ∀ k, w.ids.next ≤ k → w.graph.contains ⟨k⟩ = false

theorem World.Ledger.ahead {use : Nat → Option Use} (h : w.Ledger use) : w.Ahead := fun k hk => by
  by_contra hn
  have huse := h.node ⟨k⟩ (Bool.not_eq_false _ ▸ hn)
  cases (h.unused k hk).symm.trans huse

/-- The nodes that were numbered between two worlds. -/
def World.newNodes (w w' : World) : List NodeId :=
  (List.range' w.ids.next (w'.ids.next - w.ids.next)).map NodeId.mk

/-- The actions that were made between two worlds, in order. -/
def World.newActions (w w' : World) : List Action := (w.newNodes w').filterMap w'.action?

/-- Some actions were appended for an element, and nothing else was made or gathered. -/
structure World.Appended (w w' : World) (e : ElementId) (kinds : List ActionKind) : Prop where
  next : w'.ids.next = w.ids.next + kinds.length
  action? : ∀ n, w'.action? n =
    if n.val < w.ids.next then w.action? n
    else kinds[n.val - w.ids.next]?.map fun kind => ⟨n, e, kind⟩
  gathered : ∀ y, w'.gathered y =
    if y = e then w.gathered e ++ w.newNodes w' else w.gathered y

theorem World.newNodes_self (w : World) : w.newNodes w = [] := by
  unfold newNodes
  rw [Nat.sub_self]
  rfl

theorem World.newNodes_cons {w₁ : World} (h : w₁.ids.next = w.ids.next + 1)
    (h' : w₁.ids.next ≤ w'.ids.next) : w.newNodes w' = ⟨w.ids.next⟩ :: w₁.newNodes w' := by
  unfold newNodes
  obtain ⟨k, hk⟩ := Nat.exists_eq_add_of_le h'
  have hsub : w'.ids.next - w.ids.next = k + 1 := by omega
  have hsub' : w'.ids.next - w₁.ids.next = k := by omega
  rw [hsub, hsub', h, List.range'_succ, List.map_cons]

/-- A function that reads a list at some numbers reads it off these numbers. -/
theorem filterMap_range' {β : Type} {f : Nat → Option β} {l : List β} {s : Nat}
    (h : ∀ i, i < l.length → f (s + i) = l[i]?) : (List.range' s l.length).filterMap f = l := by
  induction l generalizing s with
  | nil => rfl
  | cons b l ih =>
    have hfirst : f s = some b := h 0 (Nat.succ_pos _)
    have hrest : ∀ i, i < l.length → f (s + 1 + i) = l[i]? := fun i hi => by
      rw [Nat.add_assoc, Nat.add_comm 1 i]
      exact h (i + 1) (Nat.succ_lt_succ hi)
    rw [List.length_cons, List.range'_succ, List.filterMap_cons_some hfirst, ih hrest]

namespace World.Appended

variable {e : ElementId}

theorem nil (hahead : w.Ahead) : w.Appended w e [] where
  next := rfl
  action? n := by
    split
    · rfl
    · have hn := hahead n.val (by omega)
      unfold World.action? Graph.content?
      rw [Graph.contains_eq, Option.isSome_eq_false_iff, Option.isNone_iff_eq_none] at hn
      rw [hn]
      rfl
  gathered y := by
    rw [newNodes_self, List.append_nil]
    split
    · rw [‹y = e›]
    · rfl

theorem cons {w₁ : World} (hnext : w₁.ids.next = w.ids.next + 1)
    (haction : ∀ n, w₁.action? n =
      if n.val = w.ids.next then some ⟨n, e, kind⟩ else w.action? n)
    (hgathered : ∀ y, w₁.gathered y =
      if y = e then w.gathered e ++ [⟨w.ids.next⟩] else w.gathered y)
    (h : w₁.Appended w' e kinds) : w.Appended w' e (kind :: kinds) where
  next := by
    rw [h.next, hnext, List.length_cons]
    omega
  action? n := by
    rw [h.action?, hnext]
    -- the first number is the new node's, the others come with the rest of the chain
    by_cases hlt : n.val < w.ids.next
    · rw [if_pos (Nat.lt_succ_of_lt hlt), if_pos hlt, haction, if_neg (Nat.ne_of_lt hlt)]
    · rw [if_neg hlt]
      by_cases heq : n.val = w.ids.next
      · rw [if_pos (by omega), haction, if_pos heq, heq, Nat.sub_self]
        rfl
      · have hsub : n.val - w.ids.next = n.val - (w.ids.next + 1) + 1 := by omega
        rw [if_neg (by omega), hsub, List.getElem?_cons_succ]
  gathered y := by
    have hle : w₁.ids.next ≤ w'.ids.next := by
      rw [h.next]
      exact Nat.le_add_right ..
    rw [h.gathered, newNodes_cons hnext hle]
    split
    · rw [hgathered, if_pos rfl, List.append_assoc]
      rfl
    · rw [hgathered, if_neg ‹_›]

theorem newActions_eq (h : w.Appended w' e kinds) :
    w.newActions w' = kinds.mapIdx fun i kind => ⟨⟨w.ids.next + i⟩, e, kind⟩ := by
  unfold newActions newNodes
  rw [h.next, Nat.add_sub_cancel_left, List.filterMap_map,
    show kinds.length = (kinds.mapIdx fun i kind => (⟨⟨w.ids.next + i⟩, e, kind⟩ : Action)).length by simp]
  refine filterMap_range' fun i hi => ?_
  show w'.action? ⟨w.ids.next + i⟩ = _
  rw [h.action?, if_neg (by show ¬ w.ids.next + i < w.ids.next; omega), List.getElem?_mapIdx]
  show (kinds[w.ids.next + i - w.ids.next]?).map _ = _
  rw [Nat.add_sub_cancel_left]

theorem map_node (h : w.Appended w' e kinds) : (w.newActions w').map (·.node) = w.newNodes w' := by
  rw [h.newActions_eq]
  unfold newNodes
  rw [h.next, Nat.add_sub_cancel_left]
  refine List.ext_getElem (by simp) fun i hi hi' => ?_
  simp

theorem map_kind (h : w.Appended w' e kinds) :
    (w.newActions w').map (fun a => (a.callee, a.kind)) = kinds.map fun kind => (e, kind) := by
  rw [h.newActions_eq]
  refine List.ext_getElem (by simp) fun i hi hi' => ?_
  simp

end World.Appended

/-! ### A call that appends -/

/-- Whether nothing speaks against an action. -/
def Gathering.accepts (α : Type) [Gathering α] (kind : ActionKind) : Bool :=
  (Gathering.problem? α kind).isNone

section Insert

variable {e : ElementId} {g : Graph Action}

theorem World.Ahead.exists_insert (hahead : w.Ahead) (e : ElementId) (kind : ActionKind) :
    ∃ g, w.graph.insertContent ⟨w.ids.next⟩ { node := ⟨w.ids.next⟩, callee := e, kind } = .ok g := by
  unfold Graph.insertContent Graph.insert
  rw [hahead _ (Nat.le_refl _)]
  exact ⟨_, rfl⟩

theorem World.Ahead.insert (hahead : w.Ahead)
    (hg : w.graph.insertContent ⟨w.ids.next⟩ { node := ⟨w.ids.next⟩, callee := e, kind } = .ok g) :
    ({ w with ids := w.ids.take.2, graph := g } : World).Ahead := by
  obtain ⟨-, -, -, hget⟩ := Graph.insert_eq_ok hg
  intro k hk
  have hk : w.ids.next + 1 ≤ k := hk
  have hne : (⟨w.ids.next⟩ : NodeId) ≠ ⟨k⟩ := fun heq => by
    obtain rfl := NodeId.mk.inj heq
    omega
  rw [Graph.contains_eq, hget, if_neg hne, ← Graph.contains_eq]
  exact hahead k (by omega)

theorem World.action?_insert
    (hg : w.graph.insertContent ⟨w.ids.next⟩ { node := ⟨w.ids.next⟩, callee := e, kind } = .ok g)
    (n : NodeId) :
    g.content? n = if n.val = w.ids.next then some ⟨n, e, kind⟩ else w.action? n := by
  obtain ⟨-, -, -, hget⟩ := Graph.insert_eq_ok hg
  unfold Graph.content?
  rw [hget]
  by_cases hn : n.val = w.ids.next
  · obtain ⟨v⟩ := n
    subst hn
    rw [if_pos rfl, if_pos rfl]
    rfl
  · rw [if_neg hn, if_neg fun heq => hn (congrArg NodeId.val heq).symm]
    rfl

end Insert

/-- An action that nothing speaks against gets a node, which its element gathers. -/
theorem Build.append_spec (hw : w.Sound) (hahead : w.Ahead) {e : ElementId}
    (hk : Gathering.problem? α kind = none)
    (hx : w.elements.get? e = some (Elemental.toElement x)) :
    ∃ (w₁ : World) (x₁ : α), append α kind e w = .ok () w₁ ∧
      w₁.elements.get? e = some (Elemental.toElement x₁) ∧ w₁.Ahead ∧
      w.Strokes w₁ ∧
      ∀ {w' : World} {kinds : List ActionKind}, w₁.Appended w' e kinds →
        w.Appended w' e (kind :: kinds) := by
  obtain ⟨g, hg⟩ := hahead.exists_insert e kind
  -- the world between: the node is there and not yet gathered
  let w₀ : World := { w with ids := w.ids.take.2, graph := g }
  let x₁ : α := Gathering.withPending x (⟨w.ids.next⟩ :: Gathering.pending x)
  have hw₀ : w₀.Sound :=
    World.Sound.of_insertContent (a := ⟨⟨w.ids.next⟩, e, kind⟩) ((World.quiet_take w).sound hw) rfl hg
  have hx₀ : w₀.elements.get? e = some (Elemental.toElement x) := hx
  refine ⟨w₀.put x₁, x₁, ?_, ?_, hahead.insert hg, ?_, .cons rfl ?_ fun y => ?_⟩
  · have hnew : newAction e kind w = .ok ⟨w.ids.next⟩ w₀ := by rw [newAction_apply, hg]
    unfold append
    rw [hk]
    refine (bind_of_ok hnew).trans ?_
    exact bind_of_ok (find_eq_ok_iff.2 ⟨hx₀, rfl⟩)
  · rw [World.get?_withPending hw₀ hx₀, if_pos rfl]
  · have hinsert : w.Strokes w₀ := .single ⟨.newAction e kind, w.graph, .insert hg rfl⟩
    exact hinsert.tail ⟨.newAction e kind, w.graph, .revise hx (Draining.revised_withPending _ x _)⟩
  · exact World.action?_insert hg
  · rw [World.gathered_withPending hw₀ hx₀, List.reverse_cons, World.gathered_of_get? hx]
    rfl

/-! ### A whole chain -/

variable (kinds) in
/-- **A chain appends its actions up to the first that is refused.** If none is, it takes all that
its element has gathered by then. -/
theorem Build.gather_spec (hw : w.Sound) (hahead : w.Ahead)
    (hx : w.elements.get? h.id = some (Elemental.toElement x)) :
    ∃ (w₁ : World) (x₁ : α), w.Appended w₁ h.id (kinds.takeWhile (Gathering.accepts α)) ∧
      w₁.elements.get? h.id = some (Elemental.toElement x₁) ∧
      w.Strokes w₁ ∧
      ((∀ kind ∈ kinds, Gathering.accepts α kind) ∧
          gather h kinds w = .ok (w₁.gathered h.id) (w₁.put (Gathering.withPending x₁ [])) ∨
        (¬ ∀ kind ∈ kinds, Gathering.accepts α kind) ∧ ∃ e, gather h kinds w = .error e w₁) := by
  induction kinds generalizing w x with
  | nil =>
    exact ⟨w, x, .nil hahead, hx, .refl,
      .inl ⟨fun _ hk => absurd hk List.not_mem_nil, gather_nil hx⟩⟩
  | cons kind kinds ih =>
    rw [gather_cons hx, List.takeWhile_cons, List.forall_mem_cons]
    -- the chain stops at the first kind that is refused
    cases hk : Gathering.problem? α kind with
    | some problem =>
      have hrefused : Gathering.accepts α kind = false := congrArg Option.isNone hk
      rw [append_of_problem hk, hrefused]
      exact ⟨w, x, .nil hahead, hx, .refl, .inr ⟨fun hall => Bool.false_ne_true hall.1, _, rfl⟩⟩
    | none =>
      have haccepted : Gathering.accepts α kind = true := congrArg Option.isNone hk
      obtain ⟨w₁, x₁, happend, hx₁, hahead₁, hfirst, hcons⟩ := append_spec hw hahead hk hx
      obtain ⟨w', y, happended, hy, hrest, hchain⟩ := ih (hw.strokes hfirst) hahead₁ hx₁
      have hgo : (kinds.foldl Author.append (⟨w₁, h.id, none⟩ : Author α)).takeActions =
          gather h kinds w₁ := by
        unfold gather
        rw [author_of_find hx₁]
      rw [happend, haccepted]
      refine ⟨w', y, hcons happended, hy, hfirst.trans hrest, ?_⟩
      simp only [true_and]
      exact hgo ▸ hchain

end

/-! ### Chains of every kind -/

/-- The kinds of elements that gather actions. -/
inductive Gatherer where
  | character
  | image
  | sound
  | scene
deriving DecidableEq, Repr

def Gatherer.kind : Gatherer → Kind
  | character => .character
  | image => .image
  | sound => .sound
  | scene => .scene

/-- A chain of calls that appends actions for an element and takes them at its end. -/
structure Stint where
  gatherer : Gatherer
  element : ElementId
  kinds : List ActionKind

namespace Stint

def run (s : Stint) : Build (List NodeId) :=
  match s.gatherer with
  | .character => Build.gather (⟨s.element⟩ : Handle Character) s.kinds
  | .image => Build.gather (⟨s.element⟩ : Handle Image) s.kinds
  | .sound => Build.gather (⟨s.element⟩ : Handle Sound) s.kinds
  | .scene => Build.gather (⟨s.element⟩ : Handle Scene) s.kinds

/-- Whether the element may be given an action. -/
def accepts (s : Stint) : ActionKind → Bool :=
  match s.gatherer with
  | .character => Gathering.accepts Character
  | .image => Gathering.accepts Image
  | .sound => Gathering.accepts Sound
  | .scene => Gathering.accepts Scene

/-- Whether there is such an element. -/
def fits (s : Stint) (w : World) : Bool :=
  (w.elements.get? s.element).map (·.kind) = some s.gatherer.kind

/-- The actions that get appended: all up to the first that is refused. -/
def appends (s : Stint) (w : World) : List ActionKind :=
  if s.fits w then s.kinds.takeWhile s.accepts else []

/-- Whether the chain ends without an error. -/
def succeeds (s : Stint) (w : World) : Bool := s.fits w && s.kinds.all s.accepts

end Stint

/-! ### What a chain leaves -/

/-- A chain that appends some actions for an element and, if it is fine, takes what is gathered. -/
structure Build.Ran (chain : Build (List NodeId)) (w : World) (e : ElementId)
    (kinds : List ActionKind) (fine : Bool) : Prop where
  next : (left (chain w)).ids.next = w.ids.next + kinds.length
  nodes : (w.newActions (left (chain w))).map (·.node) = w.newNodes (left (chain w))
  kinds : (w.newActions (left (chain w))).map (fun a => (a.callee, a.kind)) =
    kinds.map fun kind => (e, kind)
  answer : answer? (chain w) =
    if fine then some (w.gathered e ++ w.newNodes (left (chain w))) else none
  gathered : ∀ y, (left (chain w)).gathered y =
    if y = e then if fine then [] else w.gathered e ++ w.newNodes (left (chain w))
    else w.gathered y
  strokes : w.Strokes (left (chain w))

section

variable {α : Type} [Gathering α] [Draining α] {w : World}

theorem Build.ran_of_appended {chain : Build (List NodeId)} {w₁ w' : World} {e : ElementId}
    {kinds : List ActionKind} {fine : Bool} (h : w.Appended w₁ e kinds)
    (hleft : left (chain w) = w') (hids : w'.ids = w₁.ids) (hgraph : w'.graph = w₁.graph)
    (hanswer : answer? (chain w) = if fine then some (w₁.gathered e) else none)
    (hgathered : ∀ y, w'.gathered y = if fine ∧ y = e then [] else w₁.gathered y)
    (hstrokes : w.Strokes w') : Ran chain w e kinds fine := by
  subst hleft
  have hnodes : w.newNodes (left (chain w)) = w.newNodes w₁ := by
    unfold World.newNodes
    rw [hids]
  have hactions : w.newActions (left (chain w)) = w.newActions w₁ := by
    unfold World.newActions World.action?
    rw [hnodes, hgraph]
  have hself : w₁.gathered e = w.gathered e ++ w.newNodes w₁ := by rw [h.gathered, if_pos rfl]
  refine ⟨by rw [hids, h.next], ?_, ?_, ?_, fun y => ?_, hstrokes⟩
  · rw [hactions, hnodes, h.map_node]
  · rw [hactions, h.map_kind]
  · rw [hanswer, hnodes, hself]
  · rw [hgathered, hnodes]
    by_cases hy : y = e
    · subst hy
      cases fine
      · rw [if_neg (by simp), if_pos rfl, hself]
        rfl
      · rw [if_pos ⟨rfl, rfl⟩, if_pos rfl]
        rfl
    · rw [if_neg (by simp [hy]), if_neg hy, h.gathered, if_neg hy]

theorem Build.ran_gather (hw : w.Sound) (hahead : w.Ahead) (h : Handle α) (kinds : List ActionKind) :
    Ran (gather h kinds) w h.id
      (if (w.elements.get? h.id).map (·.kind) = some (Elemental.kind α) then
        kinds.takeWhile (Gathering.accepts α) else [])
      (decide ((w.elements.get? h.id).map (·.kind) = some (Elemental.kind α)) &&
        kinds.all (Gathering.accepts α)) := by
  cases hx : w.find α h.id with
  | error e =>
    have hkind : ¬ (w.elements.get? h.id).map (·.kind) = some (Elemental.kind α) := fun hk => by
      obtain ⟨x, hget, hk⟩ := Option.map_eq_some_iff.1 hk
      obtain ⟨a, rfl⟩ := (LawfulElemental.kind_eq_iff x).1 hk
      cases (World.find_eq_ok_iff.2 hget).symm.trans hx
    have hchain : gather h kinds w = .error e w := gather_of_error hx
    rw [if_neg hkind, decide_eq_false hkind]
    refine ran_of_appended (.nil hahead) (congrArg left hchain) rfl rfl ?_ (fun y => ?_) .refl
    · rw [hchain]
      rfl
    · rw [if_neg (by simp)]
      rfl
  | ok a =>
    have hget := World.find_eq_ok_iff.1 hx
    have hkind : (w.elements.get? h.id).map (·.kind) = some (Elemental.kind α) := by
      rw [hget]
      exact congrArg some ((LawfulElemental.kind_eq_iff _).2 ⟨a, rfl⟩)
    rw [if_pos hkind, decide_eq_true hkind, Bool.true_and]
    obtain ⟨w₁, a₁, happended, hget₁, hstrokes, hchain⟩ := gather_spec kinds hw hahead hget
    have hw₁ : w₁.Sound := hw.strokes hstrokes
    -- all kinds are accepted and what was gathered is taken, or nothing is taken
    rcases hchain with ⟨hall, hchain⟩ | ⟨hrefused, e, hchain⟩
    · rw [List.all_eq_true.2 hall]
      refine ran_of_appended happended (congrArg left hchain) rfl rfl ?_ (fun y => ?_)
        (hstrokes.tail ⟨.take .scene h.id, w.graph, .revise hget₁ (Draining.revised_withPending _ a₁ [])⟩)
      · rw [hchain]
        rfl
      · rw [left_ok, World.gathered_withPending hw₁ hget₁]
        simp
    · rw [Bool.eq_false_iff.2 (mt List.all_eq_true.1 hrefused)]
      refine ran_of_appended happended (congrArg left hchain) rfl rfl ?_ (fun y => ?_) hstrokes
      · rw [hchain]
        rfl
      · rw [if_neg (by simp)]
        rfl

/-- **Every chain** appends its actions up to the first that is refused, and takes what is gathered if
none is. -/
theorem Stint.ran (hw : w.Sound) (hahead : w.Ahead) (s : Stint) :
    Build.Ran s.run w s.element (s.appends w) (s.succeeds w) := by
  obtain ⟨gatherer, e, kinds⟩ := s
  unfold appends succeeds fits
  simp only [decide_eq_true_eq]
  cases gatherer with
  | character => exact Build.ran_gather hw hahead (⟨e⟩ : Handle Character) kinds
  | image => exact Build.ran_gather hw hahead (⟨e⟩ : Handle Image) kinds
  | sound => exact Build.ran_gather hw hahead (⟨e⟩ : Handle Sound) kinds
  | scene => exact Build.ran_gather hw hahead (⟨e⟩ : Handle Scene) kinds

end

end Storyline
