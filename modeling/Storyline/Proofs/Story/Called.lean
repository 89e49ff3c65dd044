import Storyline.Proofs.Story.Written

/-!
# What the calls of a builder write

For every call what it does, or that it fails:

* `Call.append_run`, `Call.toAction_run`: a new node;
* `Call.scene_run`: nodes are linked and get a new node that leads into them;
* `Call.list_run`: nodes are linked and put into a list;
* `Call.plain_run`: every other call touches nothing that was there before, apart from
  `Call.setRoot`.
-/

namespace Storyline

open Effect Storyline.Tree

namespace World

variable {w w' : World} {e : ElementId} {ns : List NodeId}

/-! ### Chains of an author -/

variable {α : Type}

/-- **Appending** a statement gives a new node, or fails and changes nothing. -/
theorem append_run [Gathering α] [LawfulGathering α] [PlainElemental α] (hs : w.Sized)
    (hw : w.Sound) (e : ElementId) (kind : ActionKind) :
    (∃ err, Build.author (⟨e⟩ : Handle α) (fun a => (a.append kind).close) w = .error err w) ∨
      ∃ w', Build.author (⟨e⟩ : Handle α) (fun a => (a.append kind).close) w = .ok [] w' ∧
        Gains w w' ⟨⟨w.ids.next⟩, e, kind⟩ ∧ w.shape? e = some (.plain (Elemental.kind α)) := by
  unfold Author.append
  rw [Build.author_apply]
  rcases find_cases α w e with ⟨err, he⟩ | ⟨x, he, hx⟩
  · exact .inl ⟨err, by rw [he]⟩
  · rw [he]
    simp only
    -- a kind that is refused is refused before the world is touched
    cases hp : Gathering.problem? α kind with
    | some problem => exact .inl ⟨_, rfl⟩
    | none =>
      right
      obtain ⟨w', hnew, hgain, helements⟩ := newAction_ok hs e kind
      have hx' : w'.elements.get? e = some (Elemental.toElement x) := by rw [helements, hx]
      refine ⟨w'.put (Gathering.withPending x (⟨w.ids.next⟩ :: Gathering.pending x)), ?_, ?_, ?_⟩
      · simp only [bind_assoc]
        rw [bind_of_ok hnew, bind_of_ok (Build.find_eq_ok_iff.2 ⟨hx', rfl⟩)]
        rfl
      · refine hgain.congr rfl rfl (shape?_put_self hx' ?_ ?_) (.refl _)
        · rw [LawfulGathering.id_withPending]
          exact hw.id e _ hx
        · rw [PlainElemental.shape_eq, PlainElemental.shape_eq]
      · rw [shape?_of_get? hx, PlainElemental.shape_eq]

theorem Gains.enters {a : Action} (h : Gains w w' a) (hs : w.Sized) {n : NodeId}
    (hn : w.graph.Movable n) :
    ∃ w'', Build.ofEdit (Graph.attempt (·.setParent n (some a.node))) w' = .ok () w'' ∧
      Gains w w'' a := by
  have hne : a.node ≠ n := by
    rintro rfl
    have hlt := hs.nodes _ hn.1
    rw [h.node] at hlt
    exact Nat.lt_irrefl _ hlt
  obtain ⟨g, hg, hsame⟩ := Graph.attempt_setParent (h.graph.movable hn) h.movable.1 hne
  exact ⟨{ w' with graph := g }, Build.ofEdit_eq_ok_iff.2 ⟨g, hg, rfl⟩, h.congr rfl rfl rfl hsame⟩

/-- **Composing** nodes links them and gives a node that leads into them, or it fails and changes
nothing. -/
theorem action_run [Composing α] [LawfulComposing α] (hs : w.Sized) (hw : w.Sound) (e : ElementId)
    {lists : List (List NodeId)} (hl : w.Linkable lists.flatten) :
    (∃ err, Build.author (⟨e⟩ : Handle α) (·.action lists) w = .error err w) ∨
      ∃ (x : α) (w₁ w₂ : World),
        Build.author (⟨e⟩ : Handle α) (·.action lists) w = .ok ⟨w.ids.next⟩ w₂ ∧
        w.elements.get? e = some (Elemental.toElement x) ∧ Linked lists.flatten w w₁ ∧
        w₁.shape? = (w.put (Composing.withActions x (Composing.actions x ++ lists.flatten))).shape? ∧
        Gains w₁ w₂ ⟨⟨w.ids.next⟩, e, Composing.composite α (Chain.ofNodes? lists.flatten)⟩ := by
  unfold Author.action
  rw [Build.author_finish]
  rcases find_cases α w e with ⟨err, he⟩ | ⟨x, he, hx⟩
  · exact .inl ⟨err, by rw [he]⟩
  · right
    rw [he]
    simp only
    set w₀ := w.put (Composing.withActions x (Composing.actions x ++ lists.flatten)) with hw₀
    obtain ⟨w₁, hlink, hlinked, helements⟩ := construct_ok (w := w₀) ⟨hl.nodup, hl.movable, hl.bare⟩
    have hlinked' : Linked lists.flatten w w₁ :=
      ⟨hlinked.ids, hlinked.root, hlinked.same, hlinked.graph, hlinked.links⟩
    have hshape : w₁.shape? = w₀.shape? := by
      unfold World.shape?
      rw [helements]
    have hs₁ : w₁.Sized := by
      refine hs.linked hlinked' fun e' s he' => ?_
      rw [hshape, hw₀, shape?_put, LawfulComposing.id_withActions, hw.id e _ hx] at he'
      split at he'
      · subst e'
        exact ⟨_, shape?_of_get? hx⟩
      · exact ⟨s, he'⟩
    obtain ⟨w₂, hnew, hgain, -⟩ :=
      newAction_ok hs₁ e (Composing.composite α (Chain.ofNodes? lists.flatten))
    have hids : w₁.ids.next = w.ids.next := by rw [hlinked'.ids]
    rw [hids] at hnew hgain
    have hstart : ∀ f : α → Build NodeId, (Build.find α e >>= f) w = f x w := fun f =>
      bind_of_ok (Build.find_eq_ok_iff.2 ⟨hx, rfl⟩)
    -- without a node there is no head to be given a parent
    cases hch : Chain.ofNodes? lists.flatten with
    | none =>
      rw [hch] at hlink hnew hgain
      refine ⟨x, w₁, w₂, ?_, hx, hlinked', hshape, hgain⟩
      rw [hstart, Build.put, bind_modify_apply]
      refine Eq.trans (bind_of_ok hlink) ?_
      rw [bind_of_ok hnew]
      rfl
    | some c =>
      rw [hch] at hlink hnew hgain
      have hmem : c.head ∈ lists.flatten := List.mem_of_mem_head? (Chain.ends_of_ofNodes hch).1
      obtain ⟨w₃, hset, hgain'⟩ :=
        hgain.enters hs₁ ((hlinked'.same.movable_iff _).2 (hl.movable _ hmem))
      refine ⟨x, w₁, w₃, ?_, hx, hlinked', hshape, hgain'⟩
      rw [hstart, Build.put, bind_modify_apply]
      refine Eq.trans (bind_of_ok hlink) ?_
      rw [bind_of_ok hnew]
      exact bind_of_ok hset

/-- **A node that runs an element**, or it fails and changes nothing. -/
theorem toAction_run [Author.Runnable α] [LawfulElemental α] (hs : w.Sized) (e : ElementId) :
    (∃ err, Build.author (⟨e⟩ : Handle α) Author.toAction w = .error err w) ∨
      ∃ w', Build.author (⟨e⟩ : Handle α) Author.toAction w = .ok ⟨w.ids.next⟩ w' ∧
        Gains w w' ⟨⟨w.ids.next⟩, e, Author.Runnable.runKind α⟩ := by
  show (∃ err, Build.author _ (fun a : Author α => a.finish _) w = _) ∨ _
  unfold Author.toAction
  rw [Build.author_finish]
  rcases find_cases α w e with ⟨err, he⟩ | ⟨x, he, -⟩
  · exact .inl ⟨err, by rw [he]⟩
  · obtain ⟨w', hnew, hgain, -⟩ := newAction_ok hs e (Author.Runnable.runKind α)
    rw [he]
    exact .inr ⟨w', hnew, hgain⟩

/-- **Declaring** a list of nodes links these and puts them into the list, or it fails. -/
theorem declare_run [Elemental α] [LawfulElemental α] (hs : w.Sized) (hw : w.Sound) {s : Slot}
    {lists : List (List NodeId)} (hl : w.Linkable lists.flatten)
    {f : α → List NodeId × Option Chain → Except GameError α}
    (hf : ∀ x x', f x (lists.flatten, Chain.ofNodes? lists.flatten) = .ok x' →
      (Elemental.toElement x').id = (Elemental.toElement x).id ∧
        Adds lists.flatten s (Elemental.toElement x).shape (Elemental.toElement x').shape) :
    (∃ err w', Build.declare (⟨s.element⟩ : Handle α) lists f w = .error err w' ∧
      Spent lists.flatten w w') ∨
    ∃ known w', Build.declare (⟨s.element⟩ : Handle α) lists f w = .ok known w' ∧
      Listed s lists.flatten w w' := by
  unfold Build.declare
  rw [Build.author_apply]
  rcases find_cases α w s.element with ⟨err, he⟩ | ⟨x, he, hx⟩
  · exact .inl ⟨err, w, by rw [he], .inl rfl⟩
  · obtain ⟨w₁, hlink, hlinked, helements⟩ := construct_ok hl
    have hx₁ : w₁.elements.get? s.element = some (Elemental.toElement x) := by rw [helements, hx]
    have hdetached : Build.detached lists w =
        .ok (lists.flatten, Chain.ofNodes? lists.flatten) w₁ := bind_of_ok hlink
    have hshape : w₁.shape? = w.shape? := by
      unfold World.shape?
      rw [helements]
    rw [he]
    simp only [bind_assoc]
    rw [bind_of_ok hdetached, bind_of_ok (Build.find_eq_ok_iff.2 ⟨hx₁, rfl⟩)]
    -- the element may refuse the branch, when its nodes are in line already
    cases hdecl : f x (lists.flatten, Chain.ofNodes? lists.flatten) with
    | error err => exact .inl ⟨err, w₁, rfl, .inr ⟨hlinked, hshape⟩⟩
    | ok x' =>
      obtain ⟨hid, hadds⟩ := hf x x' hdecl
      have hid' : (Elemental.toElement x').id = s.element := hid.trans (hw.id _ _ hx)
      refine .inr ⟨_, w₁.put x', rfl, Linked.listed hs ?_ hx hadds fun e => ?_⟩
      · exact ⟨hlinked.ids, hlinked.root, hlinked.same, hlinked.graph, hlinked.links⟩
      · rw [shape?_put, hid', hshape]

end World

/-! ### Calls that put nodes into lists -/

open World

namespace Condition

variable {c c' : Condition} {b : Branch} {e : ElementId} {ns : List NodeId}

theorem adds_setWhen (hb : b.chain = Chain.ofNodes? ns) (h : c.setWhen b = .ok c') :
    c'.id = c.id ∧ Adds ns (.branch e) (Element.condition c).shape (Element.condition c').shape := by
  obtain ⟨hempty, rfl⟩ := setWhen_eq_ok_iff.1 h
  refine ⟨rfl, ?_⟩
  simp only [Element.shape, hempty, List.map_cons, List.map_nil, hb]
  exact @Adds.branch _ _ [] [] _ _

theorem adds_addElseWhen (hb : b.chain = Chain.ofNodes? ns) (h : c.addElseWhen b = .ok c') :
    c'.id = c.id ∧ Adds ns (.branch e) (Element.condition c).shape (Element.condition c').shape := by
  obtain ⟨-, rfl⟩ := addElseWhen_eq_ok_iff.1 h
  refine ⟨rfl, ?_⟩
  simp only [Element.shape, List.map_append, List.map_cons, List.map_nil, hb]
  exact .branch

theorem adds_setOtherwise {actions : List NodeId}
    (h : c.setOtherwise actions (Chain.ofNodes? ns) = .ok c') :
    c'.id = c.id ∧
      Adds ns (.otherwise e) (Element.condition c).shape (Element.condition c').shape := by
  obtain ⟨hnone, rfl⟩ := setOtherwise_eq_ok_iff.1 h
  refine ⟨rfl, ?_⟩
  simp only [Element.shape, hnone, Option.map_none, Option.map_some]
  exact .otherwise

end Condition

namespace Call

variable {w w' : World} {c : Call} {e : ElementId} {ns : List NodeId}

/-- **Putting nodes into a list** links them, or it fails. -/
theorem list_run {s : Slot} (hs : w.Sized) (hw : w.Sound) (hc : c.list? = some (s, ns))
    (hl : w.Linkable ns) :
    (∃ err w', c.run w = .error err w' ∧ Spent ns w w') ∨
      ∃ known w', c.run w = .ok known w' ∧ Listed s ns w w' := by
  cases c with
  -- a story counts the nodes among its units, the others declare a branch
  | storyAction e lists =>
    obtain ⟨rfl, rfl⟩ := Prod.mk.inj (Option.some_inj.1 hc)
    rcases action_run (α := Story) hs hw e hl with ⟨err, hr⟩ | ⟨x, w₁, w₂, hr, hx, hlinked, hshape, hgain⟩
    · exact .inl ⟨err, w, bind_of_error hr, .inl rfl⟩
    · refine .inr ⟨_, w₂, bind_of_ok hr, Listed.gains ?_ hl.movable hgain⟩
      refine Linked.listed (x := .story x)
        (y := .story { x with actions := x.actions ++ lists.flatten }) hs hlinked hx .unit ?_
      intro e'
      rw [hshape, shape?_put]
      have hid : x.id = e := hw.id e _ hx
      show (if x.id = e' then _ else _) = _
      rw [hid]
      rfl
  | when e p lists =>
    obtain ⟨rfl, rfl⟩ := Prod.mk.inj (Option.some_inj.1 hc)
    rw [run_when]
    exact declare_run (s := .branch e) hs hw hl
      fun c c' hd => Condition.adds_setWhen rfl (mapError_eq_ok_iff.1 hd)
  | elseWhen e p lists =>
    obtain ⟨rfl, rfl⟩ := Prod.mk.inj (Option.some_inj.1 hc)
    rw [run_elseWhen]
    exact declare_run (s := .branch e) hs hw hl
      fun c c' hd => Condition.adds_addElseWhen rfl (mapError_eq_ok_iff.1 hd)
  | otherwise e lists =>
    obtain ⟨rfl, rfl⟩ := Prod.mk.inj (Option.some_inj.1 hc)
    rw [run_otherwise]
    exact declare_run (s := .otherwise e) hs hw hl
      fun c c' hd => Condition.adds_setOtherwise (mapError_eq_ok_iff.1 hd)
  | choose e prompt lists =>
    obtain ⟨rfl, rfl⟩ := Prod.mk.inj (Option.some_inj.1 hc)
    rw [run_choose]
    exact declare_run (s := .branch e) hs hw hl
      fun m m' hd => by
        obtain rfl := Except.ok.inj hd
        refine ⟨rfl, ?_⟩
        simp only [Elemental.toElement, Element.shape, Menu.addChoice, List.map_append, List.map_cons,
          List.map_nil]
        exact .entry
  -- no other call gives nodes to an element
  | _ => cases hc

/-! ### Calls that give nodes -/

/-- **Appending** a statement gives a new node, or it fails. -/
theorem append_run (hs : w.Sized) (hw : w.Sound) {kind : ActionKind} (hk : kind.writer?.isSome) :
    (∃ err, (append e kind).run w = .error err w) ∨
      ∃ w', (append e kind).run w = .ok [] w' ∧ Gains w w' ⟨⟨w.ids.next⟩, e, kind⟩ ∧
        ∃ k, kind.writer? = some k ∧ w.shape? e = some (.plain k) := by
  cases kind with
  | say | hideLine =>
    refine (World.append_run (α := Character) hs hw e _).imp_right fun ⟨w', hr, hg, he⟩ => ?_
    exact ⟨w', hr, hg, _, rfl, he⟩
  | setSrc | setPosition | showImage | hideImage | applyTransform =>
    refine (World.append_run (α := Image) hs hw e _).imp_right fun ⟨w', hr, hg, he⟩ => ?_
    exact ⟨w', hr, hg, _, rfl, he⟩
  | play | stop =>
    refine (World.append_run (α := Sound) hs hw e _).imp_right fun ⟨w', hr, hg, he⟩ => ?_
    exact ⟨w', hr, hg, _, rfl, he⟩
  | setBackground | sleep =>
    refine (World.append_run (α := Scene) hs hw e _).imp_right fun ⟨w', hr, hg, he⟩ => ?_
    exact ⟨w', hr, hg, _, rfl, he⟩
  | scene | story | condition | script | menu => cases hk

/-- **A scene** links nodes and gets a new node that leads into them, or it fails. -/
theorem scene_run (hs : w.Sized) (hw : w.Sound) {lists : List (List NodeId)}
    (hl : w.Linkable lists.flatten) :
    (∃ err, (sceneAction e lists).run w = .error err w) ∨
      ∃ w₁ w', (sceneAction e lists).run w = .ok [⟨w.ids.next⟩] w' ∧ Linked lists.flatten w w₁ ∧
        w₁.shape? = w.shape? ∧
        Gains w₁ w' ⟨⟨w.ids.next⟩, e, .scene (Chain.ofNodes? lists.flatten)⟩ ∧
        w.shape? e = some (.plain .scene) := by
  rcases action_run (α := Scene) hs hw e hl with ⟨err, hr⟩ | ⟨x, w₁, w', hr, hx, hlinked, hshape, hgain⟩
  · exact .inl ⟨err, bind_of_error hr⟩
  · refine .inr ⟨w₁, w', bind_of_ok hr, hlinked, hshape.trans ?_, hgain, shape?_of_get? hx⟩
    have hid : x.id = e := hw.id e _ hx
    exact shape?_put_self hx hid rfl

/-- The kind of action that runs the elements of a kind. -/
def runs? : Kind → Option ActionKind
  | .script => some .script
  | .condition => some .condition
  | .menu => some .menu
  | _ => none

/-- **A node that runs an element**, or the call fails. -/
theorem toAction_run (hs : w.Sized) {k : Kind} {kind : ActionKind} (hk : runs? k = some kind) :
    (∃ err, (toAction k e).run w = .error err w) ∨
      ∃ w', (toAction k e).run w = .ok [⟨w.ids.next⟩] w' ∧ Gains w w' ⟨⟨w.ids.next⟩, e, kind⟩ := by
  have hsingle : ∀ {c : Build NodeId}, ((∃ err, c w = .error err w) ∨
      ∃ w', c w = .ok ⟨w.ids.next⟩ w' ∧ Gains w w' ⟨⟨w.ids.next⟩, e, kind⟩) →
      (∃ err, (do return [← c] : Build (List NodeId)) w = .error err w) ∨
        ∃ w', (do return [← c] : Build (List NodeId)) w = .ok [⟨w.ids.next⟩] w' ∧
          Gains w w' ⟨⟨w.ids.next⟩, e, kind⟩ := by
    rintro c (⟨err, hr⟩ | ⟨w', hr, hg⟩)
    · exact .inl ⟨err, bind_of_error hr⟩
    · exact .inr ⟨w', bind_of_ok hr, hg⟩
  cases k with
  | script =>
    obtain rfl := Option.some_inj.1 hk
    exact hsingle (World.toAction_run (α := Script) hs e)
  | condition =>
    obtain rfl := Option.some_inj.1 hk
    exact hsingle (World.toAction_run (α := Condition) hs e)
  | menu =>
    obtain rfl := Option.some_inj.1 hk
    exact hsingle (World.toAction_run (α := Menu) hs e)
  | character | image | sound | scene | story => cases hk

theorem toAction_eq_ok (hs : w.Sized) {k : Kind} {kind : ActionKind} {n : NodeId}
    (hk : runs? k = some kind) (hr : (toAction k e).run w = .ok [n] w') :
    n = ⟨w.ids.next⟩ ∧ Gains w w' ⟨n, e, kind⟩ := by
  rcases toAction_run (e := e) hs hk with ⟨err, hr'⟩ | ⟨w₁, hr', hg⟩
  · cases hr'.symm.trans hr
  · obtain ⟨hn, rfl⟩ := EStateM.Result.ok.inj (hr'.symm.trans hr)
    obtain ⟨rfl, -⟩ := List.cons.inj hn
    exact ⟨rfl, hg⟩

/-- **A call that fails** has linked the nodes that were given to it, if it did anything. -/
theorem fails_run (hs : w.Sized) (hw : w.Sound) (hc : c.given? = some ns) (hl : w.Linkable ns)
    {err : GameError} (hr : c.run w = .error err w') : Spent ns w w' := by
  -- of the calls that declare a list it is known what they leave when they fail
  have hlist : ∀ {s : Slot}, c.list? = some (s, ns) → Spent ns w w' := by
    intro s hs'
    rcases list_run hs hw hs' hl with ⟨err', w₁, hr', hspent⟩ | ⟨known, w₁, hr', -⟩
    · rw [hr'] at hr
      obtain ⟨-, rfl⟩ := EStateM.Result.error.inj hr
      exact hspent
    · rw [hr'] at hr
      cases hr
  cases c with
  | append e kind =>
    left
    cases hk : kind.writer? with
    | none =>
      have hrun : (append e kind).run w = .ok [] w := by
        cases kind <;> first | rfl | cases hk
      rw [hrun] at hr
      cases hr
    | some k =>
      rcases append_run (e := e) hs hw (by rw [hk]; rfl) with ⟨err', hr'⟩ | ⟨w₁, hr', -⟩
      · rw [hr'] at hr
        exact (EStateM.Result.error.inj hr).2.symm
      · rw [hr'] at hr
        cases hr
  | toAction k e =>
    left
    cases hk : runs? k with
    | none =>
      have hrun : (toAction k e).run w = .ok [] w := by
        cases k <;> first | rfl | cases hk
      rw [hrun] at hr
      cases hr
    | some kind =>
      rcases toAction_run (e := e) hs hk with ⟨err', hr'⟩ | ⟨w₁, hr', -⟩
      · rw [hr'] at hr
        exact (EStateM.Result.error.inj hr).2.symm
      · rw [hr'] at hr
        cases hr
  | sceneAction e lists =>
    obtain rfl := Option.some_inj.1 hc
    rcases scene_run (e := e) hs hw hl with ⟨err', hr'⟩ | ⟨w₁, w₂, hr', -⟩
    · rw [hr'] at hr
      exact .inl (EStateM.Result.error.inj hr).2.symm
    · rw [hr'] at hr
      cases hr
  | storyAction e lists =>
    obtain rfl := Option.some_inj.1 hc
    exact hlist rfl
  | when e p lists | elseWhen e p lists | otherwise e lists | choose e p lists =>
    obtain rfl := Option.some_inj.1 hc
    exact hlist rfl
  | _ => cases hc

/-! ### Hanging a story under the root -/

/-- **Hanging a story under the root** leads the root to its first unit, if there is such a story. -/
theorem left_setRoot {F : List (List Tree)} (hs : w.Sized) (hl : RowsLinked F w.graph)
    (hhead : ∀ units c, w.shape? e = some (.story units) → units.head? = some c →
      ∃ r ∈ F, (Tree.nodes r).head? = some c) :
    left ((setRoot e).run w) = w ∨ ∃ units g, w.shape? e = some (.story units) ∧
      w.graph.setChild w.root units.head? = .ok g ∧
        left ((setRoot e).run w) = { w with graph := g } := by
  show left (Build.setRoot ⟨e⟩ w) = w ∨ ∃ units g, _ ∧ _ ∧ left (Build.setRoot ⟨e⟩ w) = _
  unfold Build.setRoot
  rcases find_cases Story w e with ⟨err, he⟩ | ⟨x, -, hx⟩
  · left
    have hfind : Build.find Story e w = .error err w := by
      unfold Build.find
      rw [bind_get_apply, he]
      rfl
    rw [bind_of_error hfind]
    rfl
  · right
    have hshape := shape?_of_get? hx
    obtain ⟨g, hg⟩ := Graph.setChild_eq_ok_iff.2 ⟨hs.root.1, fun c hc => by
      obtain ⟨r, hmem, hrc⟩ := hhead _ c hshape hc
      obtain ⟨t, ht, rfl⟩ := List.mem_map.1 (List.mem_of_head? hrc)
      have hin := Tree.Distinct.mem_within_of_row (List.mem_append_left _ hmem) ht
      exact ⟨hs.ne_root hl t hin, hl.movable t hin⟩⟩
    have hedit : Build.ofEdit (Graph.attempt (·.setChild w.root x.actions.head?)) w =
        .ok () { w with graph := g } :=
      Build.ofEdit_eq_ok_iff.2 ⟨g, Graph.attempt_of_ok hg, rfl⟩
    refine ⟨_, g, hshape, hg, ?_⟩
    rw [bind_of_ok (Build.find_eq_ok_iff.2 ⟨hx, rfl⟩), bind_get_apply, bind_of_ok hedit]
    rfl

/-! ### All other calls -/

theorem take_run {α : Type} [Gathering α] [LawfulGathering α] [PlainElemental α] (hs : w.Sized)
    (hw : w.Sound) (e : ElementId) :
    Aside w (left (Build.author (⟨e⟩ : Handle α) Author.takeActions w)) := by
  unfold Author.takeActions
  rw [Build.author_finish]
  rcases find_cases α w e with ⟨err, he⟩ | ⟨x, he, hx⟩
  · rw [he]
    exact hs.aside rfl rfl (Nat.le_refl _) rfl
  · rw [he]
    simp only
    rw [bind_of_ok (Build.find_eq_ok_iff.2 ⟨hx, rfl⟩)]
    refine hs.aside rfl rfl (Nat.le_refl _) (shape?_put_self hx ?_ ?_)
    · rw [LawfulGathering.id_withPending]
      exact hw.id e _ hx
    · rw [PlainElemental.shape_eq, PlainElemental.shape_eq]

/-- **All other calls** touch nothing that was there before. -/
theorem plain_run (hs : w.Sized) (hw : w.Sound) (hc : c.IsPlain) (hr : ∀ e, c ≠ setRoot e) :
    Aside w (left (c.run w)) := by
  -- the calls that lay no node into a list: what is created, what is taken, a node of its own
  cases c with
  | character name config => exact hs.aside_add (x := ({ id := _, name, config } : Character)) rfl trivial
  | image name config =>
    have hsilent : left ((image name config).run w) = left (Build.image name config w) := by
      show left ((discard (Build.image name config) >>= fun _ => pure []) w) = _
      cases h : Build.image name config w with
      | ok x w₁ =>
        rw [bind_of_ok (discard_apply_of_ok h)]
        rfl
      | error err w₁ =>
        rw [bind_of_error (e := err) (by rw [discard_apply, h])]
        rfl
    rw [hsilent]
    unfold Build.image Image.new
    cases hp : config.problem? with
    | some problem => exact hs.aside rfl rfl (Nat.le_succ _) rfl
    | none => exact hs.aside_add (x := ({ id := _, name, config, tracked := _ } : Image)) rfl trivial
  | sound name config => exact hs.aside_add (x := ({ id := _, name, config } : Sound)) rfl trivial
  | scene name config => exact hs.aside_add (x := Scene.new _ name config) rfl trivial
  | story name => exact hs.aside_add (x := ({ id := _, name } : Story)) rfl trivial
  | script handler => exact hs.aside_add (x := ({ id := _, handler } : Script)) rfl trivial
  | condition => exact hs.aside_add (x := ({ id := _ } : Condition)) rfl trivial
  | menu prompt => exact hs.aside_add (x := ({ id := _, prompt } : Menu)) rfl trivial
  | take k e =>
    cases k with
    | character => exact take_run (α := Character) hs hw e
    | image => exact take_run (α := Image) hs hw e
    | sound => exact take_run (α := Sound) hs hw e
    | scene => exact take_run (α := Scene) hs hw e
    | story | script | condition | menu => exact hs.aside rfl rfl (Nat.le_refl _) rfl
  | newAction e kind =>
    obtain ⟨w', hnew, hgain, -⟩ := newAction_ok hs e kind
    have hrun : (newAction e kind).run w = .ok [⟨w.ids.next⟩] w' := bind_of_ok hnew
    rw [hrun]
    exact hgain.aside hs
  | setRoot e => exact absurd rfl (hr e)
  | _ => cases hc

end Call

end Storyline
