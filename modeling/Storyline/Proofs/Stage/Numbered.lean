import Mathlib.Data.List.Nodup
import Std.Data.String.ToNat
import Storyline.Proofs.Stage.Lived
import Storyline.Proofs.World.Fresh
import Storyline.Stage.Headless

/-!
# No number is used twice

* `World.Ledger w use`: every node, every element and every name on the screen stands in the ledger
  `use` under its number, and all numbers of the ledger are below the counter;
* `Ledger.stroke`, `Ledger.turn`: writing and play enter in the ledger what they take of the counter;
* `Call.blameless`: in a world with a ledger, no call fails for a node that exists already;
* `Lived.numbers_distinct`: the numbers of every world that is written and played.
-/

namespace Storyline

open Effect

/-! ### Names -/

theorem Image.screenName_inj {k l : Nat} : screenName k = screenName l ↔ k = l := by
  unfold screenName Counter.label
  rw [String.append_right_inj]
  exact Nat.repr_inj

/-! ### Ledgers -/

/-- What a number is used for. -/
inductive Use where
  | node
  | element
  | name (e : ElementId)

/-- All numbers of a world stand in a ledger, which has nothing from the counter on. -/
structure World.Ledger (w : World) (use : Nat → Option Use) : Prop where
  unused : ∀ k, w.ids.next ≤ k → use k = none
  node : ∀ n, w.graph.contains n = true → use n.val = some .node
  element : ∀ e x, w.elements.get? e = some x → use e.val = some .element
  name : ∀ e s, w.shown? e = some s → ∃ k, s = Image.screenName k ∧ use k = some (.name e)

namespace World.Ledger

variable {w w' : World} {use : Nat → Option Use}

theorem lt (h : w.Ledger use) {k : Nat} {u : Use} (hk : use k = some u) : k < w.ids.next := by
  by_contra hle
  rw [h.unused k (Nat.le_of_not_lt hle)] at hk
  cases hk

theorem update (h : w.Ledger use) (u : Use) {k : Nat} {v : Use} (hk : use k = some v) :
    Function.update use w.ids.next (some u) k = some v := by
  rw [Function.update_of_ne (Nat.ne_of_lt (h.lt hk)), hk]

theorem take (h : w.Ledger use) (u : Use) :
    ({ w with ids := w.ids.take.2 } : World).Ledger (Function.update use w.ids.next (some u)) where
  unused k hk := by
    rw [Function.update_of_ne (Nat.ne_of_gt (Nat.lt_of_succ_le hk))]
    exact h.unused k (Nat.le_of_succ_le hk)
  node n hn := h.update u (h.node n hn)
  element e x hx := h.update u (h.element e x hx)
  name e s hs := by
    obtain ⟨k, hk, huse⟩ := h.name e s hs
    exact ⟨k, hk, h.update u huse⟩

theorem of_nodes (h : w.Ledger use) {g : Graph Action} (hg : w.graph.SameNodes g) :
    ({ w with graph := g } : World).Ledger use :=
  ⟨h.unused, fun n hn => h.node n ((hg.contains n).symm.trans hn), h.element, h.name⟩

theorem insert {n : NodeId} {a : Action} {g : Graph Action} (h : w.Ledger use)
    (hn : use n.val = some .node) (hg : w.graph.insertContent n a = .ok g) :
    ({ w with graph := g } : World).Ledger use := by
  refine ⟨h.unused, fun m hm => ?_, h.element, h.name⟩
  obtain ⟨-, -, -, hget⟩ := Graph.insert_eq_ok hg
  by_cases hnm : n = m
  · subst hnm
    exact hn
  · refine h.node m ?_
    rwa [Graph.contains_eq, hget, if_neg hnm, ← Graph.contains_eq] at hm

/-- An element is put in whose number and name stand in the ledger. -/
theorem put {y : Element} (h : w.Ledger use) (hy : use y.id.val = some .element)
    (hname : ∀ s, y.presented? = some s → ∃ k, s = Image.screenName k ∧ use k = some (.name y.id)) :
    ({ w with elements := w.elements.put y } : World).Ledger use := by
  refine ⟨h.unused, h.node, fun e x hx => ?_, fun e s hs => ?_⟩
  · rw [Elements.get?_put] at hx
    split at hx
    · subst e
      exact hy
    · exact h.element e x hx
  · unfold World.shown? at hs
    rw [Elements.get?_put] at hs
    split at hs
    · subst e
      exact hname s hs
    · exact h.name e s hs

/-- An element takes the place of another of the same identity and name. -/
theorem replace {e : ElementId} {x y : Element} (h : w.Ledger use) (hx : w.elements.get? e = some x)
    (hid : y.id = e) (hp : y.presented? = x.presented?) :
    ({ w with elements := w.elements.put y } : World).Ledger use := by
  subst hid
  refine h.put (h.element _ x hx) fun s hs => h.name _ s ?_
  rw [World.shown?, hx, ← hs, hp]
  rfl

theorem stroke {c : Call} {start : Graph Action} (hs : c.Stroke start w w') (hw : w.Sound)
    (h : w.Ledger use) : ∃ use', w'.Ledger use' := by
  cases hs with
  | spend => exact ⟨_, h.take .node⟩
  | @add x hid hx =>
    refine ⟨_, (h.take .element).put (y := x) ?_ fun s hs => ?_⟩
    · rw [hid]
      exact Function.update_self ..
    · rw [hx.presented?] at hs
      cases hs
  | revise hx hy => exact ⟨use, h.replace hx (hy.id.trans (hw.id _ _ hx)) hy.presented?⟩
  | insert hg => exact ⟨_, (h.take .node).insert (Function.update_self ..) hg⟩
  | child _ hg | root _ hg => exact ⟨use, h.of_nodes (Graph.rewired_of_setChild hg).toSameNodes⟩
  | parent _ _ _ hg => exact ⟨use, h.of_nodes (Graph.sameEdges_of_setParent hg).toSameNodes⟩

theorem turn (ht : w.Turn w') (hw : w.Sound) (h : w.Ledger use) : ∃ use', w'.Ledger use' := by
  cases ht with
  | shift hs =>
    cases hs with
    | graft node chain =>
      rw [left_ofEdit]
      exact ⟨use, h.of_nodes (Graph.resumes_left_splice w.graph node chain).1⟩
    | record hx hy =>
      have hid := (Element.id_eq_of_written hy.written).trans (hw.id _ _ hx)
      exact ⟨use, h.replace hx hid hy.presented?⟩
  | @name e i hi hn =>
    obtain rfl : i.id = e := hw.id _ _ hi
    refine ⟨_, (h.take (.name i.id)).put (y := .image (w.naming i)) ?_ fun s hs => ?_⟩
    · exact h.update _ (h.element i.id _ hi)
    · exact ⟨_, (Option.some.inj hs).symm, Function.update_self ..⟩

theorem new : World.new.Ledger fun k => if k = 0 then some .node else none := by
  refine ⟨fun k hk => if_neg (Nat.ne_of_gt hk), fun n hn => ?_, fun e x hx => ?_, fun e s hs => ?_⟩
  · rw [Graph.contains_eq] at hn
    unfold World.new at hn
    simp only [Graph.get?_withRoot] at hn
    split at hn
    · subst n
      rfl
    · cases hn
  · simp [World.new, Elements.get?] at hx
  · simp [World.new, World.shown?, Elements.get?] at hs

end World.Ledger

/-! ### Lists of numbers -/

/-- The identities of all elements in ascending order. -/
def Elements.ids (es : Elements) : List ElementId := es.table.keys

/-- The numbers of all nodes and of all elements. -/
def World.numbers (w : World) : List Nat := w.graph.ids.map (·.val) ++ w.elements.ids.map (·.val)

/-- The names under which the screen knows the images of a world, in the order of the images. -/
def World.names (w : World) : List String :=
  w.elements.ids.filterMap w.shown?

namespace World.Ledger

variable {w w' : World} {use : Nat → Option Use}

theorem fresh (h : w.Ledger use) : w.Fresh where
  node := by
    cases hn : w.graph.contains ⟨w.ids.next⟩ with
    | false => rfl
    | true => exact absurd (h.lt (h.node _ hn)) (Nat.lt_irrefl _)
  element := by
    cases hx : w.elements.get? ⟨w.ids.next⟩ with
    | none => rfl
    | some x => exact absurd (h.lt (h.element _ x hx)) (Nat.lt_irrefl _)

theorem nodup (h : w.Ledger use) : ∃ ks, w.names = ks.map Image.screenName ∧
    (w.numbers ++ ks).Nodup ∧ ∀ k ∈ w.numbers ++ ks, k < w.ids.next := by
  have hname : ∀ e : ElementId, ∃ k? : Option Nat,
      w.shown? e = k?.map Image.screenName ∧
        ∀ k ∈ k?, use k = some (.name e) := by
    intro e
    cases hs : w.shown? e with
    | none => exact ⟨none, rfl, nofun⟩
    | some s =>
      obtain ⟨k, rfl, hk⟩ := h.name e s hs
      exact ⟨some k, rfl, fun l hl => Option.some.inj hl ▸ hk⟩
  choose number hshown huse using hname
  have hnode : ∀ k ∈ w.graph.ids.map (·.val), use k = some .node := by
    intro k hk
    obtain ⟨n, hn, rfl⟩ := List.mem_map.1 hk
    exact h.node n (Std.ExtTreeMap.mem_iff_contains.1 (Std.ExtTreeMap.mem_keys.1 hn))
  have helement : ∀ k ∈ w.elements.ids.map (·.val), use k = some .element := by
    intro k hk
    obtain ⟨e, he, rfl⟩ := List.mem_map.1 hk
    obtain ⟨x, hx⟩ := Option.isSome_iff_exists.1
      (Std.ExtTreeMap.mem_iff_isSome_getElem?.1 (Std.ExtTreeMap.mem_keys.1 he))
    exact h.element e x hx
  have hnumber : ∀ k ∈ w.elements.ids.filterMap number, ∃ e, use k = some (.name e) := by
    intro k hk
    obtain ⟨e, -, hk⟩ := List.mem_filterMap.1 hk
    exact ⟨e, huse e k hk⟩
  refine ⟨w.elements.ids.filterMap number, ?_, ?_, fun k hk => ?_⟩
  · rw [List.map_filterMap]
    exact List.filterMap_congr fun e _ => hshown e
  · -- numbers of one use are those of different things; numbers of different uses differ
    refine List.nodup_append.2 ⟨List.nodup_append.2 ⟨?_, ?_, ?_⟩, ?_, ?_⟩
    · exact Std.ExtTreeMap.nodup_keys.map fun a b => by cases a; cases b; simp
    · exact Std.ExtTreeMap.nodup_keys.map fun a b => by cases a; cases b; simp
    · rintro k hk l hl rfl
      cases (hnode k hk).symm.trans (helement k hl)
    · refine Std.ExtTreeMap.nodup_keys.filterMap fun a b k ha hb => ?_
      cases (huse a k ha).symm.trans (huse b k hb)
      rfl
    · rintro k hk l hl rfl
      obtain ⟨e, he⟩ := hnumber k hl
      rcases List.mem_append.1 hk with hk | hk
      · cases (hnode k hk).symm.trans he
      · cases (helement k hk).symm.trans he
  · rcases List.mem_append.1 hk with hk | hk
    · rcases List.mem_append.1 hk with hk | hk
      · exact h.lt (hnode k hk)
      · exact h.lt (helement k hk)
    · obtain ⟨e, he⟩ := hnumber k hk
      exact h.lt he

end World.Ledger

/-! ### Content nodes -/

/-- Every content node has an action. -/
def Graph.Filled (g : Graph Action) : Prop :=
  ∀ n x, g.get? n = some x → x.kind = .content → ∃ a, g.content? n = some a

namespace Graph.Filled

variable {g g' : Graph Action}

theorem of_sameNodes (h : g.Filled) (hg : g.SameNodes g') : g'.Filled := by
  intro n x hx hk
  have hcore := hg.core n
  rw [hx] at hcore
  obtain ⟨y, hy, hyx⟩ := Option.map_eq_some_iff.1 hcore.symm
  obtain ⟨a, ha⟩ := h n y hy ((Prod.mk.inj hyx).1.trans hk)
  exact ⟨a, (hg.content? n).trans ha⟩

theorem insert {m : NodeId} {a : Action} (h : g.Filled) (hg : g.insertContent m a = .ok g') :
    g'.Filled := by
  obtain ⟨-, -, -, hget⟩ := insert_eq_ok hg
  intro n x hx hk
  by_cases hm : m = n
  · subst hm
    refine ⟨a, ?_⟩
    rw [content?, hget, if_pos rfl]
    rfl
  · rw [hget, if_neg hm] at hx
    obtain ⟨b, hb⟩ := h n x hx hk
    refine ⟨b, ?_⟩
    rwa [content?, hget, if_neg hm]

theorem withRoot (id : NodeId) : (Graph.withRoot id : Graph Action).Filled := by
  intro n x hx hk
  rw [get?_withRoot] at hx
  split at hx
  · obtain rfl := Option.some.inj hx
    cases hk
  · cases hx

end Graph.Filled

/-! ### Worlds that are written and played -/

namespace World.Lived

variable {fair : World → Call → Prop} {w : World}

theorem ledger (h : w.Lived fair) : ∃ use, w.Ledger use :=
  (h.keep (P := fun w => ∃ use, w.Ledger use) ⟨_, .new⟩
    (fun _ _ _ hs hw ⟨_, hl⟩ => hl.stroke hs hw) fun ht hw ⟨_, hl⟩ => hl.turn ht hw).2

theorem filled (h : w.Lived fair) : w.graph.Filled := by
  refine (h.keep (P := fun w => w.graph.Filled) (.withRoot _) (fun _ _ _ hs _ hw => ?_)
    fun ht hsound hw => ?_).2
  · cases hs with
    | spend | add | revise => exact hw
    | insert hg => exact hw.insert hg
    | child _ hg | root _ hg => exact hw.of_sameNodes (Graph.rewired_of_setChild hg).toSameNodes
    | parent _ _ _ hg => exact hw.of_sameNodes (Graph.sameEdges_of_setParent hg).toSameNodes
  · exact hw.of_sameNodes (ht.keeps hsound).nodes

/-- **No number is used twice**: all nodes, elements and names on the screen have numbers of their
own below the counter. New nodes are always made, new elements replace none, and every action carries
the identity of its node. -/
theorem numbers_distinct (h : w.Lived fair) :
    (∃ ks, w.names = ks.map Image.screenName ∧
      (w.numbers ++ ks).Nodup ∧ ∀ k ∈ w.numbers ++ ks, k < w.ids.next) ∧
    (∀ e kind, ∃ w', Build.newAction e kind w = .ok ⟨w.ids.next⟩ w') ∧
    (∀ c n w', Call.run c w ≠ .error (.graph (.duplicate n)) w') ∧
    (∀ c : Call, c.Creates → ∀ e x, w.elements.get? e = some x →
      (left (c.run w)).elements.get? e = some x) ∧
    ∀ n x, w.graph.get? n = some x → x.kind = .content →
      ∃ a, w.graph.content? n = some a ∧ a.node = n := by
  obtain ⟨use, hl⟩ := h.ledger
  refine ⟨hl.nodup, fun e kind => ?_, fun c n w' hc => ?_, fun c hc e x => hl.fresh.creates hc,
    fun n x hx hk => ?_⟩
  · obtain ⟨g, hg⟩ := Fresh.newAction hl.fresh.node e kind
    exact ⟨_, hg⟩
  · have hrun := hl.fresh.run c
    rw [hc] at hrun
    exact hrun n rfl
  · obtain ⟨a, ha⟩ := h.filled n x hx hk
    exact ⟨a, ha, h.sound.node n a ha⟩

end World.Lived

/-! ### A gallery -/

/-- The calls that write a gallery of two images, after one without a source is refused. -/
def galleryCalls : List Call := [
  .image "blank" { src := "" },
  .image "hero" { src := "hero.png" },
  .image "rival" { src := "rival.png" },
  .append ⟨2⟩ (.setSrc "hero-laughs.png"),
  .append ⟨3⟩ (.setSrc "rival-weeps.png")]

/-- A stage for the gallery. -/
def galleryStage : Stage Headless :=
  { world := World.new.callAll galleryCalls, store := {}, futures := {}, screen := {} }

/-- The gallery once both images have been seen, the second one first. -/
def gallery : World :=
  let stage := left (Perform.execute Headless.screen ⟨5⟩ galleryStage)
  (left (Perform.execute Headless.screen ⟨4⟩ stage)).world

theorem lived_gallery : gallery.Lived fun _ _ => True := by
  have hcalls : galleryStage.world.Lived fun _ _ => True :=
    World.Lived.new.callAll fun _ _ _ => trivial
  exact .execute (.execute hcalls Headless.screen ⟨5⟩) Headless.screen ⟨4⟩

theorem numbers_distinct_gallery : (gallery.Lived fun _ _ => True) ∧
    gallery.names = ["image:7", "image:6"] ∧ (gallery.numbers ++ [7, 6]).Nodup ∧
      ∃ w, Build.newAction ⟨2⟩ .script gallery = .ok ⟨8⟩ w := by
  obtain ⟨⟨ks, hks, hnodup, -⟩, hnew, -⟩ := lived_gallery.numbers_distinct
  have hnames : gallery.names = ["image:7", "image:6"] := by decide +kernel
  have hnext : gallery.ids.next = 8 := by decide +kernel
  obtain rfl : ks = [7, 6] := by
    have hmap : ks.map Image.screenName = [7, 6].map Image.screenName :=
      (hks.symm.trans hnames).trans (by decide +kernel)
    exact List.map_injective_iff.2 (fun k l => Image.screenName_inj.1) hmap
  have hscript := hnew ⟨2⟩ .script
  rw [hnext] at hscript
  exact ⟨lived_gallery, hnames, hnodup, hscript⟩

end Storyline
