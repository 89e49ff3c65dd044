import Storyline.Proofs.Story.Roles
import Storyline.Proofs.Story.RowsLinked

/-!
# Stories that are written as trees

* `Draft`: what was written so far: trees that are in no list yet, the rows that stand in lists of
  conditions, menus and stories, and the conditions and menus that have their node;
* `Registered w d`: calls lead to the world `w`, with the register `d` of them, under the discipline
  that nodes are given to a call only if they are in no list yet;
* `Drafted w d`: the same with a draft for the register, where a condition or a menu gets its only
  node when it is complete;
* `World.Bears w F wrapped`: a forest is laid out in a world and all of its trees stand. This is kept
  by changes elsewhere (`Bears.extend`), by joining trees to a row (`Bears.link`) and by new trees
  that lead into rows (`Bears.wrap`).
-/

namespace Storyline

open Effect Storyline.Tree

/-- The lists that nodes are put into, apart from those of scenes. -/
inductive Slot where
  /-- A branch of a condition under a predicate, or an entry of a menu. -/
  | branch (e : ElementId)
  /-- The branch of a condition for all other cases. -/
  | otherwise (e : ElementId)
  /-- Units of a story. -/
  | unit (e : ElementId)
deriving DecidableEq

def Slot.element : Slot → ElementId
  | branch e | otherwise e | unit e => e

/-- What was written so far. -/
structure Draft where
  /-- The trees that are in no list yet. -/
  free : List Tree := []
  /-- The rows in lists, in the order in which these were given. -/
  rows : List (Slot × List Tree) := []
  /-- The conditions and menus that have their node. -/
  wrapped : List ElementId := []

namespace Draft

/-- The rows of a slot in their order. -/
def rowsAt (d : Draft) (s : Slot) : List (List Tree) := (d.rows.filter (·.1 = s)).map (·.2)

/-- All rows. A tree that is in no list is a row of its own. -/
def forest (d : Draft) : List (List Tree) := d.free.map ([·]) ++ d.rows.map (·.2)

/-- The units of a story. -/
def units (d : Draft) (e : ElementId) : List Tree := (d.rowsAt (.unit e)).flatten

/-- A condition or a menu gets its node, which leads into the rows of its slots. -/
def wrap (d : Draft) (e : ElementId) (node : NodeId) (role : Role) : Draft where
  free := .mk node role (d.rowsAt (.branch e) ++ d.rowsAt (.otherwise e)) :: d.free
  rows := d.rows.filter fun r => r.1 ≠ .branch e ∧ r.1 ≠ .otherwise e
  wrapped := e :: d.wrapped

end Draft

namespace Call

/-- Calls that put no node into a list and give none that may be put into one. -/
def IsPlain : Call → Prop
  | character .. | image .. | sound .. | scene .. | story _ | script _ | condition | menu _
  | take .. | newAction .. | setRoot _ => True
  | _ => False

/-- The nodes that a call puts into a list, and the slot of the list. -/
def list? : Call → Option (Slot × List NodeId)
  | storyAction e lists => some (.unit e, lists.flatten)
  | when e _ lists | elseWhen e _ lists | choose e _ lists => some (.branch e, lists.flatten)
  | otherwise e lists => some (.otherwise e, lists.flatten)
  | _ => none

/-- The nodes that are given to a call which may fail. -/
def given? : Call → Option (List NodeId)
  | append .. | toAction .. => some []
  | sceneAction _ lists => some lists.flatten
  | c => c.list?.map (·.2)

end Call

/-! ### Worlds that are written under a discipline -/

/-- What is kept of the calls that write a world, for a discipline of writing: what is in no list
yet, and what becomes of that. -/
class Register (δ : Type) (τ : outParam Type) where
  /-- The register of an empty world. -/
  empty : δ
  /-- What is in no list yet. -/
  free : δ → List τ
  setFree : δ → List τ → δ
  nodes : List τ → List NodeId
  /-- The node of a statement, which leads nowhere. -/
  statement : NodeId → τ
  /-- What becomes of a register when a call that is allowed puts nodes into a list or gives an
  element its node. The nodes are those that the call answers. -/
  Enters : World → δ → Call → List NodeId → δ → Prop

/-- **Worlds that are written under a discipline**, by calls of which some may fail. Nodes are given
to a call only if they are in no list yet. -/
inductive Registered {δ τ : Type} [Register δ τ] : World → δ → Prop
  | new : Registered World.new Register.empty
  | plain {w : World} {d : δ} (h : Registered w d) (c : Call) (hc : c.IsPlain) :
      Registered (left (c.run w)) d
  /-- The nodes that were given to a call that failed are lost. -/
  | fails {w w' : World} {d : δ} (h : Registered w d) {c : Call} {ts free : List τ} {e : GameError}
      (hc : c.given? = some (Register.nodes δ ts)) (hf : (Register.free d).Perm (ts ++ free))
      (hr : c.run w = .error e w') : Registered w' (Register.setFree d free)
  | append {w w' : World} {d : δ} (h : Registered w d) (e : ElementId) (kind : ActionKind)
      (known : List NodeId) (hk : kind.writer?.isSome)
      (hr : (Call.append e kind).run w = .ok known w') :
      Registered w' (Register.setFree d (Register.statement δ w.ids.node.1 :: Register.free d))
  | enters {w w' : World} {d d' : δ} (h : Registered w d) (c : Call) (known : List NodeId)
      (he : Register.Enters w d c known d') (hr : c.run w = .ok known w') : Registered w' d'

theorem Registered.authored {δ τ : Type} [Register δ τ] {w : World} {d : δ} (h : Registered w d) :
    w.Authored := by
  induction h with
  | new => exact .new
  | plain _ c _ ih => exact ih.call c
  | fails _ _ _ hr ih | append _ _ _ _ _ hr ih | enters _ _ _ _ hr ih =>
    exact ih.of_run (congrArg left hr)

theorem Registered.sound {δ τ : Type} [Register δ τ] {w : World} {d : δ} (h : Registered w d) :
    w.Sound := h.authored.sound

/-- What the calls that put nodes into lists, and those that give elements their nodes, make of a
draft. Once a condition or a menu has its node, nothing is added to it. -/
inductive Draft.Enters (w : World) (d : Draft) : Call → List NodeId → Draft → Prop
  | scene {e : ElementId} {lists : List (List NodeId)} {n : NodeId} {ts free : List Tree}
      (hl : lists.flatten = nodes ts) (hf : d.free.Perm (ts ++ free)) :
      Enters w d (.sceneAction e lists) [n] { d with free := .mk n .scene [ts] :: free }
  | listed {c : Call} {s : Slot} {known : List NodeId} {ts free : List Tree}
      (hc : c.list? = some (s, nodes ts)) (hs : s.element ∉ d.wrapped)
      (hf : d.free.Perm (ts ++ free)) :
      Enters w d c known { d with free, rows := d.rows ++ [(s, ts)] }
  | script {e : ElementId} {s : Script} {n : NodeId} (he : w.elements.get? e = some (.script s)) :
      Enters w d (.toAction .script e) [n] { d with free := .mk n (.script e s.handler) [] :: d.free }
  | condition {e : ElementId} {c : Condition} {n : NodeId} (hw : e ∉ d.wrapped)
      (he : w.elements.get? e = some (.condition c)) :
      Enters w d (.toAction .condition e) [n]
        (d.wrap e n (.condition (c.branches.map (·.predicate))))
  | menu {e : ElementId} {m : Menu} {n : NodeId} (hw : e ∉ d.wrapped)
      (he : w.elements.get? e = some (.menu m)) :
      Enters w d (.toAction .menu e) [n] (d.wrap e n .menu)

instance : Register Draft Tree where
  empty := {}
  free := Draft.free
  setFree d free := { d with free }
  nodes := nodes
  statement n := .mk n .statement []
  Enters := Draft.Enters

/-- **Worlds that are written as trees.** -/
abbrev Drafted : World → Draft → Prop := Registered

/-! ### Forests in a world that is being written -/

/-- Shapes that no later call changes. -/
def Shape.IsFixed : Shape → Prop
  | plain _ | script _ => True
  | story _ | condition .. | menu _ => False

namespace World

variable {w w' : World} {F F' : List (List Tree)} {wrapped wrapped' : List ElementId}
  {ns : List NodeId} {ts : List Tree} {rs : List (List Tree)} {a : Action} {role : Role}
  {chains : List (Option Chain)}

/-- What elements are does not change where trees rely on it. -/
def Faithful (wrapped : List ElementId) (w w' : World) : Prop :=
  ∀ e s, w.shape? e = some s → e ∈ wrapped ∨ s.IsFixed → w'.shape? e = some s

theorem faithful_of_eq (h : w'.shape? = w.shape?) : Faithful wrapped w w' := by
  intro e s he _
  rw [h, he]

theorem Faithful.actsAs (h : Faithful wrapped w w')
    (hw : a.kind = .condition ∨ a.kind = .menu → a.callee ∈ wrapped) (hf : ActsAs w a chains role) :
    ActsAs w' a chains role := by
  have hsame : ∃ s, w.shape? a.callee = some s ∧ w'.shape? a.callee = some s := by
    cases role with
    | statement =>
      obtain ⟨-, kind, -, hs⟩ := hf
      exact ⟨_, hs, h _ _ hs (.inr trivial)⟩
    | script e handler =>
      obtain ⟨-, -, rfl, hs⟩ := hf
      exact ⟨_, hs, h _ _ hs (.inr trivial)⟩
    | scene =>
      obtain ⟨chain, -, -, hs⟩ := hf
      exact ⟨_, hs, h _ _ hs (.inr trivial)⟩
    | condition tests =>
      obtain ⟨hk, branches, fallback, -, hs⟩ := hf
      exact ⟨_, hs, h _ _ hs (.inl (hw (.inl hk)))⟩
    | menu =>
      obtain ⟨hk, hs⟩ := hf
      exact ⟨_, hs, h _ _ hs (.inl (hw (.inr hk)))⟩
  obtain ⟨s, hs, hs'⟩ := hsame
  exact hf.congr (hs'.trans hs.symm)

/-- A forest is laid out in a world, all of its trees stand, and the conditions and menus among them
are wrapped. -/
structure Bears (w : World) (F : List (List Tree)) (wrapped : List ElementId) : Prop where
  rowsLinked : RowsLinked F w.graph
  stands : ∀ t ∈ within F.flatten, t.Stands w
  wrapped : ∀ t ∈ within F.flatten, ∀ a, w.action? t.node = some a →
    a.kind = .condition ∨ a.kind = .menu → a.callee ∈ wrapped

namespace Bears

theorem subperm (h : w.Bears F wrapped) (hs : F'.Subperm F) : w.Bears F' wrapped := by
  obtain ⟨G, hperm, hsub⟩ := hs
  have hwithin : within F'.flatten ⊆ within F.flatten := within_subset fun t ht =>
    hsub.flatten.subset (hperm.flatten.mem_iff.2 ht)
  exact ⟨h.rowsLinked.subperm ⟨G, hperm, hsub⟩, fun t ht => h.stands t (hwithin ht),
    fun t ht => h.wrapped t (hwithin ht)⟩

theorem mono (h : w.Bears F wrapped) (hw : wrapped ⊆ wrapped') : w.Bears F wrapped' :=
  ⟨h.rowsLinked, h.stands, fun t ht a ha hk => hw (h.wrapped t ht a ha hk)⟩

/-- The actions of a forest stay when the graph gets more nodes. -/
theorem action?_eq (h : w.Bears F wrapped) (hg : w.graph.Extended ns w'.graph) {t : Tree}
    (ht : t ∈ within F.flatten) : w'.action? t.node = w.action? t.node :=
  hg.content? (h.rowsLinked.movable t ht).1

theorem stands_of (h : w.Bears F wrapped) (hg : w.graph.Extended ns w'.graph)
    (hs : Faithful wrapped w w') : (∀ t ∈ within F.flatten, t.Stands w') ∧
      ∀ t ∈ within F.flatten, ∀ a, w'.action? t.node = some a →
        a.kind = .condition ∨ a.kind = .menu → a.callee ∈ wrapped := by
  refine ⟨fun t ht => ?_, fun t ht a ha => h.wrapped t ht a ((h.action?_eq hg ht).symm.trans ha)⟩
  obtain ⟨a, ha, hf⟩ := h.stands t ht
  exact ⟨a, (h.action?_eq hg ht).trans ha, hs.actsAs (h.wrapped t ht a ha) hf⟩

theorem extend (h : w.Bears F wrapped) (hg : w.graph.Extended ns w'.graph)
    (hs : Faithful wrapped w w') (hns : ∀ t ∈ within F.flatten, t.node ∉ ns) :
    w'.Bears F wrapped := by
  obtain ⟨hstands, hwrapped⟩ := h.stands_of hg hs
  exact ⟨h.rowsLinked.extend hg hns, hstands, hwrapped⟩

theorem link (h : w.Bears (ts.map ([·]) ++ F) wrapped) (hg : w.graph.Extended (nodes ts) w'.graph)
    (hlinks : ∀ a k, (a, k) ∈ links (nodes ts) none → w'.graph.child? a = k)
    (hs : Faithful wrapped w w') : w'.Bears (ts :: F) wrapped := by
  obtain ⟨hstands, hwrapped⟩ := h.stands_of hg hs
  have hflat : (ts :: F).flatten = (ts.map ([·]) ++ F).flatten := (flatten_singles ts F).symm
  refine ⟨h.rowsLinked.link hg hlinks, ?_, ?_⟩
  · rw [hflat]
    exact hstands
  · rw [hflat]
    exact hwrapped

theorem wrap (h : w.Bears (rs ++ F) wrapped) (ha : w.action? a.node = some a)
    (hf : ActsAs w a (rs.map chain) role) (hm : w.graph.Movable a.node)
    (hc : w.graph.child? a.node = none)
    (hnew : ∀ t ∈ within (rs ++ F).flatten, t.node ≠ a.node)
    (hw : a.kind = .condition ∨ a.kind = .menu → a.callee ∈ wrapped) :
    w.Bears ([.mk a.node role rs] :: F) wrapped := by
  have hwithin := within_wrap a.node role rs F
  refine ⟨h.rowsLinked.wrap hm hc hnew, fun t ht => ?_, fun t ht b hb hk => ?_⟩
  · rw [hwithin] at ht
    rcases List.mem_cons.1 ht with rfl | ht
    · exact ⟨a, ha, hf⟩
    · exact h.stands t ht
  · rw [hwithin] at ht
    rcases List.mem_cons.1 ht with rfl | ht
    · obtain rfl := Option.some_inj.1 (ha.symm.trans hb)
      exact hw hk
    · exact h.wrapped t ht b hb hk

end Bears

end World

end Storyline
