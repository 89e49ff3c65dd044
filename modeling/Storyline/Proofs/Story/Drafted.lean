import Mathlib.Data.List.Perm.Subperm
import Storyline.Proofs.Story.Called

/-!
# Worlds that are written as trees carry these

* `Draft.Matches d e shape`: an element holds the chains of the rows in its lists;
* `World.Holds w d`: the invariant of writing: a world bears all trees that were written, and its
  elements match the rows in their lists;
* `Holds.aside`, `Holds.spent`, `Holds.gains`, `Holds.scene`, `Holds.listed`, `Holds.wrap`,
  `Holds.setRoot`: what each kind of call keeps of that;
* `Drafted.holds`, `Drafted.carries`: every world that is written as trees carries these.
-/

namespace Storyline

open Effect Storyline.Tree World

namespace Draft

variable {d : Draft} {e : ElementId} {s : Slot} {ts free : List Tree}

/-- An element holds the chains of the rows in its lists, up to when it gets its node. -/
def Matches (d : Draft) (e : ElementId) : Option Shape → Prop
  | none => ∀ s : Slot, s.element = e → d.rowsAt s = []
  | some (.story units) => units = nodes (d.units e)
  | some (.condition _ chains fallback) => e ∉ d.wrapped →
      chains = (d.rowsAt (.branch e)).map chain ∧
        fallback.toList = (d.rowsAt (.otherwise e)).map chain
  | some (.menu chains) => e ∉ d.wrapped →
      chains = (d.rowsAt (.branch e)).map chain ∧ d.rowsAt (.otherwise e) = []
  | some (.plain _) | some (.script _) => True

theorem rowsAt_listed (d : Draft) (s s' : Slot) (ts free : List Tree) :
    ({ d with free, rows := d.rows ++ [(s, ts)] } : Draft).rowsAt s' =
      if s = s' then d.rowsAt s' ++ [ts] else d.rowsAt s' := by
  unfold rowsAt
  rw [List.filter_append, List.map_append]
  by_cases h : s = s'
  · simp [h]
  · simp [h]

theorem rowsAt_wrap (d : Draft) (e : ElementId) (n : NodeId) (role : Role) (s : Slot) :
    (d.wrap e n role).rowsAt s = if s = .branch e ∨ s = .otherwise e then [] else d.rowsAt s := by
  unfold rowsAt wrap
  rw [List.filter_filter]
  split
  · rename_i h
    rw [List.map_eq_nil_iff, List.filter_eq_nil_iff]
    rintro r -
    rcases h with rfl | rfl <;> simp +contextual
  · rename_i h
    congr 1
    refine List.filter_congr fun r _ => ?_
    by_cases hr : r.1 = s
    · rw [not_or] at h
      simp [hr, h]
    · simp [hr]

/-- What an element matches depends on the rows in its own lists only. -/
theorem Matches.congr {d' : Draft} {shape : Option Shape} (h : d.Matches e shape)
    (hnone : ∀ s : Slot, s.element = e → d.rowsAt s = [] → d'.rowsAt s = [])
    (hunit : d'.rowsAt (.unit e) = d.rowsAt (.unit e))
    (hrows : e ∉ d'.wrapped → e ∉ d.wrapped ∧ d'.rowsAt (.branch e) = d.rowsAt (.branch e) ∧
      d'.rowsAt (.otherwise e) = d.rowsAt (.otherwise e)) : d'.Matches e shape := by
  cases shape with
  | none => exact fun s hs => hnone s hs (h s hs)
  | some shape =>
    cases shape with
    | plain k => trivial
    | script handler => trivial
    | story units =>
      show _ = nodes (List.flatten _)
      rw [hunit]
      exact h
    | condition tests chains fallback =>
      intro hw
      obtain ⟨hw', hb, ho⟩ := hrows hw
      rw [hb, ho]
      exact h hw'
    | menu chains =>
      intro hw
      obtain ⟨hw', hb, ho⟩ := hrows hw
      rw [hb, ho]
      exact h hw'

theorem Matches.new {shape : Shape} (h : d.Matches e none) (hn : shape.IsNew) :
    d.Matches e (some shape) := by
  have hb := h (.branch e) rfl
  have ho := h (.otherwise e) rfl
  have hu := h (.unit e) rfl
  unfold Shape.IsNew at hn
  split at hn
  · trivial
  · trivial
  · show _ = nodes (List.flatten _)
    rw [hu]
    rfl
  · intro _
    rw [hb, ho]
    exact ⟨rfl, rfl⟩
  · intro _
    rw [hb, ho]
    exact ⟨rfl, rfl⟩
  · cases hn

theorem Matches.adds {old new : Shape} (h : d.Matches e (some old)) (he : s.element = e)
    (ha : Adds (nodes ts) s old new) :
    ({ d with free, rows := d.rows ++ [(s, ts)] } : Draft).Matches e (some new) := by
  -- the new row goes behind those of its own slot
  cases ha with
  | @branch e' =>
    obtain rfl : e' = e := he
    intro hw
    obtain ⟨hb, ho⟩ := h hw
    rw [rowsAt_listed, rowsAt_listed, if_pos rfl, if_neg (by simp), List.map_append, hb, ho]
    exact ⟨rfl, rfl⟩
  | @entry e' =>
    obtain rfl : e' = e := he
    intro hw
    obtain ⟨hb, ho⟩ := h hw
    rw [rowsAt_listed, rowsAt_listed, if_pos rfl, if_neg (by simp), List.map_append, hb, ho]
    exact ⟨rfl, rfl⟩
  | @otherwise e' =>
    obtain rfl : e' = e := he
    intro hw
    obtain ⟨hb, ho⟩ := h hw
    rw [rowsAt_listed, rowsAt_listed, if_pos rfl, if_neg (by simp), List.map_append, ← hb, ← ho]
    exact ⟨rfl, rfl⟩
  | @unit e' units =>
    obtain rfl : e' = e := he
    have hu : units = nodes (d.units e') := h
    show _ = nodes (List.flatten _)
    rw [rowsAt_listed, if_pos rfl, List.flatten_append, hu]
    simp [nodes, Draft.units]

theorem Matches.other {shape : Option Shape} (h : d.Matches e shape) (hs : s.element ≠ e) :
    ({ d with free, rows := d.rows ++ [(s, ts)] } : Draft).Matches e shape := by
  have hrows : ∀ s' : Slot, s'.element = e →
      ({ d with free, rows := d.rows ++ [(s, ts)] } : Draft).rowsAt s' = d.rowsAt s' := by
    intro s' hs'
    rw [rowsAt_listed, if_neg]
    rintro rfl
    exact hs hs'
  exact h.congr (fun s' hs' hnil => (hrows s' hs').trans hnil) (hrows _ rfl)
    fun hw => ⟨hw, hrows _ rfl, hrows _ rfl⟩

theorem Matches.wrap {shape : Option Shape} (h : d.Matches e shape) (e' : ElementId) (n : NodeId)
    (role : Role) : (d.wrap e' n role).Matches e shape := by
  refine h.congr (fun s _ hnil => ?_) ?_ fun hw => ?_
  · rw [rowsAt_wrap, hnil]
    split <;> rfl
  · rw [rowsAt_wrap, if_neg (by simp)]
  · obtain ⟨he, hw'⟩ := not_or.1 (mt List.mem_cons.2 hw)
    refine ⟨hw', ?_, ?_⟩
    · rw [rowsAt_wrap, if_neg (by simp [he])]
    · rw [rowsAt_wrap, if_neg (by simp [he])]

/-! ### The forest -/

theorem perm_forest (hf : d.free.Perm (ts ++ free)) :
    d.forest.Perm (ts.map ([·]) ++ ({ d with free } : Draft).forest) := by
  have hmap := (hf.map fun t => [t]).append_right (d.rows.map (·.2))
  rw [List.map_append, List.append_assoc] at hmap
  exact hmap

theorem perm_forest_listed (d : Draft) (s : Slot) (ts free : List Tree) :
    (ts :: ({ d with free } : Draft).forest).Perm
      ({ d with free, rows := d.rows ++ [(s, ts)] } : Draft).forest := by
  unfold forest
  rw [List.map_append, ← List.append_assoc]
  exact (List.perm_append_singleton ts _).symm

/-- The rows of a condition or a menu may be set apart from the others. -/
theorem perm_rows (d : Draft) (e : ElementId) :
    (d.rows.map (·.2)).Perm (d.rowsAt (.branch e) ++ d.rowsAt (.otherwise e) ++
      (d.rows.filter fun r => r.1 ≠ .branch e ∧ r.1 ≠ .otherwise e).map (·.2)) := by
  have hsplit := List.filter_append_perm (fun r : Slot × List Tree => decide (r.1 = .branch e)) d.rows
  have hrest := List.filter_append_perm (fun r : Slot × List Tree => decide (r.1 = .otherwise e))
    (d.rows.filter fun r => !decide (r.1 = .branch e))
  have hother : (d.rows.filter fun r => !decide (r.1 = .branch e)).filter
      (fun r => decide (r.1 = .otherwise e)) = d.rows.filter fun r => r.1 = .otherwise e := by
    rw [List.filter_filter]
    refine List.filter_congr fun r _ => ?_
    by_cases hr : r.1 = .otherwise e <;> simp [hr]
  have hneither : (d.rows.filter fun r => !decide (r.1 = .branch e)).filter
      (fun r => !decide (r.1 = .otherwise e)) =
        d.rows.filter fun r => r.1 ≠ .branch e ∧ r.1 ≠ .otherwise e := by
    rw [List.filter_filter]
    refine List.filter_congr fun r _ => ?_
    by_cases hb : r.1 = .branch e <;> by_cases ho : r.1 = .otherwise e <;> simp [hb, ho]
  rw [hother, hneither] at hrest
  have hall := (hsplit.symm.trans (hrest.symm.append_left _)).map (·.2)
  rw [List.map_append, List.map_append, ← List.append_assoc] at hall
  exact hall

theorem perm_forest_wrap (d : Draft) (e : ElementId) (n : NodeId) (role : Role) :
    ∃ F, d.forest.Perm (d.rowsAt (.branch e) ++ d.rowsAt (.otherwise e) ++ F) ∧
      (d.wrap e n role).forest =
        [.mk n role (d.rowsAt (.branch e) ++ d.rowsAt (.otherwise e))] :: F := by
  refine ⟨d.free.map ([·]) ++
    (d.rows.filter fun r => r.1 ≠ .branch e ∧ r.1 ≠ .otherwise e).map (·.2), ?_, rfl⟩
  exact ((d.perm_rows e).append_left (d.free.map ([·]))).trans (List.perm_append_comm_assoc ..)

end Draft

theorem Tree.RowsLinked.rewired {γ : Type} {F : List (List Tree)} {g g' : Graph γ} {id : NodeId}
    {c? : Option NodeId} (h : RowsLinked F g) (hr : g.Rewired id c? g')
    (hid : ∀ t ∈ within F.flatten, t.node ≠ id)
    (hc : ∀ c, c? = some c → ∃ r ∈ F, (nodes r).head? = some c) : RowsLinked F g' := by
  have hw := h.inSequence.rewired hr hid hc
  have hres : ∀ a : NodeId, g'.resumes[a]? = none := fun a => by
    rw [hr.resumes]
    exact h.resumes a
  refine ⟨h.distinct, hw.movable, fun r hmem a k hl => ?_, hres⟩
  rcases links_cases hl with ⟨b, -, rfl, hl'⟩ | ⟨rfl, -, -⟩
  · exact hw.follows a b ⟨r, hmem, hl'⟩ (hres a)
  · obtain ⟨t, ht, rfl⟩ := exists_of_mem_row hmem (mem_of_links hl)
    exact hr.child?_none (hid t ht) (h.linked r hmem t.node none hl)

namespace World

variable {w w' w₁ : World} {d : Draft} {F : List (List Tree)} {wrapped : List ElementId}
  {a : Action} {e : ElementId} {rs : List (List Tree)} {role : Role} {ts free : List Tree}
  {s : Slot}

theorem Bears.gains (h : w.Bears (rs ++ F) wrapped) (hs : w.Sized) (hg : Gains w w' a)
    (hf : ActsAs w a (rs.map chain) role)
    (hw : a.kind = .condition ∨ a.kind = .menu → a.callee ∈ wrapped) :
    w'.Bears ([.mk a.node role rs] :: F) wrapped := by
  have hextend := h.extend hg.graph (faithful_of_eq hg.shape?) fun _ _ => List.not_mem_nil
  refine hextend.wrap hg.action? (hf.congr (by rw [hg.shape?])) hg.movable hg.child?
    (fun t ht heq => ?_) hw
  have hold := hs.nodes t.node (h.rowsLinked.movable t ht).1
  have hnew : t.node.val = w.ids.next := congrArg NodeId.val (heq.trans hg.node)
  omega

/-- **The invariant of writing.** -/
structure Holds (w : World) (d : Draft) : Prop where
  sized : w.Sized
  bears : w.Bears d.forest d.wrapped
  lists : ∀ e, d.Matches e (w.shape? e)

namespace Holds

theorem aside (h : w.Holds d) (ha : Aside w w') : w'.Holds d := by
  refine ⟨ha.sized, h.bears.extend ha.graph (fun e s he _ => ha.kept e s he)
    fun _ _ => List.not_mem_nil, fun e => ?_⟩
  have hlists := h.lists e
  cases he : w.shape? e with
  | some s =>
    rw [he] at hlists
    rw [ha.kept e s he]
    exact hlists
  | none =>
    rw [he] at hlists
    cases he' : w'.shape? e with
    | none => exact hlists
    | some s => exact hlists.new (ha.new e s he he')

theorem parted (h : w.Holds d) (hf : d.free.Perm (ts ++ free)) :
    w.Bears (ts.map ([·]) ++ ({ d with free } : Draft).forest) d.wrapped :=
  h.bears.subperm (Draft.perm_forest hf).symm.subperm

theorem linkable (h : w.Holds d) (hf : d.free.Perm (ts ++ free)) : w.Linkable (nodes ts) :=
  linkable_of_rowsLinked (h.parted hf).rowsLinked

theorem spent (h : w.Holds d) (hf : d.free.Perm (ts ++ free))
    (hsp : Spent (nodes ts) w w') : w'.Holds { d with free } := by
  have hrest : w.Bears ({ d with free } : Draft).forest d.wrapped :=
    (h.parted hf).subperm (List.sublist_append_right _ _).subperm
  rcases hsp with rfl | ⟨hl, hshape⟩
  · exact ⟨h.sized, hrest, h.lists⟩
  · refine ⟨h.sized.linked hl fun e s he => ⟨s, by rw [← hshape, he]⟩,
      hrest.extend hl.graph (faithful_of_eq hshape) (apart_of_rowsLinked (h.parted hf).rowsLinked),
      fun e => ?_⟩
    rw [hshape]
    exact h.lists e

theorem gains (h : w.Holds d) (hg : Gains w w' a) (hf : ActsAs w a [] role)
    (hk : a.kind ≠ .condition ∧ a.kind ≠ .menu) :
    w'.Holds { d with free := .mk a.node role [] :: d.free } := by
  refine ⟨h.sized.gains hg, @Bears.gains _ _ _ _ _ [] _ h.bears h.sized hg hf ?_, fun e => ?_⟩
  · rintro (hc | hm)
    · exact absurd hc hk.1
    · exact absurd hm hk.2
  · rw [hg.shape?]
    exact h.lists e

theorem scene (h : w.Holds d) (hf : d.free.Perm (ts ++ free))
    (hl : Linked (nodes ts) w w₁) (hshape : w₁.shape? = w.shape?) (hg : Gains w₁ w' a)
    (hk : a.kind = .scene (chain ts)) (he : w.shape? a.callee = some (.plain .scene)) :
    w'.Holds { d with free := .mk a.node .scene [ts] :: free } := by
  have hs₁ : w₁.Sized := h.sized.linked hl fun e s he => ⟨s, by rw [← hshape, he]⟩
  have hlink := (h.parted hf).link hl.graph hl.links (faithful_of_eq hshape)
  refine ⟨hs₁.gains hg, @Bears.gains _ _ _ _ _ [ts] _ hlink hs₁ hg ?_ ?_, fun e => ?_⟩
  · exact ⟨chain ts, rfl, hk, by rw [hshape, he]⟩
  · rw [hk]
    rintro (hc | hm) <;> contradiction
  · rw [hg.shape?, hshape]
    exact h.lists e

theorem listed (h : w.Holds d) (hf : d.free.Perm (ts ++ free))
    (hw : s.element ∉ d.wrapped) (hl : Listed s (nodes ts) w w') :
    w'.Holds { d with free, rows := d.rows ++ [(s, ts)] } := by
  obtain ⟨old, new, hold, hadds, hshape⟩ := hl.shape?
  have hfaithful : Faithful d.wrapped w w' := by
    intro e z he hfix
    rw [hshape, if_neg, he]
    rintro rfl
    obtain rfl := Option.some_inj.1 (hold.symm.trans he)
    rcases hfix with hfix | hfix
    · exact hw hfix
    · cases hadds <;> exact hfix
  have hlink := (h.parted hf).link hl.graph hl.links hfaithful
  refine ⟨hl.sized, hlink.subperm (d.perm_forest_listed s ts free).symm.subperm, fun e => ?_⟩
  have hlists := h.lists e
  rw [hshape]
  split
  · rename_i he
    subst e
    rw [hold] at hlists
    exact hlists.adds rfl hadds
  · exact hlists.other ‹_›

theorem wrap (h : w.Holds d) (hg : Gains w w' a)
    (hf : ActsAs w a ((d.rowsAt (.branch a.callee) ++ d.rowsAt (.otherwise a.callee)).map chain) role) :
    w'.Holds (d.wrap a.callee a.node role) := by
  obtain ⟨F, hperm, hforest⟩ := d.perm_forest_wrap a.callee a.node role
  have hbears := (h.bears.subperm hperm.symm.subperm).mono (List.subset_cons_self a.callee d.wrapped)
  refine ⟨h.sized.gains hg, ?_, fun e => ?_⟩
  · rw [hforest]
    exact hbears.gains h.sized hg hf fun _ => List.mem_cons_self
  · rw [hg.shape?]
    exact (h.lists e).wrap a.callee a.node role

theorem units_eq (h : w.Holds d) {units : List NodeId} (he : w.shape? e = some (.story units)) :
    units = nodes (d.units e) := by
  have hlists := h.lists e
  rw [he] at hlists
  exact hlists

theorem head_unit (h : w.Holds d) {units : List NodeId} (he : w.shape? e = some (.story units))
    {c : NodeId} (hc : units.head? = some c) : ∃ r ∈ d.forest, (nodes r).head? = some c := by
  rw [h.units_eq he] at hc
  obtain ⟨r, hr, hrc⟩ := head?_flatten hc
  obtain ⟨p, hp, rfl⟩ := List.mem_map.1 hr
  exact ⟨p.2, List.mem_append_right _ (List.mem_map.2 ⟨p, (List.mem_filter.1 hp).1, rfl⟩), hrc⟩

theorem setRoot (h : w.Holds d) (e : ElementId) :
    (left ((Call.setRoot e).run w)).Holds d := by
  have hne := h.sized.ne_root h.bears.rowsLinked
  rcases Call.left_setRoot h.sized h.bears.rowsLinked (fun units c he hc => h.head_unit he hc) with
    hleft | ⟨units, g, he, hg, hleft⟩
  · rw [hleft]
    exact h
  · have hr := Graph.rewired_of_setChild hg
    rw [hleft]
    refine ⟨h.sized.rewired hr, ⟨h.bears.rowsLinked.rewired hr hne fun c hc => h.head_unit he hc,
      fun t ht => ?_, fun t ht b hb => ?_⟩, h.lists⟩
    · obtain ⟨b, hb, hf⟩ := h.bears.stands t ht
      exact ⟨b, (hr.content? t.node).trans hb, hf.congr rfl⟩
    · exact h.bears.wrapped t ht b ((hr.content? t.node).symm.trans hb)

theorem enters {d' : Draft} {c : Call} {known : List NodeId} (ih : w.Holds d) (hw : w.Sound)
    (he : d.Enters w c known d') (hr : c.run w = .ok known w') : w'.Holds d' := by
  cases he with
  | @scene e lists n ts free hl hf =>
    have hlinkable := ih.linkable hf
    rw [← hl] at hlinkable
    rcases Call.scene_run (e := e) ih.sized hw hlinkable with
      ⟨err, hr'⟩ | ⟨w₁, w₂, hr', hlinked, hshape, hg, he⟩
    · cases hr'.symm.trans hr
    · obtain ⟨hn, rfl⟩ := EStateM.Result.ok.inj (hr'.symm.trans hr)
      obtain ⟨rfl, -⟩ := List.cons.inj hn
      rw [hl] at hlinked hg
      exact ih.scene hf hlinked hshape hg rfl he
  | listed hc hs hf =>
    rcases Call.list_run ih.sized hw hc (ih.linkable hf) with
      ⟨err, w₁, hr', -⟩ | ⟨known, w₁, hr', hlisted⟩
    · cases hr'.symm.trans hr
    · obtain ⟨-, rfl⟩ := EStateM.Result.ok.inj (hr'.symm.trans hr)
      exact ih.listed hf hs hlisted
  | @script e s n he =>
    obtain ⟨rfl, hg⟩ := Call.toAction_eq_ok ih.sized rfl hr
    refine ih.gains hg ⟨rfl, rfl, rfl, shape?_of_get? he⟩ ⟨?_, ?_⟩ <;> nofun
  | @condition e c n hwrapped he =>
    obtain ⟨rfl, hg⟩ := Call.toAction_eq_ok ih.sized rfl hr
    have hlists := ih.lists e
    rw [shape?_of_get? he] at hlists
    obtain ⟨hb, ho⟩ := hlists hwrapped
    refine ih.wrap hg ⟨rfl, _, _, ?_, shape?_of_get? he⟩
    rw [List.map_append, hb, ho]
  | @menu e m n hwrapped he =>
    obtain ⟨rfl, hg⟩ := Call.toAction_eq_ok ih.sized rfl hr
    have hlists := ih.lists e
    rw [shape?_of_get? he] at hlists
    obtain ⟨hb, ho⟩ := hlists hwrapped
    refine ih.wrap hg ⟨rfl, ?_⟩
    rw [ho, List.append_nil, ← hb]
    exact shape?_of_get? he

theorem new : World.new.Holds {} :=
  ⟨.new, ⟨⟨.nil, nofun, nofun, fun _ => rfl⟩, nofun, nofun⟩, fun _ _ _ => rfl⟩

end Holds

end World

/-! ### Writing -/

namespace Drafted

variable {w : World} {d : Draft} {e : ElementId} {units : List NodeId}

/-- **The invariant of writing** holds of every world that is written as trees. -/
theorem holds (h : Drafted w d) : w.Holds d := by
  induction h with
  | new => exact .new
  | @plain w d h c hc ih =>
    by_cases hroot : ∃ e, c = .setRoot e
    · obtain ⟨e, rfl⟩ := hroot
      exact ih.setRoot e
    · exact ih.aside (Call.plain_run ih.sized h.sound hc fun e he => hroot ⟨e, he⟩)
  | fails h hc hf hr ih =>
    exact ih.spent hf (Call.fails_run ih.sized h.sound hc (ih.linkable hf) hr)
  | @append w w' d h e kind known hk hr ih =>
    rcases Call.append_run (e := e) ih.sized h.sound hk with ⟨err, hr'⟩ | ⟨w₁, hr', hg, k, hk', he⟩
    · cases hr'.symm.trans hr
    · obtain ⟨-, rfl⟩ := EStateM.Result.ok.inj (hr'.symm.trans hr)
      refine ih.gains hg ⟨rfl, k, hk', he⟩ ⟨?_, ?_⟩
      · rintro rfl
        cases hk'
      · rintro rfl
        cases hk'
  | enters h c known he hr ih => exact ih.enters h.sound he hr

/-- **A world that is written as trees** carries these. -/
theorem carries (h : Drafted w d) : w.Carries d.forest where
  sound := h.sound
  inSequence := h.holds.bears.rowsLinked.inSequence
  stands := h.holds.bears.stands
  root := h.holds.sized.root
  stories e units he := by
    refine ⟨d.rowsAt (.unit e), ?_, h.holds.units_eq he⟩
    exact (List.filter_sublist.map _).trans (List.sublist_append_right _ _)

end Drafted

end Storyline
