import Mathlib.Data.List.DropRight
import Storyline.Proofs.World.Stint

/-!
# What each chain of an author is answered

Actions are gathered by the element that they are appended for, from one chain to the next. A chain
that fails leaves what it has appended to the next chain that does not.

* `World.Session es w`: a world that chains have written, among other calls and turns of play, with
  an entry for each chain;
* `Session.gathered`: an element has gathered what is owed for it;
* `Session.takes_owed`: **a chain takes what is owed for its element and then its own actions**.
-/

namespace Storyline

open Effect

/-! ### Entries -/

/-- A chain of calls and the world that it was begun in. -/
structure Entry where
  world : World
  stint : Stint

namespace Entry

/-- The world that the chain left. -/
def after (E : Entry) : World := left (E.stint.run E.world)

/-- The actions that the chain has appended. -/
def appended (E : Entry) : List Action := E.world.newActions E.after

/-- The nodes of the actions that the chain has appended. -/
def nodes (E : Entry) : List NodeId := E.appended.map (·.node)

/-- What the chain has taken, unless it failed. -/
def taken? (E : Entry) : Option (List NodeId) := answer? (E.stint.run E.world)

def taken (E : Entry) : List NodeId := E.taken?.getD []

end Entry

/-- The entries of the chains for an element. -/
def entriesOf (e : ElementId) (es : List Entry) : List Entry := es.filter (·.stint.element = e)

/-- The failed chains for an element since one of them was the last to take. -/
def failedSince (e : ElementId) (es : List Entry) : List Entry :=
  (entriesOf e es).rtakeWhile fun E => E.taken?.isNone

/-- What the failed chains for an element have appended since one was the last to take. -/
def owed (e : ElementId) (es : List Entry) : List NodeId := (failedSince e es).flatMap Entry.nodes

/-- A world that chains have written, among other calls and turns of play. -/
inductive World.Session : List Entry → World → Prop
  | new : Session [] World.new
  | stint {es : List Entry} {w : World} (h : Session es w) (s : Stint) :
      Session (es ++ [⟨w, s⟩]) (left (s.run w))
  | call {es : List Entry} {w : World} (h : Session es w) {c : Call} (hc : c.Elsewhere) :
      Session es (left (c.run w))
  | turn {es : List Entry} {w w' : World} (h : Session es w) (ht : w.Turn w') : Session es w'

/-! ### One more entry -/

section

variable {e : ElementId} {es earlier rest : List Entry} {E : Entry} {w : World}

theorem entriesOf_concat (e : ElementId) (es : List Entry) (E : Entry) :
    entriesOf e (es ++ [E]) = entriesOf e es ++ if E.stint.element = e then [E] else [] := by
  unfold entriesOf
  rw [List.filter_append, List.filter_singleton]
  by_cases h : E.stint.element = e
  · rw [if_pos h, decide_eq_true h]
    rfl
  · rw [if_neg h, decide_eq_false h]
    rfl

/-- A chain that takes settles what is owed for its element; one that fails adds to it. -/
theorem owed_concat (e : ElementId) (es : List Entry) (E : Entry) :
    owed e (es ++ [E]) =
      if E.stint.element = e then if E.taken?.isSome then [] else owed e es ++ E.nodes
      else owed e es := by
  unfold owed failedSince
  rw [entriesOf_concat]
  split
  · cases hE : E.taken? with
    | none =>
      rw [List.rtakeWhile_concat_pos _ _ _ (by rw [hE]; rfl), List.flatMap_append]
      simp
    | some nodes =>
      rw [List.rtakeWhile_concat_neg _ _ _ (by rw [hE]; exact Bool.false_ne_true)]
      rfl
  · rw [List.append_nil]

namespace World.Session

theorem prior (h : Session es w) (he : es = earlier ++ E :: rest) : Session earlier E.world := by
  induction h generalizing rest with
  | new => cases earlier <;> cases he
  | @stint es w h s ih =>
    rcases List.eq_nil_or_concat rest with rfl | ⟨rest, F, rfl⟩
    · obtain ⟨rfl, hE⟩ := List.append_inj' he rfl
      obtain rfl := (List.cons.inj hE).1
      exact h
    · have he' : es ++ [⟨w, s⟩] = (earlier ++ E :: rest) ++ [F] := by simpa using he
      exact ih (List.append_inj' he' rfl).1
  | call h hc ih => exact ih he
  | turn h ht ih => exact ih he

/-! ### Books -/

theorem sound_ledger (h : Session es w) : w.Sound ∧ ∃ use, w.Ledger use := by
  have hstroke : ∀ {c : Call} {start : Graph Action} {w w' : World}, c.Stroke start w w' →
      (w.Sound ∧ ∃ use, w.Ledger use) → w'.Sound ∧ ∃ use, w'.Ledger use :=
    fun hs ⟨hw, _, hl⟩ => ⟨hw.stroke hs, hl.stroke hs hw⟩
  induction h with
  | new => exact ⟨Authored.new.sound, _, .new⟩
  | stint h s ih =>
    obtain ⟨hw, use, hl⟩ := ih
    exact kept_of_steps (P := fun w : World => w.Sound ∧ ∃ use, w.Ledger use)
      (s.ran hw hl.ahead).strokes (fun _ _ ⟨_, _, hs⟩ h => hstroke hs h) ⟨hw, use, hl⟩
  | @call es w h c hc ih =>
    exact kept_of_steps (P := fun w : World => w.Sound ∧ ∃ use, w.Ledger use) (c.strokes w)
      (fun _ _ hs h => hstroke hs h) ih
  | turn h ht ih =>
    obtain ⟨hw, use, hl⟩ := ih
    exact ⟨(ht.keeps hw).sound hw, hl.turn ht hw⟩

theorem ran (h : Session es w) (s : Stint) :
    Build.Ran s.run w s.element (s.appends w) (s.succeeds w) := by
  obtain ⟨hw, use, hl⟩ := h.sound_ledger
  exact s.ran hw hl.ahead

theorem nodes_eq (h : Session es w) (s : Stint) :
    (⟨w, s⟩ : Entry).nodes = w.newNodes (left (s.run w)) := (h.ran s).nodes

theorem isSome_taken? (h : Session es w) (s : Stint) :
    (⟨w, s⟩ : Entry).taken?.isSome = s.succeeds w := by
  unfold Entry.taken?
  rw [(h.ran s).answer]
  cases s.succeeds w <;> rfl

/-- **An element has gathered what is owed for it.** -/
theorem gathered (h : Session es w) (e : ElementId) : w.gathered e = owed e es := by
  induction h with
  | new => rfl
  | @stint es w h s ih =>
    rw [(h.ran s).gathered, owed_concat, h.isSome_taken?, h.nodes_eq]
    by_cases he : e = s.element
    · subst he
      rw [if_pos rfl, if_pos rfl, ih]
    · rw [if_neg he, if_neg (Ne.symm he), ih]
  | @call es w h c hc ih =>
    obtain ⟨hw, use, hl⟩ := h.sound_ledger
    rw [Call.gathered_run hw hl.fresh hc, ih]
  | turn h ht ih => rw [ht.gathered h.sound_ledger.1, ih]

theorem taken?_eq (h : Session es w) (s : Stint) : (⟨w, s⟩ : Entry).taken? =
    if s.succeeds w then some (owed s.element es ++ (⟨w, s⟩ : Entry).nodes) else none := by
  rw [h.nodes_eq, ← h.gathered]
  exact (h.ran s).answer

/-- What was taken from an element and what is owed for it is all that was appended for it. -/
theorem balance (h : Session es w) (e : ElementId) :
    (entriesOf e es).flatMap Entry.taken ++ owed e es = (entriesOf e es).flatMap Entry.nodes := by
  induction h with
  | new => rfl
  | @stint es w h s ih =>
    rw [owed_concat, entriesOf_concat, List.flatMap_append, List.flatMap_append, ← ih, h.isSome_taken?]
    by_cases he : s.element = e
    · subst he
      rw [if_pos rfl, if_pos rfl, List.flatMap_singleton, List.flatMap_singleton]
      unfold Entry.taken
      rw [h.taken?_eq]
      cases s.succeeds w <;> simp
    · rw [if_neg he, if_neg he]
      simp
  | call h hc ih => exact ih
  | turn h ht ih => exact ih

theorem nodup_nodes (h : Session es w) :
    (es.flatMap Entry.nodes).Nodup ∧ ∀ n ∈ es.flatMap Entry.nodes, n.val < w.ids.next := by
  induction h with
  | new => exact ⟨List.nodup_nil, fun n hn => absurd hn List.not_mem_nil⟩
  | @stint es w h s ih =>
    obtain ⟨hnodup, hlt⟩ := ih
    have hnext := (h.ran s).next
    -- the numbers of a stint are the next ones, all of them above those used before
    have hnew : ∀ n ∈ w.newNodes (left (s.run w)),
        w.ids.next ≤ n.val ∧ n.val < (left (s.run w)).ids.next := fun n hn => by
      obtain ⟨k, hk, rfl⟩ := List.mem_map.1 hn
      rw [List.mem_range'_1] at hk
      show w.ids.next ≤ k ∧ k < _
      omega
    rw [List.flatMap_append, List.flatMap_singleton, h.nodes_eq]
    refine ⟨List.nodup_append.2 ⟨hnodup, ?_, fun n hn m hm heq => ?_⟩, fun n hn => ?_⟩
    · exact (List.nodup_range' ..).map fun a b hab => NodeId.mk.inj hab
    · subst heq
      have hold := hlt n hn
      have hfresh := (hnew n hm).1
      omega
    · rcases List.mem_append.1 hn with hn | hn
      · have hold := hlt n hn
        omega
      · exact (hnew n hn).2
  | @call es w h c hc ih =>
    have hle : w.ids.next ≤ (left (c.run w)).ids.next :=
      kept_of_steps (P := fun w' : World => w.ids.next ≤ w'.ids.next) (c.strokes w)
        (fun _ _ hs hle => Nat.le_trans hle hs.next_le) (Nat.le_refl _)
    exact ⟨ih.1, fun n hn => Nat.lt_of_lt_of_le (ih.2 n hn) hle⟩
  | turn h ht ih => exact ⟨ih.1, fun n hn => Nat.lt_of_lt_of_le (ih.2 n hn) ht.next_le⟩

/-! ### At most once -/

theorem eq_of_mem_nodes (h : Session es w) {E F : Entry} (hE : E ∈ es) (hF : F ∈ es) {n : NodeId}
    (hn : n ∈ E.nodes) (hn' : n ∈ F.nodes) : E = F := by
  by_contra hne
  have hapart := (List.nodup_flatMap.1 h.nodup_nodes.1).2
  have : Std.Symm (Function.onFun List.Disjoint Entry.nodes) := ⟨fun _ _ hd _ hx hy => hd hy hx⟩
  exact hapart.forall hE hF hne hn hn'

theorem mem_nodes_of_mem_taken (h : Session es w) (hE : E ∈ es) {n : NodeId} (hn : n ∈ E.taken) :
    ∃ F ∈ es, F.stint.element = E.stint.element ∧ n ∈ F.nodes := by
  have hmem : E ∈ entriesOf E.stint.element es := List.mem_filter.2 ⟨hE, decide_eq_true rfl⟩
  have htaken := List.mem_append_left (owed E.stint.element es) (List.mem_flatMap.2 ⟨E, hmem, hn⟩)
  rw [h.balance] at htaken
  obtain ⟨F, hF, hn⟩ := List.mem_flatMap.1 htaken
  obtain ⟨hF, helement⟩ := List.mem_filter.1 hF
  exact ⟨F, hF, of_decide_eq_true helement, hn⟩

theorem count_taken {n : NodeId} (hn : ∀ E ∈ es, E.stint.element ≠ e → n ∉ E.taken) :
    (es.flatMap Entry.taken).count n = ((entriesOf e es).flatMap Entry.taken).count n := by
  induction es with
  | nil => rfl
  | cons E es ih =>
    obtain ⟨hE, hes⟩ := List.forall_mem_cons.1 hn
    unfold entriesOf at ih ⊢
    rw [List.flatMap_cons, List.count_append, ih hes, List.filter_cons]
    by_cases he : E.stint.element = e
    · rw [if_pos (decide_eq_true he), List.flatMap_cons, List.count_append]
    · rw [if_neg (by simp [he]), List.count_eq_zero_of_not_mem (hE he), Nat.zero_add]

/-- **No node is taken twice.** -/
theorem nodup_taken (h : Session es w) : (es.flatMap Entry.taken).Nodup := by
  refine List.nodup_iff_count_le_one.2 fun n => ?_
  by_cases hn : n ∈ es.flatMap Entry.taken
  · obtain ⟨E, hE, hn⟩ := List.mem_flatMap.1 hn
    obtain ⟨F, hF, hFE, hnF⟩ := h.mem_nodes_of_mem_taken hE hn
    -- all chains that take this node take it from one element
    have hother : ∀ G ∈ es, G.stint.element ≠ E.stint.element → n ∉ G.taken := fun G hG hne hn => by
      obtain ⟨F', hF', hFG, hnF'⟩ := h.mem_nodes_of_mem_taken hG hn
      obtain rfl := h.eq_of_mem_nodes hF hF' hnF hnF'
      exact hne (hFG.symm.trans hFE)
    have hall : ((entriesOf E.stint.element es).flatMap Entry.nodes).Sublist (es.flatMap Entry.nodes) :=
      List.filter_sublist.flatMap _
    calc (es.flatMap Entry.taken).count n
        = ((entriesOf E.stint.element es).flatMap Entry.taken).count n := count_taken hother
      _ ≤ ((entriesOf E.stint.element es).flatMap Entry.nodes).count n := by
        rw [← h.balance, List.count_append]
        exact Nat.le_add_right ..
      _ ≤ (es.flatMap Entry.nodes).count n := hall.count_le n
      _ ≤ 1 := List.nodup_iff_count_le_one.1 h.nodup_nodes.1 n
  · exact (List.count_eq_zero_of_not_mem hn).le.trans (Nat.zero_le 1)

/-- **A chain takes what is owed for its element and then its own actions.** Of every session of
chains, in which some fail: a chain appends its actions up to the first that is refused, and none if
there is no such element; it fails if and only if one is refused or there is no such element; it then
takes nothing, and otherwise what the chains for this element that failed since one of them was the
last to take have appended, in order, followed by its own actions, in order. So it takes its own
actions alone exactly if these chains have appended nothing. What was taken from an element and what
it has gathered are together all that was ever appended for it, in order; no node is appended twice
and none is taken twice. -/
theorem takes_owed (h : Session es w) :
    (∀ earlier E rest, es = earlier ++ E :: rest →
      E.appended.map (fun a => (a.callee, a.kind)) =
          (E.stint.appends E.world).map (fun kind => (E.stint.element, kind)) ∧
        (E.taken? = none ↔ E.stint.fits E.world = false ∨
          ∃ kind ∈ E.stint.kinds, E.stint.accepts kind = false) ∧
        ∀ nodes, E.taken? = some nodes →
          nodes = owed E.stint.element earlier ++ E.nodes ∧
          (nodes = E.nodes ↔ ∀ F ∈ failedSince E.stint.element earlier, F.appended = [])) ∧
    (∀ e, (entriesOf e es).flatMap Entry.taken ++ w.gathered e =
      (entriesOf e es).flatMap Entry.nodes) ∧
    (es.flatMap Entry.nodes).Nodup ∧ (es.flatMap Entry.taken).Nodup := by
  refine ⟨fun earlier E rest he => ?_, fun e => ?_, h.nodup_nodes.1, h.nodup_taken⟩
  · obtain ⟨w₀, s⟩ := E
    have hprior := h.prior he
    -- a chain answers exactly if it fits its element and none of its kinds is refused
    refine ⟨(hprior.ran s).kinds, ?_, fun nodes hnodes => ?_⟩
    · have hsome := hprior.isSome_taken? s
      rw [← Option.not_isSome_iff_eq_none, hsome]
      unfold Stint.succeeds
      simp [or_iff_not_imp_left]
    · rw [hprior.taken?_eq] at hnodes
      split at hnodes
      · obtain rfl := Option.some.inj hnodes
        refine ⟨rfl, ?_⟩
        rw [List.append_left_eq_self]
        unfold owed
        rw [List.flatMap_eq_nil_iff]
        exact forall₂_congr fun F _ => List.map_eq_nil_iff
      · cases hnodes
  · rw [h.gathered, h.balance]

end World.Session

end

/-! ### A cat that is shown twice -/

/-- A world with one image. -/
def catWorld : World := World.new.callAll [.image "cat" { src := "cat.png" }]

/-- Shows the cat and moves it off the stage, which is refused. -/
def leap : Entry where
  world := catWorld
  stint := ⟨.image, ⟨1⟩, [.showImage {}, .setPosition (.align ⟨0x4000000000000000⟩ .zero) {}]⟩

/-- Shows the cat again after the leap. -/
def landing : Entry := ⟨leap.after, .image, ⟨1⟩, [.showImage {}]⟩

theorem session_cat : World.Session [leap, landing] landing.after := by
  have hbegun : World.Session [] catWorld :=
    World.Session.new.call (c := .image "cat" { src := "cat.png" }) trivial
  exact (hbegun.stint leap.stint).stint landing.stint

/-- The cat's second chain has one call, and takes two nodes. -/
theorem landing_takes_leap : ¬ ∀ es w, World.Session es w →
    ∀ E ∈ es, ∀ nodes, E.taken? = some nodes → nodes = E.nodes := by
  intro hall
  have htaken : landing.taken? = some [⟨2⟩, ⟨3⟩] := by decide +kernel
  have hnodes : landing.nodes = [⟨3⟩] := by decide +kernel
  have halone := hall _ _ session_cat landing (List.mem_cons_of_mem _ List.mem_cons_self) _ htaken
  rw [hnodes] at halone
  cases halone

theorem takes_owed_cat : World.Session [leap, landing] landing.after ∧
    landing.taken? = some (leap.nodes ++ landing.nodes) ∧
    landing.appended.map (fun a => (a.callee, a.kind)) = [(⟨1⟩, .showImage {})] := by
  obtain ⟨hentries, -⟩ := session_cat.takes_owed
  obtain ⟨hkinds, -, htakes⟩ := hentries [leap] landing [] rfl
  have htaken : landing.taken? = some [⟨2⟩, ⟨3⟩] := by decide +kernel
  have howed : owed ⟨1⟩ [leap] = leap.nodes := by decide +kernel
  have happends : landing.stint.appends landing.world = [.showImage {}] := by decide +kernel
  refine ⟨session_cat, ?_, ?_⟩
  · rw [htaken, (htakes _ htaken).1]
    exact congrArg (fun nodes => some (nodes ++ landing.nodes)) howed
  · rw [hkinds, happends]
    rfl

end Storyline
