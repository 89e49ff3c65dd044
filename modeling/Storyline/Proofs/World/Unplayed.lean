import Storyline.Proofs.World.Strokes

/-!
# Worlds as they were written

* `Authored.unspliced`: before play no node remembers where play goes on behind it;
* `World.Each Q w`: all elements of a world have a property;
* `Authored.chained`: the chain of each entry of a menu that was written is that of its list;
* `Authored.unnamed`: before play the screen knows no image;
* `World.each_predicates_callAll`: conditions have the predicates that were given to calls, no others.
-/

namespace Storyline

open Effect

/-! ### Nothing is remembered -/

theorem Graph.resumes_of_insert {γ : Type} {g g' : Graph γ} {id : NodeId} {kind : NodeKind}
    {content : Option γ} (h : g.insert id kind content = .ok g') : g'.resumes = g.resumes :=
  (insert_eq_ok h).2.2.1

/-- No node of a graph has ever been grafted at. -/
def Graph.Unspliced {γ : Type} (g : Graph γ) : Prop := ∀ x : NodeId, g.resumes[x]? = none

namespace Graph.Unspliced

variable {γ : Type} {g g' : Graph γ}

theorem congr (h : g.Unspliced) (hr : g'.resumes = g.resumes) : g'.Unspliced := by
  intro x
  rw [hr]
  exact h x

end Graph.Unspliced

/-- **Before play no node remembers** where play goes on behind it. -/
theorem World.Authored.unspliced {w : World} (h : w.Authored) : w.graph.Unspliced := by
  induction h with
  | new =>
    intro x
    unfold World.new Graph.withRoot
    exact Std.ExtTreeMap.getElem?_empty
  | @call w h c ih =>
    refine kept_of_steps (P := fun w => w.graph.Unspliced) (c.strokes w) (fun w w' hs hw => ?_) ih
    cases hs with
    | spend | add | revise => exact hw
    | insert hg => exact hw.congr (Graph.resumes_of_insert hg)
    | child _ hg => exact hw.congr (Graph.rewired_of_setChild hg).resumes
    | parent _ _ _ hg => exact hw.congr (Graph.sameEdges_of_setParent hg).resumes
    | root _ hg => exact hw.congr (Graph.rewired_of_setChild hg).resumes

/-! ### What all elements have -/

/-- All elements of a world have a property. -/
def World.Each (Q : Element → Prop) (w : World) : Prop := ∀ e x, w.elements.get? e = some x → Q x

namespace World.Each

variable {Q : Element → Prop} {w : World}

theorem put {x : Element} (h : w.Each Q) (hx : Q x) :
    ({ w with elements := w.elements.put x } : World).Each Q := by
  intro e y hy
  rw [Elements.get?_put] at hy
  split at hy
  · obtain ⟨⟩ := hy
    exact hx
  · exact h e y hy

end World.Each

/-! ### The entries of menus -/

section Chained

variable {w : World}

theorem Element.chained_of_written {x y : Element} (h : y.written = x.written) (hx : x.Chained) :
    y.Chained := by
  cases x with
  | menu m =>
    cases y with
    | menu m' =>
      have hm := Element.menu.inj h
      have hchoices : m'.choices = m.choices := by injection hm
      intro c hc
      exact hx c (hchoices ▸ hc)
    | _ => trivial
  | _ => cases y <;> trivial

/-- **The chain of each entry is that of its list**, in every menu that was written. -/
theorem World.Authored.chained (h : w.Authored) : w.Each Element.Chained := by
  induction h with
  | new =>
    intro e x hx
    simp [World.new, Elements.get?] at hx
  | @call w h c ih =>
    refine kept_of_steps (P := World.Each Element.Chained) (c.strokes w) (fun w w' hs hw => ?_) ih
    cases hs with
    | add _ hx => exact hw.put hx.chained
    | revise hx hy => exact hw.put (hy.chained (hw _ _ hx))
    | spend | insert | child | parent | root => exact hw

/-- **Before play the screen knows no image.** -/
theorem World.Authored.unnamed (h : w.Authored) : w.Each fun x => x.presented? = none := by
  induction h with
  | new =>
    intro e x hx
    simp [World.new, Elements.get?] at hx
  | @call w h c ih =>
    refine kept_of_steps (P := World.Each fun x => x.presented? = none) (c.strokes w)
      (fun w w' hs hw => ?_) ih
    cases hs with
    | add _ hx => exact hw.put hx.presented?
    | revise hx hy => exact hw.put (hy.presented?.trans (hw _ _ hx))
    | spend | insert | child | parent | root => exact hw

end Chained

/-! ### The predicates of conditions -/

theorem World.Each.predicates_run {Q : Predicate → Prop} {w : World} {c : Call}
    (h : w.Each fun x => ∀ p ∈ x.predicates, Q p) (hc : ∀ p ∈ c.predicates, Q p) :
    (left (c.run w)).Each fun x => ∀ p ∈ x.predicates, Q p := by
  refine kept_of_steps (P := World.Each fun x => ∀ p ∈ x.predicates, Q p) (c.strokes w)
    (fun w w' hs hw => ?_) h
  cases hs with
  | add _ hx => exact hw.put fun p hp => by rw [hx.predicates] at hp; cases hp
  | revise hx hy =>
    exact hw.put fun p hp => (hy.predicates p hp).elim (hw _ _ hx p) (hc p)
  | spend | insert | child | parent | root => exact hw

/-- **Predicates are those that were given to the calls**: what holds of all of these holds of the
predicates of every condition. -/
theorem World.each_predicates_callAll {Q : Predicate → Prop} (calls : List Call)
    (h : ∀ c ∈ calls, ∀ p ∈ c.predicates, Q p) :
    (World.new.callAll calls).Each fun x => ∀ p ∈ x.predicates, Q p := by
  have hall : ∀ w : World, (w.Each fun x => ∀ p ∈ x.predicates, Q p) →
      (w.callAll calls).Each fun x => ∀ p ∈ x.predicates, Q p := by
    induction calls with
    | nil => exact fun _ hw => hw
    | cons c calls ih =>
      exact fun w hw => ih (fun c' hc' => h c' (List.mem_cons_of_mem _ hc')) _
        (hw.predicates_run (h c List.mem_cons_self))
  refine hall World.new fun e x hx => ?_
  simp [World.new, Elements.get?] at hx

end Storyline
