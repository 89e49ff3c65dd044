import Storyline.Proofs.Graph.Backed
import Storyline.Proofs.Stage.Lived
import Storyline.Stage.Headless

/-!
# Nodes are moved, not copied

* `Call.Fair w c`: if a call gives a chain a composite, then the head of the chain hangs nowhere once
  the chain is linked. All other calls are fair;
* `Lived.never_copied`: in every world that is written by fair calls and played, whoever is a child
  refers back to its parent, so that no node is in two lists. A composite that is given to a head that
  hangs somewhere breaks this.
-/

namespace Storyline

open Effect

/-- The head of a chain that gets a composite hangs nowhere once the chain is linked. -/
def Call.Fair (w : World) (c : Call) : Prop :=
  c.Composes → ∀ a, c.nodes.head? = some a → (left (Graph.link c.nodes w.graph)).Loose a

namespace Graph

theorem backed_ofEdit {w : World} {node : NodeId} {chain : Option Chain} (h : w.graph.Backed) :
    (left (Build.ofEdit (splice node chain) w)).graph.Backed := by
  rw [World.left_ofEdit]
  exact h.splice chain

theorem Backed.stroke {c : Call} {w₀ w w' : World} (hc : c.Fair w₀) (hs : c.Stroke w₀.graph w w')
    (h : w.graph.Backed) : w'.graph.Backed := by
  cases hs with
  | spend | add | revise => exact h
  | insert hg => exact h.insert hg
  | child _ hg | root _ hg => exact h.setChild hg
  | parent hcomp ha hlinked hg =>
    exact h.setParent (fun p hp => hc hcomp _ ha p (hlinked p hp)) hg

end Graph

namespace World

variable {w : World}

theorem Lived.backed (h : w.Lived Call.Fair) : w.graph.Backed := by
  refine (h.keep (P := fun w => w.graph.Backed) (.withRoot _) (fun hc _ _ hs _ hw => hw.stroke hc hs)
    fun ht _ hw => ?_).2
  cases ht with
  | shift hs =>
    cases hs with
    | graft node chain => exact Graph.backed_ofEdit hw
    | record => exact hw
  | name => exact hw

theorem action_eq_ok {α : Type} [Composing α] [LawfulElemental α] {h : Handle α}
    {lists : List (List NodeId)} {node : NodeId} {w' : World}
    (hr : Build.author h (·.action lists) w = .ok node w') :
    ∃ g a, (left (Graph.link lists.flatten w.graph)).insertContent node a = .ok g ∧
      ∀ head, lists.flatten.head? = some head → g.setParent head (some node) = .ok w'.graph := by
  rw [show Build.author h (·.action lists) w = _ from Build.author_finish h _ w] at hr
  cases hf : w.find α h.id with
  | error e =>
    rw [hf] at hr
    cases hr
  | ok a =>
    rw [hf] at hr
    simp only at hr
    obtain ⟨x, w₁, hx, hr₁⟩ := bind_apply_eq_ok.1 hr
    obtain ⟨-, rfl⟩ := Build.find_eq_ok_iff.1 hx
    obtain ⟨u, w₂, hw₂, hr₂⟩ := bind_apply_eq_ok.1 hr₁
    obtain ⟨-, rfl⟩ := EStateM.Result.ok.inj hw₂
    obtain ⟨chain, w₃, hw₃, hr₃⟩ := bind_apply_eq_ok.1 hr₂
    obtain ⟨hchain, rfl⟩ := Build.construct_eq_ok hw₃
    obtain ⟨n, w₄, hw₄, hr₄⟩ := bind_apply_eq_ok.1 hr₃
    rw [Build.newAction_apply] at hw₄
    split at hw₄
    · rename_i g hg
      obtain ⟨rfl, rfl⟩ := EStateM.Result.ok.inj hw₄
      cases chain with
      | none =>
        obtain ⟨rfl, rfl⟩ := EStateM.Result.ok.inj hr₄
        refine ⟨g, _, hg, fun head hhead => ?_⟩
        rw [Chain.eq_nil_of_ofNodes hchain.symm] at hhead
        cases hhead
      | some ends =>
        obtain ⟨_, w₅, hw₅, hr₅⟩ := bind_apply_eq_ok.1 hr₄
        obtain ⟨rfl, rfl⟩ := EStateM.Result.ok.inj hr₅
        refine ⟨g, _, hg, fun head hhead => ?_⟩
        obtain rfl := Option.some.inj (hhead.symm.trans (Chain.ends_of_ofNodes hchain.symm).1)
        obtain ⟨g', hg', rfl⟩ := Build.ofEdit_eq_ok_iff.1 hw₅
        exact Graph.attempt_eq_ok_iff.1 hg'
    · cases hw₄

/-- A composite whose head hangs somewhere has two nodes claim the head. -/
theorem not_backed_of_action {α : Type} [Composing α] [LawfulElemental α] {h : Handle α}
    {lists : List (List NodeId)} {node head p : NodeId} {w' : World}
    (hr : Build.author h (·.action lists) w = .ok node w') (hhead : lists.flatten.head? = some head)
    (hp : head ∈ (left (Graph.link lists.flatten w.graph)).children p) : ¬ w'.graph.Backed := by
  obtain ⟨g, a, hg, hparent⟩ := action_eq_ok hr
  refine Graph.Backed.not_of_setParent (x := p) ?_ ?_ (hparent head hhead)
  · rwa [(Graph.edges_insert hg p).1]
  · rintro rfl
    have hnone := (Graph.insert_eq_ok hg).1
    simp [Graph.children, hnone] at hp

/-- **Nodes are moved and never copied** in worlds that are written by fair calls and played. A
composite that is given a head which hangs somewhere is all that could copy one. -/
theorem Lived.never_copied (h : w.Lived Call.Fair) :
    (∀ p n, n ∈ w.graph.children p → w.graph.parent? n = some p) ∧
      (∀ p q n, n ∈ w.graph.children p → n ∈ w.graph.children q → p = q) ∧
      ∀ (c : Call) (nodes : List NodeId) (w' : World), c.Composes → c.run w = .ok nodes w' →
        (w'.graph.Backed ↔ c.Fair w) := by
  refine ⟨h.backed, fun p q n => h.backed.unique, fun c nodes w' hc hr => ⟨fun hb => ?_, fun hf => ?_⟩⟩
  · intro _ a ha p hp
    cases c with
    | sceneAction e lists =>
      obtain ⟨node, w₁, hr₁, hr₂⟩ := bind_apply_eq_ok.1 hr
      obtain ⟨-, rfl⟩ := EStateM.Result.ok.inj hr₂
      exact not_backed_of_action hr₁ ha hp hb
    | storyAction e lists =>
      obtain ⟨node, w₁, hr₁, hr₂⟩ := bind_apply_eq_ok.1 hr
      obtain ⟨-, rfl⟩ := EStateM.Result.ok.inj hr₂
      exact not_backed_of_action hr₁ ha hp hb
    | _ => exact hc.elim
  · have hw' := (h.call hf).backed
    rwa [hr] at hw'

end World

/-! ### A park -/

/-- The calls that write a park with two lines, one after the other. -/
def parkCalls : List Call := [
  .character "Alice" {},
  .scene "Park" {},
  .append ⟨1⟩ (.say (.plain "a")),
  .append ⟨1⟩ (.say (.plain "b")),
  .sceneAction ⟨2⟩ [[⟨3⟩, ⟨4⟩]]]

/-- The world after the first calls. -/
def parkWritten (n : Nat) : World := World.new.callAll (parkCalls.take n)

/-- The park once its scene has begun. -/
def park : World :=
  let stage : Stage Headless := {
    world := parkWritten 5, store := {}, futures := {}, screen := {} }
  (left (Perform.execute Headless.screen ⟨5⟩ stage)).world

theorem lived_park : park.Lived Call.Fair := by
  have h₁ : (parkWritten 1).Lived Call.Fair := World.Lived.new.call (c := .character "Alice" {}) nofun
  have h₂ : (parkWritten 2).Lived Call.Fair := h₁.call (c := .scene "Park" {}) nofun
  have h₃ : (parkWritten 3).Lived Call.Fair :=
    h₂.call (c := .append ⟨1⟩ (.say (.plain "a"))) nofun
  have h₄ : (parkWritten 4).Lived Call.Fair :=
    h₃.call (c := .append ⟨1⟩ (.say (.plain "b"))) nofun
  have hfair : (Call.sceneAction ⟨2⟩ [[⟨3⟩, ⟨4⟩]]).Fair (parkWritten 4) := by
    rintro - a ⟨⟩
    exact (h₄.backed.link [⟨3⟩, ⟨4⟩]).loose (by decide +kernel)
  have h₅ : (parkWritten 5).Lived Call.Fair := h₄.call hfair
  exact .execute (s := { world := parkWritten 5, store := {}, futures := {}, screen := {} })
    h₅ Headless.screen ⟨5⟩

/-- The second line hangs behind the first, and cannot be the head of a composite as well. -/
theorem never_copied_park : park.Lived Call.Fair ∧ park.graph.parent? ⟨4⟩ = some ⟨3⟩ ∧
    ∃ w, (Call.sceneAction ⟨2⟩ [[⟨4⟩]]).run park = .ok [⟨6⟩] w ∧ ¬ w.graph.Backed := by
  obtain ⟨hback, -, hcopy⟩ := lived_park.never_copied
  have hline : (⟨4⟩ : NodeId) ∈ park.graph.children ⟨3⟩ := by decide +kernel
  have hrun := ok_of_answer (r := (Call.sceneAction ⟨2⟩ [[⟨4⟩]]).run park) (a := [⟨6⟩])
    (by decide +kernel)
  refine ⟨lived_park, hback _ _ hline, _, hrun, fun hb => ?_⟩
  have hfair := (hcopy (.sceneAction ⟨2⟩ [[⟨4⟩]]) _ _ trivial hrun).1 hb
  exact hfair trivial ⟨4⟩ rfl ⟨3⟩ hline

end Storyline
