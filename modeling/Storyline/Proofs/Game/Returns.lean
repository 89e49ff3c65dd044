import Storyline.Proofs.Game.Told
import Storyline.Proofs.Story.Ahead

/-!
# Branches return to where they were entered

* `Move.Enters d R`: a move grafts a list in, or nothing;
* `Works d k A us B`: the moves `us` work off the nodes of `A` and of all lists that they enter, up to
  those of `B`;
* `Move.Loyal`: what is grafted in does not remember to go on elsewhere;
* `Told.returns`: once the list of a branch is worked off, whichever branches were entered inside of
  it, play goes on behind the node that the branch was entered at.
-/

namespace Storyline

open Effect

variable {σ : Type} {d : Sheet} {g g₀ g' : Game σ} {us : List (Move σ)} {m : Move σ}
  {A B R : List NodeId} {k : Option NodeId} {n x : NodeId} {o : Outcome}

/-- A list is entered, or nothing is. -/
def Move.Enters (m : Move σ) (d : Sheet) (R : List NodeId) : Prop :=
  m.graft?.join = Chain.ofNodes? R ∧ (R = [] ∨ R ∈ d.rows)

/-- Moves work nodes off, the first one at a time, and those of every list that is entered before the
others. No list is entered of which a node is still to be played. -/
inductive Works (d : Sheet) (k : Option NodeId) (A : List NodeId) :
    List (Move σ) → List NodeId → Prop
  | here : Works d k A [] A
  | move {us : List (Move σ)} {m : Move σ} {x : NodeId} {B R : List NodeId}
      (h : Works d k A us (x :: B)) (hm : m.Enters d R) (hR : ∀ a ∈ R, a ∉ B ∧ k ≠ some a) :
      Works d k A (us ++ [m]) (R ++ B)

/-- **What makes a branch return**: its last node does not remember to go on elsewhere, and no menu
is left without a pick that was grafted at before. -/
structure Move.Loyal (m : Move σ) : Prop where
  last : ∀ ch ∈ m.graft?.join, ∀ q ∈ m.before.world.graph.resumes[ch.tail]?, q = m.next
  passed : ∀ a ∈ m.before.world.action? m.node, a.kind = .menu →
    m.outcome.choice = none → m.before.world.graph.resumes[m.node]? = none

instance : DecidablePred (Move.Loyal (σ := σ)) := fun _ =>
  decidable_of_iff _ ⟨fun h => Move.Loyal.mk h.1 h.2, fun h => And.intro h.last h.passed⟩

/-- Play is at the first of the nodes that are still to be played, or where it goes on behind `n`. -/
structure Returning (d : Sheet) (n : NodeId) (k : Option NodeId) (A : List NodeId) (g : Game σ) :
    Prop where
  ahead : Ahead d.lists g.world.graph A k
  place : ∀ x B, A = x :: B → g.place? = some x
  done : A = [] → g.live.pending = none → g.live.current = k
  behind : g.world.graph.continuation n = k
  kept : A = [n] ∨ A = [] ∨ g.world.graph.resumes[n]? = some k

namespace Returning

theorem start (h : Poised d g) (hn : g.place? = some n) :
    Returning d n (g.world.graph.continuation n) [n] g := by
  refine ⟨⟨fun a q hl => ?_, List.nodup_singleton n, fun a ha => absurd ha List.not_mem_nil,
    fun a ha => ?_⟩, fun x B he => ?_, nofun, rfl, .inl rfl⟩
  · obtain ⟨rfl, rfl⟩ := Prod.mk.inj (List.mem_singleton.1 hl)
    rfl
  · exact List.mem_singleton.1 ha ▸ h.mem_of_place? hn
  · obtain ⟨rfl, -⟩ := List.cons.inj he
    exact hn

theorem congr (h : Returning d n k A g) (hg : g'.world.graph = g.world.graph)
    (hp : g'.place? = g.place?)
    (hd : A = [] → g'.live.pending = none → g'.live.current = k) : Returning d n k A g' := by
  refine ⟨?_, fun x B he => hp.trans (h.place x B he), hd, ?_, ?_⟩
  · rw [hg]
    exact h.ahead
  · rw [hg]
    exact h.behind
  · rw [hg]
    exact h.kept

/-- A node that grafts nothing in leads where play goes on behind it. -/
theorem continuation_eq_child? (hg : Poised d g) (ha : Advances g o g') (hgraft : g.graft? o = none)
    (hl : Move.Loyal ⟨g, o, g'⟩) : g.world.graph.continuation o.node = g.world.graph.child? o.node := by
  obtain ⟨a, hact, hserves, -⟩ := ha.action
  unfold Game.graft? at hgraft
  rw [hact, Option.bind_some] at hgraft
  refine Graph.continuation_of_none ?_
  rcases hserves.grafts hgraft with hk | ⟨hk, hc⟩
  · exact hg.plain o.node a hact hk
  · exact hl.passed a hact hk hc

/-- A game in which no step waits and that goes on at the first of the nodes. -/
theorem of_current (hahead : Ahead d.lists g.world.graph A k) (hp : g.live.pending = none)
    (hc : g.live.current = A.head?.or k) (hbehind : g.world.graph.continuation n = k)
    (hkept : A = [n] ∨ A = [] ∨ g.world.graph.resumes[n]? = some k) : Returning d n k A g := by
  refine ⟨hahead, fun x B he => ?_, fun he _ => ?_, hbehind, hkept⟩
  · unfold Game.place?
    rw [hp, hc, he]
    rfl
  · rw [hc, he]
    rfl

theorem passes (h : Returning d n k (o.node :: B) g) (hg : Poised d g) (ha : Advances g o g')
    (hgraft : g.graft? o = none) (hl : Move.Loyal ⟨g, o, g'⟩) : Returning d n k B g' := by
  have hsame : g'.world.graph = g.world.graph := by
    have hgets := ha.graph
    rw [hgraft] at hgets
    exact hgets
  have hchild := (continuation_eq_child? hg ha hgraft hl).symm.trans h.ahead.continuation_head
  refine of_current (hsame ▸ h.ahead.tail) ha.pending ?_ (hsame ▸ h.behind) (hsame ▸ ?_)
  · rw [ha.current, hsame, hchild]
  · rcases h.kept with he | he | hk
    · exact .inr (.inl (List.cons.inj he).2)
    · cases he
    · exact .inr (.inr hk)

/-- A move that grafts a list in works the first node off, and the list is to be played then. -/
theorem enters {chain : Option Chain} (h : Returning d n k (o.node :: B) g) (hg : Poised d g)
    (hg' : Poised d g') (ha : Advances g o g') (hgraft : g.graft? o = some chain)
    (hchain : chain = Chain.ofNodes? R) (hrow : R = [] ∨ R ∈ d.rows)
    (hl : Move.Loyal ⟨g, o, g'⟩) (hR : ∀ a ∈ R, a ∉ B ∧ k ≠ some a) :
    Returning d n k (R ++ B) g' := by
  have hgets := ha.graph
  rw [hgraft] at hgets
  have hlast : ∀ t, R.getLast? = some t → ∀ q : Option NodeId,
      g.world.graph.resumes[t]? = some q → q = g.world.graph.continuation o.node := by
    intro t ht q hq
    cases R with
    | nil => cases ht
    | cons y rest =>
      obtain rfl := Option.some.inj ((Chain.ends_of_ofNodes rfl).2.symm.trans ht)
      exact hl.last _ (Option.join_eq_some_iff.2 (hgraft.trans (congrArg some hchain))) q hq
  obtain ⟨hahead, hchild⟩ := Ahead.splice hg.inSequence h.ahead hchain
    (hrow.imp_right (List.mem_append_right _)) hR hgets hg'.inSequence hlast
  -- the node itself remembers where play went on, or has done so before
  have hkept : g'.world.graph.resumes[n]? = some k := by
    rw [(hg.inSequence.toSinglyLinked.splice hgets).2.2]
    split
    · rename_i he
      rw [← he, h.behind]
    · rename_i he
      rcases h.kept with hA | hA | hk
      · exact absurd (List.cons.inj hA).1.symm he
      · cases hA
      · exact hk
  exact of_current hahead ha.pending (ha.current.trans hchild) (Graph.continuation_of_some hkept)
    (.inr (.inr hkept))

/-- **A move** works the first node off. -/
theorem move (h : Returning d n k (x :: B) g) (hg : Poised d g) (hg' : Poised d g')
    (ha : Advances g o g') (hm : Move.Enters ⟨g, o, g'⟩ d R) (hl : Move.Loyal ⟨g, o, g'⟩)
    (hR : ∀ a ∈ R, a ∉ B ∧ k ≠ some a) : Returning d n k (R ++ B) g' := by
  obtain rfl : x = o.node := Option.some.inj ((h.place x B rfl).symm.trans ha.place)
  obtain ⟨hchain, hrow⟩ := hm
  unfold Move.graft? at hchain
  cases hgraft : g.graft? o with
  | none =>
    rw [hgraft] at hchain
    obtain rfl : R = [] := Chain.eq_nil_of_ofNodes hchain.symm
    exact h.passes hg ha hgraft hl
  | some chain =>
    rw [hgraft] at hchain
    exact h.enters hg hg' ha hgraft hchain hrow hl hR

end Returning

theorem Works.concat {us : List (Move σ)} {m : Move σ} {C : List NodeId}
    (h : Works d k A (us ++ [m]) C) : ∃ x B R, Works d k A us (x :: B) ∧ m.Enters d R ∧
      (∀ a ∈ R, a ∉ B ∧ k ≠ some a) ∧ C = R ++ B := by
  generalize hms : us ++ [m] = ms at h
  cases h with
  | here => simp at hms
  | @move us' m' x B R h hm hR =>
    obtain ⟨rfl, hm'⟩ := List.append_inj' hms rfl
    obtain ⟨rfl, -⟩ := List.cons.inj hm'
    exact ⟨x, B, R, h, hm, hR, rfl⟩

theorem Told.returning (h : Told g₀ us g) (hg : Playing d g₀) (hn : g₀.place? = some n)
    (hw : Works d (g₀.world.graph.continuation n) [n] us A) (hl : ∀ m ∈ us, m.Loyal) :
    Returning d n (g₀.world.graph.continuation n) A g := by
  induction h generalizing A with
  | here =>
    generalize hms : ([] : List (Move σ)) = ms at hw
    cases hw with
    | here => exact .start hg.poised hn
    | move => simp at hms
  | answer h answer ih => exact (ih hw hl).congr rfl rfl (ih hw hl).done
  | @waits us g' g'' h screen f hn' ih =>
    have hhalts := (h.playing hg).halts hn'
    refine (ih hw hl).congr hhalts.graph hhalts.place fun _ hp => ?_
    obtain ⟨p, hp', -⟩ := hhalts.pending
    cases hp'.symm.trans hp
  | @adopts us g' g'' h screen o hn' ih =>
    obtain ⟨x, B, R, hw', hm, hR, rfl⟩ := hw.concat
    have hplaying := h.playing hg
    exact (ih hw' fun m hm => hl m (List.mem_append_left _ hm)).move hplaying.poised
      (hplaying.next _ _ hn').poised (hplaying.advances hn') hm
      (hl _ (List.mem_append_right _ List.mem_cons_self)) hR
  | @ends us g' g'' h screen hn' ih =>
    obtain ⟨hplace, hp, rfl⟩ := Poised.ends hn'
    refine (ih hw hl).congr rfl ((Poised.place?_ended hplace hp).trans hplace.symm) fun hA _ => ?_
    -- play was at no node before, so that it goes on nowhere
    have hnone : g'.live.aim.current = none := (Game.place?_of_idle hp).symm.trans hplace
    have hcurrent := (Option.or_eq_none_iff.1 (g'.live.aim_current ▸ hnone)).1
    exact hnone.trans (hcurrent.symm.trans ((ih hw hl).done hA hp))

/-- **A branch returns to where it was entered.** Every node is in one list at most, and play is at
the node `n`, whatever was played or taken back before. Once the nodes of the list that is grafted in
there are worked off, and those of all lists that are entered meanwhile, play goes on where `n` did
when it was reached. -/
theorem Told.returns (h : Told g₀ us g) (hg : Playing d g₀) (hn : g₀.place? = some n)
    (hw : Works d (g₀.world.graph.continuation n) [n] us []) (hl : ∀ m ∈ us, m.Loyal)
    (hp : g.live.pending = none) :
    g.live.current = g₀.world.graph.continuation n ∧
      g.world.graph.continuation n = g₀.world.graph.continuation n := by
  have hreturning := h.returning hg hn hw hl
  exact ⟨hreturning.done rfl hp, hreturning.behind⟩

/-! ### A fork that is met twice -/

/-- The game that has come to the fork for the second time, and has met it once before. -/
def secondFork : Game Headless := (forkGame.tell Headless.screen 7).2

/-- The fork is the same one, but its branch now leads on to the town, not to the fork. -/
theorem returns_fork :
    (forkGame.tell Headless.screen 1).2.place? = some ⟨8⟩ ∧
      secondFork.live.current = some ⟨9⟩ ∧ secondFork.place? = some ⟨9⟩ ∧
      (secondFork.tell Headless.screen 6).2.live.current = some ⟨4⟩ := by
  have hplaying : Playing forkSheet secondFork :=
    (Told.tell Headless.screen forkGame 7).playing playing_fork
  have hgrafts : (secondFork.tell Headless.screen 6).1.map (·.graft?) =
      [some (some ⟨⟨6⟩, ⟨3⟩⟩), some (some ⟨⟨2⟩, ⟨2⟩⟩), none, none] := by decide +kernel
  have hworks : Works forkSheet (secondFork.world.graph.continuation ⟨9⟩) [⟨9⟩]
      (secondFork.tell Headless.screen 6).1 [] := by
    simp only [List.map_eq_cons_iff, List.map_eq_nil_iff] at hgrafts
    obtain ⟨m₁, _, hus, h₁, m₂, _, rfl, h₂, m₃, _, rfl, h₃, m₄, _, rfl, h₄, rfl⟩ := hgrafts
    have hbehind : secondFork.world.graph.continuation ⟨9⟩ = some ⟨4⟩ := by decide +kernel
    rw [hus, hbehind]
    have hentered := @Works.here Headless forkSheet (some ⟨4⟩) [⟨9⟩]
    have hfork := hentered.move (R := [⟨6⟩, ⟨3⟩]) ⟨congrArg Option.join h₁, by decide⟩ (by decide)
    have hriver := hfork.move (R := [⟨2⟩]) ⟨congrArg Option.join h₂, by decide⟩ (by decide)
    have hbridge := hriver.move (R := []) ⟨congrArg Option.join h₃, by decide⟩ (by decide)
    exact hbridge.move (R := []) ⟨congrArg Option.join h₄, by decide⟩ (by decide)
  obtain ⟨hreturn, -⟩ := (Told.tell Headless.screen secondFork 6).returns hplaying
    (by decide +kernel) hworks (by decide +kernel) (by decide +kernel)
  exact ⟨by decide +kernel, by decide +kernel, by decide +kernel, hreturn.trans (by decide +kernel)⟩

end Storyline
