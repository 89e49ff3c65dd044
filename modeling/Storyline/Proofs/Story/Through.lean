import Storyline.Proofs.Story.Course

/-!
# Playing a story through

* `Placed F l inner top rows`: where a game is in its story. What is left of the agenda are trees
  that were led into, then what is left of a top row; `rows` are the top rows after that one;
* `Placed.reach`, `Placed.nextUnit`: the place after a turn, and at the end of a top row;
* `Play.playFrom_of_placed`: from any place the story is played to its end, and what is played is
  the trace of what is left.
-/

namespace Storyline

open Effect Storyline.Tree

variable {F rows : List (List Tree)} {g g' : Game Headless} {t : Tree}
  {inner top rest row agenda : List Tree} {l l' : Live} {v : Outlook} {o : Outcome}

/-- Where a game is in its story. The place of the unit that was reached last counts, unless the
agenda starts with a unit, which is going to be reached. -/
structure Placed (F : List (List Tree)) (l : Live) (inner top : List Tree)
    (rows : List (List Tree)) : Prop where
  units : ∃ done, l.units = nodes done ++ nodes (top ++ rows.flatten) ∧
    (done.length = l.unit + 1 ∨ inner = [] ∧ top ≠ [])
  nodup : l.units.Nodup
  tops : ∀ u ∈ l.units, u ∈ nodes F.flatten
  rows : rows ⊆ F
  inner : ∀ s ∈ inner, s.node ∉ nodes F.flatten

namespace Placed

theorem congr (h : Placed F l inner top rows) (hl : SamePlace l l') :
    Placed F l' inner top rows := by
  obtain ⟨hunits, hnodup, htops, hrows, hinner⟩ := h
  rw [← hl.units] at hunits hnodup htops
  rw [← hl.unit] at hunits
  exact ⟨hunits, hnodup, htops, hrows, hinner⟩

/-- A node that is no unit does not change the place of the last unit. -/
theorem unit_reach_of_not_mem {n : NodeId} (h : n ∉ l.units) :
    (l.reach n).unit = l.unit ∧ (l.reach n).units = l.units := by
  unfold Live.reach
  rw [List.findIdx?_eq_none_iff.2 fun x hx => by simpa using fun e : x = n => h (e ▸ hx)]
  exact ⟨rfl, rfl⟩

theorem unit_reach_of_split {n : NodeId} {before after : List NodeId}
    (h : l.units = before ++ n :: after) (hnodup : l.units.Nodup) :
    (l.reach n).unit = before.length ∧ (l.reach n).units = l.units := by
  have hn : ∀ x ∈ before, ¬ x = n := by
    rw [h] at hnodup
    exact fun x hx => (List.nodup_append.1 hnodup).2.2 x hx n List.mem_cons_self
  have hfind : l.units.findIdx? (· = n) = some before.length := by
    rw [h, List.findIdx?_append, List.findIdx?_eq_none_iff.2 fun x hx => by simpa using hn x hx]
    simp [List.findIdx?_cons]
  unfold Live.reach
  rw [hfind]
  exact ⟨rfl, rfl⟩

theorem reach (h : Placed F l inner top rows) (he : inner ++ top = t :: rest)
    (hrow : ∀ s ∈ row, s.node ∉ nodes F.flatten) :
    ∃ inner' top', row ++ rest = inner' ++ top' ∧ Placed F (l.reach t.node) inner' top' rows := by
  obtain ⟨⟨done, hunits, hplace⟩, hnodup, htops, hrows, hinner⟩ := h
  -- the node that is reached is an inner one, or the next at the top
  cases inner with
  | cons s inner =>
    obtain ⟨rfl, rfl⟩ := List.cons.inj he
    obtain ⟨hunit, hsame⟩ := unit_reach_of_not_mem fun hmem =>
      hinner s List.mem_cons_self (htops _ hmem)
    refine ⟨row ++ inner, top, (List.append_assoc ..).symm, ⟨done, ?_, ?_⟩, ?_, ?_, hrows, ?_⟩
    · rw [hsame, hunits]
    · rcases hplace with hplace | ⟨hnil, -⟩
      · exact .inl (by rw [hunit, hplace])
      · cases hnil
    · rw [hsame]
      exact hnodup
    · rw [hsame]
      exact htops
    · intro x hx
      rcases List.mem_append.1 hx with hx | hx
      · exact hrow x hx
      · exact hinner x (List.mem_cons_of_mem _ hx)
  | nil =>
    obtain rfl : top = t :: rest := he
    obtain ⟨hunit, hsame⟩ := unit_reach_of_split (l := l) hunits hnodup
    refine ⟨row, rest, rfl, ⟨done ++ [t], ?_, .inl ?_⟩, ?_, ?_, hrows, hrow⟩
    · rw [hsame, hunits]
      simp [nodes]
    · rw [hunit]
      simp [nodes]
    · rw [hsame]
      exact hnodup
    · rw [hsame]
      exact htops

end Placed

theorem Tree.flatten_cases (rows : List (List Tree)) :
    rows.flatten = [] ∨ ∃ t rest rows', (t :: rest) ∈ rows ∧ rows' ⊆ rows ∧
      rows.flatten = t :: rest ++ rows'.flatten := by
  induction rows with
  | nil => exact .inl rfl
  | cons r rows ih =>
    cases r with
    | nil =>
      refine ih.imp_right ?_
      rintro ⟨t, rest, rows', ht, hsub, he⟩
      exact ⟨t, rest, rows', List.mem_cons_of_mem _ ht, fun _ hr => List.mem_cons_of_mem _ (hsub hr),
        he⟩
    | cons t rest =>
      exact .inr ⟨t, rest, rows, List.mem_cons_self, fun _ => List.mem_cons_of_mem _, rfl⟩

/-- **At the end of a top row** play goes on with the next one, or ends. -/
theorem Placed.nextUnit (h : Placed F l [] [] rows) (hs : l.started = true) :
    (rows.flatten = [] ∧ l.nextUnit.1 = none) ∨
      ∃ t rest rows', (t :: rest) ∈ F ∧ rows.flatten = t :: rest ++ rows'.flatten ∧
        l.nextUnit.1 = some t.node ∧ Placed F l.nextUnit.2 [] (t :: rest) rows' := by
  obtain ⟨⟨done, hunits, hplace⟩, hnodup, htops, hrows, hinner⟩ := h
  have hlen : done.length = l.unit + 1 := by
    rcases hplace with hplace | ⟨-, hne⟩
    · exact hplace
    · exact absurd rfl hne
  have hget : l.units[l.unit + 1]? = (nodes rows.flatten).head? := by
    have hlen' : (nodes done).length = l.unit + 1 := (List.length_map _).trans hlen
    rw [hunits, List.getElem?_append_right (Nat.le_of_eq hlen'), hlen', Nat.sub_self,
      List.head?_eq_getElem?]
    rfl
  -- the rows of the units that are left: without nodes, or with a first one
  rcases Tree.flatten_cases rows with he | ⟨t, rest, rows', ht, hsub, he⟩
  · refine .inl ⟨he, ?_⟩
    rw [he] at hget
    unfold Live.nextUnit
    simp only [hs, if_true]
    rw [hget]
    rfl
  · rw [he] at hget
    have hnext : l.nextUnit = (some t.node, { l with started := true, unit := l.unit + 1 }) := by
      unfold Live.nextUnit
      simp only [hs, if_true]
      rw [hget]
      rfl
    refine .inr ⟨t, rest, rows', hrows ht, he, by rw [hnext], ?_⟩
    rw [hnext]
    refine ⟨⟨done, ?_, .inr ⟨rfl, List.cons_ne_nil _ _⟩⟩, hnodup, htops,
      fun r hr => hrows (hsub hr), fun s hs => absurd hs List.not_mem_nil⟩
    rw [← he]
    exact hunits

namespace Play

variable {n limit : Nat} {past : List Outcome} {f : FutureId} {nodes : List NodeId}

/-! ### Steps in a row -/

theorem playFrom_advanced (h : next Headless.screen g = .ok (.advanced o) g') :
    playFrom Headless.screen (n + 1) past g = playFrom Headless.screen n (o :: past) g' :=
  bind_of_ok h

theorem playFrom_suspended (h : next Headless.screen g = .ok (.suspended f) g')
    (hf : g'.stage.futures.isSolved f = true) :
    playFrom Headless.screen (n + 1) past g = playFrom Headless.screen n past g' := by
  refine (bind_of_ok h).trans ?_
  simp only [bind_get_apply, hf, if_true]

theorem playFrom_terminated (h : next Headless.screen g = .ok .terminated g') :
    playFrom Headless.screen (n + 1) past g =
      .ok { outcomes := past.reverse, terminated := true } g' :=
  bind_of_ok h

theorem playFrom_congr (h : next Headless.screen g = next Headless.screen g') :
    playFrom Headless.screen (n + 1) past g = playFrom Headless.screen (n + 1) past g' := by
  unfold playFrom
  cases hg : next Headless.screen g' with
  | ok step g₁ => rw [bind_of_ok (h.trans hg), bind_of_ok hg]
  | error e g₁ => rw [bind_of_error (h.trans hg), bind_of_error hg]

/-- Playing on ends the story, having got through outcomes at the given nodes beyond those of
`past`. -/
def Finishes (g : Game Headless) (limit : Nat) (past : List Outcome) (nodes : List NodeId) : Prop :=
  ∃ progress g', playFrom Headless.screen limit past g = .ok progress g' ∧
    progress.terminated = true ∧ progress.blocked = none ∧
      progress.outcomes.map (·.node) = past.reverse.map (·.node) ++ nodes

theorem Finishes.congr {past' : List Outcome} {limit' : Nat} {nodes' : List NodeId}
    (h : Finishes g' limit' past' nodes')
    (hp : playFrom Headless.screen limit past g = playFrom Headless.screen limit' past' g')
    (hn : past'.reverse.map (·.node) ++ nodes' = past.reverse.map (·.node) ++ nodes) :
    Finishes g limit past nodes := by
  obtain ⟨progress, g₁, hplay, hterm, hblocked, houtcomes⟩ := h
  exact ⟨progress, g₁, hp.trans hplay, hterm, hblocked, houtcomes.trans hn⟩

theorem length_within_turn (hrow : row = [] ∨ row ∈ t.rows) (ts : List Tree) :
    (within (row ++ ts)).length < (within (t :: ts)).length := by
  have hle : (within row).length ≤ (within t.kids).length := by
    rcases hrow with rfl | hrow
    · simp [within]
    · exact ((List.sublist_flatten_of_mem hrow).flatMap all).length_le
  rw [within_append, within_cons, all_eq_kids, List.length_append, List.length_append,
    List.length_cons]
  omega

theorem not_mem_tops (h : Distinct F) (ht : t ∈ within F.flatten) (v : Outlook) :
    ∀ s ∈ (t.turn v).1, s.node ∉ Tree.nodes F.flatten := by
  intro s hs hmem
  obtain ⟨x, hx, he⟩ := List.mem_map.1 hmem
  have hkid : s.node ∈ Tree.nodes t.kids := by
    rcases t.turn_row v with hrow | hrow
    · rw [hrow] at hs
      cases hs
    · exact mem_nodes_kids hrow (List.mem_map.2 ⟨s, hs, rfl⟩)
  exact h.not_mem_kids hx ht (he ▸ hkid)

/-! ### To the end -/

/-- The turn of the first tree, in one step or two, and then what is left. -/
theorem finishes_of_turn {later : List Tree} (hstory : g.live.story.isSome)
    (hp : g.live.pending = none) (hcur : g.live.current = some t.node) (hc : g.world.Carries F)
    (ha : Ready F g.world.graph (t :: rest))
    (hlimit : 2 * (traceRow (t :: rest ++ later) g.stage.outlook).1.length < limit)
    (hrest : ∀ g' o limit', SamePlace (g.live.reach t.node) g'.live →
      Stood F g' ((t.turn g.stage.outlook).1 ++ rest) (t.turn g.stage.outlook).2 →
      2 * (traceRow ((t.turn g.stage.outlook).1 ++ rest ++ later)
        (t.turn g.stage.outlook).2).1.length < limit' →
      Finishes g' limit' (o :: past) (traceRow ((t.turn g.stage.outlook).1 ++ rest ++ later)
        (t.turn g.stage.outlook).2).1) :
    Finishes g limit past (traceRow (t :: rest ++ later) g.stage.outlook).1 := by
  obtain ⟨step, g₁, o, hexec, hnode, hplace, hstep⟩ := execute_node hc hp ha
  have hnext : next Headless.screen g = .ok step g₁ := by
    rw [next_of_idle hstory hp]
    have haim : g.live.aim = g.live := by
      unfold Live.aim
      rw [hcur]
      rfl
    rw [haim, hcur]
    exact hexec
  rw [List.cons_append, traceRow_cons, ← List.append_assoc] at hlimit ⊢
  rw [List.length_cons] at hlimit
  have hnodes : ∀ nodes : List NodeId, (o :: past).reverse.map (·.node) ++ nodes =
      past.reverse.map (·.node) ++ t.node :: nodes := by
    intro nodes
    simp [hnode]
  -- one step, or two where the outcome has to be waited for
  rcases hstep with ⟨rfl, hstood⟩ | ⟨f, rfl, hsolved, hwaiting⟩
  · obtain ⟨m, rfl⟩ : ∃ m, limit = m + 1 := ⟨limit - 1, by omega⟩
    exact (hrest g₁ o m hplace hstood (by omega)).congr (playFrom_advanced hnext) (hnodes _)
  · obtain ⟨m, rfl⟩ : ∃ m, limit = m + 1 + 1 := ⟨limit - 2, by omega⟩
    have hstory₁ : g₁.live.story.isSome := by
      rw [hplace.story]
      unfold Live.reach
      split <;> exact hstory
    obtain ⟨g₂, hnext₂, hplace₂, hstood⟩ := next_of_waiting hwaiting hstory₁
    refine (hrest g₂ o m ⟨?_, ?_, ?_, ?_⟩ hstood (by omega)).congr
      ((playFrom_suspended hnext hsolved).trans (playFrom_advanced hnext₂)) (hnodes _)
    · exact hplace₂.story.trans hplace.story
    · exact hplace₂.units.trans hplace.units
    · exact hplace₂.unit.trans hplace.unit
    · exact hplace₂.started.trans hplace.started

/-- **From any place** the story is played to its end, along the trace of what is left. -/
theorem playFrom_of_placed (hstory : g.live.story.isSome) (hstarted : g.live.started = true)
    (hg : Stood F g (inner ++ top) v) (hplaced : Placed F g.live inner top rows)
    (hlimit : 2 * (traceRow (inner ++ top ++ rows.flatten) v).1.length < limit) :
    Finishes g limit past (traceRow (inner ++ top ++ rows.flatten) v).1 := by
  generalize hsize : (within (inner ++ top ++ rows.flatten)).length = size
  induction size using Nat.strongRecOn generalizing g inner top rows v limit past with
  | _ size ih =>
    -- an agenda that is not empty starts with a turn
    have hturn : ∀ {g : Game Headless} {inner top : List Tree} {rows : List (List Tree)} {t : Tree}
        {rest : List Tree}, g.live.story.isSome → Stood F g (inner ++ top) v →
        Placed F g.live inner top rows → inner ++ top = t :: rest →
        (within (inner ++ top ++ rows.flatten)).length = size →
        2 * (traceRow (inner ++ top ++ rows.flatten) v).1.length < limit →
        Finishes g limit past (traceRow (inner ++ top ++ rows.flatten) v).1 := by
      intro g inner top rows t rest hstory hg hplaced he hsize hlimit
      obtain ⟨hc, hp, hcur, hready, rfl⟩ := hg
      rw [he] at hcur hready hsize hlimit ⊢
      refine finishes_of_turn hstory hp hcur hc hready hlimit fun g' o limit' hl hstood hlim => ?_
      obtain ⟨inner', top', he', hplaced'⟩ := hplaced.reach he
        (not_mem_tops hc.inSequence.distinct hready.head_mem g.stage.outlook)
      rw [he'] at hstood hlim ⊢
      refine ih _ ?_ ?_ ?_ hstood (hplaced'.congr hl) hlim rfl
      · rw [← hsize, ← he', List.append_assoc]
        exact length_within_turn (t.turn_row _) _
      · rw [hl.story, Live.story_reach]
        exact hstory
      · rw [hl.started, Live.started_reach]
    cases he : inner ++ top with
    | cons t rest =>
      rw [← he]
      exact hturn hstory hg hplaced he hsize hlimit
    | nil =>
      obtain ⟨rfl, rfl⟩ := List.append_eq_nil_iff.1 he
      obtain ⟨hc, hp, hcur, hready, rfl⟩ := hg
      have hnone : g.live.current.isNone := by
        rw [hcur]
        rfl
      have haim : g.live.aim = { g.live.nextUnit.2 with current := g.live.nextUnit.1 } := if_pos hnone
      obtain ⟨m, rfl⟩ : ∃ m, limit = m + 1 := ⟨limit - 1, by omega⟩
      rcases hplaced.nextUnit hstarted with ⟨hrows, hnext⟩ | ⟨t, rest, rows', hF, hrows, hnext, hpl⟩
      · -- the story ends
        have hend : next Headless.screen g =
            .ok .terminated { g with live := { g.live.aim with terminated := true } } := by
          rw [next_of_idle hstory hp, haim, hnext]
        refine ⟨_, _, playFrom_terminated hend, rfl, rfl, ?_⟩
        simp [hrows, traceRow]
      · -- the next top row is begun
        have hcur₁ : g.live.aim.current = some t.node := by rw [haim, hnext]
        have haim₁ : g.live.aim.aim = g.live.aim := by
          rw [Live.aim, hcur₁]
          rfl
        have hp₁ : g.live.aim.pending = none := by rw [Live.pending_aim, hp]
        have hstory₁ : g.live.aim.story.isSome := by
          rw [haim, Live.nextUnit]
          simp only
          split <;> exact hstory
        have hsame : next Headless.screen g = next Headless.screen { g with live := g.live.aim } := by
          rw [next_of_idle hstory hp, next_of_idle hstory₁ hp₁]
          simp only [haim₁]
        have hopen : Ready F g.world.graph (t :: rest) := hc.inSequence.opening (l := []) hF
        have hplaced₁ : Placed F g.live.aim [] (t :: rest) rows' := by
          refine hpl.congr ?_
          rw [haim]
          exact ⟨rfl, rfl, rfl, rfl⟩
        simp only [List.nil_append] at hsize hlimit ⊢
        rw [hrows] at hsize hlimit ⊢
        have hfin := @hturn { g with live := g.live.aim } [] (t :: rest) rows' t rest hstory₁
          ⟨hc, hp₁, hcur₁, hopen, rfl⟩ hplaced₁ rfl hsize hlimit
        exact hfin.congr (playFrom_congr hsame) rfl

end Play

end Storyline
