import Storyline.Element.Script

/-!
# Logs and what can be taken back

* `Log.live`: the commits that have not been taken, each with its token;
* `Log.commitWith_spec`, `Log.take_latest`: a commit becomes the latest, and the latest is taken;
* `Rolling`: a record rolls back the state by one function and the store by a cleaner, if any;
* `Tracked.memory`: what is seen of a state, and of the states that taking its commits back one
  after the other leads to;
* `Tracked.memory_change`, `Tracked.undo_spec`: recorded changes push onto the memory, and taking
  the latest commit back pops.
-/

namespace Storyline

namespace Log

variable {ρ : Type} {l : Log ρ} {t : Nat} {r : ρ} {rs : List ρ} {rest : List (Nat × List ρ)}

/-! ### Live commits -/

/-- The commits in a list of places, the last one first, each with its token. -/
def liveIn : List (Option (List ρ)) → List (Nat × List ρ)
  | [] => []
  | none :: rest => liveIn rest
  | some rs :: rest => (rest.length, rs) :: liveIn rest

/-- The commits that have not been taken, the last one first, each with its token. -/
def live (l : Log ρ) : List (Nat × List ρ) := liveIn l.recent

theorem lt_length_of_mem_liveIn {places : List (Option (List ρ))} {c : Nat × List ρ}
    (hc : c ∈ liveIn places) : c.1 < places.length := by
  induction places with
  | nil => cases hc
  | cons place places ih =>
    rw [List.length_cons]
    cases place with
    | none =>
      have hlt := ih hc
      omega
    | some rs =>
      rcases List.mem_cons.1 hc with rfl | hc
      · simp
      · have hlt := ih hc
        omega

theorem lt_size_of_mem_live {c : Nat × List ρ} (hc : c ∈ l.live) : c.1 < l.size :=
  l.size_eq ▸ lt_length_of_mem_liveIn hc

/-- In front of the latest commit there are empty places only. -/
theorem liveIn_eq_cons {places : List (Option (List ρ))} (h : liveIn places = (t, rs) :: rest) :
    ∃ n older, places = List.replicate n none ++ some rs :: older ∧ older.length = t ∧
      liveIn older = rest := by
  induction places with
  | nil => cases h
  | cons place places ih =>
    cases place with
    | none =>
      obtain ⟨n, older, rfl, ht, hr⟩ := ih h
      exact ⟨n + 1, older, rfl, ht, hr⟩
    | some rs' =>
      obtain ⟨⟨rfl, rfl⟩, rfl⟩ : (places.length = t ∧ rs' = rs) ∧ liveIn places = rest := by
        simpa [liveIn] using h
      exact ⟨0, places, rfl, rfl, rfl⟩

theorem liveIn_replicate_append (n : Nat) (places : List (Option (List ρ))) :
    liveIn (List.replicate n none ++ places) = liveIn places := by
  induction n with
  | zero => rfl
  | succ n ih => exact ih

/-! ### Committing and taking -/

theorem commitWith_spec (h : l.buffer = none) (r : ρ) :
    ∃ l', l.commitWith r = .ok (l.size, l') ∧ l'.live = (l.size, [r]) :: l.live ∧
      l'.size = l.size + 1 ∧ l'.buffer = none := by
  refine ⟨⟨some [r] :: l.recent, l.size + 1, none, congrArg (· + 1) l.size_eq⟩, ?_, ?_, rfl, rfl⟩
  · unfold commitWith start
    rw [h]
    rfl
  · show (l.recent.length, [r]) :: liveIn l.recent = _
    rw [← l.size_eq]
    rfl

theorem take_latest (h : l.live = (t, rs) :: rest) :
    ∃ l', l.take none = .ok (rs, l') ∧ l'.live = rest ∧ l'.size = l.size ∧
      l'.buffer = l.buffer := by
  obtain ⟨n, older, hl, ht, hr⟩ := liveIn_eq_cons h
  have hsize : l.size = n + (older.length + 1) := by rw [l.size_eq, hl]; simp
  have hplace : l.place t = n := by unfold place; omega
  -- behind the places that were emptied the first live commit is the latest
  have hlatest : l.latest? = some t := by
    unfold latest?
    rw [hl, List.findIdx?_append]
    simp only [List.findIdx?_replicate, List.findIdx?_cons]
    simp
    omega
  have hcommit : l.commit? t = some rs := by
    unfold commit?
    rw [if_pos (by omega), hplace, hl]
    simp
  refine ⟨{ l with
      recent := l.recent.set (l.place t) none
      size_eq := by rw [List.length_set, l.size_eq] }, ?_, ?_, rfl, rfl⟩
  · unfold take
    rw [Option.orElse_none, hlatest]
    simp only [hcommit]
  · show liveIn (l.recent.set (l.place t) none) = rest
    rw [hplace, hl, List.set_append_right _ _ (by simp), liveIn_replicate_append]
    simpa [liveIn] using hr

end Log

/-! ### Rolling back -/

/-- Records that roll back the state by a function of its own and the store by a cleaner, if any. -/
class Rolling (σ : Type) (ρ : outParam Type) [Undoable σ ρ] where
  back : ρ → σ → σ
  cleaner : ρ → Option Cleaner
  rollback_eq : ∀ (r : ρ) (s : σ) (store : Store),
    Undoable.rollback r s store = (back r s, Cleaner.runIfAny (cleaner r) store)

/-- Runs cleaners, the last one first. -/
def Cleaner.runAll (cleaners : List Cleaner) (store : Store) : Store :=
  cleaners.foldr (fun clean store => clean store) store

theorem Cleaner.runAll_toList (cleaner : Option Cleaner) (store : Store) :
    runAll cleaner.toList store = runIfAny cleaner store := by
  cases cleaner <;> rfl

/-- A commit that can be taken back: what is seen after that, and the cleaners that it runs. -/
structure Past (ν : Type) where
  token : Nat
  view : ν
  cleaners : List Cleaner

/-- What is seen of a state now, and after taking back its commits, the last one first. -/
structure Memory (ν : Type) where
  view : ν
  pasts : List (Past ν)

namespace Memory

variable {ν : Type}

/-- The memory of a state that was changed by a recorded commit. -/
def push (m : Memory ν) (token : Nat) (view : ν) (cleaners : List Cleaner) : Memory ν :=
  ⟨view, ⟨token, m.view, cleaners⟩ :: m.pasts⟩

end Memory

namespace Tracked

variable {σ ρ ν : Type} [Undoable σ ρ] [Rolling σ ρ] {t : Tracked σ ρ} {view : σ → ν}

/-- What is seen of a state after taking back commits one after the other. -/
def unwind (view : σ → ν) : List (Nat × List ρ) → σ → List (Past ν)
  | [], _ => []
  | (token, records) :: rest, s =>
    ⟨token, view (records.foldr Rolling.back s), records.filterMap (Rolling.cleaner σ)⟩ ::
      unwind view rest (records.foldr Rolling.back s)

/-- What is seen of a tracked state now and after taking back its commits. -/
def memory (view : σ → ν) (t : Tracked σ ρ) : Memory ν := ⟨view t.state, unwind view t.log.live t.state⟩

theorem lt_size_of_mem_unwind {commits : List (Nat × List ρ)} {n : Nat} {s : σ} {p : Past ν}
    (h : ∀ c ∈ commits, c.1 < n) (hp : p ∈ unwind view commits s) : p.token < n := by
  induction commits generalizing s with
  | nil => cases hp
  | cons c rest ih =>
    rcases List.mem_cons.1 hp with rfl | hp
    · exact h c (by simp)
    · exact ih (fun c' hc' => h c' (by simp [hc'])) hp

theorem lt_size_of_mem_pasts {p : Past ν} (hp : p ∈ (t.memory view).pasts) :
    p.token < t.log.size :=
  lt_size_of_mem_unwind (fun _ hc => Log.lt_size_of_mem_live hc) hp

/-- Where nothing is seen of a state, nothing is seen of earlier ones either. -/
theorem unwind_const (v : ν) (commits : List (Nat × List ρ)) (s s' : σ) :
    unwind (fun _ => v) commits s = unwind (fun _ => v) commits s' := by
  induction commits generalizing s s' with
  | nil => rfl
  | cons c rest ih =>
    unfold unwind
    rw [ih]

theorem rollbackAll_eq (records : List ρ) (s : σ) (store : Store) :
    rollbackAll records s store = (records.foldr Rolling.back s,
      Cleaner.runAll (records.filterMap (Rolling.cleaner σ)) store) := by
  unfold rollbackAll
  induction records with
  | nil => rfl
  | cons r rest ih =>
    rw [List.foldr_cons, ih, Rolling.rollback_eq, List.foldr_cons, List.filterMap_cons]
    cases Rolling.cleaner σ r <;> rfl

/-- **A recorded change** pushes onto the memory, if its record leads back to what was seen. -/
theorem memory_change (h : t.log.buffer = none) (s : σ) (r : ρ)
    (hview : view (Rolling.back r s) = view t.state)
    (hpasts : unwind view t.log.live (Rolling.back r s) = unwind view t.log.live t.state) :
    (t.change s r).memory view =
        (t.memory view).push t.log.size (view s) (Rolling.cleaner σ r).toList ∧
      (t.change s r).log.size = t.log.size + 1 ∧ (t.change s r).log.buffer = none := by
  obtain ⟨l', hl', hlive, hsize, hbuffer⟩ := Log.commitWith_spec h r
  have hchange : t.change s r = ⟨s, l'⟩ := by
    unfold change record
    simp only [hl']
  rw [hchange]
  refine ⟨?_, hsize, hbuffer⟩
  unfold memory Memory.push
  simp only [hlive, unwind, List.foldr_cons, List.foldr_nil, hview, hpasts, List.filterMap_cons,
    List.filterMap_nil]
  cases Rolling.cleaner σ r <;> rfl

/-- **Taking the latest commit back** pops the memory and runs the cleaners of the commit. -/
theorem undo_spec {p : Past ν} {rest : List (Past ν)} (h : (t.memory view).pasts = p :: rest)
    (store : Store) :
    ∃ count t', t.undo none store = .ok (count, t', Cleaner.runAll p.cleaners store) ∧
      t'.memory view = ⟨p.view, rest⟩ ∧ t'.log.size = t.log.size ∧
      t'.log.buffer = t.log.buffer := by
  unfold memory at h
  cases hlive : t.log.live with
  | nil => simp [hlive, unwind] at h
  | cons c commits =>
    obtain ⟨token, records⟩ := c
    simp only [hlive, unwind, List.cons.injEq] at h
    obtain ⟨rfl, rfl⟩ := h
    obtain ⟨l', htake, hl', hsize, hbuffer⟩ := Log.take_latest hlive
    refine ⟨records.length, ⟨records.foldr Rolling.back t.state, l'⟩, ?_, ?_, hsize, hbuffer⟩
    · unfold undo
      simp only [htake, rollbackAll_eq]
    · unfold memory
      rw [hl']

end Tracked

end Storyline
