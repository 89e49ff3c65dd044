import Mathlib.Data.List.Basic
import Storyline.Proofs.Effect
import Storyline.Proofs.Log

/-!
# Nothing is lost in a log

* `Log.Op`, `Log.Op.run`: the calls of a log as data. A call keeps what it did when it fails, and
  committing a single record is made of the three calls that it stands for;
* `Log.session`: calls one after the other on a new log, with their answers;
* `Log.books`: what those answers tell alone: the records of each commit, the records that were pushed
  since, and the commits that were taken;
* `Log.Balanced`: a log and its books agree, which `Log.balanced_session` shows of every session;
* `Log.session_conserves`: every record is in the buffer, in one live commit or in one answer.
-/

namespace Storyline

open Effect

namespace Log

variable {ρ : Type} {α : Type}

/-! ### Calls -/

/-- The calls of a log. -/
inductive Op (ρ : Type) where
  | start
  | push (r : ρ)
  | commit
  | commitWith (r : ρ)
  /-- Takes the commit of a token, or the latest one. -/
  | take (token? : Option Nat)

/-- What calls answer that succeed. -/
inductive Reply (ρ : Type) where
  | done
  | token (t : Nat)
  | records (rs : List ρ)

/-- Changes of a log that keep what they did when they fail. -/
abbrev Edit (ρ : Type) := EStateM LogError (Log ρ)

/-- A single change, which leaves the log as it is when it fails. -/
def attempt (f : Log ρ → Except LogError (α × Log ρ)) : Edit ρ α := fun l =>
  match f l with
  | .ok (a, l') => .ok a l'
  | .error e => .error e l

def opening : Edit ρ Unit := attempt fun l => l.start.map ((), ·)

def pushing (r : ρ) : Edit ρ Unit := attempt fun l => (l.push r).map ((), ·)

/-- Starting, pushing one record and committing, one after the other. -/
def committing (r : ρ) : Edit ρ Nat := do
  opening
  pushing r
  attempt commit

/-- What a call does to a log. -/
def Op.run : Op ρ → Edit ρ (Reply ρ)
  | start => do
    opening
    return .done
  | push r => do
    pushing r
    return .done
  | commit => return .token (← attempt Log.commit)
  | commitWith r => return .token (← committing r)
  | take token? => return .records (← attempt (·.take token?))

/-- A call with its answer. -/
structure Event (ρ : Type) where
  op : Op ρ
  answer : Except LogError (Reply ρ)

/-- Calls one after the other on a new log, the last one first: the calls with their answers, and the
log that they leave. -/
def session : List (Op ρ) → List (Event ρ) × Log ρ
  | [] => ([], .empty)
  | op :: earlier =>
    match op.run (session earlier).2 with
    | .ok a l => (⟨op, .ok a⟩ :: (session earlier).1, l)
    | .error e l => (⟨op, .error e⟩ :: (session earlier).1, l)

/-! ### What the answers tell -/

/-- The records that were accepted, in their order. -/
def accepted : List (Event ρ) → List ρ
  | [] => []
  | ⟨.push r, .ok _⟩ :: past => accepted past ++ [r]
  | ⟨.commitWith r, .ok _⟩ :: past => accepted past ++ [r]
  | _ :: past => accepted past

/-- The tokens that were answered, in their order. -/
def tokens : List (Event ρ) → List Nat
  | [] => []
  | ⟨_, .ok (.token t)⟩ :: past => tokens past ++ [t]
  | _ :: past => tokens past

/-- The lists of records that were answered, in their order. -/
def answered : List (Event ρ) → List (List ρ)
  | [] => []
  | ⟨_, .ok (.records rs)⟩ :: past => answered past ++ [rs]
  | _ :: past => answered past

/-- What is known of a log without looking at it. -/
structure Books (ρ : Type) where
  /-- The records of all commits, by their tokens. -/
  made : List (List ρ) := []
  /-- The records that were pushed since the last commit. -/
  since : List ρ := []
  /-- The tokens of the commits that were taken, in the order of their being taken. -/
  taken : List Nat := []

namespace Books

/-- The tokens of the commits that were not taken, in ascending order. -/
def live (b : Books ρ) : List Nat := (List.range b.made.length).filter (· ∉ b.taken)

/-- What stands in the place of each commit. -/
def places (b : Books ρ) : List (Option (List ρ)) :=
  b.made.mapIdx fun t rs => if t ∈ b.taken then none else some rs

/-- The records of a commit. -/
def records (b : Books ρ) (t : Nat) : List ρ := b.made.getD t []

/-- What a call that succeeds adds: a commit has the records that were pushed since the one before,
and without a token the greatest one is meant that is live. -/
def add (b : Books ρ) : Op ρ → Books ρ
  | .start => b
  | .push r => { b with since := b.since ++ [r] }
  | .commit => { b with made := b.made ++ [b.since], since := [] }
  | .commitWith r => { b with made := b.made ++ [b.since ++ [r]], since := [] }
  | .take token? => { b with taken := b.taken ++ (token?.or b.live.getLast?).toList }

end Books

/-- The books of a session. -/
def books : List (Event ρ) → Books ρ
  | [] => {}
  | ⟨op, .ok _⟩ :: past => (books past).add op
  | ⟨_, .error _⟩ :: past => books past

/-! ### Single calls -/

section Calls

variable {l l' : Log ρ} {r : ρ} {t : Nat} {e : LogError}

theorem attempt_of_ok {f : Log ρ → Except LogError (α × Log ρ)} {a : α} (h : f l = .ok (a, l')) :
    attempt f l = .ok a l' := by
  unfold attempt
  rw [h]

theorem attempt_of_error {f : Log ρ → Except LogError (α × Log ρ)} (h : f l = .error e) :
    attempt f l = .error e l := by
  unfold attempt
  rw [h]

theorem eq_of_attempt_error {f : Log ρ → Except LogError (α × Log ρ)}
    (h : attempt f l = .error e l') : l' = l := by
  unfold attempt at h
  split at h
  · cases h
  · exact (EStateM.Result.error.inj h).2.symm

theorem length_committed (l : Log ρ) (rs : List ρ) : l.size + 1 = (some rs :: l.recent).length :=
  congrArg (· + 1) l.size_eq

/-- The log after a commit of the given records. -/
def committed (l : Log ρ) (rs : List ρ) : Log ρ :=
  ⟨some rs :: l.recent, l.size + 1, none, length_committed l rs⟩

/-- **Committing a single record** is one change: it fails at its start or not at all. -/
theorem committing_eq (r : ρ) : committing r = attempt (commitWith · r) := by
  funext l
  unfold committing commitWith start
  cases hb : l.buffer with
  | some rs =>
    have hopen : opening l = .error .alreadyStarted l :=
      attempt_of_error (by unfold start; rw [hb]; rfl)
    rw [bind_of_error hopen]
    exact (attempt_of_error (by rw [hb]; rfl)).symm
  | none =>
    have hopen : opening l = .ok () { l with buffer := some [] } :=
      attempt_of_ok (by unfold start; rw [hb]; rfl)
    have hcommit : attempt (commitWith · r) l = .ok l.size (l.committed [r]) :=
      attempt_of_ok (by unfold commitWith start; rw [hb]; rfl)
    rw [bind_of_ok hopen]
    exact hcommit.symm

theorem length_emptied (l : Log ρ) (t : Nat) :
    l.size = (l.recent.set (l.place t) none).length := by
  rw [List.length_set, l.size_eq]

/-- The log after a commit was taken. -/
def emptied (l : Log ρ) (t : Nat) : Log ρ :=
  ⟨l.recent.set (l.place t) none, l.size, l.buffer, length_emptied l t⟩

/-- What a call needs that succeeds, what it answers and what it leaves. -/
def Op.Does (l : Log ρ) (a : Reply ρ) (l' : Log ρ) : Op ρ → Prop
  | start => l.buffer = none ∧ a = .done ∧ l' = { l with buffer := some [] }
  | push r => ∃ rs, l.buffer = some rs ∧ a = .done ∧ l' = { l with buffer := some (rs ++ [r]) }
  | commit => ∃ rs, l.buffer = some rs ∧ a = .token l.size ∧ l' = l.committed rs
  | commitWith r => l.buffer = none ∧ a = .token l.size ∧ l' = l.committed [r]
  | take token? => ∃ t rs, token?.or l.latest? = some t ∧ l.commit? t = some rs ∧
      a = .records rs ∧ l' = l.emptied t

theorem attempt_eq_ok {f : Log ρ → Except LogError (α × Log ρ)} {a : α} :
    attempt f l = .ok a l' ↔ f l = .ok (a, l') := by
  unfold attempt
  cases f l with
  | ok p => simp [Prod.ext_iff]
  | error e => simp

theorem commitWith_eq_ok {p : Nat × Log ρ} (h : l.commitWith r = .ok p) :
    l.buffer = none ∧ p = (l.size, l.committed [r]) := by
  unfold commitWith start at h
  cases hb : l.buffer with
  | some rs =>
    rw [hb] at h
    cases h
  | none =>
    rw [hb] at h
    exact ⟨rfl, (Except.ok.inj h).symm⟩

theorem take_eq {token? : Option Nat} (l : Log ρ) :
    l.take token? = match token?.or l.latest? with
      | none => .error (.invalidToken 0 l.size)
      | some t => match l.commit? t with
        | some rs => .ok (rs, l.emptied t)
        | none => .error (.invalidToken t l.size) := by
  cases token? <;> rfl

/-- **What a call does** that succeeds. -/
theorem Op.does_of_run {op : Op ρ} {a : Reply ρ} (h : op.run l = .ok a l') : op.Does l a l' := by
  -- each call is its pure counterpart, whose branches give what the call does
  cases op with
  | start =>
    obtain ⟨u, l₁, hl, hret⟩ := bind_apply_eq_ok.1 h
    obtain ⟨rfl, rfl⟩ := EStateM.Result.ok.inj hret
    have hstart := attempt_eq_ok.1 hl
    unfold Log.start at hstart
    split at hstart
    · cases hstart
    · rename_i hb
      exact ⟨hb, rfl, (Prod.ext_iff.1 (Except.ok.inj hstart)).2.symm⟩
  | push r =>
    obtain ⟨u, l₁, hl, hret⟩ := bind_apply_eq_ok.1 h
    obtain ⟨rfl, rfl⟩ := EStateM.Result.ok.inj hret
    have hpush := attempt_eq_ok.1 hl
    unfold Log.push at hpush
    split at hpush
    · rename_i rs hb
      exact ⟨rs, hb, rfl, (Prod.ext_iff.1 (Except.ok.inj hpush)).2.symm⟩
    · cases hpush
  | commit =>
    obtain ⟨t, l₁, hl, hret⟩ := bind_apply_eq_ok.1 h
    obtain ⟨rfl, rfl⟩ := EStateM.Result.ok.inj hret
    have hcommit := attempt_eq_ok.1 hl
    unfold Log.commit at hcommit
    split at hcommit
    · rename_i rs hb
      obtain ⟨rfl, rfl⟩ := Prod.mk.inj (Except.ok.inj hcommit)
      exact ⟨rs, hb, rfl, rfl⟩
    · cases hcommit
  | commitWith r =>
    obtain ⟨t, l₁, hl, hret⟩ := bind_apply_eq_ok.1 h
    obtain ⟨rfl, rfl⟩ := EStateM.Result.ok.inj hret
    rw [committing_eq] at hl
    obtain ⟨hb, hp⟩ := commitWith_eq_ok (attempt_eq_ok.1 hl)
    obtain ⟨rfl, rfl⟩ := Prod.mk.inj hp
    exact ⟨hb, rfl, rfl⟩
  | take token? =>
    obtain ⟨rs, l₁, hl, hret⟩ := bind_apply_eq_ok.1 h
    obtain ⟨rfl, rfl⟩ := EStateM.Result.ok.inj hret
    have htake := attempt_eq_ok.1 hl
    rw [take_eq] at htake
    split at htake
    · cases htake
    · rename_i t ht
      split at htake
      · rename_i rs' hc
        obtain ⟨rfl, rfl⟩ := Prod.mk.inj (Except.ok.inj htake)
        exact ⟨t, rs', ht, hc, rfl, rfl⟩
      · cases htake

/-- **A call that fails** leaves the log as it was. -/
theorem Op.eq_of_run_error {op : Op ρ} (h : op.run l = .error e l') : l' = l := by
  have hbind : ∀ {β : Type} {f : Log ρ → Except LogError (β × Log ρ)} {k : β → Reply ρ},
      (do return k (← attempt f) : Edit ρ (Reply ρ)) l = .error e l' → l' = l := by
    intro β f k hk
    cases hf : attempt f l with
    | ok b l₁ =>
      rw [bind_of_ok hf] at hk
      cases hk
    | error e₁ l₁ =>
      rw [bind_of_error hf] at hk
      obtain ⟨rfl, rfl⟩ := EStateM.Result.error.inj hk
      exact eq_of_attempt_error hf
  cases op with
  | start => exact hbind (k := fun _ => .done) h
  | push r => exact hbind (k := fun _ => .done) h
  | commit => exact hbind h
  | commitWith r =>
    refine hbind (f := (Log.commitWith · r)) (k := .token) ?_
    rw [← committing_eq]
    exact h
  | take token? => exact hbind h

end Calls

/-! ### Places -/

section Places

variable {l : Log ρ} {b : Books ρ} {t : Nat}

theorem Books.length_places (b : Books ρ) : b.places.length = b.made.length :=
  List.length_mapIdx

theorem Books.getElem?_places (b : Books ρ) (t : Nat) :
    b.places[t]? = if t < b.made.length then some (if t ∈ b.taken then none else some (b.records t))
      else none := by
  unfold places records
  rw [List.getElem?_mapIdx]
  by_cases h : t < b.made.length
  · simp [h]
  · simp [h]

theorem Books.mem_live (b : Books ρ) : t ∈ b.live ↔ t < b.made.length ∧ t ∉ b.taken := by
  unfold live
  simp

theorem commit?_of_places (h : l.commits = b.places) (t : Nat) :
    l.commit? t = if t ∈ b.live then some (b.records t) else none := by
  rw [commit?_eq, h, b.getElem?_places]
  by_cases hlt : t < b.made.length
  · by_cases ht : t ∈ b.taken <;> simp [b.mem_live, hlt, ht]
  · simp [b.mem_live, hlt]

theorem size_of_places (h : l.commits = b.places) : l.size = b.made.length := by
  rw [← l.length_commits, h, b.length_places]

/-- The latest commit is the last one whose place is not empty. -/
theorem getLast?_filled (places : List (Option (List ρ))) :
    (places.findIdx? Option.isSome).map (places.length - 1 - ·) =
      ((List.range places.length).filter fun t => (places.reverse[t]?.join).isSome).getLast? := by
  induction places with
  | nil => rfl
  | cons place rest ih =>
    have hlast : (place :: rest).reverse[rest.length]? = some place := by simp
    have hrest : ∀ t ∈ List.range rest.length,
        ((place :: rest).reverse[t]?.join).isSome = (rest.reverse[t]?.join).isSome := by
      intro t ht
      rw [List.reverse_cons, List.getElem?_append_left (by simpa using ht)]
    rw [List.length_cons, List.range_succ, List.filter_append, List.filter_congr hrest,
      List.findIdx?_cons]
    cases place with
    | none =>
      rw [List.filter_cons_of_neg (by rw [hlast]; simp), List.filter_nil, List.append_nil, ← ih]
      cases rest.findIdx? Option.isSome with
      | none => rfl
      | some i => simp; omega
    | some rs =>
      rw [List.filter_cons_of_pos (by rw [hlast]; simp), List.filter_nil, List.getLast?_append]
      simp

theorem latest?_of_places (h : l.commits = b.places) : l.latest? = b.live.getLast? := by
  have hfilled := getLast?_filled l.recent
  rw [← l.size_eq] at hfilled
  unfold latest?
  rw [hfilled, size_of_places h]
  unfold Books.live
  congr 1
  refine List.filter_congr fun t ht => ?_
  have hlt : t < b.made.length := List.mem_range.1 ht
  rw [show l.recent.reverse = b.places from h, b.getElem?_places, if_pos hlt]
  by_cases htaken : t ∈ b.taken <;> simp [htaken]

theorem commits_emptied (l : Log ρ) (h : t < l.size) : (l.emptied t).commits = l.commits.set t none := by
  unfold commits emptied place
  refine List.ext_getElem? fun i => ?_
  have hsize := l.size_eq
  simp only [List.getElem?_set, List.length_reverse]
  by_cases hi : i < l.recent.length
  · rw [List.getElem?_reverse (by simpa using hi), List.getElem?_reverse hi, List.getElem?_set,
      List.length_set]
    have hinside : l.recent.length - 1 - i < l.recent.length := by omega
    rw [hsize]
    by_cases hti : t = i
    · subst hti
      simp [hi, hinside]
    · have hplace : ¬ l.recent.length - 1 - t = l.recent.length - 1 - i := by omega
      simp [hti, hplace, hinside]
  · rw [List.getElem?_eq_none (by simpa using hi), List.getElem?_eq_none (by simpa using hi)]
    simp
    omega

theorem Books.places_take (b : Books ρ) (h : t < b.made.length) :
    ({ b with taken := b.taken ++ [t] } : Books ρ).places = b.places.set t none := by
  refine List.ext_getElem? fun i => ?_
  rw [getElem?_places, List.getElem?_set, b.length_places, b.getElem?_places]
  by_cases hi : i < b.made.length
  · by_cases hti : t = i
    · subst hti
      simp [hi]
    · have hit : ¬ i = t := fun e => hti e.symm
      simp [hi, hti, hit, records]
  · have hti : ¬ t = i := by omega
    simp [hi, hti]

theorem Books.places_commit {b : Books ρ} {since rs : List ρ} (h : ∀ t ∈ b.taken, t < b.made.length) :
    ({ b with made := b.made ++ [rs], since } : Books ρ).places = b.places ++ [some rs] := by
  unfold places
  have hlast : b.made.length ∉ b.taken := fun hmem => Nat.lt_irrefl _ (h _ hmem)
  simp [List.mapIdx_append, hlast]

end Places

/-! ### Sessions -/

section Sessions

variable {past : List (Event ρ)} {l l' : Log ρ} {op : Op ρ} {a : Reply ρ}

/-- **A log and its books agree.** -/
structure Balanced (past : List (Event ρ)) (l : Log ρ) : Prop where
  buffer_eq : l.buffer.getD [] = (books past).since
  commits_eq : l.commits = (books past).places
  tokens_eq : tokens past = List.range l.size
  accepted_eq : accepted past = (books past).made.flatten ++ (books past).since
  answered_eq : answered past = (books past).taken.map (books past).records
  nodup_taken : (books past).taken.Nodup
  lt_of_taken : ∀ t ∈ (books past).taken, t < (books past).made.length

namespace Balanced

/-- A commit has the records that were pushed since the one before. -/
theorem commit {rs : List ρ} (h : Balanced past l) (hop : accepted (⟨op, .ok (.token l.size)⟩ :: past) =
      (books past).made.flatten ++ rs)
    (hadd : (books past).add op = { books past with made := (books past).made ++ [rs], since := [] }) :
    Balanced (⟨op, .ok (.token l.size)⟩ :: past) (l.committed rs) := by
  have hbooks : books (⟨op, .ok (.token l.size)⟩ :: past) =
      { books past with made := (books past).made ++ [rs], since := [] } := hadd
  -- the new commit has the last place, behind which nothing is taken
  refine ⟨?_, ?_, ?_, ?_, ?_, ?_, fun t ht => ?_⟩
  · rw [hbooks]
    rfl
  · rw [hbooks, Books.places_commit h.lt_of_taken, ← h.commits_eq]
    exact List.reverse_cons
  · show tokens past ++ [l.size] = List.range (l.size + 1)
    rw [h.tokens_eq, List.range_succ]
  · rw [hop, hbooks]
    simp
  · rw [hbooks]
    refine h.answered_eq.trans (List.map_congr_left fun t ht => ?_)
    unfold Books.records
    have hlt := h.lt_of_taken t ht
    simp [List.getElem?_append_left hlt, hlt]
  · rw [hbooks]
    exact h.nodup_taken
  · rw [hbooks] at ht ⊢
    have hlt := h.lt_of_taken t ht
    simp
    omega

theorem take {t : Nat} {token? : Option Nat} {rs : List ρ} (h : Balanced past l)
    (ht : token?.or l.latest? = some t) (hc : l.commit? t = some rs) :
    Balanced (⟨.take token?, .ok (.records rs)⟩ :: past) (l.emptied t) := by
  rw [commit?_of_places h.commits_eq] at hc
  split at hc
  · rename_i hlive
    obtain rfl := Option.some.inj hc
    obtain ⟨hlt, hnew⟩ := (books past).mem_live.1 hlive
    have hbooks : books (⟨.take token?, .ok (.records ((books past).records t))⟩ :: past) =
        { books past with taken := (books past).taken ++ [t] } := by
      rw [latest?_of_places h.commits_eq] at ht
      show (books past).add (.take token?) = _
      unfold Books.add
      simp only [ht]
      rfl
    have hsize := size_of_places h.commits_eq
    -- the records taken go over to the answers, and the place is marked as taken
    refine ⟨?_, ?_, h.tokens_eq, ?_, ?_, ?_, fun t' ht' => ?_⟩
    · rw [hbooks]
      exact h.buffer_eq
    · rw [hbooks, Books.places_take _ hlt, ← h.commits_eq, commits_emptied l (by omega)]
    · rw [hbooks]
      exact h.accepted_eq
    · rw [hbooks]
      show answered past ++ [(books past).records t] = _
      rw [h.answered_eq]
      simp [Books.records]
    · rw [hbooks]
      refine List.nodup_append.2 ⟨h.nodup_taken, List.pairwise_singleton _ t, fun x hx y hy => ?_⟩
      obtain rfl := List.mem_singleton.1 hy
      exact fun e => hnew (e ▸ hx)
    · rw [hbooks] at ht' ⊢
      rcases List.mem_append.1 ht' with ht' | ht'
      · exact h.lt_of_taken t' ht'
      · exact List.mem_singleton.1 ht' ▸ hlt
  · cases hc

/-- **Every call** keeps the books right. -/
theorem step (h : Balanced past l) (hd : op.Does l a l') : Balanced (⟨op, .ok a⟩ :: past) l' := by
  -- what is buffered was accepted since the last commit, by which each call is accounted for
  cases op with
  | start =>
    obtain ⟨hb, rfl, rfl⟩ := hd
    refine ⟨?_, h.commits_eq, h.tokens_eq, h.accepted_eq, h.answered_eq, h.nodup_taken, h.lt_of_taken⟩
    have hbuffer := h.buffer_eq
    rw [hb] at hbuffer
    exact hbuffer
  | push r =>
    obtain ⟨rs, hb, rfl, rfl⟩ := hd
    have hbuffer := h.buffer_eq
    rw [hb] at hbuffer
    obtain rfl : rs = (books past).since := hbuffer
    refine ⟨rfl, h.commits_eq, h.tokens_eq, ?_, h.answered_eq, h.nodup_taken, h.lt_of_taken⟩
    show accepted past ++ [r] = (books past).made.flatten ++ ((books past).since ++ [r])
    rw [h.accepted_eq, List.append_assoc]
  | commit =>
    obtain ⟨rs, hb, rfl, rfl⟩ := hd
    have hbuffer := h.buffer_eq
    rw [hb] at hbuffer
    obtain rfl : rs = (books past).since := hbuffer
    exact h.commit h.accepted_eq rfl
  | commitWith r =>
    obtain ⟨hb, rfl, rfl⟩ := hd
    have hbuffer := h.buffer_eq
    rw [hb] at hbuffer
    have hsince : (books past).since = [] := hbuffer.symm
    have haccepted : accepted past ++ [r] = (books past).made.flatten ++ [r] := by
      rw [h.accepted_eq, hsince, List.append_nil]
    refine h.commit haccepted ?_
    unfold Books.add
    simp only [hsince]
    rfl
  | take token? =>
    obtain ⟨t, rs, ht, hc, rfl, rfl⟩ := hd
    exact h.take ht hc

theorem fails {e : LogError} (h : Balanced past l) : Balanced (⟨op, .error e⟩ :: past) l := by
  have htokens : tokens (⟨op, .error e⟩ :: past) = tokens past := by cases op <;> rfl
  have haccepted : accepted (⟨op, .error e⟩ :: past) = accepted past := by cases op <;> rfl
  have hanswered : answered (⟨op, .error e⟩ :: past) = answered past := by cases op <;> rfl
  exact ⟨h.buffer_eq, h.commits_eq, htokens.trans h.tokens_eq, haccepted.trans h.accepted_eq,
    hanswered.trans h.answered_eq, h.nodup_taken, h.lt_of_taken⟩

end Balanced

/-- **The books of every session** agree with the log. -/
theorem balanced_session (calls : List (Op ρ)) : Balanced (session calls).1 (session calls).2 := by
  induction calls with
  | nil => exact ⟨rfl, rfl, rfl, rfl, rfl, .nil, nofun⟩
  | cons op earlier ih =>
    unfold session
    cases hr : op.run (session earlier).2 with
    | ok a l => exact ih.step (Op.does_of_run hr)
    | error e l =>
      obtain rfl := Op.eq_of_run_error hr
      exact ih.fails

/-! ### Where the records are -/

theorem Books.filterMap_places (b : Books ρ) : b.places.filterMap id = b.live.map b.records := by
  have hplaces : b.places = (List.range b.made.length).map fun t =>
      if t ∈ b.taken then none else some (b.records t) := by
    refine List.ext_getElem? fun t => ?_
    rw [b.getElem?_places, List.getElem?_map]
    by_cases ht : t < b.made.length <;> simp [ht]
  rw [hplaces, live, List.filterMap_map, ← List.filterMap_eq_map, List.filterMap_filter]
  refine List.filterMap_congr fun t _ => ?_
  by_cases ht : t ∈ b.taken <;> simp [ht]

theorem Balanced.perm_live (h : Balanced past l) :
    (List.range (books past).made.length).Perm ((books past).live ++ (books past).taken) := by
  have hlive : ∀ t, t ∈ (books past).live ↔ t < (books past).made.length ∧ t ∉ (books past).taken :=
    fun t => (books past).mem_live
  refine (List.perm_ext_iff_of_nodup List.nodup_range ?_).2 fun t => ?_
  · refine List.nodup_append.2 ⟨List.nodup_range.filter _, h.nodup_taken, fun x hx y hy e => ?_⟩
    exact ((hlive x).1 hx).2 (e ▸ hy)
  · rw [List.mem_range, List.mem_append, hlive]
    by_cases ht : t ∈ (books past).taken
    · simp [ht, h.lt_of_taken t ht]
    · simp [ht]

/-- **Every record that was accepted is in one place**: in the buffer, in a commit that is live, or in
an answer that was given. -/
theorem Balanced.perm_accepted (h : Balanced past l) :
    (accepted past).Perm
      (l.buffer.getD [] ++ (l.commits.filterMap id).flatten ++ (answered past).flatten) := by
  have hmade : (books past).made =
      (List.range (books past).made.length).map (books past).records := by
    refine List.ext_getElem? fun t => ?_
    rw [List.getElem?_map]
    by_cases ht : t < (books past).made.length <;> simp [ht, Books.records]
  have hperm : (books past).made.flatten.Perm
      (((books past).live.map (books past).records).flatten ++ (answered past).flatten) := by
    rw [hmade, h.answered_eq, ← List.flatten_append, ← List.map_append]
    simpa [hmade.symm] using (h.perm_live.map (books past).records).flatten
  rw [h.accepted_eq, h.buffer_eq, h.commits_eq, Books.filterMap_places, List.append_assoc]
  exact (hperm.append_right _).trans List.perm_append_comm

end Sessions

end Log

/-! ### Taking back -/

namespace Tracked

variable {σ ρ : Type} {α : Type}

/-- Changes of a tracked state and of the store that keep what they did when they fail. -/
abbrev Mend (σ ρ : Type) := EStateM LogError (Tracked σ ρ × Store)

/-- A change of the log. -/
def onLog (edit : Log.Edit ρ α) : Mend σ ρ α := fun s =>
  match edit s.1.log with
  | .ok a log => .ok a ({ s.1 with log := log }, s.2)
  | .error e log => .error e ({ s.1 with log := log }, s.2)

variable [Undoable σ ρ]

/-- Rolls one record back. -/
def rolling (r : ρ) : Mend σ ρ Unit := modify fun s =>
  ({ s.1 with state := (Undoable.rollback r s.1.state s.2).1 },
    (Undoable.rollback r s.1.state s.2).2)

/-- Taking a commit back step by step: out of the log first, and then its records one by one, the last
one first. -/
def undoing (token? : Option Nat) : Mend σ ρ Nat := do
  let records ← onLog (Log.attempt (·.take token?))
  records.reverse.forM rolling
  return records.length

/-- Records rolled back in the order of a list. -/
def rolled (records : List ρ) (state : σ) (store : Store) : σ × Store :=
  records.foldl (fun s r => Undoable.rollback r s.1 s.2) (state, store)

theorem forM_rolling (records : List ρ) (x : Tracked σ ρ) (store : Store) :
    records.forM rolling (x, store) =
      .ok () (⟨(rolled records x.state store).1, x.log⟩, (rolled records x.state store).2) := by
  induction records generalizing x store with
  | nil => rfl
  | cons r rest ih => exact ih _ _

theorem rollbackAll_eq_rolled (records : List ρ) (state : σ) (store : Store) :
    rollbackAll records state store = rolled records.reverse state store := by
  unfold rollbackAll rolled
  rw [List.foldl_reverse]

/-- **Taking back** rolls back what was taken, the last record first. Step by step it does the same as
in one step, and where nothing can be taken all is as before. -/
theorem undo_eq (token? : Option Nat) (x : Tracked σ ρ) (store : Store) :
    match x.log.take token? with
    | .ok (rs, log) =>
      x.undo token? store = .ok (rs.length, ⟨(rolled rs.reverse x.state store).1, log⟩,
          (rolled rs.reverse x.state store).2) ∧
        undoing token? (x, store) = .ok rs.length (⟨(rolled rs.reverse x.state store).1, log⟩,
          (rolled rs.reverse x.state store).2)
    | .error e => x.undo token? store = .error e ∧ undoing token? (x, store) = .error e (x, store) := by
  unfold undoing undo
  -- both forms take the same records from the log, and roll them back in the same order
  cases ht : x.log.take token? with
  | error e =>
    have htake : onLog (Log.attempt (·.take token?)) (x, store) = .error e (x, store) := by
      unfold onLog
      rw [Log.attempt_of_error (f := (·.take token?)) ht]
    exact ⟨rfl, bind_of_error htake⟩
  | ok p =>
    obtain ⟨records, log⟩ := p
    have htake : onLog (Log.attempt (·.take token?)) (x, store) =
        .ok records ({ x with log := log }, store) := by
      unfold onLog
      rw [Log.attempt_of_ok (f := (·.take token?)) ht]
    simp only [rollbackAll_eq_rolled]
    refine ⟨trivial, ?_⟩
    rw [bind_of_ok htake, bind_of_ok (forM_rolling _ _ _)]
    rfl

end Tracked

namespace Log

variable {ρ : Type}

/-- **No record is lost or doubled.** The books of a session tell all: tokens come one after the other
from zero on, a commit has the records that were pushed since the one before, and each of them was
taken once at most. So every record that was accepted is in one place, in the order of the pushes,
also where records are numbered. A token takes the records of its commit if that is live, and no
token those of the greatest live one. A call that fails changes nothing. Taking back rolls back what
was taken, the last record first. -/
theorem session_conserves (calls : List (Op ρ)) :
    let past := (session calls).1
    let l := (session calls).2
    let b := books past
    Balanced past l ∧
    (accepted past).Perm
      (l.buffer.getD [] ++ (l.commits.filterMap id).flatten ++ (answered past).flatten) ∧
    (∀ t, l.take (some t) =
      if t ∈ b.live then .ok (b.records t, l.emptied t) else .error (.invalidToken t l.size)) ∧
    (l.take none = match b.live.getLast? with
      | some t => .ok (b.records t, l.emptied t)
      | none => .error (.invalidToken 0 l.size)) ∧
    (∀ op e l', Op.run op l = .error e l' → l' = l) ∧
    ∀ (σ : Type) [Undoable σ ρ] (state : σ) (store : Store) (token? : Option Nat),
      match l.take token? with
      | .ok (rs, l') =>
        (Tracked.mk state l).undo token? store =
            .ok (rs.length, ⟨(Tracked.rolled rs.reverse state store).1, l'⟩,
              (Tracked.rolled rs.reverse state store).2) ∧
          Tracked.undoing token? (⟨state, l⟩, store) =
            .ok rs.length (⟨(Tracked.rolled rs.reverse state store).1, l'⟩,
              (Tracked.rolled rs.reverse state store).2)
      | .error e =>
        (Tracked.mk state l).undo token? store = .error e ∧
          Tracked.undoing token? (⟨state, l⟩, store) = .error e (⟨state, l⟩, store) := by
  intro past l b
  have hb : Balanced past l := balanced_session calls
  have hcommit : ∀ t, l.commit? t = if t ∈ b.live then some (b.records t) else none :=
    commit?_of_places hb.commits_eq
  refine ⟨hb, hb.perm_accepted, fun t => ?_, ?_, fun op e l' => Op.eq_of_run_error,
    fun σ _ state store token? => Tracked.undo_eq token? ⟨state, l⟩ store⟩
  · -- a token is answered exactly while it lives, whatever was called before
    rw [take_eq, Option.some_or]
    simp only [hcommit]
    by_cases ht : t ∈ b.live <;> simp [ht]
  · rw [take_eq, Option.none_or, latest?_of_places hb.commits_eq]
    cases hlast : (books past).live.getLast? with
    | none => rfl
    | some t =>
      have hlive : t ∈ b.live := List.mem_of_getLast? hlast
      simp only [hcommit, if_pos hlive]

/-- Two commits, of which the latest one was taken, and a buffer that is open again. -/
def twoCommits : List (Op Nat) :=
  [.push 4, .start, .take none, .commitWith 3, .commit, .push 2, .push 1, .start]

theorem session_conserves_twoCommits :
    accepted (session twoCommits).1 = [1, 2, 3, 4] ∧ answered (session twoCommits).1 = [[3]] ∧
      (accepted (session twoCommits).1).Perm ([4] ++ [1, 2] ++ [3]) ∧
      (session twoCommits).2.take none = .ok ([1, 2], (session twoCommits).2.emptied 0) ∧
      ∃ l, (Op.commitWith 5).run (session twoCommits).2 = .error .alreadyStarted l ∧
        l = (session twoCommits).2 := by
  obtain ⟨hb, hperm, -, htake, hfails, -⟩ := session_conserves twoCommits
  refine ⟨rfl, rfl, hperm, htake, (session twoCommits).2, rfl, ?_⟩
  exact hfails (.commitWith 5) .alreadyStarted _ rfl

end Log

end Storyline
