import Mathlib.Data.List.Perm.Basic
import Storyline.Proofs.Record
import Storyline.Proofs.Ron.Shuffled
import Storyline.Proofs.Ron.Tokens

/-!
# How the parts of a document are read

* `Reader.Gets r d a`: the reader `r` gets `a` from the text of the document `d`, in both layouts and
  wherever it stands;
* `Reader.Takes r d a`: so it does with the entries of all maps in any order;
* `Reader.run_block`: items between brackets are read one after the other;
* `Form.Reads f d a`: what reads with the form `f` takes `a` from `d`, where there is room for it.
-/

namespace Storyline.Ron

open Doc

variable {α σ : Type}

namespace Reader

/-- A reader gets `a` from the text of a document, whatever follows. -/
structure Gets (r : Reader α) (d : Doc) (a : α) : Prop where
  begins : ∀ l n, Begins (render l n d)
  reads : ∀ l n rest, Ends rest → r (render l n d ++ rest) = .ok (a, rest)

/-- A reader takes `a` from the text of a document with its maps in any order. -/
def Takes (r : Reader α) (d : Doc) (a : α) : Prop := ∀ d', d.Shuffled d' → r.Gets d' a

/-! ### Runs -/

/-- Texts that are read one after the other. -/
inductive Steps (step : σ → Reader σ) : List (List Char) → σ → σ → Prop
  | nil (s : σ) : Steps step [] s s
  | cons {t : List Char} {ts : List (List Char)} {s s' s'' : σ} (hb : Begins t)
      (h : ∀ rest, Ends rest → step s (t ++ rest) = .ok (s', rest)) (hs : Steps step ts s' s'') :
      Steps step (t :: ts) s s''

end Reader

/-- What stands behind an item: further items, each behind a comma, and the closing bracket. -/
def Layout.behind (l : Layout) (n : Nat) (close : Char) (rest : List Char) :
    List (List Char) → List Char
  | [] => l.last ++ (l.line n ++ close :: rest)
  | t :: ts => ',' :: (l.line (n + 1) ++ (t ++ l.behind n close rest ts))

theorem Layout.block_append (l : Layout) (n : Nat) (opening close : Char) (t : List Char)
    (ts : List (List Char)) (rest : List Char) :
    l.block n opening close (t :: ts) ++ rest =
      opening :: (l.line (n + 1) ++ (t ++ l.behind n close rest ts)) := by
  have htail : ∀ t ts, [','].intercalate ((t :: ts).map (l.line (n + 1) ++ ·)) ++
      (l.last ++ (l.line n ++ close :: rest)) = l.line (n + 1) ++ (t ++ l.behind n close rest ts) := by
    intro t ts
    induction ts generalizing t with
    | nil => simp [List.intercalate, behind]
    | cons t' ts ih =>
      rw [List.map_cons, List.map_cons, List.intercalate_cons_cons, behind, ← ih t']
      simp [List.append_assoc]
  unfold block
  rw [List.isEmpty_cons, if_neg Bool.false_ne_true, ← htail]
  simp [List.append_assoc]

theorem Layout.head?_block (l : Layout) (n : Nat) (opening close : Char) (ts : List (List Char))
    (rest : List Char) : (l.block n opening close ts ++ rest).head? = some opening := by
  unfold block
  split <;> rfl

theorem Layout.length_behind (l : Layout) (n : Nat) (close : Char) (rest : List Char)
    (ts : List (List Char)) : ts.length < (l.behind n close rest ts).length := by
  induction ts with
  | nil =>
    unfold behind
    simp
  | cons t ts ih =>
    unfold behind
    simp only [List.length_cons, List.length_append]
    omega

theorem Layout.ends_behind (l : Layout) (n : Nat) {close : Char} (hc : Stop close) (rest : List Char)
    (ts : List (List Char)) : Ends (l.behind n close rest ts) := by
  cases ts with
  | nil =>
    cases l with
    | compact => exact ends_cons hc rest
    | pretty => exact ends_cons stop_comma _
  | cons t ts => exact ends_cons stop_comma _

namespace Reader

variable {step : σ → Reader σ} {close : Char} {s s' : σ} {t : List Char} {ts : List (List Char)}

theorem runFrom_close (hc : Stop close) (c : Char) (clock : List Char) (s : σ) (rest : List Char) :
    runFrom close step (c :: clock) s (close :: rest) = .ok (s, close :: rest) := by
  unfold runFrom
  rw [bind_of_ok (blanks_solid (ends_cons hc rest).solid)]
  have hpeek : peek (close :: rest) = .ok (close, close :: rest) := rfl
  rw [bind_of_ok hpeek]
  simp only [if_true]
  rfl

theorem runFrom_item (hc : Stop close) (hb : Begins t) {rest : List Char} (hr : Ends rest)
    (h : ∀ rest, Ends rest → step s (t ++ rest) = .ok (s', rest)) (c : Char) (clock : List Char)
    {cs : List Char} (hblank : blanks cs = .ok ((), t ++ rest)) :
    runFrom close step (c :: clock) s cs =
      (do if ← comma then runFrom close step clock s' else return s') rest := by
  obtain ⟨d, ds, hd, -, -, -, hstop⟩ := hb.cons
  have hne : d ≠ close := fun he => hstop (he ▸ hc)
  have hpeek : peek (t ++ rest) = .ok (d, t ++ rest) := by rw [hd]; rfl
  rw [runFrom, bind_of_ok hblank, bind_of_ok hpeek]
  simp only [hne, if_false]
  rw [bind_of_ok (h rest hr)]

theorem runFrom_behind (hc : Stop close) (hne : close ≠ ',') (hs : Steps step ts s s') (l : Layout)
    (n : Nat) (rest clock : List Char) (hclock : ts.length < clock.length) :
    (do if ← comma then runFrom close step clock s else return s) (l.behind n close rest ts) =
      .ok (s', close :: rest) := by
  have hclose : Solid (close :: rest) := (ends_cons hc rest).solid
  obtain ⟨c, clock, rfl⟩ := List.exists_cons_of_length_pos (Nat.zero_lt_of_lt hclock)
  -- one clock tick for each item, so that the clock does not run out before the close
  induction hs generalizing c clock with
  | nil s =>
    -- only the pretty layout puts a comma behind the last item
    cases l with
    | compact =>
      have hcomma : comma (Layout.compact.behind n close rest []) = .ok (false, close :: rest) :=
        comma_of_ne hc hne
      rw [bind_of_ok hcomma]
      rfl
    | pretty =>
      have hcomma : comma (Layout.pretty.behind n close rest []) = .ok (true, close :: rest) :=
        comma_line .pretty n hclose
      rw [bind_of_ok hcomma]
      exact runFrom_close hc c clock s rest
  | @cons t ts s s₁ s' hb h hs ih =>
    have hcomma : comma (l.behind n close rest (t :: ts)) = .ok (true, t ++ l.behind n close rest ts) :=
      comma_line l (n + 1) (hb.solid _)
    have hlength : ts.length < clock.length := by simpa using hclock
    obtain ⟨c', clock, rfl⟩ := List.exists_cons_of_length_pos (Nat.zero_lt_of_lt hlength)
    rw [bind_of_ok hcomma]
    simp only [if_true]
    rw [runFrom_item hc hb (l.ends_behind n hc rest ts) h c _ (blanks_solid (hb.solid _))]
    exact ih c' clock hlength

/-- **Items between brackets** are read one after the other. -/
theorem run_block (hc : Stop close) (hne : close ≠ ',') (hs : Steps step ts s s') (l : Layout) (n : Nat)
    (opening : Char) (rest : List Char) :
    ∃ body, l.block n opening close ts ++ rest = opening :: body ∧
      run close step s body = .ok (s', rest) := by
  have hend : ∀ {body : List Char}, runFrom close step (' ' :: body) s body = .ok (s', close :: rest) →
      run close step s body = .ok (s', rest) := by
    intro body h
    have hclock : clock body = .ok (' ' :: body, body) := rfl
    unfold run
    rw [bind_of_ok hclock, bind_of_ok h, bind_of_ok (blanks_solid (ends_cons hc rest).solid),
      bind_of_ok (expect_cons close rest)]
    rfl
  cases hs with
  | nil s => exact ⟨close :: rest, rfl, hend (runFrom_close hc _ _ s rest)⟩
  | @cons t ts s s₁ s' hb h hs =>
    refine ⟨_, l.block_append n opening close t ts rest, hend ?_⟩
    rw [runFrom_item hc hb (l.ends_behind n hc rest ts) h _ _ (blanks_line l (n + 1) (hb.solid _))]
    refine runFrom_behind hc hne hs l n rest _ ?_
    have hlength := l.length_behind n close rest ts
    simp only [List.length_append]
    omega

/-! ### Single data -/

theorem begins_block {opening : Char}
    (hc : isSpace opening = false ∧ opening ≠ '/' ∧ opening ≠ '#' ∧ ¬ Stop opening) (l : Layout)
    (n : Nat) (close : Char) (ts : List (List Char)) : Begins (l.block n opening close ts) := by
  unfold Layout.block
  split <;> exact begins_cons hc _

theorem begins_digit {c : Char} (hc : c.isDigit) (cs : List Char) : Begins (c :: cs) :=
  begins_of_kind hc (by decide) cs

theorem begins_sign (b : Bool) {c : Char} (hc : c.isDigit) (cs : List Char) :
    Begins ((if b then ['-'] else []) ++ c :: cs) := by
  cases b with
  | true => exact begins_cons (by decide) _
  | false => exact begins_digit hc cs

theorem takes_bool (b : Bool) : Takes bool (.bool b) b := by
  rintro _ ⟨⟩
  refine ⟨fun l n => ?_, fun l n rest hr => ?_⟩
  · cases b <;> exact begins_cons (by decide) _
  · unfold bool
    cases b with
    | true =>
      have htrue := accept_append "true".toList rest
      have htext : render l n (.bool true) = "true".toList := rfl
      rw [htext, bind_of_ok htrue]
      rfl
    | false =>
      have htrue : accept "true".toList ("false".toList ++ rest) = .ok (false, "false".toList ++ rest) :=
        accept_of_ne (by decide) _ _
      have htext : render l n (.bool false) = "false".toList := rfl
      rw [htext, bind_of_ok htrue]
      simp only [Bool.false_eq_true, if_false]
      rw [bind_of_ok (accept_append "false".toList rest)]
      rfl

theorem takes_text (s : String) : Takes text (.text s) s := by
  rintro _ ⟨⟩
  exact ⟨fun l n => begins_cons (by decide) _, fun l n rest _ => text_quoted s rest⟩

theorem takes_natural {n most : Nat} (h : n ≤ most) : Takes (natural most) (.int n) n := by
  rintro _ ⟨⟩
  have htext : ∀ l m, render l m (.int n) = Nat.toDigits 10 n := fun _ _ => toList_toString n
  refine ⟨fun l m => ?_, fun l m rest hr => ?_⟩
  · obtain ⟨c, cs, hcs, hc, -⟩ := toDigits_eq_cons n
    rw [htext, hcs]
    exact begins_digit hc cs
  · rw [htext]
    exact natural_toDigits h hr

theorem takes_integer {i : Int} {most : Nat} (hlow : -(most + 1 : Int) ≤ i) (hhigh : i ≤ most) :
    Takes (integer most) (.int i) i := by
  rintro _ ⟨⟩
  refine ⟨fun l _ => ?_, fun l _ rest hr => integer_toString hlow hhigh hr⟩
  cases i with
  | ofNat n =>
    obtain ⟨c, cs, hcs, hc, -⟩ := toDigits_eq_cons n
    have htext : (toString (Int.ofNat n)).toList = c :: cs := (toList_toString n).trans hcs
    show Begins (toString (Int.ofNat n)).toList
    rw [htext]
    exact begins_digit hc cs
  | negSucc n =>
    have htext : (toString (Int.negSucc n)).toList = '-' :: (toString (n + 1)).toList :=
      String.toList_append
    show Begins (toString (Int.negSucc n)).toList
    rw [htext]
    exact begins_cons (by decide) _

theorem takes_number {x : Number} (hx : x.Legible) : Takes number (.number x) x := by
  rintro _ ⟨⟩
  refine ⟨fun l _ => ?_, fun l _ rest hr => number_numeral hx hr⟩
  show Begins (numeral x)
  cases hi : x.isInfinite with
  | true =>
    rw [numeral_of_infinite hi]
    split <;> exact begins_cons (by decide) _
  | false =>
    obtain ⟨c, cs, hcs, hc, -⟩ := numeral_of_finite hx.isNaN hi
    rw [hcs]
    exact begins_sign _ hc cs

/-! ### Lists and maps -/

theorem steps_items {item : Reader α} {docs docs' : List Doc} {as : List α}
    (h : List.Forall₂ item.Takes docs as) (hs : ShuffledItems docs docs') (l : Layout) (n : Nat)
    (past : List α) :
    Steps (fun as => do return (← item) :: as) (renderItems l n docs') past (as.reverse ++ past) := by
  induction h generalizing docs' past with
  | nil =>
    cases hs
    exact .nil past
  | @cons d a docs as hd h ih =>
    cases hs with
    | cons hd' hs =>
      have hgets := hd _ hd'
      rw [List.reverse_cons, List.append_assoc]
      refine .cons (hgets.begins l n) (fun rest hr => ?_) (ih hs (a :: past))
      rw [bind_of_ok (hgets.reads l n rest hr)]
      rfl

/-- **Items** are read in their order. -/
theorem takes_items {item : Reader α} {docs : List Doc} {as : List α}
    (h : List.Forall₂ item.Takes docs as) : Takes (Form.items item) (.list docs) as := by
  intro d' hd'
  cases hd' with
  | list hs =>
    refine ⟨fun l n => begins_block (by decide) _ _ _ _, fun l n rest _ => ?_⟩
    have hsteps := steps_items h hs l (n + 1) []
    obtain ⟨body, hbody, hrun⟩ := run_block stop_bracket (by decide) hsteps l n '[' rest
    unfold Form.items render
    rw [hbody, bind_of_ok (expect_cons '[' body), bind_of_ok hrun, List.append_nil, List.reverse_reverse]
    rfl

theorem underKey_append {r : Reader α} {d : Doc} {a : α} (h : r.Gets d a) (l : Layout) (n : Nat)
    {rest : List Char} (hr : Ends rest) :
    underKey r (':' :: (l.gap ++ (render l n d ++ rest))) = .ok (a, rest) := by
  unfold underKey
  rw [bind_of_ok (blanks_solid (solid_cons (by decide) _)), bind_of_ok (expect_cons ':' _),
    bind_of_ok (blanks_gap l ((h.begins l n).solid rest))]
  exact h.reads l n rest hr

theorem steps_entries {value : Reader α} {entries : List (String × Doc)} {r : List (String × α)}
    (h : List.Forall₂ (fun e p => e.1 = p.1 ∧ value.Gets e.2 p.2) entries r) (l : Layout) (n : Nat)
    (past : List (String × α)) :
    Steps (fun r => do
        let key ← text
        return Record.put key (← underKey value) r) (renderEntries l n entries) past
      (r.foldl (fun r e => Record.put e.1 e.2 r) past) := by
  induction h generalizing past with
  | nil => exact .nil past
  | @cons e p entries r he h ih =>
    obtain ⟨key, d⟩ := e
    obtain ⟨rfl, hgets⟩ := he
    refine .cons (begins_cons (by decide) _) (fun rest hr => ?_) (ih _)
    simp only [List.append_assoc, List.cons_append]
    rw [bind_of_ok (text_quoted _ _), bind_of_ok (underKey_append hgets l n hr)]
    rfl

theorem gets_entries {value : Reader α} {entries entries' : List (String × Doc)}
    {r : List (String × α)} (h : List.Forall₂ (fun e p => e.1 = p.1 ∧ value.Takes e.2 p.2) entries r)
    (hs : ShuffledEntries entries entries') :
    List.Forall₂ (fun e p => e.1 = p.1 ∧ value.Gets e.2 p.2) entries' r := by
  induction h generalizing entries' with
  | nil =>
    cases hs
    exact .nil
  | cons he _ ih =>
    cases hs with
    | cons key hd hs => exact .cons ⟨he.1, he.2 _ hd⟩ (ih hs)

/-- **Entries** are read in any order, and put into the order of their keys. -/
theorem takes_entries {value : Reader α} {entries : List (String × Doc)} {r : List (String × α)}
    (h : List.Forall₂ (fun e p => e.1 = p.1 ∧ value.Takes e.2 p.2) entries r) (hr : Record.Ordered r) :
    Takes (Form.entries value) (.map entries) r := by
  intro d' hd'
  cases hd' with
  | map hs hp =>
    obtain ⟨r', hr', hperm⟩ := List.perm_comp_forall₂ hp.symm (gets_entries h hs)
    refine ⟨fun l n => begins_block (by decide) _ _ _ _, fun l n rest _ => ?_⟩
    have hsteps := steps_entries hr' l (n + 1) []
    obtain ⟨body, hbody, hrun⟩ := run_block stop_brace (by decide) hsteps l n '\x7b' rest
    unfold Form.entries render
    rw [hbody, bind_of_ok (expect_cons '\x7b' body), hrun]
    exact congrArg (fun r => Except.ok (r, rest)) (Record.ofList_of_perm hperm hr)

theorem bracketed_append {r : Reader α} {d : Doc} {a : α} (h : r.Gets d a) (l : Layout) (n : Nat)
    (rest : List Char) : bracketed r (render l n d ++ ')' :: rest) = .ok (a, rest) := by
  have hclose := ends_cons stop_paren rest
  unfold bracketed
  rw [bind_of_ok (blanks_solid ((h.begins l n).solid _)), bind_of_ok (h.reads l n _ hclose),
    bind_of_ok (discard_of_ok (comma_of_ne stop_paren (by decide))), bind_of_ok (expect_cons ')' rest)]
  rfl

end Reader

/-! ### Forms -/

namespace Form

open Reader

/-- A form takes `a` from a document, where there is room to read it. -/
def Reads (f : Form α) (d : Doc) (a : α) : Prop := ∀ x : Context, d.opened ≤ x.room → (f x).Takes d a

theorem takes_deeper {f : Form α} {d : Doc} {a : α} {n : Nat}
    (h : ∀ x : Context, n ≤ x.room → (f x).Takes d a) {x : Context} (hx : n + 1 ≤ x.room) :
    (deeper f x).Takes d a := by
  unfold deeper
  split
  · omega
  · exact h _ (by simp only; omega)

theorem reads_bool (b : Bool) : bool.Reads (.bool b) b := fun _ _ => takes_bool b

theorem reads_text (s : String) : text.Reads (.text s) s := fun _ _ => takes_text s

theorem reads_number {x : Number} (hx : x.Legible) : number.Reads (.number x) x :=
  fun _ _ => takes_number hx

theorem reads_below {n bound : Nat} (h : n < bound) : (below bound).Reads (.int n) n :=
  fun _ _ => takes_natural (by omega)

theorem reads_instant {t : Instant} (h : t.Legible) :
    instant.Reads (.instant t) t := by
  intro x _ d' hd'
  obtain ⟨hbegins, hreads⟩ := takes_text t.text d' hd'
  refine ⟨hbegins, fun l n rest hr => ?_⟩
  unfold instant
  have hback : Instant.ofText? t.text = some t := h
  rw [bind_of_ok (hreads l n rest hr), hback]
  rfl

theorem reads_option {f : Form α} {doc : α → Doc} {o : Option α}
    (h : ∀ a ∈ o, f.Reads (doc a) a) : (option f).Reads (.ofOption doc o) o := by
  intro x hx d' hd'
  cases o with
  | none =>
    cases hd' with
    | absent =>
      refine ⟨fun l n => begins_cons (by decide) _, fun l n rest _ => ?_⟩
      unfold option
      rw [render, bind_of_ok (accept_append "None".toList rest)]
      rfl
  | some a =>
    cases hd' with
    | @present _ d' hd' =>
      refine ⟨fun l n => begins_cons (by decide) _, fun l n rest _ => ?_⟩
      have hgets := takes_deeper (h a rfl) hx d' hd'
      have htext : render l n (.present d') ++ rest =
          "Some".toList ++ '(' :: (render l n d' ++ ')' :: rest) := by
        rw [render, List.append_assoc, List.append_assoc]
        rfl
      -- `None` is tried first, and differs from `Some` in its first letter
      have hnone : accept "None".toList ("Some".toList ++ '(' :: (render l n d' ++ ')' :: rest)) =
          .ok (false, "Some".toList ++ '(' :: (render l n d' ++ ')' :: rest)) :=
        accept_of_ne (by decide) _ _
      unfold option
      rw [htext, bind_of_ok hnone]
      simp only [Bool.false_eq_true, if_false]
      rw [bind_of_ok (accept_append "Some".toList _)]
      simp only [if_true]
      rw [bind_of_ok (blanks_solid (solid_cons (by decide) _)), bind_of_ok (accept_cons '(' _)]
      simp only [if_true]
      rw [bind_of_ok (bracketed_append hgets l n rest)]
      rfl

theorem takes_deeper_items {f : Form α} {docs : List Doc} {as : List α}
    (h : List.Forall₂ f.Reads docs as) {x : Context} (hx : openedItems docs ≤ x.room) :
    List.Forall₂ (deeper f x).Takes docs as := by
  induction h with
  | nil => exact .nil
  | cons hd _ ih =>
    unfold openedItems at hx
    exact .cons (takes_deeper hd (by omega)) (ih (by omega))

theorem takes_deeper_entries {f : Form α} {entries : List (String × Doc)} {r : List (String × α)}
    (h : List.Forall₂ (fun e p => e.1 = p.1 ∧ f.Reads e.2 p.2) entries r) {x : Context}
    (hx : openedEntries entries ≤ x.room) :
    List.Forall₂ (fun e p => e.1 = p.1 ∧ (deeper f x).Takes e.2 p.2) entries r := by
  induction h with
  | nil => exact .nil
  | cons he _ ih =>
    unfold openedEntries at hx
    exact .cons ⟨he.1, takes_deeper he.2 (by omega)⟩ (ih (by omega))

theorem reads_list {f : Form α} {docs : List Doc} {as : List α} (h : List.Forall₂ f.Reads docs as) :
    (list f).Reads (.list docs) as :=
  fun _ hx => takes_deeper (fun _ hx => takes_items (takes_deeper_items h hx)) hx

theorem reads_map {f : Form α} {entries : List (String × Doc)} {r : List (String × α)}
    (h : List.Forall₂ (fun e p => e.1 = p.1 ∧ f.Reads e.2 p.2) entries r) (hr : Record.Ordered r) :
    (map f).Reads (.map entries) r :=
  fun _ hx => takes_deeper (fun _ hx => takes_entries (takes_deeper_entries h hx) hr) hx

/-! ### Structures -/

/-- Fields that fill a structure, from what was read so far. -/
inductive Structure.Fills (d : Structure σ) : List String → σ → List (String × Doc) → σ → Prop
  | nil (seen : List String) (s : σ) : d.Fills seen s [] s
  | cons {seen : List String} {s s' s'' : σ} {name : String} {doc : Doc} {f : σ → Form σ}
      {entries : List (String × Doc)} (hplain : Plain name = true) (hnew : name ∉ seen)
      (hfind : d.fields.find? (fun f => f.1 = name) = some (name, f)) (h : (f s).Reads doc s')
      (hs : d.Fills (name :: seen) s' entries s'') : d.Fills seen s ((name, doc) :: entries) s''

theorem reads_set {f : Form α} {d : Doc} {a : α} (h : f.Reads d a) (put : α → σ → σ) (s : σ) :
    (Structure.set f put s).Reads d (put a s) := by
  intro x hx d' hd'
  obtain ⟨hbegins, hreads⟩ := h x hx d' hd'
  refine ⟨hbegins, fun l n rest hr => ?_⟩
  unfold Structure.set
  rw [bind_of_ok (hreads l n rest hr)]
  rfl

variable {d : Structure σ} {seen : List String} {s s' : σ} {entries entries' : List (String × Doc)}

theorem Structure.Fills.set {name : String} {doc : Doc} {f : Form α} {a : α} {put : α → σ → σ}
    (hplain : Plain name = true) (hnew : name ∉ seen)
    (hfind : d.fields.find? (fun f => f.1 = name) = some (name, Structure.set f put))
    (h : f.Reads doc a) (hs : d.Fills (name :: seen) (put a s) entries s') :
    d.Fills seen s ((name, doc) :: entries) s' :=
  .cons hplain hnew hfind (reads_set h put s) hs

/-- The name of a case or of a field is read one level further in. -/
theorem caseName_append {name : String} (hplain : Plain name = true) {x : Context} (hx : 1 ≤ x.room)
    {rest : List Char} (hr : ∀ c ∈ rest.head?, isMarkedNameChar c = false) :
    caseName x (name.toList ++ rest) = .ok (name, rest) := by
  obtain ⟨m, hm⟩ := Nat.exists_eq_add_of_le' hx
  unfold caseName deeper
  rw [hm]
  exact name_plain hplain hr

theorem Structure.field_append {name : String} {doc : Doc} {f : σ → Form σ} (hplain : Plain name = true)
    (hnew : name ∉ seen) (hfind : d.fields.find? (fun f => f.1 = name) = some (name, f)) {x : Context}
    (hx : 1 ≤ x.room) (h : (deeper (f s) x).Gets doc s') (l : Layout) (n : Nat) {rest : List Char}
    (hr : Ends rest) :
    d.field x (seen, s) (name.toList ++ ':' :: (l.gap ++ (render l n doc ++ rest))) =
      .ok ((name :: seen, s'), rest) := by
  have hname : caseName x (name.toList ++ ':' :: (l.gap ++ (render l n doc ++ rest))) =
      .ok (name, ':' :: (l.gap ++ (render l n doc ++ rest))) :=
    caseName_append hplain hx (forall_head?_cons (p := (isMarkedNameChar · = false)) rfl _)
  unfold Structure.field
  rw [bind_of_ok hname, hfind]
  simp only [hnew, if_false]
  rw [bind_of_ok (underKey_append h l n hr)]
  rfl

theorem Structure.steps_fields (h : d.Fills seen s entries s') (hs : ShuffledEntries entries entries')
    {x : Context} (hx : openedEntries entries ≤ x.room) (l : Layout) (n : Nat) :
    Steps (d.field x) (renderFields l n entries') (seen, s)
      ((entries.map (·.1)).reverse ++ seen, s') := by
  induction h generalizing entries' with
  | nil seen s =>
    cases hs
    exact .nil _
  | @cons seen s s₁ s' name doc f entries hplain hnew hfind hf hfills ih =>
    cases hs with
    | @cons _ doc doc' entries entries' hdoc hs =>
      unfold openedEntries at hx
      have hgets := takes_deeper hf (x := x) (by omega) doc' hdoc
      have hfield := fun rest (hr : Ends rest) =>
        Structure.field_append hplain hnew hfind (by omega) hgets l n hr
      have hsteps := ih hs (by omega)
      rw [List.map_cons, List.reverse_cons, List.append_assoc, List.singleton_append]
      refine .cons ?_ (fun rest hr => ?_) hsteps
      · exact begins_plain hplain _
      · rw [List.append_assoc, List.cons_append, List.append_assoc]
        exact hfield rest hr

/-- **A structure** is read field by field. -/
theorem Structure.reads {start : σ} (h : d.Fills [] start entries s)
    (hreq : d.required.all (entries.map (·.1)).contains = true) :
    (d.read start).Reads (.struct none entries) s := by
  intro x hx d' hd'
  cases hd' with
  | struct _ hs =>
    refine ⟨fun l n => begins_block (by decide) _ _ _ _, fun l n rest _ => ?_⟩
    have hroom : openedEntries entries + 1 ≤ x.room := hx
    obtain ⟨m, hm⟩ := Nat.exists_eq_add_of_le' (Nat.le_trans (Nat.le_add_left 1 _) hroom)
    -- the fields in any order the text has them in, with nothing required left over
    have hsteps := Structure.steps_fields h hs (x := { x with room := m }) (by simp only; omega) l (n + 1)
    obtain ⟨body, hbody, hrun⟩ := run_block stop_paren (by decide) hsteps l n '(' rest
    generalize hseen : (entries.map (·.1)).reverse ++ [] = seen at hrun
    have hname : ownName d.name ('(' :: body) = .ok ((), '(' :: body) := rfl
    have hdeeper : deeper (fun x => run ')' (d.field x) ([], start)) x body = .ok ((seen, s), rest) := by
      unfold deeper
      rw [hm]
      exact hrun
    have hnone : (d.required.find? fun name => !seen.contains name) = none := by
      refine List.find?_eq_none.2 fun name hreq' => ?_
      rw [← hseen, List.append_nil]
      simpa using List.all_eq_true.1 hreq name hreq'
    have htext : render l n (.struct none _) ++ rest = '(' :: body := hbody
    unfold Structure.read Structure.body
    rw [htext, bind_of_ok hname, bind_of_ok (blanks_solid (solid_cons (by decide) body)),
      bind_of_ok (expect_cons '(' body), bind_of_ok hdeeper]
    simp only [hnone]
    rfl

end Form

end Storyline.Ron
