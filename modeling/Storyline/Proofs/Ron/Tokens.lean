import Storyline.Proofs.Ron.Legible

/-!
# The parts of a text, read back

* `Ends`, `Begins`: what may follow data, and what data may begin with;
* `Reader.blanks_line`, `Reader.comma_of_ends`: what stands between the parts of a text;
* `Reader.text_quoted`: **every text** reads back from its quotes, whatever its characters;
* `Reader.natural_digits`, `Reader.integer_text`, `Reader.number_numeral`, `Reader.name_plain`: integers,
  numbers and names read back.
-/

namespace Storyline.Ron

variable {α β : Type}

/-! ### What stands around data -/

/-- A character that ends the data in front of it. -/
def Stop (c : Char) : Prop := c ∈ [',', ')', ']', '\x7d']

instance (c : Char) : Decidable (Stop c) := inferInstanceAs (Decidable (c ∈ _))

/-- What may follow data: nothing, or a character that ends it. -/
def Ends (cs : List Char) : Prop := ∀ c ∈ cs.head?, Stop c

theorem stop_comma : Stop ',' := by decide

theorem stop_paren : Stop ')' := by decide

theorem stop_bracket : Stop ']' := by decide

theorem stop_brace : Stop '\x7d' := by decide

theorem Stop.all {p : Char → Bool} {c : Char} (h : Stop c)
    (hp : [',', ')', ']', '\x7d'].all (!p ·) = true) : p c = false :=
  (Bool.not_eq_true' _).mp (List.all_eq_true.1 hp c h)

theorem Ends.all {p : Char → Bool} {cs : List Char} (h : Ends cs)
    (hp : [',', ')', ']', '\x7d'].all (!p ·) = true) : ∀ c ∈ cs.head?, p c = false :=
  fun c hc => (h c hc).all hp

theorem forall_head?_cons {p : Char → Prop} {c : Char} (hc : p c) (cs : List Char) :
    ∀ d ∈ (c :: cs).head?, p d := by
  rintro _ ⟨⟩
  exact hc

theorem ends_nil : Ends [] := nofun

theorem ends_cons {c : Char} (hc : Stop c) (cs : List Char) : Ends (c :: cs) := forall_head?_cons hc cs

/-- Neither a blank nor the start of a comment comes first. -/
def Solid (cs : List Char) : Prop := ∀ c ∈ cs.head?, Reader.isSpace c = false ∧ c ≠ '/'

theorem solid_cons {c : Char} (hc : Reader.isSpace c = false ∧ c ≠ '/') (cs : List Char) :
    Solid (c :: cs) := forall_head?_cons hc cs

theorem Ends.solid {cs : List Char} (h : Ends cs) : Solid cs := by
  intro c hc
  have hstop := h c hc
  refine ⟨hstop.all (by decide), ?_⟩
  rintro rfl
  revert hstop
  decide

/-- A text that data may have: its first character is no blank, starts no comment and no head, and does
not end anything. -/
def Begins (t : List Char) : Prop :=
  ∃ c ∈ t.head?, Reader.isSpace c = false ∧ c ≠ '/' ∧ c ≠ '#' ∧ ¬ Stop c

theorem begins_cons {c : Char} (hc : Reader.isSpace c = false ∧ c ≠ '/' ∧ c ≠ '#' ∧ ¬ Stop c)
    (cs : List Char) : Begins (c :: cs) := ⟨c, rfl, hc⟩

/-- Data may begin with a character of a kind to which none of the others belongs. -/
theorem begins_of_kind {p : Char → Bool} {c : Char} (hc : p c = true)
    (hp : [' ', '\t', '\n', '\r', '/', '#', ',', ')', ']', '\x7d'].all (!p ·) = true) (cs : List Char) :
    Begins (c :: cs) := by
  have hne : ∀ d ∈ [' ', '\t', '\n', '\r', '/', '#', ',', ')', ']', '\x7d'], c ≠ d := by
    rintro _ hd rfl
    have hnone := List.all_eq_true.1 hp c hd
    rw [hc] at hnone
    cases hnone
  simp only [List.forall_mem_cons] at hne
  refine begins_cons ?_ cs
  unfold Reader.isSpace Stop
  simp [hne]

theorem Begins.cons {t : List Char} (h : Begins t) :
    ∃ c cs, t = c :: cs ∧ Reader.isSpace c = false ∧ c ≠ '/' ∧ c ≠ '#' ∧ ¬ Stop c := by
  obtain ⟨c, hc, hrest⟩ := h
  cases t with
  | nil => cases hc
  | cons d cs =>
    obtain rfl := Option.some_inj.1 hc
    exact ⟨d, cs, rfl, hrest⟩

theorem Begins.solid {t : List Char} (h : Begins t) (rest : List Char) : Solid (t ++ rest) := by
  obtain ⟨c, cs, rfl, hspace, hslash, -⟩ := h.cons
  exact solid_cons ⟨hspace, hslash⟩ (cs ++ rest)

theorem span_of_stop {p : Char → Bool} {ds rest : List Char} (hds : ∀ c ∈ ds, p c = true)
    (hrest : ∀ c ∈ rest.head?, p c = false) :
    (ds ++ rest).takeWhile p = ds ∧ (ds ++ rest).dropWhile p = rest := by
  rw [List.takeWhile_append_of_pos hds, List.dropWhile_append_of_pos hds]
  cases rest with
  | nil => exact ⟨List.append_nil ds, rfl⟩
  | cons c cs =>
    have hc := hrest c rfl
    rw [List.takeWhile_cons_of_neg (by simp [hc]), List.dropWhile_cons_of_neg (by simp [hc])]
    exact ⟨List.append_nil ds, rfl⟩

namespace Reader

/-! ### Characters and blanks -/

theorem bind_of_ok {r : Reader α} {k : α → Reader β} {cs cs' : List Char} {a : α}
    (h : r cs = .ok (a, cs')) : (r >>= k) cs = k a cs' := by
  show (r cs >>= fun p => k p.1 p.2) = _
  rw [h]
  rfl

theorem discard_of_ok {r : Reader α} {cs cs' : List Char} {a : α} (h : r cs = .ok (a, cs')) :
    discard r cs = .ok ((), cs') := by
  show (r cs >>= fun p => .ok ((), p.2)) = _
  rw [h]
  rfl

theorem accept_append (word rest : List Char) : accept word (word ++ rest) = .ok (true, rest) := by
  unfold accept
  rw [if_pos (List.isPrefixOf_iff_prefix.2 (List.prefix_append word rest)), List.drop_left]

theorem accept_cons (c : Char) (rest : List Char) : accept [c] (c :: rest) = .ok (true, rest) :=
  accept_append [c] rest

theorem accept_of_ne {c d : Char} (h : d ≠ c) (word rest : List Char) :
    accept (c :: word) (d :: rest) = .ok (false, d :: rest) := by
  unfold accept
  rw [List.isPrefixOf_cons_cons, beq_false_of_ne (Ne.symm h), Bool.false_and]
  rfl

theorem expect_cons (c : Char) (rest : List Char) : expect c (c :: rest) = .ok ((), rest) := by
  unfold expect
  rw [bind_of_ok (accept_cons c rest)]
  rfl

theorem behindBlanks_solid {cs : List Char} (h : Solid cs) : behindBlanks .blank cs = .ok cs := by
  cases cs with
  | nil => rfl
  | cons c cs =>
    obtain ⟨hspace, hslash⟩ := h c rfl
    unfold behindBlanks
    split <;> simp_all

theorem blanks_solid {cs : List Char} (h : Solid cs) : blanks cs = .ok ((), cs) := by
  unfold blanks
  rw [behindBlanks_solid h]
  rfl

theorem blanks_append {blank cs : List Char} (hb : ∀ c ∈ blank, isSpace c = true) (h : Solid cs) :
    blanks (blank ++ cs) = .ok ((), cs) := by
  induction blank with
  | nil => exact blanks_solid h
  | cons b blank ih =>
    have hspace : isSpace b = true := hb b List.mem_cons_self
    have hslash : b ≠ '/' := by
      rintro rfl
      cases hspace
    have hstep : behindBlanks .blank (b :: (blank ++ cs)) = behindBlanks .blank (blank ++ cs) := by
      conv => lhs; unfold behindBlanks
      split <;> simp_all
    unfold blanks at ih ⊢
    rw [List.cons_append, hstep]
    exact ih fun c hc => hb c (List.mem_cons_of_mem b hc)

theorem blanks_line (l : Layout) (n : Nat) {cs : List Char} (h : Solid cs) :
    blanks (l.line n ++ cs) = .ok ((), cs) := by
  refine blanks_append (fun c hc => ?_) h
  cases l with
  | compact => cases hc
  | pretty =>
    rcases List.mem_cons.1 hc with rfl | hc
    · rfl
    · obtain rfl := List.eq_of_mem_replicate hc
      rfl

theorem blanks_gap (l : Layout) {cs : List Char} (h : Solid cs) :
    blanks (l.gap ++ cs) = .ok ((), cs) := by
  refine blanks_append (fun c hc => ?_) h
  cases l with
  | compact => cases hc
  | pretty =>
    obtain rfl := List.mem_singleton.1 hc
    rfl

theorem comma_of_ne {c : Char} {cs : List Char} (h : Stop c) (hc : c ≠ ',') :
    comma (c :: cs) = .ok (false, c :: cs) := by
  unfold comma
  rw [bind_of_ok (blanks_solid (ends_cons h cs).solid), bind_of_ok (accept_of_ne hc [] cs)]
  rfl

theorem comma_line (l : Layout) (n : Nat) {cs : List Char} (h : Solid cs) :
    comma (',' :: (l.line n ++ cs)) = .ok (true, cs) := by
  have hcomma : Solid (',' :: (l.line n ++ cs)) := (ends_cons stop_comma _).solid
  unfold comma
  rw [bind_of_ok (blanks_solid hcomma), bind_of_ok (accept_cons ',' _)]
  simp only [if_true]
  rw [bind_of_ok (blanks_line l n h)]
  rfl

/-! ### Texts -/

theorem digit?_digitChar {d : Nat} (h : d < 16) : digit? d.digitChar = some d := by
  have hall : ∀ d : Fin 16, digit? d.val.digitChar = some d.val := by decide
  exact hall ⟨d, h⟩

/-- Reading the digits of a number one by one sums the number up. `F` counts what it has read. -/
theorem read_toDigits {γ : Type} {b most : Nat} (hb : 1 < b) {F : Nat → Nat → List Char → γ}
    (hF : ∀ d k m t, d < b → k < most → F k m (d.digitChar :: t) = F (k + 1) (b * m + d) t)
    (n k m : Nat) (t : List Char) (h : k + (Nat.toDigits b n).length ≤ most) :
    F k m (Nat.toDigits b n ++ t) =
      F (k + (Nat.toDigits b n).length) (Nat.pow b (Nat.toDigits b n).length * m + n) t := by
  induction n using Nat.strongRecOn generalizing t with
  | _ n ih =>
    rw [Nat.toDigits_eq_if hb] at h ⊢
    split
    · rename_i hn
      rw [if_pos hn, List.length_singleton] at h
      rw [List.singleton_append, List.length_singleton, Nat.pow_eq, Nat.pow_one]
      exact hF n k m t hn h
    · rename_i hn
      rw [if_neg hn, List.length_append, List.length_singleton] at h
      have hdiv : n / b < n := Nat.div_lt_self (by omega) hb
      rw [List.append_assoc, ih (n / b) hdiv _ (by omega), List.singleton_append,
        hF _ _ _ _ (Nat.mod_lt _ (by omega)) (by omega), List.length_append, List.length_singleton]
      generalize (Nat.toDigits b (n / b)).length = len
      have hsum : b * (Nat.pow b len * m + n / b) + n % b = Nat.pow b (len + 1) * m + n := by
        rw [Nat.pow_eq, Nat.pow_eq, Nat.pow_succ, Nat.mul_add, Nat.add_assoc, Nat.div_add_mod,
          ← Nat.mul_assoc, Nat.mul_comm b]
      rw [hsum, Nat.add_assoc]

theorem quotedBody_digit {d k m : Nat} (hd : d < 16) (hk : k < 6) (t : List Char) :
    quotedBody (some (k, m)) (d.digitChar :: t) = quotedBody (some (k + 1, 16 * m + d)) t := by
  have hbrace : d.digitChar ≠ '\x7d' := Nat.digitChar_ne _ (by decide)
  rw [quotedBody]
  · rw [digit?_digitChar hd]
    simp only [hk, if_true]
  · exact hbrace

theorem charOf?_toNat (c : Char) : charOf? c.toNat = some c := by
  unfold charOf?
  have hvalid : c.toNat.isValidChar := c.valid
  rw [dif_pos hvalid]
  exact congrArg some (Char.ext rfl)

theorem length_toDigits_char (c : Char) : (Nat.toDigits 16 c.toNat).length ≤ 6 := by
  have hlt : c.toNat < 0x110000 := by
    have hvalid : c.toNat.isValidChar := c.valid
    rcases hvalid with hlow | hhigh <;> omega
  exact (Nat.length_toDigits_le_iff (by decide) (by decide)).2 (Nat.lt_trans hlt (by decide))

/-- **Every character** reads back from how it is written in quotes. -/
theorem quotedBody_escaped (c : Char) (t : List Char) :
    quotedBody none (escaped c ++ t) = consChar c (quotedBody none t) := by
  unfold escaped
  split
  case h_8 hquote hslash =>
    split
    · rw [List.singleton_append, quotedBody]
      all_goals simp_all
    · -- the code point is summed up digit by digit
      have hlength := length_toDigits_char c
      have hpos : (Nat.toDigits 16 c.toNat).length ≠ 0 := Nat.pos_iff_ne_zero.1 Nat.length_toDigits_pos
      have hdigits := read_toDigits (by decide) (F := fun k m => quotedBody (some (k, m)))
        (fun d k m t hd hk => quotedBody_digit hd hk t) c.toNat 0 0 ('\x7d' :: t) (by omega)
      simp only [List.cons_append, List.append_assoc, List.nil_append]
      rw [quotedBody, hdigits, quotedBody, Nat.mul_zero, Nat.zero_add, Nat.zero_add, charOf?_toNat]
      simp only [hpos, if_false]
  all_goals rfl

/-- **Every text** reads back from its quotes. -/
theorem text_quoted (s : String) (rest : List Char) : text (quoted s ++ rest) = .ok (s, rest) := by
  have hbody : ∀ cs : List Char, quotedBody none (cs.flatMap escaped ++ '"' :: rest) = .ok (cs, rest) := by
    intro cs
    induction cs with
    | nil => rfl
    | cons c cs ih =>
      rw [List.flatMap_cons, List.append_assoc, quotedBody_escaped, ih]
      rfl
  unfold text quoted
  simp only [List.cons_append, List.append_assoc, List.nil_append]
  rw [hbody]
  simp only [Except.map, String.ofList_toList]

/-! ### Integers -/

/-- No mark of a base stands at the front of a decimal number. -/
theorem splitBase_of_ne {c : Char} {cs : List Char}
    (h : ∀ d ∈ cs.head?, d ≠ 'x' ∧ d ≠ 'b' ∧ d ≠ 'o') : splitBase (c :: cs) = (10, c :: cs) := by
  unfold splitBase
  split
  · exact absurd rfl (h 'x' (by simp_all)).1
  · exact absurd rfl (h 'b' (by simp_all)).2.1
  · exact absurd rfl (h 'o' (by simp_all)).2.2
  · rfl

theorem digitsIn?_toDigits (n : Nat) : digitsIn? 10 0 (Nat.toDigits 10 n) = some n := by
  have hdigits := read_toDigits (b := 10) (by decide) (F := fun _ => digitsIn? 10)
    (fun d _ m t hd _ => ?_) n 0 0 [] (Nat.le_refl _)
  · rw [List.append_nil, Nat.mul_zero, Nat.zero_add] at hdigits
    exact hdigits
  · have hline : d.digitChar ≠ '_' := Nat.digitChar_ne _ (by decide)
    rw [digitsIn?, if_neg hline, digit?_digitChar (by omega)]
    simp only [hd, if_true]

theorem isIntChar_of_isDigit {c : Char} (h : c.isDigit) : isIntChar c = true := by
  unfold isIntChar digit?
  rw [if_pos h]
  rfl

theorem toDigits_eq_cons (n : Nat) :
    ∃ c cs, Nat.toDigits 10 n = c :: cs ∧ c.isDigit ∧ ∀ d ∈ cs, d.isDigit := by
  have hdigit : ∀ c ∈ Nat.toDigits 10 n, c.isDigit := fun c hc =>
    Nat.isDigit_of_mem_toDigits (by decide) (by decide) hc
  obtain ⟨c, cs, hcs⟩ := List.exists_cons_of_ne_nil (Nat.toDigits_ne_nil (n := n) (b := 10))
  rw [hcs] at hdigit
  exact ⟨c, cs, hcs, hdigit c List.mem_cons_self, fun d hd => hdigit d (List.mem_cons_of_mem c hd)⟩

theorem ne_of_isDigit {c d : Char} (hc : c.isDigit) (hd : d.isDigit = false) : c ≠ d := by
  rintro rfl
  rw [hc] at hd
  cases hd

/-- **A natural number** reads back from its digits. -/
theorem natural_toDigits {n most : Nat} (h : n ≤ most) {rest : List Char} (hr : Ends rest) :
    natural most (Nat.toDigits 10 n ++ rest) = .ok (n, rest) := by
  have hvalue := digitsIn?_toDigits n
  obtain ⟨c, cs, hcs, hc, hds⟩ := toDigits_eq_cons n
  rw [hcs] at hvalue ⊢
  have hints : ∀ d ∈ c :: cs, isIntChar d = true :=
    List.forall_mem_cons.2 ⟨isIntChar_of_isDigit hc, fun d hd => isIntChar_of_isDigit (hds d hd)⟩
  obtain ⟨htake, hdrop⟩ := span_of_stop hints (hr.all (by decide))
  have hbase : splitBase (c :: (cs ++ rest)) = (10, c :: (cs ++ rest)) := by
    refine splitBase_of_ne fun d hd => ?_
    cases cs with
    | nil =>
      have hstop := hr d hd
      refine ⟨?_, ?_, ?_⟩ <;> rintro rfl <;> revert hstop <;> decide
    | cons e cs =>
      obtain rfl := Option.some_inj.1 hd
      have he := hds e List.mem_cons_self
      exact ⟨ne_of_isDigit he rfl, ne_of_isDigit he rfl, ne_of_isDigit he rfl⟩
  have hline : some c ≠ some '_' := fun hline => ne_of_isDigit hc rfl (Option.some_inj.1 hline)
  rw [List.cons_append] at htake hdrop ⊢
  unfold natural
  rw [hbase]
  simp only [htake, hdrop, hvalue, h, List.isEmpty_cons, List.head?_cons, hline, decide_false,
    Bool.or_false, Bool.false_eq_true, if_true, if_false]

theorem toList_toString (n : Nat) : (toString n).toList = Nat.toDigits 10 n := by
  rw [Nat.toString_eq_ofList_toDigits, String.toList_ofList]

/-- **An integer** reads back from its text. -/
theorem integer_toString {most : Nat} {i : Int} (hlow : -(most + 1 : Int) ≤ i) (hhigh : i ≤ most)
    {rest : List Char} (hr : Ends rest) :
    integer most ((toString i).toList ++ rest) = .ok (i, rest) := by
  unfold integer
  -- a sign is written for a negative integer only
  cases i with
  | ofNat n =>
    have hn : n ≤ most := Int.ofNat_le.1 hhigh
    obtain ⟨c, cs, hcs, hc, -⟩ := toDigits_eq_cons n
    have htext : (toString (Int.ofNat n)).toList ++ rest = c :: (cs ++ rest) := by
      rw [← List.cons_append, ← hcs, ← toList_toString]
      rfl
    have hplus := discard_of_ok (accept_of_ne (ne_of_isDigit (d := '+') hc rfl) [] (cs ++ rest))
    rw [htext, bind_of_ok (accept_of_ne (ne_of_isDigit hc rfl) [] _)]
    simp only [Bool.false_eq_true, if_false]
    rw [bind_of_ok hplus, ← List.cons_append, ← hcs, bind_of_ok (natural_toDigits hn hr)]
    rfl
  | negSucc n =>
    have hn : n + 1 ≤ most + 1 := by omega
    have htext : (toString (Int.negSucc n)).toList ++ rest = '-' :: (Nat.toDigits 10 (n + 1) ++ rest) := by
      rw [← toList_toString, ← List.cons_append]
      exact congrArg (· ++ rest) String.toList_append
    rw [htext, bind_of_ok (accept_cons '-' _)]
    simp only [if_true]
    rw [bind_of_ok (natural_toDigits hn hr)]
    rfl

/-! ### Names -/

/-- A name of letters, digits and underscores that cannot be taken for anything else. -/
def Plain (name : String) : Bool :=
  name.toList.all isNameChar && (name.toList.head?.map isLetter).getD false && name.toList != ['r']

/-- **A plain name** reads back, if no character follows that could be part of a name. -/
theorem name_plain {n : String} (hn : Plain n = true) {rest : List Char}
    (hr : ∀ c ∈ rest.head?, isMarkedNameChar c = false) :
    name (n.toList ++ rest) = .ok (n, rest) := by
  unfold Plain at hn
  simp only [Bool.and_eq_true, List.all_eq_true, bne_iff_ne] at hn
  obtain ⟨⟨hall, hletter⟩, hne⟩ := hn
  have hnamechar : ∀ c ∈ rest.head?, isNameChar c = false := fun c hc => by
    have hmarked := hr c hc
    unfold isMarkedNameChar at hmarked
    simp only [Bool.or_eq_false_iff] at hmarked
    exact hmarked.1.1.1
  obtain ⟨htake, hdrop⟩ := span_of_stop hall hnamechar
  cases hcs : n.toList with
  | nil =>
    rw [hcs] at hletter
    cases hletter
  | cons c cs =>
    rw [hcs] at hall hletter hne htake hdrop
    simp only [List.cons_append] at htake hdrop ⊢
    -- a leading `r` is followed by a character of the name
    have hsecond : ∀ d ds, c = 'r' → cs ++ rest = d :: ds → isNameChar d = true := by
      rintro d ds rfl hd
      cases cs with
      | nil => exact absurd rfl hne
      | cons e cs =>
        obtain ⟨rfl, -⟩ := List.cons.inj hd
        exact hall e (List.mem_cons_of_mem _ List.mem_cons_self)
    have hsplit : splitName? (c :: (cs ++ rest)) = some (n, rest) := by
      unfold splitName?
      -- a plain name is none of the first four patterns: not empty, and no `r` of something raw
      split
      · rename_i heq
        cases heq
      · rename_i heq
        obtain ⟨rfl, hrest⟩ := List.cons.inj heq
        obtain ⟨rfl, -⟩ := List.append_eq_nil_iff.1 hrest
        exact absurd rfl hne
      · rename_i heq
        obtain ⟨rfl, hrest⟩ := List.cons.inj heq
        cases hsecond _ _ rfl hrest
      · rename_i heq
        obtain ⟨rfl, hrest⟩ := List.cons.inj heq
        cases hsecond _ _ rfl hrest
      · rename_i heq
        obtain ⟨rfl, rfl⟩ := List.cons.inj heq
        have hend : (rest.head?.map isMarkedNameChar).getD false = false := by
          cases rest with
          | nil => rfl
          | cons d ds => exact hr d rfl
        have hletter' : isLetter c = true := hletter
        simp only [htake, hdrop, hend, hletter', Bool.not_true, Bool.or_self, Bool.false_eq_true, if_false]
        rw [← hcs, String.ofList_toList]
    unfold name
    rw [hsplit]

theorem name_cons {n : String} (hn : Plain n = true) {c : Char} (hc : isMarkedNameChar c = false)
    (cs : List Char) : name (n.toList ++ c :: cs) = .ok (n, c :: cs) :=
  name_plain hn (forall_head?_cons hc cs)

theorem begins_plain {n : String} (hn : Plain n = true) (cs : List Char) : Begins (n.toList ++ cs) := by
  unfold Plain at hn
  simp only [Bool.and_eq_true] at hn
  cases hcs : n.toList with
  | nil =>
    rw [hcs] at hn
    cases hn.1.2
  | cons c ds =>
    rw [hcs] at hn
    have hletter : isLetter c = true := hn.1.2
    exact begins_of_kind hletter (by decide) (ds ++ cs)

/-! ### Numbers -/

theorem isFloatChar_of_isDigit {c : Char} (h : c.isDigit) : isFloatChar c = true := by
  unfold isFloatChar
  rw [h]
  rfl

theorem mem_of_mem_trimmed {p : Char → Bool} {l : List Char} {c : Char}
    (h : c ∈ (l.reverse.dropWhile p).reverse) : c ∈ l :=
  List.mem_reverse.1 ((List.dropWhile_sublist p).subset (List.mem_reverse.1 h))

theorem toList_unitsText (n : Nat) : ∃ c cs, (Number.unitsText n).toList = c :: cs ∧ c.isDigit ∧
    ∀ d ∈ cs, isFloatChar d = true := by
  unfold Number.unitsText
  simp only [Number.decimalDigits_eq]
  obtain ⟨c, cs, hcs, hc, hds⟩ := toDigits_eq_cons (n / Nat.pow 10 Number.places)
  split
  · rw [String.toList_ofList]
    exact ⟨c, cs, hcs, hc, fun d hd => isFloatChar_of_isDigit (hds d hd)⟩
  · rw [String.toList_append, String.toList_append, String.toList_ofList, String.toList_ofList, hcs,
      List.append_assoc]
    refine ⟨c, _, rfl, hc, fun d hd => ?_⟩
    rcases List.mem_append.1 hd with hd | hd
    · exact isFloatChar_of_isDigit (hds d hd)
    · rcases List.mem_append.1 hd with hd | hd
      · obtain rfl := List.mem_singleton.1 hd
        rfl
      · rw [String.toList_ofList] at hd
        rcases List.mem_append.1 (mem_of_mem_trimmed hd) with hd | hd
        · obtain rfl := List.eq_of_mem_replicate hd
          rfl
        · exact isFloatChar_of_isDigit (Nat.isDigit_of_mem_toDigits (by decide) (by decide) hd)

/-- The text of a finite number is a digit and what may stand in a number, behind a sign. -/
theorem numeral_of_finite {x : Number} (hn : x.isNaN = false) (hi : x.isInfinite = false) :
    ∃ c cs, numeral x = (if x.isNegative then ['-'] else []) ++ c :: cs ∧ c.isDigit ∧
      ∀ d ∈ cs, isFloatChar d = true := by
  obtain ⟨c, cs, hcs, hc, hds⟩ : ∃ c cs, (if x.isZero then "0" else
      Number.unitsText x.spread.shortest).toList = c :: cs ∧ c.isDigit ∧
      ∀ d ∈ cs, isFloatChar d = true := by
    split
    · exact ⟨'0', [], rfl, rfl, nofun⟩
    · exact toList_unitsText _
  refine ⟨c, cs ++ (if x.isWhole then ['.', '0'] else []), ?_, hc, fun d hd => ?_⟩
  · unfold numeral Number.text
    rw [hn, hi]
    simp only [Bool.false_eq_true, if_false]
    rw [← List.cons_append, ← hcs, ← List.append_assoc]
    congr 1
    split
    · exact String.toList_append
    · rfl
  · rcases List.mem_append.1 hd with hd | hd
    · exact hds d hd
    · split at hd
      · rcases List.mem_cons.1 hd with rfl | hd
        · rfl
        · obtain rfl := List.mem_singleton.1 hd
          rfl
      · cases hd

theorem eq_infinity {x : Number} (hi : x.isInfinite = true) :
    x = if x.isNegative then Number.infinity.neg else Number.infinity := by
  have hbits : x.bits.toNat % 2 ^ 63 = 0x7ff0000000000000 := beq_iff_eq.1 hi
  have hlt : x.bits.toNat < 2 ^ 64 := x.bits.toNat_lt
  have hsign : x.isNegative = decide (2 ^ 63 ≤ x.bits.toNat) := rfl
  have hext : ∀ y : Number, x.bits.toNat = y.bits.toNat → x = y := fun y h =>
    congrArg Number.mk (UInt64.toNat_inj.1 h)
  rw [hsign]
  split
  · rename_i hneg
    have hneg := of_decide_eq_true hneg
    refine hext _ (show _ = 0xfff0000000000000 from ?_)
    omega
  · rename_i hpos
    have hpos := of_decide_eq_false (Bool.eq_false_iff.2 hpos)
    refine hext _ (show _ = 0x7ff0000000000000 from ?_)
    omega

theorem numeral_of_infinite {x : Number} (hi : x.isInfinite = true) :
    numeral x = if x.isNegative then ['-', 'i', 'n', 'f'] else ['i', 'n', 'f'] := by
  rw [eq_infinity hi]
  split <;> rfl

/-- The word for infinity stands in front of what may follow data. -/
theorem numberWords_of_infinite {x : Number} (hi : x.isInfinite = true) {rest : List Char}
    (hr : Ends rest) :
    ∃ word, numberWords.find? (fun w => startsWithWord w.1.toList (numeral x ++ rest)) = some (word, x) ∧
      (numeral x ++ rest).drop word.length = rest := by
  have hend : (rest.head?.map isNameChar).getD false = false := by
    cases rest with
    | nil => rfl
    | cons c cs => exact hr.all (p := isNameChar) (by decide) c rfl
  have hx := eq_infinity hi
  have hnumeral := numeral_of_infinite hi
  cases hneg : x.isNegative with
  | true =>
    rw [hneg, if_pos rfl] at hx hnumeral
    rw [hnumeral]
    refine ⟨"-inf", ?_, rfl⟩
    simp [numberWords, startsWithWord, List.isPrefixOf, ← List.head?_eq_getElem?, hend, hx]
  | false =>
    rw [hneg, if_neg Bool.false_ne_true] at hx hnumeral
    rw [hnumeral]
    refine ⟨"inf", ?_, rfl⟩
    simp [numberWords, startsWithWord, List.isPrefixOf, ← List.head?_eq_getElem?, hend, hx]

theorem numberWords_of_digit {c : Char} (hc : c.isDigit) (b : Bool) (cs : List Char) :
    numberWords.find? (fun w => startsWithWord w.1.toList ((if b then ['-'] else []) ++ c :: cs)) =
      none := by
  have hi : ('i' == c) = false := beq_false_of_ne (ne_of_isDigit hc rfl).symm
  have hN : ('N' == c) = false := beq_false_of_ne (ne_of_isDigit hc rfl).symm
  have hplus : ('+' == c) = false := beq_false_of_ne (ne_of_isDigit hc rfl).symm
  have hminus : ('-' == c) = false := beq_false_of_ne (ne_of_isDigit hc rfl).symm
  cases b <;> simp [numberWords, startsWithWord, List.isPrefixOf, hi, hN, hplus, hminus]

/-- **A number** reads back from its text, if its decimal text does. -/
theorem number_numeral {x : Number} (hx : x.Legible) {rest : List Char} (hr : Ends rest) :
    number (numeral x ++ rest) = .ok (x, rest) := by
  unfold number
  cases hi : x.isInfinite with
  | true =>
    obtain ⟨word, hword, hdrop⟩ := numberWords_of_infinite hi hr
    rw [hword]
    simp only [hdrop]
  | false =>
    obtain ⟨c, cs, hcs, hc, hds⟩ := numeral_of_finite hx.isNaN hi
    have hfloat : ∀ d ∈ numeral x, isFloatChar d = true := by
      rw [hcs]
      refine List.forall_mem_append.2 ⟨?_, List.forall_mem_cons.2 ⟨isFloatChar_of_isDigit hc, hds⟩⟩
      split
      · exact List.forall_mem_singleton.2 rfl
      · nofun
    obtain ⟨htake, hdrop⟩ := span_of_stop hfloat (hr.all (by decide))
    have hword : numberWords.find? (fun w => startsWithWord w.1.toList (numeral x ++ rest)) = none := by
      rw [hcs, List.append_assoc, List.cons_append]
      exact numberWords_of_digit hc _ _
    rw [hword, htake, hdrop, hx.reads hi]

end Reader

end Storyline.Ron
