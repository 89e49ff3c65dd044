import Storyline.Proofs.Ron.Codecs

/-!
# What is written is read back

* `Restored a`: `a` is written in both layouts, with the entries of its maps in any order, and each text
  reads back as `a`;
* `opened_value`, `opened_save`: how many levels are opened in reading a value and a save;
* `restored`: **all that is kept is restored**, where values are no deeper than a text may open levels;
* `not_restored_nested`: a value in more than 31 lists is not.
-/

namespace Storyline.Ron

open Doc Form Reader

variable {α β : Type}

/-! ### Whole texts -/

/-- Data is written in both layouts, with its maps in any order, and reads back as it was. -/
def Restored [Codec α] (a : α) : Prop :=
  ∀ l d', (Codec.doc a).Shuffled d' → ∃ text, write? l d' = some text ∧ read Codec.form text = .ok a

theorem head_of_begins {t : List Char} (h : Begins t) : head (' ' :: t) {} t = .ok ({}, t) := by
  obtain ⟨c, cs, rfl, hspace, hslash, hmark, -⟩ := h.cons
  have hget : (get : Reader (List Char)) (c :: cs) = .ok (c :: cs, c :: cs) := rfl
  have hne : ((c :: cs).head? != some '#') = true := by simpa using hmark
  rw [head, bind_of_ok (blanks_solid (solid_cons ⟨hspace, hslash⟩ cs)), bind_of_ok hget]
  simp only [hne, if_true]
  rfl

theorem whole_of_begins (f : Form α) {t : List Char} (h : Begins t) :
    f.whole t = (do
      let a ← f {}
      blanks
      if !(← get).isEmpty then throw (.expected "end of text")
      return a : Reader α) t := by
  have hclock : clock t = .ok (' ' :: t, t) := rfl
  unfold whole
  rw [bind_of_ok hclock, bind_of_ok (head_of_begins h)]

/-- A text without a line at its head is read by its form alone. -/
theorem whole_of_gets {f : Form α} {d : Doc} {a : α} (h : (f {}).Gets d a) (l : Layout) :
    f.whole (render l 0 d) = .ok (a, []) := by
  have hread := h.reads l 0 [] ends_nil
  rw [List.append_nil] at hread
  rw [whole_of_begins f (h.begins l 0), bind_of_ok hread, bind_of_ok (blanks_solid ends_nil.solid)]
  rfl

theorem restored_of_reads [Codec α] {a : α} (h : Reads Codec.form (Codec.doc a) a)
    (hroom : (Codec.doc a).opened ≤ levels) : Restored a := by
  intro l d' hd'
  have hdepth : d'.depth ≤ levels := by
    rw [hd'.depth]
    exact Nat.le_trans (depth_le_opened _) hroom
  refine ⟨String.ofList (render l 0 d'), ?_, ?_⟩
  · unfold write?
    rw [if_pos hdepth]
  · unfold read
    rw [String.toList_ofList, whole_of_gets (h {} hroom d' hd') l]
    rfl

/-! ### How deep data may be -/

mutual

/-- A list or a record opens four levels, and what is innermost two. -/
theorem opened_value : ∀ v : Value, (valueDoc v).opened ≤ 4 * v.nesting + 2
  | .null | .bool _ | .number _ | .text _ | .date _ => Nat.le_refl 2
  | .list items => by
    have hitems := opened_items items
    simp only [valueDoc, opened, Value.nesting]
    omega
  | .record fields => by
    have hfields := opened_fields fields
    simp only [valueDoc, opened, Value.nesting]
    omega

theorem opened_items : ∀ items : List Value,
    openedItems (valueDocs items) ≤ 4 * Value.nestingItems items + 3
  | [] => Nat.zero_le _
  | v :: items => by
    have hv := opened_value v
    have hitems := opened_items items
    simp only [valueDocs, openedItems, Value.nestingItems]
    omega

theorem opened_fields : ∀ fields : List (String × Value),
    openedEntries (fieldDocs fields) ≤ 4 * Value.nestingFields fields + 3
  | [] => Nat.zero_le _
  | (_, v) :: fields => by
    have hv := opened_value v
    have hfields := opened_fields fields
    simp only [fieldDocs, openedEntries, Value.nestingFields]
    omega

end

theorem opened_list {docs : List Doc} {n : Nat} (h : ∀ d ∈ docs, d.opened ≤ n) :
    (Doc.list docs).opened ≤ n + 2 := by
  refine Nat.succ_le_succ ?_
  induction docs with
  | nil => exact Nat.zero_le _
  | cons d docs ih =>
    have hd := h d List.mem_cons_self
    have hdocs := ih fun e he => h e (List.mem_cons_of_mem d he)
    simp only [openedItems]
    omega

theorem openedEntries_le {entries : List (String × Doc)} {n : Nat} (h : ∀ e ∈ entries, e.2.opened ≤ n) :
    openedEntries entries ≤ n + 1 := by
  induction entries with
  | nil => exact Nat.zero_le _
  | cons e entries ih =>
    have he := h e List.mem_cons_self
    have hentries := ih fun b hb => h b (List.mem_cons_of_mem e hb)
    simp only [openedEntries]
    omega

theorem opened_map {entries : List (String × Doc)} {n : Nat} (h : ∀ e ∈ entries, e.2.opened ≤ n) :
    (Doc.map entries).opened ≤ n + 2 := Nat.succ_le_succ (openedEntries_le h)

theorem opened_struct {entries : List (String × Doc)} {n : Nat} (h : ∀ e ∈ entries, e.2.opened ≤ n) :
    (Doc.struct none entries).opened ≤ n + 2 := Nat.succ_le_succ (openedEntries_le h)

theorem opened_option {doc : α → Doc} {n : Nat} (o : Option α) (h : ∀ a, (doc a).opened ≤ n) :
    (ofOption doc o).opened ≤ n + 1 := by
  cases o with
  | none => exact Nat.zero_le _
  | some a => exact Nat.succ_le_succ (h a)

theorem opened_position (p : Position) : (Codec.doc p).opened ≤ 3 := by
  cases p <;> exact Nat.le_of_ble_eq_true rfl

theorem opened_word (w : Word) : (Codec.doc w).opened ≤ 4 := Nat.le_refl 4

theorem opened_sentence (s : Sentence) : (Codec.doc s).opened ≤ 8 := by
  have hspeaker : (ofOption .text s.speaker).opened ≤ 6 :=
    Nat.le_trans (opened_option s.speaker fun _ => Nat.le_refl 0) (by decide)
  have hwords : (Doc.list (s.words.map Codec.doc)).opened ≤ 6 :=
    opened_list (List.forall_mem_map.2 fun w _ => opened_word w)
  have hstyle : (Codec.doc s.style).opened ≤ 6 := Nat.le_of_ble_eq_true rfl
  refine opened_struct (n := 6) ?_
  simp only [List.forall_mem_cons]
  exact ⟨hspeaker, hwords, hstyle, nofun⟩

theorem opened_transform (t : Transform) : (Codec.doc t).opened ≤ 6 := by
  have hposition := opened_option t.position opened_position
  have hnumber : ∀ o : Option Number, (ofOption .number o).opened ≤ 4 := fun o =>
    Nat.le_trans (opened_option o fun _ => Nat.le_refl 0) (by decide)
  have hduration : (Codec.doc t.duration).opened ≤ 4 := Nat.le_of_ble_eq_true rfl
  refine opened_struct (n := 4) ?_
  simp only [List.forall_mem_cons]
  exact ⟨hposition, hnumber _, hnumber _, hnumber _, hduration, nofun⟩

theorem opened_image (c : ImageConfig) : (Codec.doc c).opened ≤ 5 := by
  have hposition := opened_position c.position
  refine opened_struct (n := 3) ?_
  simp only [List.forall_mem_cons]
  exact ⟨Nat.zero_le _, hposition, Nat.zero_le _, Nat.zero_le _, nofun⟩

theorem opened_config (c : GameConfig) : (Codec.doc c).opened ≤ 4 := by
  have hnames : (Doc.list (c.namespaces.map .text)).opened ≤ 2 :=
    opened_list (List.forall_mem_map.2 fun _ _ => Nat.le_refl 0)
  refine opened_struct (n := 2) ?_
  simp only [List.forall_mem_cons]
  exact ⟨Nat.zero_le _, Nat.zero_le _, Nat.zero_le _, Nat.zero_le _, Nat.zero_le _, hnames, nofun⟩

theorem fieldDocs_eq (fields : Fields) : fieldDocs fields = fields.map fun e => (e.1, valueDoc e.2) := by
  induction fields with
  | nil => rfl
  | cons e fields ih => rw [fieldDocs, ih, List.map_cons]

theorem opened_record {fields : Fields} {n : Nat} (h : ∀ e ∈ fields, e.2.nesting ≤ n) :
    (Codec.doc fields).opened ≤ 4 * n + 4 := by
  have hvalues : ∀ e ∈ fields, (valueDoc e.2).opened ≤ 4 * n + 2 := fun e he =>
    Nat.le_trans (opened_value e.2) (Nat.add_le_add_right (Nat.mul_le_mul_left 4 (h e he)) 2)
  show (Doc.map (fieldDocs fields)).opened ≤ 4 * n + 4
  rw [fieldDocs_eq]
  exact opened_map (List.forall_mem_map.2 hvalues)

theorem opened_save {s : SavedGame} {n : Nat} (h : ∀ e ∈ s.store, ∀ f ∈ e.2, f.2.nesting ≤ n) :
    (Codec.doc s).opened ≤ 4 * n + 10 := by
  have hstore : (Doc.map (s.store.map fun e => (e.1, Codec.doc e.2))).opened ≤ 4 * n + 6 :=
    opened_map (List.forall_mem_map.2 fun e he => opened_record (h e he))
  have hgame : (Doc.struct none [("store", .map (s.store.map fun e => (e.1, Codec.doc e.2)))]).opened ≤
      4 * n + 8 :=
    opened_struct (List.forall_mem_singleton.2 hstore)
  have hmeta : (Doc.struct none [("created", .instant s.created), ("updated", .instant s.updated)]).opened
      ≤ 4 * n + 8 := Nat.le_trans (Nat.le_of_ble_eq_true rfl) (Nat.le_add_left 8 _)
  refine opened_struct ?_
  simp only [List.forall_mem_cons]
  exact ⟨Nat.zero_le _, Nat.zero_le _, hmeta, hgame, nofun⟩

/-! ### All that is kept -/

/-- **What is written is read back.** Whatever is kept is written in both layouts, with the entries of its
maps in any order, and reads back as it was, where lists and records do not stand deeper in each other
than 31 levels, and in a save 29 levels. -/
theorem restored :
    (∀ v : Value, v.Legible → v.nesting ≤ 31 → Restored v) ∧
      (∀ s : Sentence, Restored s) ∧
      (∀ w : Word, Restored w) ∧
      (∀ t : Transform, t.Legible → Restored t) ∧
      (∀ p : Position, p.Legible → Restored p) ∧
      (∀ c : ImageConfig, c.Legible → Restored c) ∧
      (∀ c : SoundConfig, c.Legible → Restored c) ∧
      (∀ c : GameConfig, Restored c) ∧
      (∀ s : GameSettings, s.Legible → Restored s) ∧
      (∀ fields : Fields, Record.Ordered fields → Value.LegibleFields fields →
        (∀ e ∈ fields, e.2.nesting ≤ 31) → Restored fields) ∧
      ∀ s : SavedGame, s.Legible → (∀ e ∈ s.store, ∀ f ∈ e.2, f.2.nesting ≤ 29) → Restored s := by
  have hlevels : levels = 128 := rfl
  refine ⟨fun v h hn => ?_, fun s => ?_, fun w => ?_, fun t h => ?_, fun p h => ?_, fun c h => ?_,
    fun c h => ?_, fun c => ?_, fun s h => ?_, fun fields ho h hn => ?_, fun s h hn => ?_⟩
  · -- for each type: what is read back, and how many levels it opens at most
    have hopened := opened_value v
    exact restored_of_reads (reads_value v h) (show (valueDoc v).opened ≤ levels by omega)
  · exact restored_of_reads (reads_sentence s) (Nat.le_trans (opened_sentence s) (by decide))
  · exact restored_of_reads (reads_word w) (Nat.le_trans (opened_word w) (by decide))
  · exact restored_of_reads (reads_transform h) (Nat.le_trans (opened_transform t) (by decide))
  · exact restored_of_reads (reads_position h) (Nat.le_trans (opened_position p) (by decide))
  · exact restored_of_reads (reads_image h) (Nat.le_trans (opened_image c) (by decide))
  · exact restored_of_reads (reads_sound h) (Nat.le_of_ble_eq_true rfl)
  · exact restored_of_reads (reads_config c) (Nat.le_trans (opened_config c) (by decide))
  · exact restored_of_reads (reads_settings h) (Nat.le_of_ble_eq_true rfl)
  · exact restored_of_reads (reads_record ho h) (Nat.le_trans (opened_record hn) (by decide))
  · exact restored_of_reads (reads_save h) (Nat.le_trans (opened_save hn) (by decide))

/-- Half of something. -/
def half : Number := ⟨0x3fe0000000000000⟩

theorem legible_half : half.Legible := ⟨by decide, fun _ => by decide +kernel⟩

/-- What a traveller carries: half a loaf, a letter of some day, and a purse without bottom. -/
def belongings : Fields := [
  ("bread", .number half),
  ("letter", .list [.text "come \n\"soon\"", .date ⟨1577934245, 500000000⟩, .null]),
  ("purse", .record [("gold", .number .infinity), ("open", .bool true)])]

/-- The evening at the inn. -/
def evening : SavedGame where
  name := "inn"
  version := "0.1.0"
  created := ⟨1577934245, 0⟩
  updated := ⟨1577934245, 500000000⟩
  store := [("game", belongings)]

theorem restored_belongings :
    Restored (.record belongings : Value) ∧
      Restored ({ position := some (.align half half), opacity := some half } : Transform) ∧
      Restored (.coord half .infinity : Position) ∧
      Restored ({ src := "inn.png", position := .align half half, zIndex := -3 } : ImageConfig) ∧
      Restored ({ src := "rain.ogg", volume := half } : SoundConfig) ∧
      Restored (⟨half⟩ : GameSettings) ∧
      Restored belongings ∧
      Restored evening := by
  have hinfinity : Number.infinity.Legible := ⟨by decide, by decide⟩
  have hdate : (⟨1577934245, 500000000⟩ : Instant).Legible := by
    unfold Instant.Legible
    decide +kernel
  have hcreated : (⟨1577934245, 0⟩ : Instant).Legible := by
    unfold Instant.Legible
    decide +kernel
  have hordered : Record.Ordered belongings := by
    unfold Record.Ordered
    decide +kernel
  have hpurse : Record.Ordered [("gold", Value.number .infinity), ("open", .bool true)] := by
    unfold Record.Ordered
    decide +kernel
  have hfields : Value.LegibleFields belongings :=
    ⟨legible_half, ⟨trivial, hdate, trivial, trivial⟩, ⟨hpurse, hinfinity, trivial, trivial⟩, trivial⟩
  have hmove : ({ position := some (.align half half), opacity := some half } : Transform).Legible := by
    refine ⟨?_, ?_, nofun, nofun, by decide⟩
    · rintro _ ⟨⟩
      exact ⟨legible_half, legible_half⟩
    · rintro _ ⟨⟩
      exact legible_half
  have hevening : evening.Legible :=
    ⟨hcreated, hdate, List.pairwise_singleton _ _, List.forall_mem_singleton.2 hordered,
      List.forall_mem_singleton.2 hfields⟩
  obtain ⟨hvalue, -, -, htransform, hposition, himage, hsound, -, hsettings, hrecord, hsave⟩ := restored
  exact ⟨hvalue _ ⟨hordered, hfields⟩ (by decide), htransform _ hmove,
    hposition _ ⟨legible_half, hinfinity⟩, himage _ ⟨⟨legible_half, legible_half⟩, by decide, by decide⟩,
    hsound _ legible_half, hsettings _ legible_half, hrecord _ hordered hfields (by decide),
    hsave _ hevening (by decide)⟩

/-! ### Data that is too deep -/

/-- Nothing, in that many lists. -/
def nested : Nat → Value
  | 0 => .null
  | n + 1 => .list [nested n]

theorem nesting_nested (k : Nat) : (nested k).nesting = k := by
  induction k with
  | zero => rfl
  | succ k ih => simp only [nested, Value.nesting, Value.nestingItems, ih, Nat.max_zero]

theorem legible_nested (k : Nat) : (nested k).Legible := by
  induction k with
  | zero => trivial
  | succ k ih => exact ⟨ih, trivial⟩

theorem bind_of_error {r : Reader α} {k : α → Reader β} {cs : List Char} {e : ReadError}
    (h : r cs = .error e) : (r >>= k) cs = .error e := by
  show (r cs >>= fun p => k p.1 p.2) = _
  rw [h]
  rfl

theorem items_tooDeep {item : Reader α} {t rest : List Char} (hb : Begins t)
    (h : item (t ++ rest) = .error .tooDeep) (l : Layout) (n : Nat) :
    Form.items item ('[' :: (l.line n ++ (t ++ rest))) = .error .tooDeep := by
  obtain ⟨c, cs, hc, -, -, -, hstop⟩ := hb.cons
  have hne : c ≠ ']' := fun he => hstop (he ▸ stop_bracket)
  have hclock : clock (l.line n ++ (t ++ rest)) = .ok (' ' :: (l.line n ++ (t ++ rest)),
      l.line n ++ (t ++ rest)) := rfl
  have hpeek : peek (t ++ rest) = .ok (c, t ++ rest) := by rw [hc]; rfl
  have hfrom : ∀ clock, runFrom ']' (fun as => do return (← item) :: as) (' ' :: clock) []
      (l.line n ++ (t ++ rest)) = .error .tooDeep := by
    intro clock
    rw [runFrom, bind_of_ok (blanks_line l n (hb.solid rest)), bind_of_ok hpeek]
    simp only [hne, if_false]
    exact bind_of_error (bind_of_error h)
  unfold Form.items run
  rw [bind_of_ok (expect_cons '[' _)]
  refine bind_of_error ?_
  rw [bind_of_ok hclock]
  exact bind_of_error (hfrom _)

theorem payload_of_error {r : Reader α} {body : List Char} {e : ReadError} (hb : Solid body)
    (h : r body = .error e) : payload (fun _ => r) {} ('(' :: body) = .error e := by
  unfold payload bracketed
  rw [bind_of_ok (blanks_solid (solid_cons (by decide) body)), bind_of_ok (expect_cons '(' body),
    bind_of_ok (blanks_solid hb)]
  exact bind_of_error h

/-- **Lists that are too deep** in each other for the levels that are left do not read back. -/
theorem readValue_tooDeep (k room : Nat) (h : room < 4 * k + 2) (l : Layout) (n : Nat) (rest : List Char) :
    readValue room (render l n (valueDoc (nested k)) ++ rest) = .error .tooDeep := by
  induction k generalizing room n rest with
  | zero =>
    -- at the innermost value the room is used up
    match room with
    | 0 => rfl
    | 1 => rfl
    | room + 2 => omega
  | succ k ih =>
    have hbegins : Begins (render l (n + 1) (valueDoc (nested k))) :=
      (reads_value _ (legible_nested k) { room := _ } (Nat.le_refl _) _ (.refl _)).begins l (n + 1)
    obtain ⟨tail, htail⟩ : ∃ tail, render l n (valueDoc (nested (k + 1))) ++ rest = "Array".toList ++
        '(' :: '[' :: (l.line (n + 1) ++ (render l (n + 1) (valueDoc (nested k)) ++ tail)) := by
      refine ⟨l.behind n ']' (')' :: rest) [], ?_⟩
      have htext : render l n (valueDoc (nested (k + 1))) = "Array".toList ++
          '(' :: (l.block n '[' ']' [render l (n + 1) (valueDoc (nested k))] ++ [')']) := rfl
      rw [← l.block_append n '[' ']' _ [] (')' :: rest), htext, List.append_assoc, List.cons_append,
        List.append_assoc]
      rfl
    have hbracket : Solid ('[' :: (l.line (n + 1) ++
        (render l (n + 1) (valueDoc (nested k)) ++ tail))) := solid_cons (by decide) _
    match room with
    | 0 => rfl
    | 1 => rfl
    | 2 =>
      rw [htail, readValue_eq, bind_of_ok (name_cons rfl rfl _)]
      exact bind_of_error (payload_of_error hbracket rfl)
    | room + 3 =>
      -- in the inner value there are fewer levels left than it opens
      have hinner : deeper (Codec.form : Form Value) { room := room }
          (render l (n + 1) (valueDoc (nested k)) ++ tail) = .error .tooDeep := by
        match room with
        | 0 => rfl
        | room + 1 => exact ih room (by omega) (n + 1) tail
      rw [htail, readValue_eq, bind_of_ok (name_cons rfl rfl _)]
      exact bind_of_error (payload_of_error hbracket (items_tooDeep hbegins hinner l (n + 1)))

/-- **More than 31 lists** in each other do not read back. -/
theorem not_restored_nested {k : Nat} (hk : 31 < k) : ¬ Restored (nested k) := by
  intro h
  obtain ⟨text, hwrite, hread⟩ := h .compact _ (.refl _)
  unfold write? at hwrite
  split at hwrite
  · obtain rfl := Option.some_inj.1 hwrite
    have hbegins : Begins (render .compact 0 (valueDoc (nested k))) :=
      (reads_value _ (legible_nested k) { room := _ } (Nat.le_refl _) _ (.refl _)).begins .compact 0
    have hdeep := readValue_tooDeep k levels (show 128 < 4 * k + 2 by omega) .compact 0 []
    rw [List.append_nil] at hdeep
    have hwhole : (Codec.form : Form Value).whole (render .compact 0 (valueDoc (nested k))) =
        .error .tooDeep := by
      rw [whole_of_begins _ hbegins]
      exact bind_of_error hdeep
    have herror : read (Codec.form : Form Value) (String.ofList (render .compact 0 (valueDoc (nested k)))) =
        .error .tooDeep := by
      unfold read
      rw [String.toList_ofList, hwhole]
      rfl
    rw [show Codec.doc (nested k) = valueDoc (nested k) from rfl, herror] at hread
    cases hread
  · cases hwrite

/-- So 50 levels are too many. -/
theorem nested_not_restored :
    (nested 32).Legible ∧ (nested 32).nesting ≤ 50 ∧ ¬ Restored (nested 32) := by
  refine ⟨legible_nested 32, ?_, not_restored_nested (by decide)⟩
  rw [nesting_nested]
  decide

end Storyline.Ron
