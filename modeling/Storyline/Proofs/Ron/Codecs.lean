import Storyline.Proofs.Ron.Reading

/-!
# How each type of data is read

* `reads_word`, `reads_sentence`, `reads_position`, `reads_transform`, `reads_image`, `reads_sound`,
  `reads_config`, `reads_settings`: the form of a type reads what the type is written as;
* `reads_value`: **so do values**, by induction on them. What is read behind the name of its case is
  `readCase`;
* `reads_record`, `reads_save`: records of values, and saves.
-/

namespace Storyline.Ron

open Doc Form Reader

variable {α : Type}

/-! ### Lines of dialogue -/

theorem reads_word (w : Word) : Reads Codec.form (Codec.doc w) w := by
  have hstyle : Reads (wordStyle.read defaultColor) (wordStyleDoc w.color) w.color :=
    Structure.reads (.set rfl (by decide) rfl (reads_text w.color) (.nil _ _)) rfl
  exact Structure.reads (.set rfl (by decide) rfl (reads_text w.text)
    (.set rfl (by decide) rfl hstyle (.nil _ _))) rfl

theorem reads_style (s : SentenceStyle) : Reads Codec.form (Codec.doc s) s :=
  Structure.reads (.set rfl (by decide) rfl (reads_text s.color)
    (.set rfl (by decide) rfl (reads_bool s.pause)
      (.set rfl (by decide) rfl (reads_bool s.display) (.nil _ _)))) rfl

theorem forall₂_map_doc [Codec α] {f : Form α} (h : ∀ a, f.Reads (Codec.doc a) a) (as : List α) :
    List.Forall₂ f.Reads (as.map Codec.doc) as := by
  rw [List.forall₂_map_left_iff]
  exact List.forall₂_same.2 fun a _ => h a

theorem reads_sentence (s : Sentence) : Reads Codec.form (Codec.doc s) s :=
  Structure.reads (.set rfl (by decide) rfl (reads_option fun t _ => reads_text t)
    (.set rfl (by decide) rfl (reads_list (forall₂_map_doc reads_word s.words))
      (.set rfl (by decide) rfl (reads_style s.style) (.nil _ _)))) rfl

/-! ### Values -/

/-- What is read behind the name of a case, where that many levels may be opened. -/
def readCase (room : Nat) (name : String) : Reader Value :=
  let payload {α : Type} (r : Reader α) : Reader α := payload (fun _ => r) {}
  let inner : Reader Value := deeper Codec.form { room := room - 1 }
  let nested {α : Type} (r : Reader α) : Reader α := payload (if room = 0 then throw .tooDeep else r)
  match name with
  | "Null" => return .null
  | "Bool" => return .bool (← payload Reader.bool)
  | "Number" => return .number (← payload Reader.number)
  | "String" => return .text (← payload Reader.text)
  | "Date" => return .date (← payload (Form.instant {}))
  | "Array" => return .list (← nested (Form.items inner))
  | "Record" => return .record (← nested (Form.entries inner))
  | name => throw (.unknown name)

theorem readValue_eq (room : Nat) (cs : List Char) :
    readValue (room + 2) cs = (do readCase room (← Reader.name)) cs := by
  match room with
  | 0 => rfl
  | 1 => rfl
  | room + 2 => rfl

theorem payload_append {r : Reader α} {d : Doc} {a : α} (h : r.Gets d a) (l : Layout) (n : Nat)
    (rest : List Char) :
    payload (fun _ => r) {} ('(' :: (render l n d ++ ')' :: rest)) = .ok (a, rest) := by
  unfold payload
  rw [bind_of_ok (blanks_solid (solid_cons (by decide) _)), bind_of_ok (expect_cons '(' _)]
  exact bracketed_append h l n rest

theorem takes_case {r : Reader α} {d : Doc} {a : α} {c : α → Value} {name : String} {room : Nat}
    (hplain : Plain name = true)
    (hcase : readCase room name = (do return c (← payload (fun _ => r) {}))) (h : r.Takes d a) :
    Takes (readValue (room + 2)) (.tagged name d) (c a) := by
  intro d' hd'
  cases hd' with
  | @tagged _ _ d' hd =>
    refine ⟨fun l n => begins_plain hplain _, fun l n rest _ => ?_⟩
    rw [render, List.append_assoc, List.cons_append, List.append_assoc, List.singleton_append,
      readValue_eq, bind_of_ok (name_cons hplain rfl _), hcase,
      bind_of_ok (payload_append (h _ hd) l n rest)]
    rfl

theorem takes_null (room : Nat) : Takes (readValue (room + 2)) (.symbol "Null") .null := by
  intro d' hd'
  cases hd' with
  | symbol =>
    have hplain : Plain "Null" = true := rfl
    refine ⟨fun l n => ?_, fun l n rest hr => ?_⟩
    · have hbegins := begins_plain hplain []
      rw [List.append_nil] at hbegins
      exact hbegins
    · rw [render, readValue_eq, bind_of_ok (name_plain hplain (hr.all (by decide)))]
      rfl

theorem reads_of_room {d : Doc} {v : Value}
    (h : ∀ room, d.opened ≤ room + 2 → Takes (readValue (room + 2)) d v) (hd : 2 ≤ d.opened) :
    Reads Codec.form d v := by
  intro x hx
  obtain ⟨room, hroom⟩ := Nat.exists_eq_add_of_le' (Nat.le_trans hd hx)
  show Takes (readValue x.room) d v
  rw [hroom] at hx ⊢
  exact h room hx

mutual

/-- **A value** is read as it was. -/
theorem reads_value : ∀ v : Value, v.Legible → Reads Codec.form (valueDoc v) v
  | .null, _ => reads_of_room (fun room _ => takes_null room) (Nat.le_refl 2)
  | .bool b, _ => reads_of_room (fun room _ => takes_case rfl rfl (takes_bool b)) (Nat.le_add_left 2 _)
  | .number x, h =>
    reads_of_room (fun room _ => takes_case rfl rfl (takes_number h)) (Nat.le_add_left 2 _)
  | .text s, _ => reads_of_room (fun room _ => takes_case rfl rfl (takes_text s)) (Nat.le_add_left 2 _)
  | .date t, h => reads_of_room
      (fun room _ => takes_case rfl rfl (reads_instant h {} (Nat.zero_le _))) (Nat.le_add_left 2 _)
  | .list items, h => by
    refine reads_of_room (fun room hroom => ?_) (Nat.le_add_left 2 _)
    have hinner : openedItems (valueDocs items) + 1 ≤ room := Nat.le_of_add_le_add_right hroom
    obtain ⟨m, rfl⟩ := Nat.exists_eq_add_of_le' (Nat.le_trans (Nat.le_add_left 1 _) hinner)
    exact takes_case rfl rfl (takes_items (takes_deeper_items (reads_items items h)
      (Nat.le_of_succ_le_succ hinner)))
  | .record fields, h => by
    refine reads_of_room (fun room hroom => ?_) (Nat.le_add_left 2 _)
    have hinner : openedEntries (fieldDocs fields) + 1 ≤ room := Nat.le_of_add_le_add_right hroom
    obtain ⟨m, rfl⟩ := Nat.exists_eq_add_of_le' (Nat.le_trans (Nat.le_add_left 1 _) hinner)
    exact takes_case rfl rfl (takes_entries (takes_deeper_entries (reads_fields fields h.2)
      (Nat.le_of_succ_le_succ hinner)) h.1)

theorem reads_items : ∀ items : List Value, Value.LegibleItems items →
    List.Forall₂ (Reads Codec.form) (valueDocs items) items
  | [], _ => .nil
  | v :: items, h => .cons (reads_value v h.1) (reads_items items h.2)

theorem reads_fields : ∀ fields : List (String × Value), Value.LegibleFields fields →
    List.Forall₂ (fun e p => e.1 = p.1 ∧ Reads Codec.form e.2 p.2) (fieldDocs fields) fields
  | [], _ => .nil
  | (_, v) :: fields, h => .cons ⟨rfl, reads_value v h.1⟩ (reads_fields fields h.2)

end

/-! ### Positions, sounds and images -/

theorem reads_span {t : Span} (h : t.seconds < UInt64.size) : Reads Codec.form (Codec.doc t) t := by
  have hnanos : t.nanos < UInt32.size := Nat.lt_trans t.nanos_lt (by decide)
  have hfields : Reads (spanFields.read (0, 0)) (Codec.doc t) (t.seconds, t.nanos) :=
    Structure.reads (.set rfl (by decide) rfl (reads_below h)
      (.set rfl (by decide) rfl (reads_below hnanos) (.nil _ _))) rfl
  intro x hx d' hd'
  obtain ⟨hbegins, hreads⟩ := hfields x hx d' hd'
  refine ⟨hbegins, fun l n rest hr => ?_⟩
  have hof : Span.of t.seconds t.nanos = t := by
    have hdiv : t.nanos / 1000000000 = 0 := Nat.div_eq_of_lt t.nanos_lt
    have hmod : t.nanos % 1000000000 = t.nanos := Nat.mod_eq_of_lt t.nanos_lt
    unfold Span.of
    cases t
    simp only [Span.mk.injEq] at hdiv hmod ⊢
    omega
  show (spanFields.read (0, 0) x >>= _) _ = _
  rw [bind_of_ok (hreads l n rest hr)]
  simp only [hof, h, if_true]
  rfl

/-- What is read behind the name of a position. -/
def readPosition (x : Context) (name : String) : Reader Position :=
  match name with
  | "Left" => return .left
  | "Center" => return .center
  | "Right" => return .right
  | "Align" => do
    Reader.blanks
    let (x, y) ← axes.read (.zero, .zero) x
    return .align x y
  | "Coord" => do
    Reader.blanks
    let (x, y) ← axes.read (.zero, .zero) x
    return .coord x y
  | name => throw (.unknown name)

theorem position_eq :
    (Codec.form : Form Position) = deeper fun x => (do readPosition x (← caseName x)) := rfl

theorem reads_place {name : String} {p : Position} (hplain : Plain name = true)
    (hcase : ∀ x, readPosition x name = (return p)) : Reads Codec.form (.symbol name) p := by
  rw [position_eq]
  intro x hx
  refine takes_deeper (n := 1) (fun x hx d' hd' => ?_) hx
  cases hd' with
  | symbol =>
    refine ⟨fun l n => ?_, fun l n rest hr => ?_⟩
    · have hbegins := begins_plain hplain []
      rw [List.append_nil] at hbegins
      exact hbegins
    · rw [render, bind_of_ok (caseName_append hplain hx (hr.all (by decide))), hcase]
      rfl

theorem reads_axes {name : String} {c : Number → Number → Position} {a b : Number}
    (ha : a.Legible) (hb : b.Legible) (hplain : Plain name = true)
    (hcase : ∀ x, readPosition x name = (do
      Reader.blanks
      let (a, b) ← axes.read (.zero, .zero) x
      return c a b)) : Reads Codec.form (axesDoc name a b) (c a b) := by
  have hfields : Reads (axes.read (.zero, .zero)) (.struct none [("x", .number a), ("y", .number b)])
      (a, b) :=
    Structure.reads (.set rfl (by decide) rfl (reads_number ha)
      (.set rfl (by decide) rfl (reads_number hb) (.nil _ _))) rfl
  rw [position_eq]
  intro x hx
  refine takes_deeper (n := 2) (fun x hx d' hd' => ?_) hx
  cases hd' with
  | @struct _ _ entries hs =>
    obtain ⟨hbegins, hreads⟩ := hfields x hx _ (.struct none hs)
    refine ⟨fun l n => begins_plain hplain _, fun l n rest hr => ?_⟩
    have htext : render l n (.struct (some name) entries) ++ rest =
        name.toList ++ (render l n (.struct none entries) ++ rest) := by
      rw [render, render, List.append_assoc]
      rfl
    have hhead : (render l n (.struct none entries) ++ rest).head? = some '(' :=
      l.head?_block n '(' ')' (renderFields l (n + 1) entries) rest
    have hparen : ∀ c ∈ (render l n (.struct none entries) ++ rest).head?,
        isMarkedNameChar c = false := by
      rw [hhead]
      rintro _ ⟨⟩
      rfl
    have hroom : 1 ≤ x.room := Nat.le_of_succ_le hx
    rw [htext, bind_of_ok (caseName_append hplain hroom hparen), hcase,
      bind_of_ok (blanks_solid ((hbegins l n).solid rest)), bind_of_ok (hreads l n rest hr)]
    rfl

theorem reads_position {p : Position} (h : p.Legible) : Reads Codec.form (Codec.doc p) p := by
  cases p with
  | left => exact reads_place rfl fun _ => rfl
  | center => exact reads_place rfl fun _ => rfl
  | right => exact reads_place rfl fun _ => rfl
  | align x y => exact reads_axes h.1 h.2 rfl fun _ => rfl
  | coord x y => exact reads_axes h.1 h.2 rfl fun _ => rfl

theorem reads_transform {t : Transform} (h : t.Legible) : Reads Codec.form (Codec.doc t) t :=
  Structure.reads (.set rfl (by decide) rfl (reads_option fun p hp => reads_position (h.position p hp))
    (.set rfl (by decide) rfl (reads_option fun x hx => reads_number (h.opacity x hx))
      (.set rfl (by decide) rfl (reads_option fun x hx => reads_number (h.scale x hx))
        (.set rfl (by decide) rfl (reads_option fun x hx => reads_number (h.rotation x hx))
          (.set rfl (by decide) rfl (reads_span h.seconds) (.nil _ _)))))) rfl

theorem reads_image {c : ImageConfig} (h : c.Legible) : Reads Codec.form (Codec.doc c) c :=
  Structure.reads (.set rfl (by decide) rfl (reads_text c.src)
    (.set rfl (by decide) rfl (reads_position h.position)
      (.set rfl (by decide) rfl (reads_bool c.display)
        (.set rfl (by decide) rfl (fun _ _ => takes_integer h.zIndex_low h.zIndex_high)
          (.nil _ _))))) rfl

theorem reads_sound {c : SoundConfig} (h : c.Legible) : Reads Codec.form (Codec.doc c) c :=
  Structure.reads (.set rfl (by decide) rfl (reads_text c.src)
    (.set rfl (by decide) rfl (reads_bool c.looping)
      (.set rfl (by decide) rfl (reads_number h)
        (.set rfl (by decide) rfl (reads_bool c.sync) (.nil _ _))))) rfl

/-! ### Games -/

theorem reads_config (c : GameConfig) : Reads Codec.form (Codec.doc c) c := by
  have hnames : List.Forall₂ (Reads Form.text) (c.namespaces.map .text) c.namespaces := by
    rw [List.forall₂_map_left_iff]
    exact List.forall₂_same.2 fun name _ => reads_text name
  exact Structure.reads (.set rfl (by decide) rfl (reads_text c.version)
    (.set rfl (by decide) rfl (reads_text c.settingsName)
      (.set rfl (by decide) rfl (reads_text c.settingsSuffix)
        (.set rfl (by decide) rfl (reads_text c.saveSuffix)
          (.set rfl (by decide) rfl (reads_text c.savesFolder)
            (.set rfl (by decide) rfl (reads_list hnames) (.nil _ _))))))) rfl

theorem reads_settings {s : GameSettings} (h : s.Legible) : Reads Codec.form (Codec.doc s) s :=
  Structure.reads (.set rfl (by decide) rfl (reads_number h) (.nil _ _)) rfl

theorem reads_record {fields : Fields} (ho : Record.Ordered fields) (h : Value.LegibleFields fields) :
    Reads Codec.form (Codec.doc fields) fields :=
  reads_map (reads_fields fields h) ho

theorem reads_save {s : SavedGame} (h : s.Legible) : Reads Codec.form (Codec.doc s) s := by
  have htimes : ∀ start : SavedGame, Reads (SavedGame.times.read start)
      (.struct none [("created", .instant s.created), ("updated", .instant s.updated)])
      { start with created := s.created, updated := s.updated } := fun start =>
    Structure.reads (.set rfl (by decide) rfl (reads_instant h.created)
      (.set rfl (by decide) rfl (reads_instant h.updated) (.nil _ _))) rfl
  have hstore : List.Forall₂ (fun e p => e.1 = p.1 ∧ Reads Codec.form e.2 p.2)
      (s.store.map fun e => (e.1, Codec.doc e.2)) s.store := by
    rw [List.forall₂_map_left_iff]
    exact List.forall₂_same.2 fun e he => ⟨rfl, reads_record (h.ordered e he) (h.fields e he)⟩
  have hgame : ∀ start : SavedGame, Reads (SavedGame.contents.read start)
      (.struct none [("store", .map (s.store.map fun e => (e.1, Codec.doc e.2)))])
      { start with store := s.store } := fun start =>
    Structure.reads (.set rfl (by decide) rfl (reads_map hstore h.namespaces) (.nil _ _)) rfl
  exact Structure.reads (.set rfl (by decide) rfl (reads_text s.name)
    (.set rfl (by decide) rfl (reads_text s.version)
      (.cons rfl (by decide) rfl (htimes _) (.cons rfl (by decide) rfl (hgame _) (.nil _ _))))) rfl

end Storyline.Ron
