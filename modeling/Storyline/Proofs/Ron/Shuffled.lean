import Storyline.Ron.Doc

/-!
# Documents whose maps are in another order

* `Doc.Shuffled d d'`: `d'` is `d` with the entries of all maps in any order;
* `Doc.Shuffled.depth`: it is as deep;
* `Doc.opened`: the levels that are opened in reading a document. They are no fewer than the levels of
  its depth, which are counted in writing it.
-/

namespace Storyline.Ron.Doc

/-! ### Any order -/

mutual

/-- A document, with the entries of all its maps in any order. -/
inductive Shuffled : Doc → Doc → Prop
  | bool (b : Bool) : Shuffled (.bool b) (.bool b)
  | int (i : Int) : Shuffled (.int i) (.int i)
  | number (x : Number) : Shuffled (.number x) (.number x)
  | text (s : String) : Shuffled (.text s) (.text s)
  | absent : Shuffled .absent .absent
  | present {d d' : Doc} (h : Shuffled d d') : Shuffled (.present d) (.present d')
  | wrapped {d d' : Doc} (h : Shuffled d d') : Shuffled (.wrapped d) (.wrapped d')
  | symbol (name : String) : Shuffled (.symbol name) (.symbol name)
  | tagged (name : String) {d d' : Doc} (h : Shuffled d d') :
      Shuffled (.tagged name d) (.tagged name d')
  | tuple (name : String) {items items' : List Doc} (h : ShuffledItems items items') :
      Shuffled (.tuple name items) (.tuple name items')
  | struct (name : Option String) {entries entries' : List (String × Doc)}
      (h : ShuffledEntries entries entries') : Shuffled (.struct name entries) (.struct name entries')
  | list {items items' : List Doc} (h : ShuffledItems items items') :
      Shuffled (.list items) (.list items')
  | map {entries entries' entries'' : List (String × Doc)} (h : ShuffledEntries entries entries')
      (hp : entries'.Perm entries'') : Shuffled (.map entries) (.map entries'')

inductive ShuffledItems : List Doc → List Doc → Prop
  | nil : ShuffledItems [] []
  | cons {d d' : Doc} {items items' : List Doc} (h : Shuffled d d') (hs : ShuffledItems items items') :
      ShuffledItems (d :: items) (d' :: items')

inductive ShuffledEntries : List (String × Doc) → List (String × Doc) → Prop
  | nil : ShuffledEntries [] []
  | cons (key : String) {d d' : Doc} {entries entries' : List (String × Doc)} (h : Shuffled d d')
      (hs : ShuffledEntries entries entries') :
      ShuffledEntries ((key, d) :: entries) ((key, d') :: entries')

end

mutual

theorem Shuffled.refl : ∀ d : Doc, Shuffled d d
  | .bool b => .bool b
  | .int i => .int i
  | .number x => .number x
  | .text s => .text s
  | .absent => .absent
  | .present d => .present (Shuffled.refl d)
  | .wrapped d => .wrapped (Shuffled.refl d)
  | .symbol name => .symbol name
  | .tagged name d => .tagged name (Shuffled.refl d)
  | .tuple name items => .tuple name (ShuffledItems.refl items)
  | .struct name entries => .struct name (ShuffledEntries.refl entries)
  | .list items => .list (ShuffledItems.refl items)
  | .map entries => .map (ShuffledEntries.refl entries) (.refl entries)

theorem ShuffledItems.refl : ∀ items : List Doc, ShuffledItems items items
  | [] => .nil
  | d :: items => .cons (Shuffled.refl d) (ShuffledItems.refl items)

theorem ShuffledEntries.refl : ∀ entries : List (String × Doc), ShuffledEntries entries entries
  | [] => .nil
  | (key, d) :: entries => .cons key (Shuffled.refl d) (ShuffledEntries.refl entries)

end

/-! ### Levels -/

theorem depthEntries_perm {entries entries' : List (String × Doc)} (h : entries.Perm entries') :
    depthEntries entries' = depthEntries entries := by
  induction h with
  | nil => rfl
  | cons e h ih => rw [depthEntries, depthEntries, ih]
  | swap e e' entries =>
    simp only [depthEntries]
    omega
  | trans _ _ ih ih' => rw [ih', ih]

mutual

/-- **The order of entries** does not make a document deeper. -/
theorem Shuffled.depth : ∀ {d d' : Doc}, Shuffled d d' → d'.depth = d.depth
  | _, _, .bool _ | _, _, .int _ | _, _, .number _ | _, _, .text _ | _, _, .absent
  | _, _, .symbol _ => rfl
  | _, _, .present h | _, _, .wrapped h | _, _, .tagged _ h => congrArg (· + 1) h.depth
  | _, _, .tuple _ h | _, _, .list h => congrArg (· + 1) h.depth
  | _, _, .struct _ h => congrArg (· + 1) h.depth
  | _, _, .map h hp => congrArg (· + 1) ((depthEntries_perm hp).trans h.depth)

theorem ShuffledItems.depth : ∀ {items items' : List Doc}, ShuffledItems items items' →
    depthItems items' = depthItems items
  | _, _, .nil => rfl
  | _, _, .cons h hs => by rw [depthItems, depthItems, h.depth, hs.depth]

theorem ShuffledEntries.depth : ∀ {entries entries' : List (String × Doc)},
    ShuffledEntries entries entries' → depthEntries entries' = depthEntries entries
  | _, _, .nil => rfl
  | _, _, .cons _ h hs => by rw [depthEntries, depthEntries, h.depth, hs.depth]

end

mutual

/-- The levels that are opened in reading a document. -/
def opened : Doc → Nat
  | bool _ | int _ | number _ | text _ | absent => 0
  | symbol _ => 2
  | present d | wrapped d => d.opened + 1
  | tagged _ d => d.opened + 2
  | tuple _ items => openedItems items + 2
  | struct name entries => openedEntries entries + if name.isSome then 2 else 1
  | list items => openedItems items + 1
  | map entries => openedEntries entries + 1

/-- The levels of the deepest item, the item itself being one. -/
def openedItems : List Doc → Nat
  | [] => 0
  | d :: rest => max (d.opened + 1) (openedItems rest)

/-- The levels of the deepest entry, the entry itself being one. -/
def openedEntries : List (String × Doc) → Nat
  | [] => 0
  | (_, d) :: rest => max (d.opened + 1) (openedEntries rest)

end

mutual

theorem depth_le_opened : ∀ d : Doc, d.depth ≤ d.opened
  | .bool _ | .int _ | .number _ | .text _ | .absent | .symbol _ => Nat.zero_le _
  | .present d | .wrapped d => Nat.succ_le_succ (depth_le_opened d)
  | .tagged _ d => Nat.le_succ_of_le (Nat.succ_le_succ (depth_le_opened d))
  | .tuple _ items => Nat.le_succ_of_le (Nat.succ_le_succ (depthItems_le_opened items))
  | .struct name entries => by
    have hle := depthEntries_le_opened entries
    unfold depth opened
    split <;> omega
  | .list items => Nat.succ_le_succ (depthItems_le_opened items)
  | .map entries => Nat.succ_le_succ (depthEntries_le_opened entries)

theorem depthItems_le_opened : ∀ items : List Doc, depthItems items ≤ openedItems items
  | [] => Nat.le_refl _
  | d :: rest => by
    have hd := depth_le_opened d
    have hrest := depthItems_le_opened rest
    unfold depthItems openedItems
    omega

theorem depthEntries_le_opened : ∀ entries : List (String × Doc),
    depthEntries entries ≤ openedEntries entries
  | [] => Nat.le_refl _
  | (_, d) :: rest => by
    have hd := depth_le_opened d
    have hrest := depthEntries_le_opened rest
    unfold depthEntries openedEntries
    omega

end

end Storyline.Ron.Doc
