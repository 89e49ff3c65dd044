import Std.Data.ExtTreeMap

/-!
Identities. Nodes of the story graph and the elements they act on are numbered from one counter,
so that within a session no number is used twice, whichever kind it was handed out for.
-/

namespace Storyline

/-- The identity of a node of the story graph. -/
structure NodeId where
  val : Nat
deriving DecidableEq, Repr, Inhabited

/-- The identity of a scripted element. -/
structure ElementId where
  val : Nat
deriving DecidableEq, Repr, Inhabited

namespace NodeId

instance : ToString NodeId := ⟨fun n => toString n.val⟩

instance : Ord NodeId := ⟨fun a b => compare a.val b.val⟩

theorem compare_eq (a b : NodeId) : compare a b = compare a.val b.val := rfl

instance : Std.TransOrd NodeId where
  eq_swap := by intro a b; simp only [compare_eq]; exact Std.OrientedCmp.eq_swap
  isLE_trans := by intro a b c; simp only [compare_eq]; exact Std.TransCmp.isLE_trans

instance : Std.LawfulEqOrd NodeId where
  eq_of_compare := by intro a b h; cases a; cases b; simpa [compare_eq] using h

end NodeId

namespace ElementId

instance : ToString ElementId := ⟨fun e => toString e.val⟩

instance : Ord ElementId := ⟨fun a b => compare a.val b.val⟩

theorem compare_eq (a b : ElementId) : compare a b = compare a.val b.val := rfl

instance : Std.TransOrd ElementId where
  eq_swap := by intro a b; simp only [compare_eq]; exact Std.OrientedCmp.eq_swap
  isLE_trans := by intro a b c; simp only [compare_eq]; exact Std.TransCmp.isLE_trans

instance : Std.LawfulEqOrd ElementId where
  eq_of_compare := by intro a b h; cases a; cases b; simpa [compare_eq] using h

end ElementId

/-- The source of fresh numbers: everything below `next` has been handed out. -/
structure Counter where
  next : Nat := 0
deriving DecidableEq, Repr, Inhabited

namespace Counter

/-- The next number, and the counter past it. -/
def take (c : Counter) : Nat × Counter := (c.next, ⟨c.next + 1⟩)

/-- A fresh node identity. -/
def node (c : Counter) : NodeId × Counter := (⟨c.take.1⟩, c.take.2)

/-- A fresh element identity. -/
def element (c : Counter) : ElementId × Counter := (⟨c.take.1⟩, c.take.2)

/-- A label made of a family name and a value. -/
def label (family value separator : String) : String := family ++ separator ++ value

end Counter

end Storyline
