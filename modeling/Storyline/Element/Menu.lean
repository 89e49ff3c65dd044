import Storyline.Log
import Storyline.Graph.Basic
import Storyline.Sentence

/-!
Menus: choices, each with a chain of its own.
-/

namespace Storyline

/-- An entry of a menu and the chain it leads into. -/
structure Choice where
  prompt : Sentence
  actions : List NodeId
  chain : Option Chain
deriving DecidableEq, Repr

/-- The entry that was picked last. -/
structure MenuState where
  chosen : Option Nat := none
deriving DecidableEq, Repr

structure MenuRecord where
  index : Nat
  previous : Option Nat
deriving DecidableEq, Repr

instance : Undoable MenuState MenuRecord where
  rollback r _ store := (⟨r.previous⟩, store)

structure Menu where
  id : ElementId
  prompt : Option Sentence := none
  choices : List Choice := []
  tracked : Tracked MenuState MenuRecord := { state := {} }

namespace Menu

def prompts (m : Menu) : List Sentence := m.choices.map Choice.prompt

def chosen (m : Menu) : Option Nat := m.tracked.state.chosen

def addChoice (m : Menu) (c : Choice) : Menu := { m with choices := m.choices ++ [c] }

/-- Records a pick and answers its chain; nothing if there is no such entry. -/
def pick? (m : Menu) (index : Nat) : Option (Option Chain × Menu) :=
  (m.choices[index]?).map fun c =>
    (c.chain, { m with tracked := m.tracked.change ⟨some index⟩ ⟨index, m.chosen⟩ })

end Menu

end Storyline
