import Storyline.Action
import Storyline.Element.Character
import Storyline.Element.Image
import Storyline.Element.Scene
import Storyline.Element.Sound
import Storyline.Ron.Codec

/-!
The documents of configurations of elements, which can be read back, and those of actions and
outcomes, which are only written.
-/

namespace Storyline.Ron

open Form (Structure)

/-! ### Configurations of elements -/

def characterFields : Structure CharacterConfig where
  name := "CharacterConfig"
  fields := [("color", Structure.set (Form.option Form.text) fun c _ => ⟨c⟩)]

instance : Codec CharacterConfig where
  doc c := .struct none [("color", .ofOption .text c.color)]
  form := characterFields.read {}

def sceneFields : Structure SceneConfig where
  name := "SceneConfig"
  fields := [("background", Structure.set (Form.option Form.text) fun b _ => ⟨b⟩)]

instance : Codec SceneConfig where
  doc c := .struct none [("background", .ofOption .text c.background)]
  form := sceneFields.read {}

def imageFields : Structure ImageConfig where
  name := "ImageConfig"
  fields := [
    ("src", Structure.set Form.text fun s c => { c with src := s }),
    ("position", Structure.set Codec.form fun p c => { c with position := p }),
    ("display", Structure.set Form.bool fun b c => { c with display := b }),
    ("z_index", Structure.set (fun _ => Reader.integer 0x7fffffff) fun z c =>
      { c with zIndex := z })]
  required := ["src"]

instance : Codec ImageConfig where
  doc c := .struct none [
    ("src", .text c.src),
    ("position", Codec.doc c.position),
    ("display", .bool c.display),
    ("z_index", .int c.zIndex)]
  form := imageFields.read { src := "" }

def soundFields : Structure SoundConfig where
  name := "SoundConfig"
  fields := [
    ("src", Structure.set Form.text fun s c => { c with src := s }),
    ("looping", Structure.set Form.bool fun b c => { c with looping := b }),
    ("volume", Structure.set Form.number fun v c => { c with volume := v }),
    ("sync", Structure.set Form.bool fun b c => { c with sync := b })]
  required := ["src"]

instance : Codec SoundConfig where
  doc c := .struct none [
    ("src", .text c.src),
    ("looping", .bool c.looping),
    ("volume", .number c.volume),
    ("sync", .bool c.sync)]
  form := soundFields.read { src := "" }

/-! ### Actions -/

/-- The document of a chain. -/
def chainDoc (c : Chain) : Doc :=
  .struct none [("head", Codec.doc c.head), ("tail", Codec.doc c.tail)]

/-- The document of what an action does, under the kind of its element. -/
def actionKindDoc : ActionKind → Doc
  | .say line => .tagged "Character" (.tagged "Say" (Codec.doc line))
  | .hideLine line => .tagged "Character" (.tagged "Hide" (Codec.doc line))
  | .scene chain => .tagged "Scene" (.tagged "Action" (.ofOption chainDoc chain))
  | .setBackground src => .tagged "Scene" (.tagged "SetBackground" (.text src))
  | .sleep d => .tagged "Scene" (.tagged "Sleep" (Codec.doc d))
  | .story chain => .tagged "Story" (.tagged "Action" (.ofOption chainDoc chain))
  | .setSrc src => .tagged "Image" (.tagged "SetSrc" (.text src))
  | .setPosition p t => .tagged "Image" (.tuple "SetPosition" [Codec.doc p, Codec.doc t])
  | .showImage t => .tagged "Image" (.tagged "Show" (Codec.doc t))
  | .hideImage t => .tagged "Image" (.tagged "Hide" (Codec.doc t))
  | .applyTransform t => .tagged "Image" (.tagged "ApplyTransform" (Codec.doc t))
  | .condition => .tagged "Condition" (.symbol "Action")
  | .script => .tagged "Script" (.symbol "Action")
  | .menu => .tagged "Menu" (.symbol "Action")
  | .play => .tagged "Sound" (.symbol "Play")
  | .stop => .tagged "Sound" (.symbol "Stop")

/-- The document of the description of a node. -/
def nodeDataDoc {δ : Type} (doc : δ → Doc) (n : NodeData δ) : Doc :=
  .struct none [("id", .text n.id), ("data", .ofOption doc n.data)]

def actionDataDoc (a : ActionData) : Doc :=
  .struct none [("type", .text a.tag), ("content", nodeDataDoc actionKindDoc a.content)]

def outcomeDoc (o : Outcome) : Doc :=
  .struct none [
    ("type", .text o.tag),
    ("node", Codec.doc o.node),
    ("choice", .ofOption (fun n : Nat => .int n) o.choice)]

end Storyline.Ron
