import Storyline.World.Author

/-!
The story that the terminal player comes with: a meeting in a park, with a choice that is
remembered later.
-/

namespace Storyline.Player

open Build (author)

/-- Remembers that the choice was the friendly one. -/
def rememberFriendly : Handler := fun _ _ store =>
  match store.set "game" "friendly" (.bool true) with
  | .ok (_, store) => (store, none)
  | .error _ => (store, none)

/-- Writes the story. -/
def tale : Build (Handle Story) := do
  let alice ← Build.character "Alice" { color := some "#f7a" }
  let bob ← Build.character "Bob" {}
  let park ← Build.scene "The Park" { background := some "park.png" }
  let cafe ← Build.scene "The Cafe" {}
  let birds ← Build.sound "birds" { src := "birds.ogg", looping := true }
  let portrait ← Build.image "alice" { src := "alice.png" }
  let story ← Build.story "preview"
  let greeting ← author alice fun a =>
    ((a.say (.plain "Oh! Hello there.")).say (.plain "I don't think we've met.")).takeActions
  let entrance ← author portrait fun a =>
    ((a.setPosition .left {}).showImage (.fade (.ofMillis 300))).takeActions
  let ambience ← author birds fun a => a.play.takeActions
  let friendly ← author bob fun a => (a.say (.plain "I'm Bob. Lovely day for it.")).takeActions
  let flag ← Build.script rememberFriendly
  let remember ← author flag fun a => a.toAction
  let shy ← author bob fun a => (a.say (.plain "...")).takeActions
  let menu ← Build.menu (some (.plain "How does Bob answer?"))
  let answer ← author menu fun a =>
    ((a.choose (.plain "Introduce himself") [friendly, [remember]]).choose (.plain "Stay quiet")
      [shy]).toAction
  let warm ← author alice fun a => (a.say (.plain "Coffee's on me, Bob.")).takeActions
  let cold ← author alice fun a => (a.say (.plain "Well. This is awkward.")).takeActions
  let mood ← Build.condition
  let later ← author mood fun a =>
    ((a.when (.flag "game" "friendly") [warm]).otherwise [cold]).toAction
  let rest ← author cafe fun a => (a.sleep (.ofMillis 500)).takeActions
  let first ← author park fun a => a.action [ambience, entrance, greeting, [answer]]
  let second ← author cafe fun a => a.action [rest, [later]]
  discard (author story fun a => a.action [[first, second]])
  return story

end Storyline.Player
