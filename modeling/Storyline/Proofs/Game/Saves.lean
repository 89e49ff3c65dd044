import Storyline.Game.Session
import Storyline.Proofs.Files
import Storyline.Proofs.Ron.Proper
import Storyline.Proofs.Ron.Restored

/-!
# Saves that are loaded

* `Session.saveGame_eq_ok`: what was saved is the snapshot of the game, and is in the file of its name;
* `Session.load_save`: **a save is loaded**, in any game with the same setup and the same namespaces, unless
  it opens more levels than a text may.
-/

namespace Storyline

namespace Session

variable {σ τ α β : Type} {base name : String} {now : Instant} {g g₁ : Game σ} {t t₁ : FileTree} {a : α}

/-! ### Sessions with files -/

/-- A session with files, run: its answer, the game and the files that it leaves. -/
def onFiles (s : Session σ (StateM FileTree) α) (g : Game σ) (t : FileTree) :
    (Except GameError α × Game σ) × FileTree := (s.run.run g).run t

theorem onFiles_bind (s : Session σ (StateM FileTree) α) (f : α → Session σ (StateM FileTree) β)
    (g : Game σ) (t : FileTree) :
    onFiles (s >>= f) g t =
      match onFiles s g t with
      | ((.ok a, g'), t') => onFiles (f a) g' t'
      | ((.error e, g'), t') => ((.error e, g'), t') := by
  have hbind : onFiles (s >>= f) g t = (ExceptT.bindCont f (onFiles s g t).1.1 :
      StateT (Game σ) (StateM FileTree) _) (onFiles s g t).1.2 (onFiles s g t).2 := rfl
  rw [hbind]
  rcases onFiles s g t with ⟨⟨_ | _, _⟩, _⟩ <;> rfl

theorem onFiles_bind_eq_ok {s : Session σ (StateM FileTree) α} {f : α → Session σ (StateM FileTree) β}
    {b : β} : onFiles (s >>= f) g t = ((.ok b, g₁), t₁) ↔
      ∃ a g' t', onFiles s g t = ((.ok a, g'), t') ∧ onFiles (f a) g' t' = ((.ok b, g₁), t₁) := by
  rw [onFiles_bind]
  rcases onFiles s g t with ⟨⟨_ | a, g'⟩, t'⟩
  · constructor
    · rintro ⟨⟩
    · rintro ⟨_, _, _, ⟨⟩, -⟩
  · constructor
    · exact fun h => ⟨a, g', t', rfl, h⟩
    · rintro ⟨_, _, _, ⟨⟩, h⟩
      exact h

theorem onFiles_archived (r : ExceptT PersistError (StateM FileTree) α) (g : Game σ) (t : FileTree) :
    onFiles (archived r) g t =
      (((Archive.onFiles r t).1.mapError .persist, g), (Archive.onFiles r t).2) := by
  have hrun : onFiles (liftM r.run : Session σ (StateM FileTree) _) g t =
      ((.ok (Archive.onFiles r t).1, g), (Archive.onFiles r t).2) := rfl
  unfold archived
  rw [onFiles_bind, hrun]
  rcases Archive.onFiles r t with ⟨_ | _, _⟩ <;> rfl

theorem onFiles_archived_eq_ok {r : ExceptT PersistError (StateM FileTree) α} :
    onFiles (archived r) g t = ((.ok a, g₁), t₁) ↔ g₁ = g ∧ Archive.onFiles r t = (.ok a, t₁) := by
  rw [onFiles_archived]
  rcases Archive.onFiles r t with ⟨_ | _, _⟩
  · exact ⟨nofun, fun h => nomatch h.2⟩
  · constructor
    · rintro ⟨⟩
      exact ⟨rfl, rfl⟩
    · rintro ⟨rfl, ⟨⟩⟩
      rfl

/-! ### Saving and loading -/

/-- **What was saved** is the game as it was, and is in the file of its name. -/
theorem saveGame_eq_ok {saved : SavedGame}
    (h : onFiles (saveGame (.ofFiles FileTree.system base) name now) g t = ((.ok saved, g₁), t₁)) :
    saved = snapshot g name now ∧
      ∃ text, Ron.write? .pretty (Ron.Codec.doc saved) = some text ∧
        t₁.find? (Archive.path base (saveName g.config name)) = some (.file text.toUTF8) := by
  unfold saveGame at h
  obtain ⟨_, _, _, hget, h⟩ := onFiles_bind_eq_ok.1 h
  cases hget
  obtain ⟨_, _, t', hfolder, h⟩ := onFiles_bind_eq_ok.1 h
  obtain ⟨rfl, -⟩ := onFiles_archived_eq_ok.1 hfolder
  obtain ⟨_, _, t'', hsave, h⟩ := onFiles_bind_eq_ok.1 h
  obtain ⟨rfl, hsave⟩ := onFiles_archived_eq_ok.1 hsave
  cases h
  exact ⟨rfl, Archive.save_eq_ok hsave⟩

/-- **What a file holds** is what the game goes on with. -/
theorem loadGame_of_find? {saved : SavedGame} {text : String}
    (h : t.find? (Archive.path base (saveName g.config name)) = some (.file text.toUTF8))
    (hread : Ron.read Ron.Codec.form text = .ok saved) :
    onFiles (loadGame (.ofFiles FileTree.system base) name) g t =
      ((.ok saved,
        { g.mapStage fun s => { s with store := s.store.load saved.store } with
          live := { g.live with saved := some saved } }), t) := by
  unfold loadGame
  refine onFiles_bind_eq_ok.2 ⟨g, g, t, rfl, ?_⟩
  refine onFiles_bind_eq_ok.2 ⟨saved, g, t, onFiles_archived_eq_ok.2 ⟨rfl, ?_⟩, rfl⟩
  exact Archive.load_of_find? h hread

end Session

/-- A game of proper data: its store, and the instant at which its save was made. -/
structure Game.Proper {σ : Type} (g : Game σ) : Prop where
  store : g.store.Proper
  created : ∀ saved ∈ g.live.saved, saved.created.Valid

namespace Session

variable {σ τ : Type} {base name : String} {now : Instant} {g g₁ : Game σ} {t t₁ : FileTree}

theorem legible_snapshot (h : g.Proper) (hnow : now.Valid) : (snapshot g name now).Legible := by
  have hcreated : (g.live.saved.getD (.new name g.config.version now)).created.Valid := by
    cases hsaved : g.live.saved with
    | none => exact hnow
    | some saved => exact h.created saved hsaved
  exact SavedGame.legible_of_proper h.store rfl hcreated hnow

/-- **A save that was written is loaded.** Whatever the store holds, values of any kind and any depth, a game
with the same setup and the same namespaces goes on with the save and has its contents, as long as nobody
else touches the file: if the save opens no more levels than a text may. -/
theorem load_save {saved : SavedGame} (hg : g.Proper) (hnow : now.Valid)
    (hsave : onFiles (saveGame (.ofFiles FileTree.system base) name now) g t = ((.ok saved, g₁), t₁))
    (hroom : (Ron.Codec.doc saved).opened ≤ Ron.Doc.levels) {g' : Game τ} {t' : FileTree}
    (hconfig : g'.config = g.config) (hkeys : g'.store.keys = g.store.keys)
    (hfile : t'.find? (Archive.path base (saveName g.config name)) =
      t₁.find? (Archive.path base (saveName g.config name))) :
    ∃ g₂ : Game τ, onFiles (loadGame (.ofFiles FileTree.system base) name) g' t' = ((.ok saved, g₂), t') ∧
      saved.store = g.store.toData ∧ g₂.store.toData = g.store.toData := by
  obtain ⟨hsaved, text, htext, hwritten⟩ := saveGame_eq_ok hsave
  have hlegible : saved.Legible := hsaved ▸ legible_snapshot hg hnow
  have hstore : saved.store = g.store.toData := hsaved ▸ rfl
  obtain ⟨text', htext', hread⟩ := Ron.restored_of_reads (Ron.reads_save hlegible) hroom .pretty _ (.refl _)
  obtain rfl := Option.some_inj.1 (htext.symm.trans htext')
  have hfound : t'.find? (Archive.path base (saveName g'.config name)) = some (.file text.toUTF8) := by
    rw [hconfig, hfile, hwritten]
  refine ⟨_, loadGame_of_find? hfound hread, hstore, ?_⟩
  show (g'.store.load saved.store).toData = g.store.toData
  rw [hstore]
  exact Store.toData_load hkeys

/-- The game of a traveller at the inn. -/
def innGame : Game Unit where
  config := {}
  stage := {
    world := .new
    store := ({} : Store).register { name := "game", key := "game", content := Ron.belongings }
    futures := {}
    screen := () }

/-- The save that is made at the inn, the game and the files after that. -/
def innSave : (Except GameError SavedGame × Game Unit) × FileTree :=
  onFiles (saveGame (.ofFiles FileTree.system "inn") "night" ⟨1577934245, 0⟩) innGame
    (({} : FileTree).put ["inn"] .folder)

theorem proper_innGame : innGame.Proper := by
  have hdata : innGame.store.toData = [("game", Ron.belongings)] := rfl
  have hordered : Record.Ordered Ron.belongings := by
    unfold Record.Ordered
    decide +kernel
  have hpurse : Record.Ordered [("gold", Value.number .infinity), ("open", .bool true)] := by
    unfold Record.Ordered
    decide +kernel
  have hletter : (⟨1577934245, 500000000⟩ : Instant).Valid :=
    ⟨by decide, by decide, by decide +kernel, by decide +kernel⟩
  have hbread : Ron.half.isNaN = false := rfl
  have hgold : Number.infinity.isNaN = false := rfl
  have hfields : Value.ProperFields Ron.belongings :=
    ⟨hbread, ⟨trivial, hletter, trivial, trivial⟩, ⟨hpurse, hgold, trivial, trivial⟩, trivial⟩
  refine ⟨⟨?_, ?_⟩, nofun⟩
  · rw [hdata]
    exact List.forall_mem_singleton.2 hordered
  · rw [hdata]
    exact List.forall_mem_singleton.2 hfields

theorem load_save_inn :
    ∃ saved g₁ t₁, innSave = ((.ok saved, g₁), t₁) ∧
      ∃ g₂ : Game Unit, onFiles (loadGame (.ofFiles FileTree.system "inn") "night") (Game.new {} ()) t₁ =
          ((.ok saved, g₂), t₁) ∧
        saved.store = innGame.store.toData ∧ g₂.store.toData = innGame.store.toData := by
  have hroom : (match innSave.1.1 with
      | .ok saved => decide ((Ron.Codec.doc saved).opened ≤ Ron.Doc.levels)
      | .error _ => false) = true := by decide +kernel
  have hkeys : (Game.new {} ()).store.keys = innGame.store.keys := by decide +kernel
  have hnow : (⟨1577934245, 0⟩ : Instant).Valid :=
    ⟨by decide, by decide, by decide +kernel, by decide +kernel⟩
  rcases hsave : innSave with ⟨⟨answer, g₁⟩, t₁⟩
  rw [hsave] at hroom
  cases answer with
  | error e => cases hroom
  | ok saved =>
    exact ⟨saved, g₁, t₁, rfl, load_save proper_innGame hnow hsave (of_decide_eq_true hroom) rfl hkeys rfl⟩

end Session

end Storyline
