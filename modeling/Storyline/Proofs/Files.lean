import Storyline.Files.Archive
import Storyline.Proofs.Effect

/-!
# Files that were written

* `FileTree.follow_put`: a file takes no folder away, so that the ways through the folders are kept;
* `FileTree.find?_write`: the path that was written leads to what was written;
* `FileTree.read_of_find?`: a text is read from the file that it was written to;
* `Archive.save_eq_ok`, `Archive.load_of_find?`: **what an archive saved** is in a file, and what is in the
  file is loaded.
-/

namespace Storyline

namespace FileTree

variable {t t' : FileTree} {path : String} {content : ByteArray}

/-! ### Ways -/

theorem item?_put {q p : Place} (item : FileItem) (hp : p.isEmpty = false) :
    (t.put q item).item? p = if key q = key p then some item else t.item? p := by
  unfold item? put
  rw [hp, Std.ExtTreeMap.getElem?_insert]
  simp only [Std.LawfulEqCmp.compare_eq_iff_eq]
  rfl

/-- A file that is put where no folder is leaves the folders where they are. -/
theorem item?_put_file {q p : Place} (hq : t.item? q ≠ some .folder) (hp : t.item? p = some .folder) :
    (t.put q (.file content)).item? p = some .folder := by
  cases hempty : p.isEmpty with
  | true =>
    unfold item?
    rw [if_pos hempty]
  | false =>
    have hkey : key q ≠ key p := fun hkey => by
      unfold item? at hq hp
      rw [hempty] at hp
      split at hq
      · exact hq rfl
      · exact hq (hkey ▸ hp)
    rw [item?_put _ hempty, if_neg hkey, hp]

/-- **The ways that lead somewhere** still lead there after that. -/
theorem follow_put {q p place : Place} {names : List String} (hq : t.item? q ≠ some .folder)
    (h : t.follow p names = .ok place) : (t.put q (.file content)).follow p names = .ok place := by
  fun_induction follow t p names with
  | case1 p => exact h
  | case2 p name rest hidle ih =>
    rw [follow, if_pos hidle]
    exact ih h
  | case3 p rest hidle ih =>
    rw [follow, if_neg hidle, if_pos rfl]
    exact ih h
  | case4 p name rest hidle hup hlong => cases h
  | case5 p name rest hidle hup hlong hlast =>
    rw [follow, if_neg hidle, if_neg hup, if_neg hlong, if_pos hlast]
    exact h
  | case6 p name rest hidle hup hlong hlast hfolder ih =>
    rw [follow, if_neg hidle, if_neg hup, if_neg hlong, if_neg hlast, item?_put_file hq hfolder]
    exact ih h
  | case7 p name rest hidle hup hlong hlast c hfile => cases h
  | case8 p name rest hidle hup hlong hlast hnone => cases h

theorem locate_put {q place : Place} (hq : t.item? q ≠ some .folder) (h : t.locate path = .ok place) :
    (t.put q (.file content)).locate path = .ok place := by
  unfold locate at *
  split
  · rename_i husable
    rw [if_pos husable] at h
    exact follow_put hq h
  · rename_i husable
    rw [if_neg husable] at h
    cases h

/-! ### Writing and reading -/

theorem write_eq_ok (h : write path content t = .ok () t') :
    ∃ place, t.locate path = .ok place ∧ t.item? place ≠ some .folder ∧
      t' = t.put place (.file content) := by
  unfold write at h
  rw [Effect.bind_get_apply] at h
  obtain ⟨place, t₁, hplace, h⟩ := Effect.bind_apply_eq_ok.1 h
  cases hlocate : t.locate path with
  | error e =>
    rw [hlocate] at hplace
    cases hplace
  | ok place =>
    rw [hlocate] at hplace
    cases hplace
    refine ⟨place, rfl, ?_⟩
    -- a folder is not overwritten
    cases hitem : t.item? place with
    | none =>
      rw [hitem] at h
      cases h
      exact ⟨nofun, rfl⟩
    | some item =>
      rw [hitem] at h
      cases item with
      | folder => cases h
      | file c =>
        cases h
        exact ⟨nofun, rfl⟩

/-- **The path that was written** leads to what was written. -/
theorem find?_write (h : write path content t = .ok () t') : t'.find? path = some (.file content) := by
  obtain ⟨place, hplace, hitem, rfl⟩ := write_eq_ok h
  have hne : place.isEmpty = false := by
    cases hempty : place.isEmpty with
    | false => rfl
    | true =>
      unfold item? at hitem
      rw [if_pos hempty] at hitem
      exact absurd rfl hitem
  unfold find?
  rw [locate_put hitem hplace]
  simp only
  rw [item?_put _ hne, if_pos rfl]

theorem read_of_find? {text : String} (h : t.find? path = some (.file text.toUTF8)) :
    t.read path = .ok text := by
  have htext : String.fromUTF8? text.toUTF8 = some text := dif_pos text.isValidUTF8
  unfold find? at h
  unfold read
  cases hplace : t.locate path with
  | error e =>
    rw [hplace] at h
    cases h
  | ok place =>
    rw [hplace] at h
    have hitem : t.item? place = some (.file text.toUTF8) := h
    rw [Effect.ok_bind, hitem]
    simp only [htext]
    rfl

theorem isFile_of_find? (h : t.find? path = some (.file content)) : t.isFile path = true := by
  unfold isFile
  rw [h]

end FileTree

/-! ### Archives -/

namespace Archive

variable {α β : Type} {base name : String} {t t' : FileTree} {a : α}

/-- An operation on files, run: its answer and the files that it leaves. -/
def onFiles (r : ExceptT PersistError (StateM FileTree) α) (t : FileTree) :
    Except PersistError α × FileTree := r.run.run t

theorem onFiles_bind (r : ExceptT PersistError (StateM FileTree) α)
    (f : α → ExceptT PersistError (StateM FileTree) β) (t : FileTree) :
    onFiles (r >>= f) t =
      match onFiles r t with
      | (.ok a, t') => onFiles (f a) t'
      | (.error e, t') => (.error e, t') := by
  have hbind : onFiles (r >>= f) t =
      (ExceptT.bindCont f (onFiles r t).1 : StateM FileTree _) (onFiles r t).2 := rfl
  rw [hbind]
  rcases onFiles r t with ⟨_ | _, _⟩ <;> rfl

theorem onFiles_bind_eq_ok {r : ExceptT PersistError (StateM FileTree) α}
    {f : α → ExceptT PersistError (StateM FileTree) β} {b : β} :
    onFiles (r >>= f) t = (.ok b, t') ↔
      ∃ a t₁, onFiles r t = (.ok a, t₁) ∧ onFiles (f a) t₁ = (.ok b, t') := by
  rw [onFiles_bind]
  rcases onFiles r t with ⟨_ | a, t₁⟩
  · constructor
    · rintro ⟨⟩
    · rintro ⟨_, _, ⟨⟩, -⟩
  · constructor
    · exact fun h => ⟨a, t₁, rfl, h⟩
    · rintro ⟨_, _, ⟨⟩, h⟩
      exact h

theorem onFiles_orFail (r : StateM FileTree (Except String α)) (t : FileTree) :
    onFiles (FileSystem.orFail r) t = ((r t).1.mapError .io, (r t).2) := by
  have hrun : onFiles (liftM r) t = (.ok (r t).1, (r t).2) := rfl
  unfold FileSystem.orFail
  rw [onFiles_bind, hrun]
  rcases r t with ⟨_ | _, _⟩ <;> rfl

theorem telling_eq_ok {change : FileTree.Change Unit} (h : FileTree.telling change t = (.ok (), t')) :
    change t = .ok () t' := by
  unfold FileTree.telling at h
  split at h
  · rename_i hchange
    cases h
    exact hchange
  · cases h

/-- **What was saved** was written, and the file of its name holds it. -/
theorem save_eq_ok [Ron.Codec α]
    (h : onFiles ((ofFiles FileTree.system base).save name a) t = (.ok (), t')) :
    ∃ text, Ron.write? .pretty (Ron.Codec.doc a) = some text ∧
      t'.find? (path base name) = some (.file text.toUTF8) := by
  unfold ofFiles at h
  simp only at h
  obtain ⟨_, t₁, -, h⟩ := onFiles_bind_eq_ok.1 h
  cases htext : Ron.write? .pretty (Ron.Codec.doc a) with
  | none =>
    rw [htext] at h
    cases h
  | some text =>
    rw [htext] at h
    simp only [onFiles_orFail] at h
    obtain ⟨hanswer, hleft⟩ := Prod.mk.inj h
    have hwritten := telling_eq_ok (Prod.ext (Effect.mapError_eq_ok_iff.1 hanswer) hleft)
    exact ⟨text, rfl, FileTree.find?_write hwritten⟩

/-- **What a file holds** is loaded, and the files are left as they are. -/
theorem load_of_find? [Ron.Codec α] {text : String}
    (h : t.find? (path base name) = some (.file text.toUTF8))
    (hread : Ron.read Ron.Codec.form text = .ok a) :
    onFiles ((ofFiles FileTree.system base).load name) t = (.ok a, t) := by
  have hfile : t.isFile (path base name) = true := FileTree.isFile_of_find? h
  have hthere : onFiles (liftM (FileTree.system.isFile (path base name))) t = (.ok true, t) :=
    congrArg (fun b => (Except.ok b, t)) hfile
  have htext : onFiles (FileSystem.orFail (FileTree.system.read (path base name))) t = (.ok text, t) := by
    have hsystem : FileTree.system.read (path base name) t = (.ok text, t) :=
      congrArg (fun r => (Except.mapError FileError.message r, t)) (FileTree.read_of_find? h)
    rw [onFiles_orFail, hsystem]
    rfl
  unfold ofFiles FileSystem.readData
  simp only
  refine onFiles_bind_eq_ok.2 ⟨true, t, hthere, ?_⟩
  rw [if_neg (by decide)]
  refine onFiles_bind_eq_ok.2 ⟨text, t, htext, ?_⟩
  rw [hread]
  rfl

end Archive

end Storyline
