import Lineage.Files.Tree
import Lineage.Text.Parsed

/-!
# Files that are written are read back

Writing a file puts it where there was no directory, so whatever was there before is there
still, a directory as a directory.  A path therefore leads in the new tree wherever it led
before, and the path of the file leads to the file (`read_of_write`).
-/

namespace Lineage.FileTree

open Text (bind_eq_ok)

variable {tree written : FileTree} {name piece : List Char} {names target : List (List Char)}
variable {path text : String} {place next : Place}

/-! ### Entries -/

/-- The entries of a directory; a file has none. -/
def entries : FileTree → List (List Char × FileTree)
  | .file _ => []
  | .directory entries => entries

theorem find?_cons (tree : FileTree) (name : List Char) (names : List (List Char)) :
  tree.find? (name :: names) = (tree.entries.lookup name).bind (·.find? names)
  := by
  cases tree with
  | file bytes => rfl
  | directory entries =>
    rw [FileTree.find?, FileTree.entries]
    cases entries.lookup name <;> rfl

theorem insert_cons (tree new : FileTree) (name : List Char) (names : List (List Char)) :
  tree.insert new (name :: names)
    = .directory ((name, ((tree.entries.lookup name).getD empty).insert new names) ::
        tree.entries.filter (·.1 ≠ name))
  := by
  cases tree <;> rfl

theorem lookup_filter_ne (entries : List (List Char × FileTree)) {other : List Char}
    (h : other ≠ name) :
  (entries.filter (·.1 ≠ name)).lookup other = entries.lookup other
  := by
  induction entries with
  | nil => rfl
  | cons entry entries ih =>
    obtain ⟨key, inner⟩ := entry
    by_cases hkey : key = name
    · have hother : (other == key) = false := by
        rw [hkey]
        apply beq_false_of_ne h
      rw [List.filter_cons_of_neg (by simpa using hkey), ih, List.lookup_cons, hother]
    · rw [List.filter_cons_of_pos (by simpa using hkey), List.lookup_cons, List.lookup_cons, ih]

/-- Under the name something is inserted at, there is what it makes of what was there; under
the others there is what was there before. -/
theorem find?_insert_cons (tree new : FileTree) (name other : List Char)
    (target names : List (List Char)) :
  (tree.insert new (name :: target)).find? (other :: names)
    = if other = name then (((tree.entries.lookup name).getD empty).insert new target).find? names
      else tree.find? (other :: names)
  := by
  rw [insert_cons, find?_cons, FileTree.entries, List.lookup_cons]
  by_cases h : other = name
  · simp [h]
  · rw [beq_false_of_ne h, if_neg h, lookup_filter_ne _ h, find?_cons]

/-! ### Insertion -/

/-- What is inserted is found where it was inserted. -/
theorem find?_insert_self (tree new : FileTree) (names : List (List Char)) :
  (tree.insert new names).find? names = some new
  := by
  induction names generalizing tree with
  | nil => rfl
  | cons name names ih =>
    rw [find?_insert_cons, if_pos rfl]
    apply ih

/-- A tree is kept in another one if whatever is found in it is found there, a directory as a
directory. -/
def KeptIn (tree written : FileTree) : Prop :=
  ∀ names found, tree.find? names = some found → ∃ kept, written.find? names = some kept ∧
    (found.isDirectory (.inside []) = true → kept.isDirectory (.inside []) = true)

/-- A tree is kept if a file is inserted where there is no directory. -/
theorem keptIn_insert_file (bytes : ByteArray) (h : tree.isDirectory (.inside target) = false) :
  tree.KeptIn (tree.insert (.file bytes) target)
  := by
  induction target generalizing tree with
  | nil =>
    obtain bytes' | entries := tree
    · rintro (_ | ⟨name, names⟩) found hfound
      · cases hfound
        exact ⟨_, rfl, id⟩
      · cases hfound
    · cases h
  | cons name target ih =>
    rintro (_ | ⟨other, names⟩) found hfound
    · exact ⟨_, rfl, fun _ => by rw [insert_cons]; rfl⟩
    · rw [find?_insert_cons]
      split
      · rename_i hname
        rw [hname, find?_cons] at hfound
        rw [isDirectory, find?_cons] at h
        cases e : tree.entries.lookup name with
        | none =>
          rw [e] at hfound
          cases hfound
        | some inner =>
          rw [e] at hfound h
          exact ih h names found hfound
      · exact ⟨found, hfound, id⟩

/-! ### Walks -/

theorem isDirectory_inside_iff (tree : FileTree) (names : List (List Char)) :
  tree.isDirectory (.inside names) = true
    ↔ ∃ found, tree.find? names = some found ∧ found.isDirectory (.inside []) = true
  := by
  rw [FileTree.isDirectory]
  cases tree.find? names with
  | none => simp
  | some found => cases found <;> simp [FileTree.isDirectory, FileTree.find?]

theorem KeptIn.isDirectory (h : tree.KeptIn written) (hplace : tree.isDirectory place = true) :
  written.isDirectory place = true
  := by
  cases place with
  | above => rfl
  | inside names =>
    obtain ⟨found, hfound, hdirectory⟩ := (tree.isDirectory_inside_iff names).mp hplace
    obtain ⟨kept, hkept, hkeeps⟩ := h names found hfound
    apply (written.isDirectory_inside_iff names).mpr ⟨kept, hkept, hkeeps hdirectory⟩

theorem KeptIn.isSome_find? (h : tree.KeptIn written) (hfound : (tree.find? names).isSome) :
  (written.find? names).isSome
  := by
  obtain ⟨found, hfound⟩ := Option.isSome_iff_exists.mp hfound
  obtain ⟨kept, hkept, -⟩ := h names found hfound
  rw [hkept]
  rfl

/-- A step of a path leads where it led before. -/
theorem KeptIn.step (h : tree.KeptIn written) (hstep : tree.step place piece = .ok next) :
  written.step place piece = .ok next
  := by
  unfold FileTree.step at hstep ⊢
  split at hstep
  · cases hstep
  · rename_i hdirectory
    have hplace : written.isDirectory place = true := by
      apply h.isDirectory
      simpa using hdirectory
    rw [hplace, if_neg (by decide)]
    split at hstep
    · rename_i hvoid
      rw [if_pos hvoid, hstep]
    · rename_i hvoid
      rw [if_neg hvoid]
      cases place with
      | above => exact hstep
      | inside names =>
        dsimp only at hstep ⊢
        split at hstep
        · rename_i hdots
          rw [if_pos hdots, hstep]
        · rename_i hdots
          split at hstep
          · rename_i hfound
            rw [if_neg hdots, if_pos (h.isSome_find? hfound), hstep]
          · cases hstep

/-- A name that is found leads to what is under it. -/
theorem step_of_isSome_find? (hdirectory : tree.isDirectory (.inside names) = true)
    (hvoid : Path.isVoid name = false) (hdots : name ≠ ['.', '.'])
    (hfound : (tree.find? (names ++ [name])).isSome) :
  tree.step (.inside names) name = .ok (.inside (names ++ [name]))
  := by
  unfold FileTree.step
  rw [hdirectory, hvoid, if_neg (by decide), if_neg Bool.false_ne_true]
  dsimp only
  rw [if_neg hdots, if_pos hfound]

theorem KeptIn.foldlM_step (h : tree.KeptIn written)
    (hsteps : names.foldlM tree.step place = .ok next) :
  names.foldlM written.step place = .ok next
  := by
  induction names generalizing place with
  | nil => exact hsteps
  | cons name names ih =>
    rw [List.foldlM_cons] at hsteps ⊢
    obtain ⟨middle, hstep, hsteps⟩ := bind_eq_ok.mp hsteps
    apply bind_eq_ok.mpr
    exact ⟨middle, h.step hstep, ih hsteps⟩

/-- Pieces that do not end in an empty one are all of them the stem. -/
theorem stem_eq {pieces : List (List Char)} (h : pieces.reverse.takeWhile (· = []) = []) :
  (pieces.reverse.dropWhile (· = [])).reverse = pieces
  := by
  have hall := List.takeWhile_append_dropWhile (p := (· = [])) (l := pieces.reverse)
  rw [h, List.nil_append] at hall
  rw [hall, List.reverse_reverse]

/-- Writing succeeds where all pieces of the path but the last lead to a directory, and there
is no directory under the last one, which names a file. -/
theorem write_eq_ok (h : tree.write path text = .ok written) :
  ∃ pieces names name, path ≠ "" ∧ Path.pieces path.toList = pieces ++ [name] ∧
    pieces.foldlM tree.step (origin path.toList) = .ok (.inside names) ∧
    tree.isDirectory (.inside names) = true ∧
    Path.isVoid name = false ∧ name ≠ ['.', '.'] ∧
    tree.isDirectory (.inside (names ++ [name])) = false ∧
    written = tree.insert (.file text.toUTF8) (names ++ [name])
  := by
  rw [FileTree.write] at h
  split at h
  · cases h
  · rename_i hempty
    obtain ⟨place, hplace, h⟩ := bind_eq_ok.mp h
    split at h
    · cases h
    · rename_i hdirectory
      split at h
      · cases h
      · cases h
      · rename_i name names hlast
        dsimp only at h
        split at h
        · cases h
        · rename_i hname
          simp only [not_or, Bool.not_eq_true, ne_eq, Decidable.not_not] at hname hdirectory
          obtain ⟨hvoid, hdots, hslashes, htarget⟩ := hname
          have hstem := stem_eq hslashes
          rw [hstem] at hlast hplace
          obtain ⟨pieces, hpieces⟩ := List.getLast?_eq_some_iff.mp hlast
          rw [hpieces, List.dropLast_concat] at hplace
          exact ⟨pieces, names, name, hempty, hpieces, hplace, by simpa using hdirectory, hvoid,
            hdots, htarget, (Except.ok.inj h).symm⟩

/-- A text that is written to a file is read back from it. -/
theorem read_of_write (h : tree.write path text = .ok written) :
  written.read path = .ok text
  := by
  obtain ⟨pieces, names, name, hpath, hpieces, hplace, hdirectory, hvoid, hdots, htarget,
    rfl⟩ := write_eq_ok h
  have hkept := keptIn_insert_file text.toUTF8 htarget
  have hfile := find?_insert_self tree (.file text.toUTF8) (names ++ [name])
  generalize tree.insert (.file text.toUTF8) (names ++ [name]) = written at hkept hfile ⊢
  have hlast : written.step (.inside names) name = .ok (.inside (names ++ [name])) := by
    apply step_of_isSome_find? (hkept.isDirectory hdirectory) hvoid hdots
    rw [hfile]
    rfl
  have hlocate : written.locate path = .ok (.inside (names ++ [name])) := by
    rw [locate, if_neg hpath, hpieces, List.foldlM_append, hkept.foldlM_step hplace]
    apply bind_eq_ok.mpr
    exact ⟨_, rfl, by rw [List.foldlM_cons, hlast]; rfl⟩
  have hread : String.fromUTF8? text.toUTF8 = some text := dif_pos text.isValidUTF8
  apply bind_eq_ok.mpr
  refine ⟨_, hlocate, ?_⟩
  dsimp only
  rw [hfile]
  dsimp only
  rw [hread]

end Lineage.FileTree
