import Lineage.Files.Path
import Mathlib.Data.List.DropRight

/-!
# Steps of a path

A path is a text, and what it means is whether it starts at the root and which steps it takes from
there; how often its slashes are doubled and where single dots stand makes no difference.  The
parent of a path starts where the path does and takes its steps but for the last one
(`isAbsolute_parent`, `components_parent`), and a relative path joined to a base takes the steps of
the base and then its own (`isAbsolute_join`, `components_join`).
-/

namespace Lineage.Path

variable {text piece : List Char} {ps : List (List Char)} {path base : String}

/-! ### Pieces -/

theorem pieces_eq_splitOn (text : List Char) :
  pieces text = text.splitOn '/'
  := by
  fun_induction pieces text with
  | case1 => rfl
  | case2 rest ih => rw [List.splitOn_cons_eq_if_modifyHead, if_pos (beq_self_eq_true _), ih]
  | case3 c rest hc hrest ih =>
    rw [hrest] at ih
    cases List.splitOn_ne_nil '/' rest ih.symm
  | case4 c rest hc piece more hrest ih =>
    rw [List.splitOn_cons_eq_if_modifyHead, if_neg (by simpa using hc), ← ih, hrest,
      List.modifyHead_cons]

theorem unsplit_eq_intercalate (ps : List (List Char)) :
  unsplit ps = ['/'].intercalate ps
  := by
  fun_induction unsplit ps with
  | case1 => rfl
  | case2 piece => rw [List.intercalate_singleton]
  | case3 piece more hmore ih =>
    rw [List.intercalate_cons_of_ne_nil hmore, ih, List.append_assoc, List.singleton_append]

theorem pieces_append_slash (front back : List Char) :
  pieces (front ++ '/' :: back) = pieces front ++ pieces back
  := by
  rw [pieces_eq_splitOn, pieces_eq_splitOn, pieces_eq_splitOn, List.splitOn_append_cons_self]

theorem unsplit_pieces (text : List Char) :
  unsplit (pieces text) = text
  := by
  rw [unsplit_eq_intercalate, pieces_eq_splitOn, List.intercalate_splitOn]

theorem pieces_unsplit (h : ps ≠ []) (hps : ∀ piece ∈ ps, '/' ∉ piece) :
  pieces (unsplit ps) = ps
  := by
  rw [unsplit_eq_intercalate, pieces_eq_splitOn, List.splitOn_intercalate '/' hps h]

theorem unsplit_append {front back : List (List Char)} (hfront : front ≠ []) (hback : back ≠ []) :
  unsplit (front ++ back) = unsplit front ++ '/' :: unsplit back
  := by
  fun_induction unsplit front with
  | case1 => cases hfront rfl
  | case2 piece => rw [List.singleton_append, unsplit.eq_3 _ _ hback]
  | case3 piece more hmore ih =>
    rw [List.cons_append, unsplit.eq_3 _ _ (by simp [hback]), ih hmore, List.append_assoc,
      List.cons_append]

theorem slash_notMem_of_mem_pieces (h : piece ∈ pieces text) :
  '/' ∉ piece
  := by
  fun_induction pieces text generalizing piece with
  | case1 =>
    obtain rfl := List.mem_singleton.mp h
    apply List.not_mem_nil
  | case2 rest ih =>
    obtain rfl | h := List.mem_cons.mp h
    · apply List.not_mem_nil
    · apply ih h
  | case3 c rest hc hrest ih =>
    obtain rfl := List.mem_singleton.mp h
    simpa using Ne.symm hc
  | case4 c rest hc first more hrest ih =>
    rw [hrest] at ih
    obtain rfl | h := List.mem_cons.mp h
    · rw [List.mem_cons, not_or]
      exact ⟨Ne.symm hc, ih List.mem_cons_self⟩
    · apply ih (List.mem_cons_of_mem _ h)

/-! ### Steps -/

/-- The pieces that stand for a step. -/
def steps (ps : List (List Char)) : List (List Char) := ps.filter (!isVoid ·)

theorem components_eq (path : String) :
  components path = steps (pieces path.toList)
  := rfl

theorem steps_append (front back : List (List Char)) :
  steps (front ++ back) = steps front ++ steps back
  := List.filter_append ..

theorem steps_eq_nil_iff :
  steps ps = [] ↔ ∀ piece ∈ ps, isVoid piece
  := by
  rw [steps, List.filter_eq_nil_iff]
  simp

theorem steps_pieces_unsplit (hps : ∀ piece ∈ ps, '/' ∉ piece) :
  steps (pieces (unsplit ps)) = steps ps
  := by
  by_cases h : ps = []
  · rw [h]
    rfl
  · rw [pieces_unsplit h hps]

theorem dropVoid_eq_rdropWhile (ps : List (List Char)) :
  dropVoid ps = ps.rdropWhile isVoid
  := rfl

theorem dropVoid_eq_nil_iff :
  dropVoid ps = [] ↔ steps ps = []
  := by
  rw [dropVoid_eq_rdropWhile, List.rdropWhile_eq_nil_iff, steps_eq_nil_iff]

/-- What is dropped at the end of some pieces stands for no step. -/
theorem exists_dropVoid_append (ps : List (List Char)) :
  ∃ voids, ps = dropVoid ps ++ voids ∧ ∀ piece ∈ voids, isVoid piece
  := by
  refine ⟨(ps.reverse.takeWhile isVoid).reverse, ?_, ?_⟩
  · rw [dropVoid, ← List.reverse_append, List.takeWhile_append_dropWhile, List.reverse_reverse]
  · intro piece hpiece
    apply List.mem_takeWhile_imp (List.mem_reverse.mp hpiece)

/-- The last piece that is kept stands for a step. -/
theorem exists_dropVoid_eq_concat (h : dropVoid ps ≠ []) :
  ∃ name, dropVoid ps = (dropVoid ps).dropLast ++ [name] ∧ isVoid name = false
  := by
  use (dropVoid ps).getLast h, (List.dropLast_append_getLast h).symm
  apply eq_false_of_ne_true
  apply List.rdropWhile_last_not isVoid ps h

/-- Pieces with a step among them are those up to the last step but one, and others that stand
for the last step alone. -/
theorem exists_dropVoid_dropLast (h : dropVoid ps ≠ []) :
  ∃ back name, ps = dropVoid (dropVoid ps).dropLast ++ back ∧ steps back = [name]
  := by
  obtain ⟨after, hps, hafter⟩ := exists_dropVoid_append ps
  obtain ⟨between, hfront, hbetween⟩ := exists_dropVoid_append (dropVoid ps).dropLast
  obtain ⟨name, hlast, hname⟩ := exists_dropVoid_eq_concat h
  refine ⟨between ++ name :: after, name, ?_, ?_⟩
  · rw [← List.append_assoc, ← hfront, List.append_cons, ← hlast, ← hps]
  · rw [List.append_cons, steps_append, steps_append, steps_eq_nil_iff.mpr hbetween,
      steps_eq_nil_iff.mpr hafter]
    simp [steps, hname]

/-! ### Starts -/

theorem splitStart_append (text : List Char) :
  (splitStart text).1 ++ (splitStart text).2 = text
  := by
  fun_cases splitStart text <;> rfl

/-- What a path keeps in front of its pieces takes no step. -/
theorem steps_pieces_splitStart (text : List Char) :
  steps (pieces (splitStart text).1) = []
  := by
  fun_cases splitStart text <;> rfl

/-- Cutting off the start of a path takes no step away. -/
theorem steps_pieces_afterStart (text : List Char) :
  steps (pieces (splitStart text).2) = steps (pieces text)
  := by
  fun_cases splitStart text <;> rfl

/-- What a path keeps in front of its pieces tells whether it starts at the root. -/
theorem head?_splitStart (text : List Char) :
  (splitStart text).1.head? = some '/' ↔ text.head? = some '/'
  := by
  fun_cases splitStart text with
  | case1 rest => simp
  | case2 => simp
  | case3 rest => simp
  | case4 text hroot =>
    have hhead : text.head? ≠ some '/' := by
      intro h
      obtain ⟨rest, rfl⟩ := List.head?_eq_some_iff.mp h
      apply hroot rest rfl
    simpa using hhead

/-! ### Parents -/

theorem unsplit_dropVoid_ne_nil (h : dropVoid ps ≠ []) :
  unsplit (dropVoid ps) ≠ []
  := by
  obtain ⟨name, hlast, hname⟩ := exists_dropVoid_eq_concat h
  rw [hlast]
  by_cases hfront : (dropVoid ps).dropLast = []
  · rw [hfront, List.nil_append, unsplit]
    rintro rfl
    cases hname
  · rw [unsplit_append hfront (List.cons_ne_nil _ _)]
    simp

theorem parent_eq (path : String) :
  parent path
    = if dropVoid (pieces (splitStart path.toList).2) = [] then ""
      else String.ofList ((splitStart path.toList).1
        ++ unsplit (dropVoid (dropVoid (pieces (splitStart path.toList).2)).dropLast))
  := rfl

theorem parent_eq_empty (h : components path = []) :
  parent path = ""
  := by
  rw [parent_eq, if_pos]
  rw [dropVoid_eq_nil_iff, steps_pieces_afterStart, ← components_eq, h]

/-- A path with a step is its parent, a slash and what takes the last step alone, or, if it has no
other step, its parent is what it keeps in front of its pieces. -/
theorem parent_cases (h : components path ≠ []) :
  ∃ name, (∃ back, path.toList = (parent path).toList ++ '/' :: back ∧ (parent path).toList ≠ []
      ∧ steps (pieces back) = [name])
    ∨ (parent path).toList = (splitStart path.toList).1 ∧ components path = [name]
  := by
  have hrest : steps (pieces (splitStart path.toList).2) = components path := by
    apply steps_pieces_afterStart
  have hkept : dropVoid (pieces (splitStart path.toList).2) ≠ [] := by
    rwa [Ne, dropVoid_eq_nil_iff, hrest]
  obtain ⟨back, name, hpieces, hback⟩ := exists_dropVoid_dropLast hkept
  have hne : back ≠ [] := by
    rintro rfl
    cases hback
  have hclean : ∀ piece ∈ back, '/' ∉ piece := by
    intro piece hpiece
    have hmem : piece ∈ pieces (splitStart path.toList).2 := by
      rw [hpieces]
      apply List.mem_append_right _ hpiece
    apply slash_notMem_of_mem_pieces hmem
  use name
  rw [parent_eq, if_neg hkept, String.toList_ofList]
  -- without a step before the last there is no slash to put between the parent and the rest
  by_cases hinner : dropVoid (dropVoid (pieces (splitStart path.toList).2)).dropLast = []
  · right
    constructor
    · rw [hinner, unsplit, List.append_nil]
    · rw [← hrest, hpieces, hinner, List.nil_append, hback]
  · left
    use unsplit back
    refine ⟨?_, ?_, ?_⟩
    · have hsplit := unsplit_pieces (splitStart path.toList).2
      rw [hpieces, unsplit_append hinner hne] at hsplit
      rw [List.append_assoc, hsplit, splitStart_append]
    · apply List.append_ne_nil_of_right_ne_nil _ (unsplit_dropVoid_ne_nil hinner)
    · rw [steps_pieces_unsplit hclean, hback]

/-- The parent of a path takes the steps of the path but for the last one. -/
theorem components_parent (path : String) :
  components (parent path) = (components path).dropLast
  := by
  by_cases h : components path = []
  · rw [parent_eq_empty h, h]
    rfl
  · obtain ⟨name, ⟨back, hpath, -, hback⟩ | ⟨hparent, hname⟩⟩ := parent_cases h
    · rw [components_eq path, hpath, pieces_append_slash, steps_append, hback,
        List.dropLast_concat, components_eq]
    · rw [hname, components_eq, hparent, steps_pieces_splitStart]
      rfl

/-- The parent of a path with a step starts where the path does. -/
theorem isAbsolute_parent (h : components path ≠ []) :
  isAbsolute (parent path) = isAbsolute path
  := by
  rw [isAbsolute, isAbsolute, decide_eq_decide]
  obtain ⟨name, ⟨back, hpath, hparent, -⟩ | ⟨hparent, -⟩⟩ := parent_cases h
  · rw [hpath, List.head?_append_of_ne_nil _ hparent]
  · rw [hparent, head?_splitStart]

/-! ### Joined paths -/

theorem join_of_isAbsolute (h : isAbsolute path) :
  join base path = path
  := if_pos h

/-- A relative path is joined to a base by putting a slash between them, unless the base is empty
or ends in one. -/
theorem join_cases (base : String) (h : isAbsolute path = false) :
  base = "" ∧ join base path = path
    ∨ (∃ front, base.toList = front ++ ['/']
      ∧ (join base path).toList = front ++ '/' :: path.toList)
    ∨ base ≠ "" ∧ (join base path).toList = base.toList ++ '/' :: path.toList
  := by
  rw [join, if_neg (by simp [h])]
  by_cases hempty : base = ""
  · left
    rw [if_pos (Or.inl hempty), hempty, String.empty_append]
    exact ⟨rfl, rfl⟩
  · right
    by_cases hslash : base.toList.getLast? = some '/'
    · left
      obtain ⟨front, hfront⟩ := List.getLast?_eq_some_iff.mp hslash
      use front, hfront
      rw [if_pos (Or.inr hslash), String.toList_append, hfront, List.append_assoc]
      rfl
    · right
      use hempty
      rw [if_neg (by simp [hempty, hslash]), String.toList_append, String.toList_append,
        List.append_assoc]
      rfl

/-- A relative path joined to a base takes the steps of the base and then its own. -/
theorem components_join (base : String) (h : isAbsolute path = false) :
  components (join base path) = components base ++ components path
  := by
  obtain ⟨rfl, hjoin⟩ | ⟨front, hbase, hjoin⟩ | ⟨-, hjoin⟩ := join_cases base h
  · rw [hjoin]
    rfl
  · have hfront : components base = steps (pieces front) := by
      rw [components_eq, hbase, pieces_append_slash, steps_append]
      apply List.append_nil
    rw [hfront, components_eq, hjoin, pieces_append_slash, steps_append, components_eq]
  · rw [components_eq, hjoin, pieces_append_slash, steps_append, components_eq, components_eq]

/-- A relative path joined to a base starts where the base does. -/
theorem isAbsolute_join (base : String) (h : isAbsolute path = false) :
  isAbsolute (join base path) = isAbsolute base
  := by
  obtain ⟨rfl, hjoin⟩ | ⟨front, hbase, hjoin⟩ | ⟨hbase, hjoin⟩ := join_cases base h
  · rw [hjoin, h]
    rfl
  · rw [isAbsolute, hjoin, isAbsolute, hbase, List.head?_append, List.head?_append]
    rfl
  · rw [isAbsolute, hjoin, isAbsolute, List.head?_append_of_ne_nil _ (by simpa using hbase)]

end Lineage.Path
