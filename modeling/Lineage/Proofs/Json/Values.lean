import Lineage.Proofs.Json.Tokens

/-!
# Written values are read back

A reader accepts a JSON value for what it stands for if it takes the text of the value off,
whatever the layout, the blanks before it and what follows it.  Here strings, numbers and
lists are accepted, a list for what its items stand for (`accepts_list`).  The two layouts
differ in blanks only, which is all that the proofs have to know about them.
-/

namespace Lineage.Json

open Text (length_of_dropWhile_eq_cons shorter_trans)

variable {α β : Type} {read : Reader α} {json : Json} {value : α}
variable {text rest left : List Char}

/-! ### Layouts -/

theorem blanks_newline (layout : Layout) :
  Blanks layout.newline
  := by
  cases layout with
  | compact => exact .nil
  | pretty depth =>
    intro c hc
    obtain rfl | hc := List.mem_cons.mp hc
    · decide
    · rw [List.eq_of_mem_replicate hc]
      decide

theorem skipBlanks_newline_append (layout : Layout) (text : List Char) :
  skipBlanks (layout.newline ++ text) = skipBlanks text
  := (blanks_newline layout).skipBlanks_append text

theorem isDelimited_newline_append (layout : Layout) (h : isDelimited text = true) :
  isDelimited (layout.newline ++ text) = true
  := (blanks_newline layout).isDelimited_append h

/-! ### Values -/

/-- The reader takes the text of a JSON value off as `value`, and the text starts neither with
a blank nor with the end of a list. -/
structure Reader.Accepts (read : Reader α) (json : Json) (value : α) : Prop where
  starts : ∀ layout, ∃ c rest, write layout json = c :: rest ∧ isBlank c = false ∧ c ≠ ']'
  takes : ∀ layout text rest, skipBlanks text = write layout json ++ rest →
    isDelimited rest = true → read.Takes text value rest

theorem Reader.Accepts.map (h : read.Accepts json value) (f : α → β) :
  (Reader.map f read).Accepts json (f value)
  where
  starts := h.starts
  takes layout text rest htext hrest := (h.takes layout text rest htext hrest).map f

/-- The text of a value is not taken for blanks. -/
theorem Reader.Accepts.skipBlanks_write (h : read.Accepts json value) (layout : Layout)
    (rest : List Char) :
  skipBlanks (write layout json ++ rest) = write layout json ++ rest
  := by
  obtain ⟨c, after, hc, hblank, -⟩ := h.starts layout
  rw [hc]
  apply skipBlanks_cons hblank

/-- A value is read where its text starts. -/
theorem Reader.Accepts.takes_write (h : read.Accepts json value) (layout : Layout)
    (hrest : isDelimited rest = true) :
  read.Takes (write layout json ++ rest) value rest
  := h.takes layout _ rest (h.skipBlanks_write layout rest) hrest

/-- A text that holds one value alone is read. -/
theorem Reader.Accepts.run (h : read.Accepts json value) (layout : Layout) :
  Reader.run read (String.ofList (write layout json)) = .ok value
  := by
  have hread : read.Takes (write layout json ++ []) value [] := h.takes_write layout rfl
  rw [List.append_nil, ← String.toList_ofList (l := write layout json)] at hread
  obtain ⟨shorter, hread⟩ := hread.eq_ok
  rw [Reader.run, hread]
  rfl

theorem accepts_string (text : String) :
  Reader.string.Accepts (.string text) text
  where
  starts layout := ⟨_, _, by rw [write, writeString], rfl, by decide⟩
  takes layout before rest htext hrest := by
    obtain ⟨after, hafter, hchars⟩ := exists_writeString_append text rest
    obtain ⟨shorter, hchars⟩ := hchars.eq_ok
    apply Reader.Takes.afterBlanks
    rw [htext, write, hafter, Reader.Takes]
    simp only [hchars]
    exact ⟨_, rfl, String.ofList_toList, rfl⟩

theorem accepts_natural64 (n : UInt64) :
  Reader.natural64.Accepts (.natural n.toNat) n
  where
  starts layout := by
    obtain ⟨d, ds, hd, hdigits⟩ := exists_toDigits_eq_cons n.toNat
    refine ⟨d, ds, ?_, isBlank_eq_false_of_isDigit hd, ?_⟩
    · rw [Json.natural, write, ← hdigits]
      apply Nat.toList_repr
    · rintro rfl
      contradiction
  takes layout text rest htext hrest := by
    rw [Json.natural, write] at htext
    apply takes_natural64 n htext hrest

/-- An optional value that is there is accepted as one, if it does not start like a null. -/
theorem accepts_optional (h : read.Accepts json value)
    (hnull : ∀ layout, (write layout json).head? ≠ some 'n') :
  (Reader.optional read).Accepts json (some value)
  where
  starts := h.starts
  takes layout text rest htext hrest := by
    have hread := h.takes_write layout hrest
    have hhead : (write layout json ++ rest).head? ≠ some 'n' := by
      obtain ⟨c, after, hc, -⟩ := h.starts layout
      have hn := hnull layout
      rw [hc] at hn ⊢
      exact hn
    rw [← htext] at hread hhead
    apply Reader.Takes.afterBlanks
    generalize skipBlanks text = start at hread hhead ⊢
    obtain ⟨shorter, hread⟩ := hread.eq_ok
    rw [Reader.Takes]
    split
    · exact absurd rfl hhead
    · rw [hread]
      exact ⟨_, rfl, rfl, rfl⟩

theorem accepts_optional_string (text : String) :
  (Reader.optional Reader.string).Accepts (.string text) (some text)
  := by
  apply accepts_optional (accepts_string text)
  intro layout
  rw [write, writeString, List.head?_cons]
  decide

/-! ### Lists -/

theorem nextElement_closing (first : Bool) (h : skipBlanks text = ']' :: rest) :
  ∃ lt, Reader.nextElement first text = .ok (.closing rest lt)
  := by
  rw [Reader.nextElement]
  split
  · rename_i hnil
    cases h.symm.trans hnil
  · rename_i hcons
    cases h.symm.trans hcons
    rw [if_pos rfl]
    exact ⟨length_of_dropWhile_eq_cons h, rfl⟩

/-- The next element of a list is found behind what separates it from the one before. -/
theorem nextElement_entry {first : Bool} {sep after : List Char} {c : Char}
    (hsep : Separates first sep) (hblank : isBlank c = false) (hbracket : c ≠ ']') :
  ∃ le, Reader.nextElement first (sep ++ c :: after) = .ok (.element (c :: after) le)
  := by
  have hc := skipBlanks_cons hblank after
  cases first
  case true =>
    have hskip := hsep.skipBlanks_first (c :: after)
    rw [hc] at hskip
    rw [Reader.nextElement]
    split
    · rename_i hnil
      cases hskip.symm.trans hnil
    · rename_i hcons
      cases hskip.symm.trans hcons
      rw [if_neg hbracket, if_pos rfl]
      exact ⟨length_of_dropWhile_eq_cons hskip, rfl⟩
  case false =>
    obtain ⟨blanks, hblanks, hskip⟩ := hsep.skipBlanks_comma (c :: after)
    have hskip' : skipBlanks (blanks ++ c :: after) = c :: after := by
      rw [hblanks.skipBlanks_append, hc]
    have hlt := length_of_dropWhile_eq_cons hskip
    have hlt' := length_of_dropWhile_eq_cons hskip'
    rw [Reader.nextElement]
    split
    · rename_i hnil
      cases hskip.symm.trans hnil
    · rename_i hcons
      cases hskip.symm.trans hcons
      rw [if_neg (by decide), if_neg Bool.false_ne_true, if_pos rfl]
      split
      · rename_i hnil
        cases hskip'.symm.trans hnil
      · rename_i hcons
        cases hskip'.symm.trans hcons
        rw [if_neg hbracket]
        exact ⟨shorter_trans hlt hlt', rfl⟩

/-- The first element of a list is found after the blanks of the layout. -/
theorem nextElement_first (h : read.Accepts json value) (layout : Layout) (rest : List Char) :
  ∃ le, Reader.nextElement true (layout.newline ++ (write layout json ++ rest))
    = .ok (.element (write layout json ++ rest) le)
  := by
  obtain ⟨c, after, hc, hblank, hbracket⟩ := h.starts layout
  rw [hc]
  exact nextElement_entry (.first (blanks_newline layout)) hblank hbracket

/-- The next element of a list is found after a comma and the blanks of the layout. -/
theorem nextElement_comma (h : read.Accepts json value) (layout : Layout) (rest : List Char) :
  ∃ le, Reader.nextElement false (',' :: (layout.newline ++ (write layout json ++ rest)))
    = .ok (.element (write layout json ++ rest) le)
  := by
  obtain ⟨c, after, hc, hblank, hbracket⟩ := h.starts layout
  rw [hc]
  exact nextElement_entry (.comma .nil (blanks_newline layout)) hblank hbracket

theorem takes_elements_nil (first : Bool) (h : skipBlanks text = ']' :: rest) :
  Reader.Takes (Reader.elements read first) text [] rest
  := by
  obtain ⟨lt, hnext⟩ := nextElement_closing first h
  rw [Reader.Takes, Reader.elements, hnext]
  exact ⟨_, rfl, rfl, rfl⟩

theorem takes_elements_cons {first : Bool} {start : List Char} {values : List α}
    (hnext : ∃ le, Reader.nextElement first text = .ok (.element start le))
    (hvalue : read.Takes start value left)
    (hvalues : Reader.Takes (Reader.elements read false) left values rest) :
  Reader.Takes (Reader.elements read first) text (value :: values) rest
  := by
  obtain ⟨le, hnext⟩ := hnext
  obtain ⟨shorter, hvalue⟩ := hvalue.eq_ok
  obtain ⟨shorter', hvalues⟩ := hvalues.eq_ok
  rw [Reader.Takes, Reader.elements, hnext]
  simp only [bind, Except.bind, hvalue, hvalues]
  exact ⟨_, rfl, rfl, rfl⟩

section List

variable {encode : α → Json}

theorem isDelimited_writeItems_append (layout outer : Layout) (items : List Json)
    (rest : List Char) :
  isDelimited (writeItems layout items ++ (outer.newline ++ ']' :: rest)) = true
  := by
  cases items with
  | nil => apply isDelimited_newline_append outer rfl
  | cons item items =>
    rw [writeItems]
    rfl

/-- The items of a list after the first are read up to the bracket that closes the list. -/
theorem takes_elements (h : ∀ value, read.Accepts (encode value) value) (values : List α)
    (layout outer : Layout) (rest : List Char) :
  Reader.Takes (Reader.elements read false)
    (writeItems layout (values.map encode) ++ (outer.newline ++ ']' :: rest)) values rest
  := by
  induction values with
  | nil =>
    apply takes_elements_nil
    rw [List.map_nil, writeItems, List.nil_append, skipBlanks_newline_append]
    apply skipBlanks_cons rfl
  | cons value values ih =>
    have hend := isDelimited_writeItems_append layout outer (values.map encode) rest
    have hvalue := (h value).takes_write layout hend
    rw [List.map_cons, writeItems]
    simp only [List.cons_append, List.append_assoc]
    apply takes_elements_cons (nextElement_comma (h value) layout _) hvalue ih

/-- The items of a list are read from after the bracket that opens the list. -/
theorem takes_elements_first (h : ∀ value, read.Accepts (encode value) value) (value : α)
    (values : List α) (layout outer : Layout) (rest : List Char) :
  Reader.Takes (Reader.elements read true)
    (layout.newline ++ (write layout (encode value) ++
      (writeItems layout (values.map encode) ++ (outer.newline ++ ']' :: rest))))
    (value :: values) rest
  := by
  have hend := isDelimited_writeItems_append layout outer (values.map encode) rest
  have hvalue := (h value).takes_write layout hend
  apply takes_elements_cons (nextElement_first (h value) layout _) hvalue
  apply takes_elements h values layout outer rest

theorem accepts_list (h : ∀ value, read.Accepts (encode value) value) (values : List α) :
  (Reader.list read).Accepts (.array (values.map encode)) values
  where
  starts layout := by
    cases values with
    | nil => exact ⟨_, _, by rw [List.map_nil, write], rfl, by decide⟩
    | cons value values => exact ⟨_, _, by rw [List.map_cons, write], rfl, by decide⟩
  takes layout text rest htext hrest := by
    apply Reader.Takes.afterBlanks
    cases values with
    | nil =>
      rw [List.map_nil, write] at htext
      have hitems : Reader.Takes (Reader.elements read true) (']' :: rest) [] rest :=
        takes_elements_nil true (skipBlanks_cons rfl rest)
      obtain ⟨shorter, hitems⟩ := hitems.eq_ok
      rw [htext, Reader.Takes]
      simp only [List.cons_append, List.nil_append, hitems]
      exact ⟨_, rfl, rfl, rfl⟩
    | cons value values =>
      have hitems := takes_elements_first h value values layout.inner layout rest
      rw [List.map_cons, write] at htext
      simp only [List.cons_append, List.append_assoc, List.nil_append] at htext
      obtain ⟨shorter, hitems⟩ := hitems.eq_ok
      rw [htext, Reader.Takes]
      simp only [hitems]
      exact ⟨_, rfl, rfl, rfl⟩

end List

end Lineage.Json
