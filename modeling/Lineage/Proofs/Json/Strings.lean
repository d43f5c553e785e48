import Lineage.Json.Reader

/-!
# What a reader takes off

A reader takes a value off the front of a text and leaves the rest.  A string is read in
pieces: its reader goes from one backslash to the next, up to the closing quote.
-/

namespace Lineage.Json

variable {α β : Type}

/-- The reader takes `value` off the front of `text` and leaves `rest`. -/
def Reader.Takes (read : Reader α) (text : List Char) (value : α) (rest : List Char) : Prop :=
  ∃ p, read text = .ok p ∧ p.value = value ∧ p.rest = rest

theorem Reader.Takes.eq_ok {read : Reader α} {text rest : List Char} {value : α}
    (h : read.Takes text value rest) :
  ∃ shorter, read text = .ok ⟨value, rest, shorter⟩
  := by
  obtain ⟨⟨_, _, shorter⟩, hp, hvalue, hrest⟩ := h
  cases hvalue
  cases hrest
  exact ⟨shorter, hp⟩

/-- What is read of a text is read of it with blanks in front. -/
theorem Reader.Takes.afterBlanks {read : Reader α} {text rest : List Char} {value : α}
    (h : read.Takes (skipBlanks text) value rest) :
  (Reader.afterBlanks read).Takes text value rest
  := by
  obtain ⟨shorter, hread⟩ := h.eq_ok
  rw [Reader.Takes, Reader.afterBlanks, hread]
  exact ⟨_, rfl, rfl, rfl⟩

theorem Reader.Takes.map {read : Reader α} {text rest : List Char} {value : α}
    (h : read.Takes text value rest) (f : α → β) :
  (Reader.map f read).Takes text (f value) rest
  := by
  obtain ⟨shorter, hread⟩ := h.eq_ok
  rw [Reader.Takes, Reader.map, hread]
  exact ⟨_, rfl, rfl, rfl⟩

theorem skipBlanks_cons {c : Char} (h : isBlank c = false) (rest : List Char) :
  skipBlanks (c :: rest) = c :: rest
  := by
  rw [skipBlanks, List.dropWhile_cons, h, if_neg Bool.false_ne_true]

/-! ### Strings -/

theorem length_le_byteLength (text : List Char) :
  text.length ≤ byteLength text
  := by
  induction text with
  | nil => apply Nat.le_refl
  | cons c rest ih =>
    have hc := c.utf8Size_pos
    simp only [byteLength, List.foldr_cons, List.length_cons] at ih ⊢
    omega

variable {c d : Char} {plain text rest left cs : List Char}

theorem takes_readEscape_of_escaped (h : escaped c = some d) (rest : List Char) :
  Reader.Takes readEscape (c :: rest) d rest
  := by
  rw [Reader.Takes, readEscape, h]
  exact ⟨_, rfl, rfl, rfl⟩

/-- Characters that stand for themselves are read up to the closing quote. -/
theorem takes_readChars_quote (h : ∀ c ∈ plain, isPlain c = true) (rest : List Char) :
  Reader.Takes readChars (plain ++ '"' :: rest) plain rest
  := by
  have hdrop : (plain ++ '"' :: rest).dropWhile isPlain = '"' :: rest := by
    rw [List.dropWhile_append_of_pos h]
    rfl
  have htake : (plain ++ '"' :: rest).takeWhile isPlain = plain := by
    rw [List.takeWhile_append_of_pos h]
    apply List.append_nil
  rw [Reader.Takes, readChars]
  split
  · rename_i hnil
    cases hdrop.symm.trans hnil
  · rename_i first after hcons
    cases hdrop.symm.trans hcons
    rw [if_pos rfl]
    exact ⟨_, rfl, htake, rfl⟩

/-- Characters that stand for themselves are read up to an escape, and then the rest. -/
theorem takes_readChars_escape (h : ∀ c ∈ plain, isPlain c = true)
    (hd : Reader.Takes readEscape text d left) (hcs : Reader.Takes readChars left cs rest) :
  Reader.Takes readChars (plain ++ '\\' :: text) (plain ++ d :: cs) rest
  := by
  have hdrop : (plain ++ '\\' :: text).dropWhile isPlain = '\\' :: text := by
    rw [List.dropWhile_append_of_pos h]
    rfl
  have htake : (plain ++ '\\' :: text).takeWhile isPlain = plain := by
    rw [List.takeWhile_append_of_pos h]
    apply List.append_nil
  obtain ⟨escape, hescape, rfl, rfl⟩ := hd
  obtain ⟨more, hmore, rfl, rfl⟩ := hcs
  rw [Reader.Takes, readChars]
  split
  · rename_i hnil
    cases hdrop.symm.trans hnil
  · rename_i first after hcons
    cases hdrop.symm.trans hcons
    rw [if_neg (by decide), if_pos rfl]
    simp only [hescape, hmore, bind, Except.bind]
    exact ⟨_, rfl, by rw [htake], rfl⟩

end Lineage.Json
