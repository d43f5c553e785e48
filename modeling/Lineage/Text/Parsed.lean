/-!
# Reading off the front of a text

A reader takes a value off the front of a text and leaves the rest, which is shorter; where
nothing has to be taken, the rest is at least no longer.  What it took is bounded by the
text, so a reader that calls itself on the rest comes to an end.
-/

namespace Lineage.Text

/-- A value read off the front of `text`, and what is left of the text. -/
structure Parsed (α : Type) (text : List Char) where
  value : α
  rest : List Char
  shorter : rest.length < text.length

/-- A value, and what is left of `text` once something may have been taken off for it. -/
structure Remaining (α : Type) (text : List Char) where
  value : α
  rest : List Char
  notLonger : rest.length ≤ text.length

variable {α β : Type} {text more : List Char} {c : Char}

/-! ### Taking at least one character -/

namespace Parsed

/-- The first character taken off. -/
def head (value : α) (c : Char) (rest : List Char) : Parsed α (c :: rest) :=
  ⟨value, rest, Nat.lt_succ_self _⟩

/-- The same reading with another value. -/
def map (f : α → β) (p : Parsed α text) : Parsed β text := ⟨f p.value, p.rest, p.shorter⟩

/-- The same reading with one more character in front. -/
def behind (p : Parsed α text) : Parsed α (c :: text) :=
  ⟨p.value, p.rest, Nat.lt_succ_of_lt p.shorter⟩

/-- A reading of a text that is no longer than another, as a reading of the other. -/
def widen (p : Parsed α text) (h : text.length ≤ more.length) : Parsed α more :=
  ⟨p.value, p.rest, Nat.lt_of_lt_of_le p.shorter h⟩

/-- A reading that takes at least one character, as one that need not. -/
def remaining (p : Parsed α text) : Remaining α text :=
  ⟨p.value, p.rest, Nat.le_of_lt p.shorter⟩

/-- A reading, and then one of what it left. -/
def andThen (p : Parsed β text) (q : Remaining α p.rest) : Parsed α text :=
  ⟨q.value, q.rest, Nat.lt_of_le_of_lt q.notLonger p.shorter⟩

end Parsed

/-! ### Taking something or nothing -/

namespace Remaining

/-- Nothing taken off. -/
def whole (value : α) (text : List Char) : Remaining α text := ⟨value, text, Nat.le_refl _⟩

/-- So many characters taken off, or all if there are fewer. -/
def drop (value : α) (count : Nat) (text : List Char) : Remaining α text :=
  ⟨value, text.drop count, by simp only [List.length_drop]; omega⟩

/-- The same reading with another value. -/
def map (f : α → β) (p : Remaining α text) : Remaining β text :=
  ⟨f p.value, p.rest, p.notLonger⟩

/-- The same reading with one more character in front. -/
def behind (p : Remaining α text) : Parsed α (c :: text) :=
  ⟨p.value, p.rest, Nat.lt_succ_of_le p.notLonger⟩

/-- A reading, and then one of what it left. -/
def andThen (p : Remaining β text) (q : Remaining α p.rest) : Remaining α text :=
  ⟨q.value, q.rest, Nat.le_trans q.notLonger p.notLonger⟩

end Remaining

/-! ### Runs of characters -/

theorem length_dropWhile_le (keep : Char → Bool) (text : List Char) :
  (text.dropWhile keep).length ≤ text.length
  := (List.dropWhile_sublist keep).length_le

theorem length_of_dropWhile_eq_cons {keep : Char → Bool} {text rest : List Char} {c : Char}
    (h : text.dropWhile keep = c :: rest) :
  rest.length < text.length
  := by
  have := length_dropWhile_le keep text
  simp only [h, List.length_cons] at this
  exact this

theorem shorter_trans {text rest last : List Char} (h : rest.length < text.length)
    (h' : last.length < rest.length) :
  last.length < text.length
  := Nat.lt_trans h' h

theorem shorter_of_notLonger {text start rest last : List Char}
    (hle : start.length ≤ text.length) (h : rest.length < start.length)
    (h' : last.length < rest.length) :
  last.length < text.length
  := shorter_trans (Nat.lt_of_lt_of_le h hle) h'

/-- The characters in front that are to be kept together. -/
def takeRun (keep : Char → Bool) (text : List Char) : Remaining (List Char) text :=
  ⟨text.takeWhile keep, text.dropWhile keep, length_dropWhile_le keep text⟩

/-! ### Computations that may fail -/

/-- A computation in two steps succeeds when both steps do. -/
theorem bind_eq_ok {ε α β : Type} {first : Except ε α} {second : α → Except ε β} {b : β} :
  (first >>= second) = .ok b ↔ ∃ a, first = .ok a ∧ second a = .ok b
  := by
  cases first with
  | error e => simp [bind, Except.bind]
  | ok a => simp [bind, Except.bind]

/-- A function of what a computation gives makes no difference to whether it succeeds. -/
theorem map_eq_ok {ε α β : Type} {f : α → β} {x : Except ε α} {b : β} :
  x.map f = .ok b ↔ ∃ a, x = .ok a ∧ f a = b
  := by
  cases x with
  | error e => simp [Except.map]
  | ok a => simp [Except.map]

/-- A function of the error makes no difference to whether a computation succeeds. -/
theorem mapError_eq_ok {ε η α : Type} {f : ε → η} {x : Except ε α} {a : α} :
  x.mapError f = .ok a ↔ x = .ok a
  := by
  constructor
  · intro h
    cases x with
    | error e => cases h
    | ok b =>
      cases h
      rfl
  · rintro rfl
    rfl

end Lineage.Text
