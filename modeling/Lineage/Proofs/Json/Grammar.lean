import Lineage.Json.Value
import Lineage.Proofs.Json.Numbers
import Mathlib.Data.List.Forall2

/-!
# The texts of JSON values

Which texts stand for which value is said here without a reader, by the rules of JSON:
blanks may stand around every token, every character of a string may be spelled in several
ways, a number is any sequence of digits with its signs, and the members of an object may
repeat a key.  Strings are sequences of characters, so their spellings have no surrogate but
in pairs.

The rules are one relation on the parts of a text, `Spells`, so that what holds of every text
is proved by one induction.
-/

namespace Lineage.Json

variable {json : Json} {text rest : List Char}

/-! ### Blanks -/

/-- A text of blanks alone. -/
def Blanks (text : List Char) : Prop := ∀ c ∈ text, c ∈ [' ', '\t', '\n', '\r']

/-- What stands before an item or a member, which is the first one in its brackets or not. -/
inductive Separates : Bool → List Char → Prop where
  | first {blanks : List Char} (hblanks : Blanks blanks) : Separates true blanks
  | comma {before after : List Char} (hbefore : Blanks before) (hafter : Blanks after) :
      Separates false (before ++ ',' :: after)

/-! ### Strings -/

/-- The letters that stand for a character after a backslash. -/
def letters : List (Char × Char) :=
  [('"', '"'), ('\\', '\\'), ('/', '/'), ('b', '\x08'), ('f', '\x0c'), ('n', '\n'),
    ('r', '\r'), ('t', '\t')]

/-- The hexadecimal digits of a number below sixteen, in lower and in upper case. -/
def SpellsDigit (n : Nat) (c : Char) : Prop :=
  n < 16 ∧ (c = n.digitChar ∨ c = n.digitChar.toUpper)

/-- The four hexadecimal digits of a UTF-16 unit. -/
def SpellsUnit (unit : Nat) (text : List Char) : Prop :=
  ∃ a b c d, text = [a, b, c, d] ∧ SpellsDigit (unit / 4096) a ∧
    SpellsDigit (unit / 256 % 16) b ∧ SpellsDigit (unit / 16 % 16) c ∧ SpellsDigit (unit % 16) d

/-- The UTF-16 units of a character: one, or else a pair of surrogates. -/
def utf16 (c : Char) : List Nat :=
  if c.toNat < 0x10000 then [c.toNat]
  else [0xD800 + (c.toNat - 0x10000) / 0x400, 0xDC00 + (c.toNat - 0x10000) % 0x400]

/-- The ways to spell a character in a string. -/
inductive SpellsChar (c : Char) : List Char → Prop where
  /-- The character stands for itself. -/
  | plain (hquote : c ≠ '"') (hbackslash : c ≠ '\\') (hcontrol : ' ' ≤ c) : SpellsChar c [c]
  /-- A letter after a backslash stands for it. -/
  | letter {letter : Char} (h : (letter, c) ∈ letters) : SpellsChar c ['\\', letter]
  /-- The digits of its units stand for it. -/
  | units {codes : List (List Char)} (h : List.Forall₂ SpellsUnit (utf16 c) codes) :
      SpellsChar c (codes.flatMap fun code => '\\' :: 'u' :: code)

/-- A string between its quotes. -/
def SpellsString (string : String) (text : List Char) : Prop :=
  ∃ codes, List.Forall₂ SpellsChar string.toList codes ∧ text = '"' :: (codes.flatten ++ ['"'])

/-! ### Numbers -/

/-- One decimal digit or more. -/
def Digits (text : List Char) : Prop := text ≠ [] ∧ ∀ c ∈ text, c.isDigit = true

/-- The digits before the point: a zero alone, or digits that do not start with one. -/
def Whole (text : List Char) : Prop := Digits text ∧ (text.head? = some '0' → text = ['0'])

/-- A point and the digits after it, or nothing. -/
def Fraction (text : List Char) : Prop :=
  text = [] ∨ ∃ digits, Digits digits ∧ text = '.' :: digits

/-- An exponent with or without a sign, or nothing. -/
def Exponent (text : List Char) : Prop :=
  text = [] ∨ ∃ e sign digits, (e = 'e' ∨ e = 'E') ∧ (sign = [] ∨ sign = ['+'] ∨ sign = ['-']) ∧
    Digits digits ∧ text = e :: (sign ++ digits)

/-- A number of any size. -/
def Numeral (text : List Char) : Prop :=
  ∃ sign whole fraction exponent, (sign = [] ∨ sign = ['-']) ∧ Whole whole ∧
    Fraction fraction ∧ Exponent exponent ∧ text = sign ++ (whole ++ (fraction ++ exponent))

/-! ### Values -/

/-- A part of a text: a value, or the items or members that remain up to a closing bracket,
of which the next one is the first in the brackets or not. -/
inductive Phrase where
  | value (json : Json)
  | items (first : Bool) (items : List Json)
  | members (first : Bool) (members : List (String × Json))

/-- The texts of a phrase. -/
inductive Spells : Phrase → List Char → Prop where
  | null : Spells (.value .null) ['n', 'u', 'l', 'l']
  | bool {value : Bool} :
      Spells (.value (.bool value))
        (if value then ['t', 'r', 'u', 'e'] else ['f', 'a', 'l', 's', 'e'])
  | number {text : String} (h : Numeral text.toList) :
      Spells (.value (.number text)) text.toList
  | string {string : String} {text : List Char} (h : SpellsString string text) :
      Spells (.value (.string string)) text
  | array {items : List Json} {text : List Char} (h : Spells (.items true items) text) :
      Spells (.value (.array items)) ('[' :: (text ++ [']']))
  | object {members : List (String × Json)} {text : List Char}
      (h : Spells (.members true members) text) :
      Spells (.value (.object members)) ('\x7b' :: (text ++ ['\x7d']))
  | noItems {first : Bool} {blanks : List Char} (h : Blanks blanks) :
      Spells (.items first []) blanks
  | item {first : Bool} {json : Json} {items : List Json} {sep text more : List Char}
      (hsep : Separates first sep) (hitem : Spells (.value json) text)
      (hitems : Spells (.items false items) more) :
      Spells (.items first (json :: items)) (sep ++ (text ++ more))
  | noMembers {first : Bool} {blanks : List Char} (h : Blanks blanks) :
      Spells (.members first []) blanks
  | member {first : Bool} {key : String} {json : Json} {members : List (String × Json)}
      {sep name before after text more : List Char} (hsep : Separates first sep)
      (hname : SpellsString key name) (hbefore : Blanks before) (hafter : Blanks after)
      (hvalue : Spells (.value json) text) (hmembers : Spells (.members false members) more) :
      Spells (.members first ((key, json) :: members))
        (sep ++ (name ++ (before ++ ':' :: (after ++ (text ++ more)))))

/-- The text holds one value and nothing else but blanks. -/
def Document (text : String) (json : Json) : Prop :=
  ∃ before value after, Blanks before ∧ Spells (.value json) value ∧ Blanks after ∧
    text.toList = before ++ (value ++ after)

theorem Blanks.nil :
  Blanks []
  := List.forall_mem_nil _

/-- A string may be written with every character for itself, if all of them are plain. -/
theorem spellsString_of_plain {string : String} (h : string.toList.all isPlain = true) :
  SpellsString string ('"' :: (string.toList ++ ['"']))
  := by
  refine ⟨string.toList.map ([·]), ?_, ?_⟩
  · rw [List.forall₂_map_right_iff, List.forall₂_same]
    intro c hc
    have hplain := List.all_eq_true.mp h c hc
    simp only [isPlain, Bool.and_eq_true, decide_eq_true_eq] at hplain
    obtain ⟨⟨hquote, hbackslash⟩, hcontrol⟩ := hplain
    exact .plain hquote hbackslash hcontrol
  · rw [← List.flatMap_def, List.flatMap_singleton']

/-- A text without blanks around its value. -/
theorem Spells.document {text : String} (h : Spells (.value json) text.toList) :
  Document text json
  := ⟨[], text.toList, [], .nil, h, .nil, by simp⟩

/-! ### Where a part starts and ends -/

theorem Blanks.isBlank (h : Blanks text) :
  ∀ c ∈ text, isBlank c = true
  := by
  intro c hc
  have := h c hc
  simp only [List.mem_cons, List.not_mem_nil, or_false] at this
  obtain rfl | rfl | rfl | rfl := this <;> rfl

@[simp]
theorem Blanks.skipBlanks_append (h : Blanks text) (rest : List Char) :
  skipBlanks (text ++ rest) = skipBlanks rest
  := List.dropWhile_append_of_pos h.isBlank

theorem Blanks.skipBlanks (h : Blanks text) :
  skipBlanks text = []
  := by
  have := h.skipBlanks_append []
  rwa [List.append_nil] at this

/-- Blanks may follow a value if what comes after them may. -/
theorem Blanks.isDelimited_append (h : Blanks text) (hrest : isDelimited rest = true) :
  isDelimited (text ++ rest) = true
  := by
  cases text with
  | nil => exact hrest
  | cons c text =>
    rw [List.cons_append, isDelimited, h.isBlank c List.mem_cons_self]
    rfl

/-- Nothing but blanks stands before the first item or member. -/
theorem Separates.skipBlanks_first (h : Separates true text) (rest : List Char) :
  Json.skipBlanks (text ++ rest) = Json.skipBlanks rest
  := by
  cases h with
  | first hblanks => apply hblanks.skipBlanks_append

/-- A comma stands before any other item or member. -/
theorem Separates.skipBlanks_comma (h : Separates false text) (rest : List Char) :
  ∃ after, Blanks after ∧ Json.skipBlanks (text ++ rest) = ',' :: (after ++ rest)
  := by
  cases h with
  | @comma before after hbefore hafter =>
    refine ⟨after, hafter, ?_⟩
    rw [List.append_assoc, hbefore.skipBlanks_append]
    apply skipBlanks_cons rfl

theorem Separates.isDelimited_append (h : Separates false text) (rest : List Char) :
  isDelimited (text ++ rest) = true
  := by
  obtain _ | ⟨hbefore, _⟩ := h
  rw [List.append_assoc]
  apply hbefore.isDelimited_append
  rfl

/-- What follows an item may follow a value. -/
theorem Spells.isDelimited_items {items : List Json} (h : Spells (.items false items) text)
    (rest : List Char) :
  isDelimited (text ++ ']' :: rest) = true
  := by
  cases h with
  | noItems hblanks => apply hblanks.isDelimited_append rfl
  | item hsep _ _ =>
    rw [List.append_assoc]
    apply hsep.isDelimited_append

/-- What follows a member may follow a value. -/
theorem Spells.isDelimited_members {members : List (String × Json)}
    (h : Spells (.members false members) text) (rest : List Char) :
  isDelimited (text ++ '\x7d' :: rest) = true
  := by
  cases h with
  | noMembers hblanks => apply hblanks.isDelimited_append rfl
  | member hsep _ _ _ _ _ =>
    rw [List.append_assoc]
    apply hsep.isDelimited_append

/-- The first characters of the texts of a value. -/
def Opens : Json → Char → Prop
  | .null, c => c = 'n'
  | .bool value, c => c = if value then 't' else 'f'
  | .number _, c => startsNumber c = true
  | .string _, c => c = '"'
  | .array _, c => c = '['
  | .object _, c => c = '\x7b'

theorem Numeral.exists_cons (h : Numeral text) :
  ∃ c after, text = c :: after ∧ startsNumber c = true
  := by
  obtain ⟨sign, whole, fraction, exponent, hsign, ⟨⟨hne, hdigits⟩, -⟩, -, -, rfl⟩ := h
  obtain rfl | rfl := hsign
  · obtain ⟨c, after, rfl⟩ := List.exists_cons_of_ne_nil hne
    refine ⟨c, _, rfl, ?_⟩
    have hc : isDigit c = true := hdigits c List.mem_cons_self
    rw [startsNumber, hc, Bool.or_true]
  · exact ⟨'-', _, rfl, rfl⟩

theorem Spells.exists_cons (h : Spells (.value json) text) :
  ∃ c after, text = c :: after ∧ Opens json c
  := by
  cases h with
  | @bool value => cases value <;> exact ⟨_, _, rfl, rfl⟩
  | number hnumeral => exact hnumeral.exists_cons
  | string hstring =>
    obtain ⟨codes, -, rfl⟩ := hstring
    exact ⟨_, _, rfl, rfl⟩
  | _ => exact ⟨_, _, rfl, rfl⟩

/-- What may follow a value does not open one. -/
theorem Opens.isDelimited {c : Char} (h : Opens json c) (rest : List Char) :
  isDelimited (c :: rest) = false
  := by
  cases json with
  | number _ =>
    rw [Opens, startsNumber, Bool.or_eq_true, decide_eq_true_eq] at h
    obtain rfl | hdigit := h
    · rfl
    · rw [Bool.eq_false_iff]
      intro hdelimited
      rw [(not_numeric_of_isDelimited hdelimited).1] at hdigit
      contradiction
  | bool value => cases value <;> cases h <;> rfl
  | _ => cases h; rfl

/-- A value starts neither with a blank nor with a comma nor with a closing bracket. -/
theorem Opens.ne {c : Char} (h : Opens json c) :
  isBlank c = false ∧ c ≠ ',' ∧ c ≠ ']' ∧ c ≠ '\x7d'
  := by
  have := h.isDelimited []
  simpa [Json.isDelimited, and_assoc] using this

/-- No blank is taken off the text of a value. -/
theorem Spells.skipBlanks_append (h : Spells (.value json) text) (rest : List Char) :
  skipBlanks (text ++ rest) = text ++ rest
  := by
  obtain ⟨c, after, rfl, hc⟩ := h.exists_cons
  apply skipBlanks_cons hc.ne.1

end Lineage.Json
