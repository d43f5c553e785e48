import Lineage.Json.Printer
import Lineage.Proofs.Json.Grammar

/-!
# Strings and numbers in a text

Every spelling of a string is read as the string, and passed over where the string is not
wanted; and every number is passed over up to where it ends.  A character written by its
units is one character to the reader of a string, which pairs surrogates, and one escape for
each unit where the string is passed over.  What the printer writes for a string is one of
its spellings.
-/

namespace Lineage.Json

open Text (Parsed Remaining)

variable {c : Char} {unit : Nat} {code text more rest left plain cs : List Char}

/-! ### Units -/

theorem SpellsDigit.hexDigit {n : Nat} (h : SpellsDigit n c) :
  hexDigit c = some n
  := by
  obtain ⟨hlt, hc⟩ := h
  have hdigits : ∀ n < 16, Json.hexDigit n.digitChar = some n ∧
      Json.hexDigit n.digitChar.toUpper = some n := by decide
  obtain rfl | rfl := hc
  · apply (hdigits n hlt).1
  · apply (hdigits n hlt).2

/-- A unit is read from its four digits. -/
theorem SpellsUnit.takes (h : SpellsUnit unit code) (rest : List Char) :
  Reader.Takes readUnit (code ++ rest) unit rest
  := by
  obtain ⟨a, b, c, d, rfl, ha, hb, hc, hd⟩ := h
  change Reader.Takes readUnit (a :: b :: c :: d :: rest) unit rest
  have hlong : ¬ byteLength ((a :: b :: c :: d :: rest).take 4) < 4 := by
    have hbytes := length_le_byteLength [a, b, c, d]
    simpa using hbytes
  have hunit : hexUnit a b c d = some unit := by
    rw [hexUnit, ha.hexDigit, hb.hexDigit, hc.hexDigit, hd.hexDigit]
    simp only [Option.pure_def, Option.bind_eq_bind, Option.bind_some, Option.some.injEq]
    omega
  rw [Reader.Takes, readUnit, if_neg hlong]
  simp only [hunit]
  exact ⟨_, rfl, rfl, rfl⟩

/-- The number of a character is not that of a surrogate. -/
theorem not_surrogate (c : Char) :
  isLeading c.toNat = false ∧ isTrailing c.toNat = false
  := by
  have hvalid : c.toNat < 0xD800 ∨ 0xDFFF < c.toNat ∧ c.toNat < 0x110000 := c.valid
  simp only [isLeading, isTrailing, Bool.and_eq_false_iff, decide_eq_false_iff_not]
  omega

/-- The units of a character are its number alone, or a pair that its number is made of. -/
theorem utf16_cases (c : Char) :
  utf16 c = [c.toNat] ∨
    ∃ leading trailing, utf16 c = [leading, trailing] ∧ isLeading leading = true ∧
      isTrailing trailing = true ∧ combine leading trailing = c.toNat
  := by
  have hvalid : c.toNat < 0xD800 ∨ 0xDFFF < c.toNat ∧ c.toNat < 0x110000 := c.valid
  rw [utf16]
  split
  · exact .inl rfl
  · refine .inr ⟨_, _, rfl, ?_, ?_, ?_⟩
    · simp only [isLeading, Bool.and_eq_true, decide_eq_true_eq]
      omega
    · simp only [isTrailing, Bool.and_eq_true, decide_eq_true_eq]
      omega
    · unfold combine
      omega

/-! ### Strings that are read -/

theorem escaped_of_mem_letters {letter : Char} (h : (letter, c) ∈ letters) :
  escaped letter = some c
  := by
  have hletters : ∀ pair ∈ letters, escaped pair.1 = some pair.2 := by decide
  apply hletters _ h

/-- A character is read from the digits of its only unit. -/
theorem takes_readEscape_single (h : SpellsUnit c.toNat code) (rest : List Char) :
  Reader.Takes readEscape ('u' :: (code ++ rest)) c rest
  := by
  have hletter : escaped 'u' = none := rfl
  obtain ⟨hleading, htrailing⟩ := not_surrogate c
  obtain ⟨shorter, hread⟩ := (h.takes rest).eq_ok
  rw [Reader.Takes, readEscape, hletter]
  simp only [if_true, hread, bind, Except.bind, hleading, htrailing, Bool.false_eq_true,
    if_false]
  exact ⟨_, rfl, Char.ofNat_toNat c, rfl⟩

/-- A character is read from the digits of its two units. -/
theorem takes_readEscape_pair {leading trailing : Nat} {low : List Char}
    (hleading : isLeading leading = true) (htrailing : isTrailing trailing = true)
    (hcombine : combine leading trailing = c.toNat) (hcode : SpellsUnit leading code)
    (hlow : SpellsUnit trailing low) (rest : List Char) :
  Reader.Takes readEscape ('u' :: (code ++ '\\' :: 'u' :: (low ++ rest))) c rest
  := by
  have hletter : escaped 'u' = none := rfl
  have hnot : isTrailing leading = false := by
    simp only [isLeading, isTrailing, Bool.and_eq_true, Bool.and_eq_false_iff,
      decide_eq_true_eq, decide_eq_false_iff_not] at hleading ⊢
    omega
  obtain ⟨shorter, hread⟩ := (hcode.takes ('\\' :: 'u' :: (low ++ rest))).eq_ok
  obtain ⟨shorter', hread'⟩ := (hlow.takes rest).eq_ok
  rw [Reader.Takes, readEscape, hletter]
  simp only [if_true, hread, bind, Except.bind, hnot, hleading, Bool.false_eq_true, if_false,
    readTrailing, hread', htrailing]
  refine ⟨_, rfl, ?_, rfl⟩
  simp only [Parsed.behind, Parsed.andThen, Parsed.remaining, Parsed.map, hcombine]
  apply Char.ofNat_toNat

/-- The units of a character are read as the character after the first backslash. -/
theorem takes_readEscape_units {codes : List (List Char)}
    (h : List.Forall₂ SpellsUnit (utf16 c) codes) :
  ∃ code, (codes.flatMap fun code => '\\' :: 'u' :: code) = '\\' :: code ∧
    ∀ rest, Reader.Takes readEscape (code ++ rest) c rest
  := by
  obtain hunit | ⟨leading, trailing, hunits, hleading, htrailing, hcombine⟩ := utf16_cases c
  · rw [hunit] at h
    obtain _ | ⟨hcode, _ | _⟩ := h
    refine ⟨_, List.flatMap_singleton _ _, ?_⟩
    intro rest
    apply takes_readEscape_single hcode
  · rw [hunits] at h
    obtain _ | @⟨_, code, _, _, hcode, _ | @⟨_, low, _, _, hlow, _ | _⟩⟩ := h
    refine ⟨'u' :: (code ++ '\\' :: 'u' :: low), by simp, ?_⟩
    intro rest
    rw [List.cons_append, List.append_assoc]
    apply takes_readEscape_pair hleading htrailing hcombine hcode hlow

/-- A spelling is read as its character if what follows it is read, also with characters that
stand for themselves before it. -/
theorem SpellsChar.takes_readChars (h : SpellsChar c code)
    (hplain : ∀ d ∈ plain, isPlain d = true)
    (hmore : ∀ plain, (∀ d ∈ plain, isPlain d = true) →
      Reader.Takes readChars (plain ++ more) (plain ++ cs) rest) :
  Reader.Takes readChars (plain ++ (code ++ more)) (plain ++ c :: cs) rest
  := by
  have hescape : ∀ code, (∀ rest, Reader.Takes readEscape (code ++ rest) c rest) →
      Reader.Takes readChars (plain ++ '\\' :: (code ++ more)) (plain ++ c :: cs) rest := by
    intro code hcode
    apply takes_readChars_escape hplain (hcode more) (hmore [] (List.forall_mem_nil _))
  cases h with
  | plain hquote hbackslash hcontrol =>
    have hc : isPlain c = true := by simp [isPlain, hquote, hbackslash, hcontrol]
    rw [List.append_cons plain c cs, ← List.append_assoc]
    apply hmore
    rw [List.forall_mem_append, List.forall_mem_singleton]
    exact ⟨hplain, hc⟩
  | letter hletter =>
    apply hescape [_]
    intro rest
    apply takes_readEscape_of_escaped (escaped_of_mem_letters hletter)
  | units hunits =>
    obtain ⟨code, hcodes, hcode⟩ := takes_readEscape_units hunits
    rw [hcodes]
    apply hescape code hcode

theorem takes_readChars_codes {codes : List (List Char)} (h : List.Forall₂ SpellsChar cs codes)
    (hplain : ∀ d ∈ plain, isPlain d = true) (rest : List Char) :
  Reader.Takes readChars (plain ++ (codes.flatten ++ '"' :: rest)) (plain ++ cs) rest
  := by
  induction h generalizing plain with
  | nil =>
    rw [List.append_nil]
    apply takes_readChars_quote hplain
  | cons hcode _ ih =>
    rw [List.flatten_cons, List.append_assoc]
    apply hcode.takes_readChars hplain
    intro plain hplain
    apply ih hplain

/-! ### Strings that are passed over -/

theorem takes_skipEscape_letter {letter : Char} (h : (letter, c) ∈ letters) (rest : List Char) :
  Reader.Takes skipEscape (letter :: rest) () rest
  := by
  rw [Reader.Takes, skipEscape, escaped_of_mem_letters h]
  exact ⟨_, rfl, rfl, rfl⟩

theorem takes_skipEscape_unit (h : SpellsUnit unit code) (rest : List Char) :
  Reader.Takes skipEscape ('u' :: (code ++ rest)) () rest
  := by
  have hletter : escaped 'u' = none := rfl
  obtain ⟨shorter, hread⟩ := (h.takes rest).eq_ok
  rw [Reader.Takes, skipEscape, hletter, hread]
  exact ⟨_, rfl, rfl, rfl⟩

/-- Characters that stand for themselves are passed over up to the closing quote. -/
theorem takes_skipChars_quote (h : ∀ c ∈ plain, isPlain c = true) (rest : List Char) :
  Reader.Takes skipChars (plain ++ '"' :: rest) () rest
  := by
  have hdrop : (plain ++ '"' :: rest).dropWhile isPlain = '"' :: rest := by
    rw [List.dropWhile_append_of_pos h]
    rfl
  rw [Reader.Takes, skipChars]
  split
  · rename_i hnil
    cases hdrop.symm.trans hnil
  · rename_i first after hcons
    cases hdrop.symm.trans hcons
    rw [if_pos rfl]
    exact ⟨_, rfl, rfl, rfl⟩

/-- Characters that stand for themselves are passed over up to an escape, and then the rest. -/
theorem takes_skipChars_escape (h : ∀ c ∈ plain, isPlain c = true)
    (hescape : Reader.Takes skipEscape text () left)
    (hmore : Reader.Takes skipChars left () rest) :
  Reader.Takes skipChars (plain ++ '\\' :: text) () rest
  := by
  have hdrop : (plain ++ '\\' :: text).dropWhile isPlain = '\\' :: text := by
    rw [List.dropWhile_append_of_pos h]
    rfl
  obtain ⟨shorter, hescape⟩ := hescape.eq_ok
  obtain ⟨shorter', hmore⟩ := hmore.eq_ok
  rw [Reader.Takes, skipChars]
  split
  · rename_i hnil
    cases hdrop.symm.trans hnil
  · rename_i first after hcons
    cases hdrop.symm.trans hcons
    rw [if_neg (by decide), if_pos rfl]
    simp only [hescape, hmore, bind, Except.bind]
    exact ⟨_, rfl, trivial, rfl⟩

/-- Units are passed over one by one. -/
theorem takes_skipChars_units {units : List Nat} {codes : List (List Char)}
    (h : List.Forall₂ SpellsUnit units codes) (hplain : ∀ d ∈ plain, isPlain d = true)
    (hmore : ∀ plain, (∀ d ∈ plain, isPlain d = true) →
      Reader.Takes skipChars (plain ++ more) () rest) :
  Reader.Takes skipChars
    (plain ++ ((codes.flatMap fun code => '\\' :: 'u' :: code) ++ more)) () rest
  := by
  induction h generalizing plain with
  | nil => apply hmore plain hplain
  | cons hcode _ ih =>
    simp only [List.flatMap_cons, List.cons_append, List.append_assoc]
    apply takes_skipChars_escape hplain (takes_skipEscape_unit hcode _)
    apply ih (List.forall_mem_nil _)

theorem SpellsChar.takes_skipChars (h : SpellsChar c code)
    (hplain : ∀ d ∈ plain, isPlain d = true)
    (hmore : ∀ plain, (∀ d ∈ plain, isPlain d = true) →
      Reader.Takes skipChars (plain ++ more) () rest) :
  Reader.Takes skipChars (plain ++ (code ++ more)) () rest
  := by
  cases h with
  | plain hquote hbackslash hcontrol =>
    have hc : isPlain c = true := by simp [isPlain, hquote, hbackslash, hcontrol]
    rw [← List.append_assoc]
    apply hmore
    rw [List.forall_mem_append, List.forall_mem_singleton]
    exact ⟨hplain, hc⟩
  | letter hletter =>
    apply takes_skipChars_escape hplain (takes_skipEscape_letter hletter more)
    apply hmore [] (List.forall_mem_nil _)
  | units hunits => apply takes_skipChars_units hunits hplain hmore

theorem takes_skipChars_codes {codes : List (List Char)} (h : List.Forall₂ SpellsChar cs codes)
    (hplain : ∀ d ∈ plain, isPlain d = true) (rest : List Char) :
  Reader.Takes skipChars (plain ++ (codes.flatten ++ '"' :: rest)) () rest
  := by
  induction h generalizing plain with
  | nil => apply takes_skipChars_quote hplain
  | cons hcode _ ih =>
    rw [List.flatten_cons, List.append_assoc]
    apply hcode.takes_skipChars hplain
    intro plain hplain
    apply ih hplain

/-- A string is read as what it spells and passed over, from after its opening quote on. -/
theorem SpellsString.exists_append {string : String} (h : SpellsString string text)
    (rest : List Char) :
  ∃ after, text ++ rest = '"' :: after ∧ Reader.Takes readChars after string.toList rest ∧
    Reader.Takes skipChars after () rest
  := by
  obtain ⟨codes, hcodes, rfl⟩ := h
  have hnil := List.forall_mem_nil fun d => isPlain d = true
  refine ⟨codes.flatten ++ '"' :: rest, by simp, ?_, ?_⟩
  · apply takes_readChars_codes hcodes hnil
  · apply takes_skipChars_codes hcodes hnil

/-! ### Written strings -/

theorem spellsDigit_hexChar {n : Nat} (h : n < 16) :
  SpellsDigit n (hexChar n)
  := by
  have hdigits : ∀ n < 16, hexChar n = n.digitChar := by decide
  exact ⟨h, .inl (hdigits n h)⟩

/-- A unit below 256 has two zeros for its first digits. -/
theorem spellsUnit_hexChar {n : Nat} (h : n < 256) :
  SpellsUnit n ['0', '0', hexChar (n / 16), hexChar (n % 16)]
  := by
  have hzero : SpellsDigit 0 '0' := ⟨by decide, .inl rfl⟩
  refine ⟨_, _, _, _, rfl, ?_, ?_, ?_, spellsDigit_hexChar (Nat.mod_lt _ (by decide))⟩
  · rwa [show n / 4096 = 0 by omega]
  · rwa [show n / 256 % 16 = 0 by omega]
  · rw [Nat.mod_eq_of_lt (by omega)]
    exact spellsDigit_hexChar (by omega)

/-- A character is written in one of the ways to spell it. -/
theorem spellsChar_escapeChar (c : Char) :
  SpellsChar c (escapeChar c)
  := by
  unfold escapeChar
  split
  case h_8 hquote hbackslash _ _ _ _ _ =>
    split
    · case isTrue hcontrol =>
      have hlt : c.toNat < 32 := hcontrol
      have hutf16 : utf16 c = [c.toNat] := by rw [utf16, if_pos (by omega)]
      have hunits := List.Forall₂.cons (spellsUnit_hexChar (Nat.lt_trans hlt (by decide))) .nil
      rw [← hutf16] at hunits
      exact .units hunits
    · case isFalse hcontrol => exact .plain hquote hbackslash (Char.not_lt.mp hcontrol)
  all_goals exact .letter (by decide)

theorem spellsString_writeString (text : String) :
  SpellsString text (writeString text)
  := by
  refine ⟨text.toList.map escapeChar, ?_, ?_⟩
  · rw [List.forall₂_map_right_iff, List.forall₂_same]
    intro c _
    apply spellsChar_escapeChar
  · rw [writeString, List.flatMap_def]

/-- After its opening quote a written string is read back. -/
theorem exists_writeString_append (text : String) (rest : List Char) :
  ∃ after, writeString text ++ rest = '"' :: after ∧
    Reader.Takes readChars after text.toList rest
  := by
  obtain ⟨after, hafter, hchars, -⟩ := (spellsString_writeString text).exists_append rest
  exact ⟨after, hafter, hchars⟩

/-! ### Numbers -/

section Numbers

variable {sign digits whole fraction exponent : List Char} (missing : Fault)

theorem Digits.isDigit (h : Digits text) :
  ∀ c ∈ text, isDigit c = true
  := h.2

theorem Digits.exists_cons (h : Digits text) :
  ∃ c after, text = c :: after ∧ Json.isDigit c = true
  := by
  obtain ⟨c, after, rfl⟩ := List.exists_cons_of_ne_nil h.1
  exact ⟨c, after, rfl, h.isDigit c List.mem_cons_self⟩

theorem readSign_append (hsign : sign = [] ∨ sign = ['+'] ∨ sign = ['-']) (h : Digits digits)
    (rest : List Char) :
  (readSign (sign ++ (digits ++ rest))).rest = digits ++ rest
  := by
  obtain rfl | rfl | rfl := hsign
  · obtain ⟨c, after, rfl, hc⟩ := h.exists_cons
    rw [List.nil_append, List.cons_append, readSign]
    · rfl
    · rintro rest hplus
      cases hplus
      contradiction
    · rintro rest hminus
      cases hminus
      contradiction
  · rfl
  · rfl

theorem Fraction.readFraction_append (h : Fraction fraction)
    (hdigit : ∀ c ∈ rest.head?, isDigit c = false) (hpoint : rest.head? ≠ some '.') :
  ∃ p, readFraction missing (fraction ++ rest) = .ok p ∧ p.rest = rest
  := by
  obtain rfl | ⟨digits, hdigits, rfl⟩ := h
  · rw [List.nil_append]
    unfold readFraction
    split
    · exact absurd rfl hpoint
    · exact ⟨_, rfl, rfl⟩
  · obtain ⟨shorter, hread⟩ := (takes_readDigits missing hdigits.1 hdigits.2 hdigit).eq_ok
    rw [List.cons_append, readFraction, hread]
    exact ⟨_, rfl, rfl⟩

theorem Exponent.readExponent_append (h : Exponent exponent) (hrest : isDelimited rest = true) :
  ∃ p, readExponent missing (exponent ++ rest) = .ok p ∧ p.rest = rest
  := by
  obtain rfl | ⟨e, sign, digits, he, hsign, hdigits, rfl⟩ := h
  · exact ⟨_, readExponent_of_isDelimited missing hrest, rfl⟩
  · have hstop := not_isDigit_head?_of_isDelimited hrest
    obtain ⟨shorter, hread⟩ := (takes_readDigits missing hdigits.1 hdigits.2 hstop).eq_ok
    have hafter := readSign_append hsign hdigits rest
    rw [List.cons_append, List.append_assoc, readExponent, if_pos he]
    generalize readSign (sign ++ (digits ++ rest)) = read at hafter
    obtain ⟨negative, after, _⟩ := read
    obtain rfl : after = digits ++ rest := hafter
    simp only [bind, Except.bind, hread]
    exact ⟨_, rfl, rfl⟩

/-- An exponent goes on with neither digits nor a point. -/
theorem Exponent.head?_append (h : Exponent exponent) (hrest : isDelimited rest = true) :
  (∀ c ∈ (exponent ++ rest).head?, isDigit c = false) ∧ (exponent ++ rest).head? ≠ some '.'
  := by
  obtain rfl | ⟨e, sign, digits, he, -, -, rfl⟩ := h
  · obtain _ | ⟨c, rest⟩ := rest
    · exact ⟨by simp, by simp⟩
    · obtain ⟨hdigit, hpoint, -⟩ := not_numeric_of_isDelimited hrest
      simp [hdigit, hpoint]
  · obtain rfl | rfl := he
    · exact ⟨by simp; rfl, by simp⟩
    · exact ⟨by simp; rfl, by simp⟩

/-- A fraction does not go on with digits if what follows it does not. -/
theorem Fraction.head?_append (h : Fraction fraction)
    (hdigit : ∀ c ∈ rest.head?, isDigit c = false) :
  ∀ c ∈ (fraction ++ rest).head?, isDigit c = false
  := by
  obtain rfl | ⟨digits, -, rfl⟩ := h
  · exact hdigit
  · simp; rfl

theorem Whole.takes (h : Whole whole)
    (hdigit : ∀ c ∈ rest.head?, isDigit c = false) :
  Reader.Takes (readWhole missing) (whole ++ rest) whole rest
  := by
  obtain ⟨hdigits, hzero⟩ := h
  obtain ⟨shorter, hread⟩ := (takes_readDigits missing hdigits.1 hdigits.2 hdigit).eq_ok
  have hnot : ¬ (whole.head? = some '0' ∧ whole ≠ ['0']) := by
    rintro ⟨hhead, hne⟩
    apply hne (hzero hhead)
  rw [Reader.Takes, readWhole, hread]
  simp only [bind, Except.bind, if_neg hnot]
  exact ⟨_, rfl, rfl, rfl⟩

/-- A number without its sign is read up to where it ends. -/
theorem takes_readUnsigned_numeral (negative : Bool) (hwhole : Whole whole)
    (hfraction : Fraction fraction) (hexponent : Exponent exponent)
    (hrest : isDelimited rest = true) :
  ∃ literal, Reader.Takes (readUnsigned missing negative)
    (whole ++ (fraction ++ (exponent ++ rest))) literal rest
  := by
  obtain ⟨hdigit, hpoint⟩ := hexponent.head?_append hrest
  obtain ⟨shorter, hwhole⟩ := (hwhole.takes missing (hfraction.head?_append hdigit)).eq_ok
  obtain ⟨⟨_, _, _⟩, hfraction, rfl⟩ := hfraction.readFraction_append missing hdigit hpoint
  obtain ⟨⟨_, left, _⟩, hexponent, hleft⟩ := hexponent.readExponent_append missing hrest
  obtain rfl : left = rest := hleft
  unfold Reader.Takes
  simp only [readUnsigned, bind, Except.bind, hwhole, hfraction, hexponent]
  exact ⟨_, _, rfl, rfl, rfl⟩

theorem Numeral.takes_readLiteral (h : Numeral text) (hrest : isDelimited rest = true) :
  ∃ literal, Reader.Takes (readLiteral missing) (text ++ rest) literal rest
  := by
  obtain ⟨sign, whole, fraction, exponent, hsign, hwhole, hfraction, hexponent, rfl⟩ := h
  simp only [List.append_assoc]
  obtain rfl | rfl := hsign
  · obtain ⟨literal, hread⟩ :=
      takes_readUnsigned_numeral missing false hwhole hfraction hexponent hrest
    obtain ⟨c, after, rfl, hc⟩ := hwhole.1.exists_cons
    refine ⟨literal, ?_⟩
    rw [List.nil_append, List.cons_append, Reader.Takes, readLiteral]
    · exact hread
    · rintro rest hminus
      cases hminus
      contradiction
  · obtain ⟨literal, hread⟩ :=
      takes_readUnsigned_numeral missing true hwhole hfraction hexponent hrest
    obtain ⟨shorter, hread⟩ := hread.eq_ok
    refine ⟨literal, ?_⟩
    rw [List.cons_append, List.nil_append, Reader.Takes, readLiteral, hread]
    exact ⟨_, rfl, rfl, rfl⟩

/-- A number is passed over up to where it ends. -/
theorem Numeral.takes_skipNumber (h : Numeral text) (hrest : isDelimited rest = true) :
  Reader.Takes skipNumber (text ++ rest) () rest
  := by
  obtain ⟨literal, hread⟩ := h.takes_readLiteral .malformed hrest
  obtain ⟨shorter, hread⟩ := hread.eq_ok
  rw [Reader.Takes, skipNumber, hread]
  exact ⟨_, rfl, rfl, rfl⟩

end Numbers

end Lineage.Json
