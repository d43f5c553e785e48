import Lineage.Proofs.Json.Strings

/-!
# Written numbers are read back

A number is written by its decimal digits, without a zero in front, and its reader adds the
digits up as long as the sum fits into 64 bits.  So every number of 64 bits is read back if
what comes after it is no part of a number, and nothing that may follow a value is
(`takes_natural64`).
-/

namespace Lineage.Json

open Text (Remaining)

variable {n : Nat} {c : Char} {digits text rest : List Char}

/-- Whether a text ends here or goes on with a character that may follow a value. -/
def isDelimited : List Char → Bool
  | [] => true
  | c :: _ => isBlank c || c = ',' || c = ']' || c = '\x7d'

/-- What follows a value does not go on with a number. -/
theorem not_numeric_of_isDelimited (h : isDelimited (c :: rest) = true) :
  isDigit c = false ∧ c ≠ '.' ∧ c ≠ 'e' ∧ c ≠ 'E'
  := by
  simp only [isDelimited, isBlank, Bool.or_eq_true, decide_eq_true_eq] at h
  obtain (((((rfl | rfl) | rfl) | rfl) | rfl) | rfl) | rfl := h
  all_goals decide

theorem isBlank_eq_false_of_isDigit (h : isDigit c = true) :
  isBlank c = false
  := by
  cases hblank : isBlank c with
  | false => rfl
  | true =>
    have hdelimited : isDelimited [c] = true := by
      rw [isDelimited, hblank]
      rfl
    rw [(not_numeric_of_isDelimited hdelimited).1] at h
    contradiction

/-! ### Digits -/

theorem isDigit_of_mem_toDigits (h : c ∈ Nat.toDigits 10 n) :
  isDigit c = true
  := Nat.isDigit_of_mem_toDigits (by omega) (by omega) h

/-- A written number starts with a digit. -/
theorem exists_toDigits_eq_cons (n : Nat) :
  ∃ d ds, isDigit d = true ∧ Nat.toDigits 10 n = d :: ds
  := by
  obtain ⟨d, ds, h⟩ := List.exists_cons_of_ne_nil (Nat.toDigits_ne_nil (b := 10) (n := n))
  refine ⟨d, ds, isDigit_of_mem_toDigits (n := n) ?_, h⟩
  rw [h]
  apply List.mem_cons_self

/-- Only zero is written with a zero in front. -/
theorem toDigits_eq_of_head? (h : (Nat.toDigits 10 n).head? = some '0') :
  Nat.toDigits 10 n = ['0']
  := by
  induction n using Nat.strongRecOn with
  | ind n ih =>
    rw [Nat.toDigits_eq_if (by omega)] at h ⊢
    split at h
    · rw [if_pos (by assumption)]
      rw [List.head?_cons, Option.some.injEq] at h
      rw [h]
    · rename_i hle
      have hpos : n / 10 ≠ 0 := by omega
      have hhead : (Nat.toDigits 10 (n / 10)).head? = some '0' := by
        rw [← h, List.head?_append, List.head?_eq_some_head Nat.toDigits_ne_nil]
        rfl
      have hzero := ih (n / 10) (by omega) hhead
      have hvalue : Nat.ofDigitChars 10 (Nat.toDigits 10 (n / 10)) 0 = 0 := by
        rw [hzero]
        rfl
      rw [Nat.ofDigitChars_toDigits (by omega) (by omega)] at hvalue
      exact absurd hvalue hpos

theorem le_ofDigitChars (digits : List Char) (n : Nat) :
  n ≤ Nat.ofDigitChars 10 digits n
  := by
  induction digits generalizing n with
  | nil => apply Nat.le_refl
  | cons c rest ih =>
    rw [Nat.ofDigitChars_cons]
    have h := ih (10 * n + (c.toNat - '0'.toNat))
    omega

/-- Digits that make a number of 64 bits are all added up. -/
theorem accumulate_eq (h : Nat.ofDigitChars 10 digits n < UInt64.size) :
  accumulate n digits = (Nat.ofDigitChars 10 digits n, [])
  := by
  induction digits generalizing n with
  | nil => rfl
  | cons c rest ih =>
    have hstep : n * 10 + (c.toNat - 48) = 10 * n + (c.toNat - '0'.toNat) := by
      rw [Nat.mul_comm]
      rfl
    rw [Nat.ofDigitChars_cons] at h ⊢
    have hle := le_ofDigitChars rest (10 * n + (c.toNat - '0'.toNat))
    rw [accumulate, hstep, if_pos (by omega)]
    apply ih h

theorem value?_toDigits (h : n < UInt64.size) :
  (Literal.mk false (Nat.toDigits 10 n) none none).value? = some (.integer n)
  := by
  have hvalue : Nat.ofDigitChars 10 (Nat.toDigits 10 n) 0 = n :=
    Nat.ofDigitChars_toDigits (by omega) (by omega)
  have haccumulate : accumulate 0 (Nat.toDigits 10 n) = (n, []) := by
    rw [accumulate_eq (by rw [hvalue]; exact h), hvalue]
  simp [Literal.value?, haccumulate]

/-! ### Reading -/

theorem not_isDigit_head?_of_isDelimited (h : isDelimited rest = true) :
  ∀ c ∈ rest.head?, isDigit c = false
  := by
  intro c hc
  obtain _ | ⟨d, rest⟩ := rest
  · cases hc
  · cases hc
    apply (not_numeric_of_isDelimited h).1

theorem takes_readDigits (missing : Fault) (hne : digits ≠ [])
    (hdigits : ∀ c ∈ digits, isDigit c = true) (hrest : ∀ c ∈ rest.head?, isDigit c = false) :
  Reader.Takes (readDigits missing) (digits ++ rest) digits rest
  := by
  obtain _ | ⟨c, cs⟩ := digits
  · contradiction
  have hc : isDigit c = true := hdigits c List.mem_cons_self
  have hcs : ∀ d ∈ cs, isDigit d = true := fun d hd => hdigits d (List.mem_cons_of_mem c hd)
  have hstop : rest.takeWhile isDigit = [] ∧ rest.dropWhile isDigit = rest := by
    obtain _ | ⟨d, ds⟩ := rest
    · exact ⟨rfl, rfl⟩
    · rw [List.takeWhile_cons, List.dropWhile_cons, hrest d rfl]
      exact ⟨rfl, rfl⟩
  rw [Reader.Takes, List.cons_append, readDigits, if_pos hc]
  refine ⟨_, rfl, ?_, ?_⟩
  · change c :: (cs ++ rest).takeWhile isDigit = c :: cs
    rw [List.takeWhile_append_of_pos hcs, hstop.1, List.append_nil]
  · change (cs ++ rest).dropWhile isDigit = rest
    rw [List.dropWhile_append_of_pos hcs, hstop.2]

theorem readFraction_of_isDelimited (missing : Fault) (h : isDelimited text = true) :
  readFraction missing text = .ok (.whole none text)
  := by
  unfold readFraction
  split
  · obtain ⟨-, hdot, -⟩ := not_numeric_of_isDelimited h
    contradiction
  · rfl

theorem readExponent_of_isDelimited (missing : Fault) (h : isDelimited text = true) :
  readExponent missing text = .ok (.whole none text)
  := by
  unfold readExponent
  split
  · rfl
  · obtain ⟨-, -, he, hE⟩ := not_numeric_of_isDelimited h
    rw [if_neg (by simp [he, hE])]

theorem takes_readUnsigned (missing : Fault) (n : Nat) (hrest : isDelimited rest = true) :
  Reader.Takes (readUnsigned missing false) (Nat.toDigits 10 n ++ rest)
    (Literal.mk false (Nat.toDigits 10 n) none none) rest
  := by
  have hdigits : ∀ c ∈ Nat.toDigits 10 n, isDigit c = true := by
    intro c hc
    apply isDigit_of_mem_toDigits hc
  have hzero : ¬ ((Nat.toDigits 10 n).head? = some '0' ∧ Nat.toDigits 10 n ≠ ['0']) := by
    rintro ⟨hhead, hne⟩
    apply hne (toDigits_eq_of_head? hhead)
  have hstop := not_isDigit_head?_of_isDelimited hrest
  obtain ⟨shorter, hwhole⟩ :=
    (takes_readDigits missing Nat.toDigits_ne_nil hdigits hstop).eq_ok
  rw [Reader.Takes, readUnsigned, readWhole, hwhole]
  simp only [bind, Except.bind, if_neg hzero, readFraction_of_isDelimited missing hrest]
  simp only [Remaining.whole, readExponent_of_isDelimited missing hrest]
  exact ⟨_, rfl, rfl, rfl⟩

theorem takes_readLiteral (missing : Fault) (n : Nat) (hrest : isDelimited rest = true) :
  Reader.Takes (readLiteral missing) (Nat.toDigits 10 n ++ rest)
    (Literal.mk false (Nat.toDigits 10 n) none none) rest
  := by
  obtain ⟨d, ds, hd, hdigits⟩ := exists_toDigits_eq_cons n
  have h := takes_readUnsigned missing n hrest
  rw [hdigits, List.cons_append] at h ⊢
  rw [Reader.Takes, readLiteral]
  · apply h
  · rintro after hminus
    cases hminus
    exact absurd hd (by decide)

theorem takes_readNumber (hn : n < UInt64.size) (hrest : isDelimited rest = true) :
  Reader.Takes readNumber (Nat.toDigits 10 n ++ rest) (.integer n) rest
  := by
  obtain ⟨shorter, hliteral⟩ := (takes_readLiteral .truncated n hrest).eq_ok
  rw [Reader.Takes, readNumber, hliteral]
  simp only [bind, Except.bind, value?_toDigits hn]
  exact ⟨_, rfl, rfl, rfl⟩

/-- A number of 64 bits is read from its digits, whatever blanks come before them. -/
theorem takes_natural64 (n : UInt64) (htext : skipBlanks text = (toString n.toNat).toList ++ rest)
    (hrest : isDelimited rest = true) :
  Reader.natural64.Takes text n rest
  := by
  obtain ⟨d, ds, hd, hdigits⟩ := exists_toDigits_eq_cons n.toNat
  have hrepr : (toString n.toNat).toList = Nat.toDigits 10 n.toNat := Nat.toList_repr
  have hstart : startsNumber d = true := by rw [startsNumber, hd, Bool.or_true]
  have hnumber := takes_readNumber n.toNat_lt hrest
  rw [hdigits, List.cons_append] at hnumber
  obtain ⟨shorter, hread⟩ := hnumber.eq_ok
  apply Reader.Takes.afterBlanks
  rw [htext, hrepr, hdigits, List.cons_append, Reader.Takes]
  simp only [hstart, if_true, hread, bind, Except.bind]
  rw [if_pos (Int.natCast_nonneg _)]
  exact ⟨_, rfl, UInt64.ofNat_toNat, rfl⟩

end Lineage.Json
