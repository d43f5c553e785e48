import Lineage.Json.Skip
import Lineage.Proofs.Json.Tokens

/-!
# Every value is passed over

What no one asks for is passed over with a stack of the brackets that are still open.  A value
in a text is passed over to what stands after it, whatever is on the stack (`Spells.passes`):
this is proved for all parts of a text at once, since the items and members between two
brackets are passed over with the bracket on the stack.
-/

namespace Lineage.Json

open Text (Parsed Remaining)

variable {bracket : Bracket} {brackets : List Bracket} {c : Char} {json : Json}
variable {text start rest left name before after sep more : List Char}

/-! ### Steps -/

theorem skipThrough_array (h : skipBlanks start = '[' :: rest) :
  skipThrough .value brackets start = skipThrough (.inside .array) brackets rest
  := by
  rw [skipThrough]
  split
  · rename_i harray
    cases h.symm.trans harray
    rfl
  · rename_i hobject
    cases h.symm.trans hobject
  · rename_i harray _
    apply absurd h (harray rest)

theorem skipThrough_object (h : skipBlanks start = '\x7b' :: rest) :
  skipThrough .value brackets start = skipThrough (.inside .object) brackets rest
  := by
  rw [skipThrough]
  split
  · rename_i harray
    cases h.symm.trans harray
  · rename_i hobject
    cases h.symm.trans hobject
    rfl
  · rename_i hobject
    apply absurd h (hobject rest)

theorem skipThrough_atom (h : skipBlanks start = c :: rest) (harray : c ≠ '[')
    (hobject : c ≠ '\x7b') (hatom : Reader.Takes skipAtom (c :: rest) () left) :
  skipThrough .value brackets start = skipThrough .after brackets left
  := by
  obtain ⟨shorter, hatom⟩ := hatom.eq_ok
  rw [skipThrough]
  split
  · rename_i hcons
    cases h.symm.trans hcons
    contradiction
  · rename_i hcons
    cases h.symm.trans hcons
    contradiction
  · rw [h, hatom]
    rfl

/-- Pass over what follows the opening of a bracket, or else what follows a value in it. -/
def skipWithin (first : Bool) (bracket : Bracket) (brackets : List Bracket)
    (text : List Char) : Except Fault (List Char) :=
  if first then skipThrough (.inside bracket) brackets text
  else skipThrough .after (bracket :: brackets) text

theorem skipWithin_closing (first : Bool) (h : skipBlanks start = bracket.closing :: rest) :
  skipWithin first bracket brackets start = skipThrough .after brackets rest
  := by
  cases first
  case true =>
    rw [skipWithin, if_pos rfl, skipThrough]
    split
    · rename_i hnil
      cases h.symm.trans hnil
    · rename_i hcons
      cases h.symm.trans hcons
      rw [if_pos rfl]
  case false =>
    rw [skipWithin, if_neg Bool.false_ne_true, skipThrough]
    dsimp only
    split
    · rename_i hnil
      cases h.symm.trans hnil
    · rename_i hcons
      cases h.symm.trans hcons
      rw [if_pos rfl]

/-- An item or a member is passed over from its first character on, whatever separates it
from what stands before it. -/
theorem skipWithin_entry {first : Bool} {result : Except Fault (List Char)}
    (hsep : Separates first sep) (hblank : isBlank c = false) (hclosing : c ≠ bracket.closing)
    (hentry : ∀ start, skipBlanks start = c :: rest →
      ∃ p, skipKey bracket start = .ok p ∧
        skipThrough .value (bracket :: brackets) p.rest = result) :
  skipWithin first bracket brackets (sep ++ c :: rest) = result
  := by
  have hc := skipBlanks_cons hblank rest
  cases first
  case true =>
    obtain ⟨p, hkey, hvalue⟩ := hentry (c :: rest) hc
    have hskip := hsep.skipBlanks_first (c :: rest)
    rw [hc] at hskip
    rw [skipWithin, if_pos rfl, skipThrough]
    split
    · rename_i hnil
      cases hskip.symm.trans hnil
    · rename_i hcons
      cases hskip.symm.trans hcons
      rw [if_neg hclosing, hkey]
      exact hvalue
  case false =>
    obtain ⟨after, hafter, hskip⟩ := hsep.skipBlanks_comma (c :: rest)
    have hstart : skipBlanks (after ++ c :: rest) = c :: rest := by
      rw [hafter.skipBlanks_append, hc]
    obtain ⟨p, hkey, hvalue⟩ := hentry (after ++ c :: rest) hstart
    rw [skipWithin, if_neg Bool.false_ne_true, skipThrough]
    dsimp only
    split
    · rename_i hnil
      cases hskip.symm.trans hnil
    · rename_i hcons
      cases hskip.symm.trans hcons
      rw [if_neg (by cases bracket <;> decide), if_pos rfl, hkey]
      exact hvalue

/-! ### Keys -/

theorem takes_readColon_append (h : Blanks before) (rest : List Char) :
  Reader.Takes readColon (before ++ ':' :: rest) () rest
  := by
  have hcolon : skipBlanks (before ++ ':' :: rest) = ':' :: rest := by
    rw [h.skipBlanks_append]
    apply skipBlanks_cons rfl
  rw [Reader.Takes, readColon]
  split
  · rename_i hnil
    cases hcolon.symm.trans hnil
  · rename_i hcons
    cases hcolon.symm.trans hcons
    rw [if_pos rfl]
    exact ⟨_, rfl, rfl, rfl⟩

theorem skipKey_object {key : String} (hname : SpellsString key name) (hbefore : Blanks before)
    (hstart : skipBlanks start = name ++ (before ++ ':' :: rest)) :
  ∃ p, skipKey .object start = .ok p ∧ p.rest = rest
  := by
  obtain ⟨quoted, hquoted, -, hskip⟩ := hname.exists_append (before ++ ':' :: rest)
  obtain ⟨_, hskip⟩ := hskip.eq_ok
  obtain ⟨_, hcolon⟩ := (takes_readColon_append hbefore rest).eq_ok
  rw [skipKey]
  split
  · rename_i hnil
    cases (hstart.symm.trans hnil).symm.trans hquoted
  · rename_i hcons
    cases hquoted.symm.trans (hstart.symm.trans hcons)
    rw [if_pos rfl]
    simp only [bind, Except.bind, hskip, hcolon]
    exact ⟨_, rfl, rfl⟩

/-! ### Values -/

theorem takes_skipAtom_numeral (h : Numeral text) (hrest : isDelimited rest = true) :
  Reader.Takes skipAtom (text ++ rest) () rest
  := by
  have hnumber := h.takes_skipNumber hrest
  obtain ⟨c, after, rfl, hc⟩ := h.exists_cons
  rw [List.cons_append] at hnumber ⊢
  rw [Reader.Takes, skipAtom, if_pos hc]
  · exact hnumber
  all_goals
    rintro rfl
    contradiction

theorem takes_skipAtom_string {string : String} (h : SpellsString string text)
    (rest : List Char) :
  Reader.Takes skipAtom (text ++ rest) () rest
  := by
  obtain ⟨quoted, hquoted, -, hskip⟩ := h.exists_append rest
  obtain ⟨_, hskip⟩ := hskip.eq_ok
  rw [hquoted, Reader.Takes, skipAtom, hskip]
  exact ⟨_, rfl, rfl, rfl⟩

/-- A part of a text is passed over to what stands after it: a value with any brackets open,
and what stands in a bracket together with the closing one. -/
def Phrase.Passes : Phrase → List Char → Prop
  | .value _, text => ∀ brackets start rest, skipBlanks start = text ++ rest →
      isDelimited rest = true →
      skipThrough .value brackets start = skipThrough .after brackets rest
  | .items first _, text => ∀ brackets rest,
      skipWithin first .array brackets (text ++ ']' :: rest) = skipThrough .after brackets rest
  | .members first _, text => ∀ brackets rest,
      skipWithin first .object brackets (text ++ '\x7d' :: rest) = skipThrough .after brackets rest

theorem passes_atom (hcons : text = c :: after) (harray : c ≠ '[') (hobject : c ≠ '\x7b')
    (hatom : ∀ rest, isDelimited rest = true → Reader.Takes skipAtom (text ++ rest) () rest) :
  (Phrase.value json).Passes text
  := by
  subst hcons
  intro brackets start rest hstart hrest
  apply skipThrough_atom hstart harray hobject (hatom rest hrest)

theorem Phrase.Passes.array {items : List Json} (h : (Phrase.items true items).Passes text) :
  (Phrase.value (.array items)).Passes ('[' :: (text ++ [']']))
  := by
  intro brackets start rest hstart _
  rw [List.cons_append, List.append_assoc] at hstart
  rw [skipThrough_array hstart]
  apply h brackets rest

theorem Phrase.Passes.object {members : List (String × Json)}
    (h : (Phrase.members true members).Passes text) :
  (Phrase.value (.object members)).Passes ('\x7b' :: (text ++ ['\x7d']))
  := by
  intro brackets start rest hstart _
  rw [List.cons_append, List.append_assoc] at hstart
  rw [skipThrough_object hstart]
  apply h brackets rest

section Within

variable {first : Bool}

/-- A bracket is closed after blanks. -/
theorem skipWithin_blanks (h : Blanks text) (hclosing : isBlank bracket.closing = false)
    (rest : List Char) :
  skipWithin first bracket brackets (text ++ bracket.closing :: rest)
    = skipThrough .after brackets rest
  := by
  apply skipWithin_closing
  rw [h.skipBlanks_append]
  apply skipBlanks_cons hclosing

theorem Phrase.Passes.item {items : List Json} (h : (Phrase.value json).Passes text)
    (hmore : (Phrase.items false items).Passes more) (hsep : Separates first sep)
    (hitem : Spells (.value json) text) (hitems : Spells (.items false items) more) :
  (Phrase.items first (json :: items)).Passes (sep ++ (text ++ more))
  := by
  intro brackets rest
  obtain ⟨c, after, hc, hopens⟩ := hitem.exists_cons
  obtain ⟨hblank, -, hne, -⟩ := hopens.ne
  have hclosing : c ≠ Bracket.array.closing := hne
  simp only [List.append_assoc]
  rw [hc, List.cons_append]
  apply skipWithin_entry hsep hblank hclosing
  intro start hstart
  refine ⟨_, rfl, ?_⟩
  rw [← List.cons_append, ← hc] at hstart
  rw [← hmore brackets rest]
  exact h (.array :: brackets) start _ hstart (hitems.isDelimited_items rest)

theorem Phrase.Passes.member {key : String} {members : List (String × Json)}
    (h : (Phrase.value json).Passes text) (hmore : (Phrase.members false members).Passes more)
    (hsep : Separates first sep) (hname : SpellsString key name) (hbefore : Blanks before)
    (hafter : Blanks after) (hvalue : Spells (.value json) text)
    (hmembers : Spells (.members false members) more) :
  (Phrase.members first ((key, json) :: members)).Passes
    (sep ++ (name ++ (before ++ ':' :: (after ++ (text ++ more)))))
  := by
  intro brackets rest
  simp only [List.append_assoc, List.cons_append]
  obtain ⟨quoted, hquoted, -⟩ :=
    hname.exists_append (before ++ ':' :: (after ++ (text ++ (more ++ '\x7d' :: rest))))
  rw [hquoted]
  apply skipWithin_entry hsep rfl (by decide)
  intro start hstart
  rw [← hquoted] at hstart
  obtain ⟨p, hkey, hp⟩ := skipKey_object hname hbefore hstart
  refine ⟨p, hkey, ?_⟩
  rw [hp, ← hmore brackets rest]
  apply h (.object :: brackets) _ _ _ (hmembers.isDelimited_members rest)
  rw [hafter.skipBlanks_append, hvalue.skipBlanks_append]

end Within

theorem Spells.passes {phrase : Phrase} (h : Spells phrase text) :
  phrase.Passes text
  := by
  induction h with
  | null =>
    apply passes_atom rfl (by decide) (by decide)
    intro rest _
    exact ⟨_, rfl, rfl, rfl⟩
  | @bool value =>
    cases value
    all_goals
      apply passes_atom rfl (by decide) (by decide)
      intro rest _
      exact ⟨_, rfl, rfl, rfl⟩
  | number hnumeral =>
    obtain ⟨c, after, hcons, hc⟩ := hnumeral.exists_cons
    apply passes_atom hcons
    · rintro rfl
      contradiction
    · rintro rfl
      contradiction
    · intro rest hrest
      apply takes_skipAtom_numeral hnumeral hrest
  | string hstring =>
    obtain ⟨c, after, hcons, hc⟩ := (Spells.string hstring).exists_cons
    cases hc
    apply passes_atom hcons (by decide) (by decide)
    intro rest _
    apply takes_skipAtom_string hstring
  | array _ ih => apply ih.array
  | object _ ih => apply ih.object
  | noItems hblanks =>
    intro brackets rest
    apply skipWithin_blanks hblanks rfl
  | item hsep hitem hitems ihitem ihitems => apply ihitem.item ihitems hsep hitem hitems
  | noMembers hblanks =>
    intro brackets rest
    apply skipWithin_blanks hblanks rfl
  | member hsep hname hbefore hafter hvalue hmembers ihvalue ihmembers =>
    apply ihvalue.member ihmembers hsep hname hbefore hafter hvalue hmembers

/-- A value is passed over up to where it ends. -/
theorem Spells.takes_skipValue (h : Spells (.value json) text)
    (hstart : skipBlanks start = text ++ rest) (hrest : isDelimited rest = true) :
  Reader.Takes skipValue start () rest
  := by
  have hpasses : skipThrough .value [] start = .ok rest := by
    rw [h.passes [] start rest hstart hrest, skipThrough]
  rw [Reader.Takes, skipValue]
  split
  · rename_i herror
    cases hpasses.symm.trans herror
  · rename_i hok
    cases hpasses.symm.trans hok
    exact ⟨_, rfl, rfl, rfl⟩

end Lineage.Json
