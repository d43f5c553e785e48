import Lineage.Json.Numbers

/-!
# Passing over JSON values

A value that no one asks for is only passed over: it has to follow the rules of JSON, but may
be nested to any depth and have numbers of any size.  The brackets still open are kept on a
stack, so the text is gone through from front to back in one loop.
-/

namespace Lineage.Json

open Text (Parsed Remaining length_of_dropWhile_eq_cons)

/-- The two kinds of brackets. -/
inductive Bracket where
  | array
  | object
deriving DecidableEq, Inhabited

/-- The character that closes a bracket. -/
def Bracket.closing : Bracket → Char
  | .array => ']'
  | .object => '\x7d'

/-- Read a word after its first letter. -/
def readWord (letters : List Char) (c : Char) (rest : List Char) :
    Except Fault (Parsed Unit (c :: rest)) :=
  (readLetters letters rest).map Remaining.behind

/-- Whether `c` can be the first character of a number. -/
def startsNumber (c : Char) : Bool := c = '-' || isDigit c

/-- Pass over a value that is no array and no object, from its first character on. -/
def skipAtom (text : List Char) : Except Fault (Parsed Unit text) :=
  match text with
  | [] => .error .truncated
  | 'n' :: rest => readWord ['u', 'l', 'l'] 'n' rest
  | 't' :: rest => readWord ['r', 'u', 'e'] 't' rest
  | 'f' :: rest => readWord ['a', 'l', 's', 'e'] 'f' rest
  | '"' :: rest => (skipChars rest).map Parsed.behind
  | c :: rest => if startsNumber c then skipNumber (c :: rest) else .error .malformed

/-- Read a colon. -/
def readColon (text : List Char) : Except Fault (Parsed Unit text) :=
  match h : skipBlanks text with
  | [] => .error .truncated
  | c :: rest =>
      have lt := length_of_dropWhile_eq_cons h
      if c = ':' then .ok ⟨(), rest, lt⟩ else .error .malformed

/-- Pass over what stands before a value within a bracket: the key and the colon in an
object, nothing in an array. -/
def skipKey (bracket : Bracket) (text : List Char) : Except Fault (Remaining Unit text) :=
  match bracket with
  | .array => .ok (.whole () text)
  | .object =>
      match h : skipBlanks text with
      | [] => .error .truncated
      | c :: rest =>
          have lt := length_of_dropWhile_eq_cons h
          if c = '"' then do
            let quote : Parsed Unit text := ⟨(), rest, lt⟩
            let key ← skipChars quote.rest
            let colon ← readColon key.rest
            .ok (quote.andThen (key.andThen colon.remaining).remaining).remaining
          else .error .malformed

/-- What is to come while values are passed over. -/
inductive Stage where
  /-- A value. -/
  | value
  /-- What follows the opening of a bracket. -/
  | inside (bracket : Bracket)
  /-- What follows a value. -/
  | after
deriving DecidableEq, Inhabited

/-- The order in which stages may follow each other on the same text. -/
def Stage.rank : Stage → Nat
  | .inside _ => 1
  | _ => 0

/-- Pass over what is to come and then over the rest of every open bracket. -/
def skipThrough (stage : Stage) (brackets : List Bracket) (text : List Char) :
    Except Fault (List Char) :=
  have _hblanks := skipBlanks_length_le text
  match stage with
  | .value =>
      match _h : skipBlanks text with
      | '[' :: rest => skipThrough (.inside .array) brackets rest
      | '\x7b' :: rest => skipThrough (.inside .object) brackets rest
      | start => do
          let ⟨_, rest, _⟩ ← skipAtom start
          skipThrough .after brackets rest
  | .inside bracket =>
      match _h : skipBlanks text with
      | [] => .error .truncated
      | c :: rest =>
          if c = bracket.closing then skipThrough .after brackets rest
          else do
            let ⟨_, rest, _⟩ ← skipKey bracket (c :: rest)
            skipThrough .value (bracket :: brackets) rest
  | .after =>
      match brackets with
      | [] => .ok text
      | bracket :: outer =>
          match _h : skipBlanks text with
          | [] => .error .truncated
          | c :: rest =>
              if c = bracket.closing then skipThrough .after outer rest
              else if c = ',' then do
                let ⟨_, rest, _⟩ ← skipKey bracket rest
                skipThrough .value (bracket :: outer) rest
              else .error .malformed
termination_by 2 * text.length + stage.rank
decreasing_by
  all_goals
    simp only [_h, List.length_cons] at *
    simp only [Stage.rank]
    omega

/-- Passing over a value takes something off the text. -/
theorem skipThrough_length {stage : Stage} {brackets : List Bracket} {text rest : List Char}
    (h : skipThrough stage brackets text = .ok rest) :
  rest.length + (if stage = .after then 0 else 1) ≤ text.length
  := by
  fun_induction skipThrough stage brackets text with
  | case1 brackets text hblanks tail hcons ih =>
    have := ih h
    simp only [hcons, List.length_cons, reduceCtorEq, if_false] at this hblanks ⊢
    omega
  | case2 brackets text hblanks tail hcons ih =>
    have := ih h
    simp only [hcons, List.length_cons, reduceCtorEq, if_false] at this hblanks ⊢
    omega
  | case3 brackets text hblanks _ _ ih =>
    obtain ⟨⟨_, left, shorter⟩, -, h⟩ := Text.bind_eq_ok.mp h
    have := ih left shorter h
    simp only [reduceCtorEq, if_false, if_true] at this ⊢
    omega
  | case4 => simp at h
  | case5 brackets text hblanks bracket tail hcons ih =>
    have := ih h
    simp only [hcons, List.length_cons, reduceCtorEq, if_false, if_true] at this hblanks ⊢
    omega
  | case6 brackets text hblanks bracket c tail hcons _ ih =>
    obtain ⟨⟨_, left, hle⟩, -, h⟩ := Text.bind_eq_ok.mp h
    have := ih left hle h
    simp only [hcons, List.length_cons, reduceCtorEq, if_false] at this hle hblanks ⊢
    omega
  | case7 => simp_all
  | case8 => simp at h
  | case9 text hblanks bracket outer tail hcons ih =>
    have := ih h
    simp only [hcons, List.length_cons, if_true] at this hblanks ⊢
    omega
  | case10 text hblanks bracket outer tail hcons _ ih =>
    obtain ⟨⟨_, left, hle⟩, -, h⟩ := Text.bind_eq_ok.mp h
    have := ih left hle h
    simp only [hcons, List.length_cons, reduceCtorEq, if_false, if_true] at this hle hblanks ⊢
    omega
  | case11 => simp at h

/-- Pass over a value. -/
def skipValue (text : List Char) : Except Fault (Parsed Unit text) :=
  match h : skipThrough .value [] text with
  | .error fault => .error fault
  | .ok rest => .ok ⟨(), rest, skipThrough_length h⟩

end Lineage.Json
