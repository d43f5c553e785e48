import Lineage.Text.Combining
import Lineage.Text.Unprintable

/-!
# Characters that show

A character shows on the page by itself when it is printable, no combining mark and no
filler.  A text that must be unambiguous on the page has to write every other character by its
number.
-/

namespace Lineage.Text

/-- Whether `code` lies in one of the ranges, which ascend. -/
def inRanges : List (Nat × Nat) → Nat → Bool
  | [], _ => false
  | (first, last) :: rest, code => first ≤ code && (code ≤ last || inRanges rest code)

/-- Whether `c` has a shape on the page. -/
def isPrintable (c : Char) : Bool :=
  !(inRanges unprintableBasic c.toNat || inRanges unprintableBeyond c.toNat)

/-- Whether `c` attaches to the character before it. -/
def isCombining (c : Char) : Bool :=
  inRanges combiningBasic c.toNat || inRanges combiningBeyond c.toNat

/-- The Hangul fillers.  They count as letters but stand for the absence of one, and leave no
trace where they are written. -/
def fillers : List (Nat × Nat) := [(0x115F, 0x1160), (0x3164, 0x3164), (0xFFA0, 0xFFA0)]

/-- Whether `c` is a letter that leaves no trace. -/
def isFiller (c : Char) : Bool := inRanges fillers c.toNat

/-- Whether `c` shows on the page by itself. -/
def isVisible (c : Char) : Bool := isPrintable c && !isCombining c && !isFiller c

end Lineage.Text
