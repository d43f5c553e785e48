import Lineage.Descriptor

/-!
# What an edit changes

A `Diff` lists the classes and the subtype links that one edit added and removed, and the
classes it redefined.  `Diff.record` enters one class: its definition before the edit and
its definition after, either of which may be missing.  A class that kept its name has only
the difference of its links entered; one that changed it counts as removed and added.
-/

namespace Lineage

/-- A direct link: `child` declares `parent` as a supertype. -/
structure Link where
  parent : String
  child : String
deriving DecidableEq, Inhabited

/-- The links that a definition declares, in the order of its supertypes. -/
def Descriptor.links (d : Descriptor) : List Link :=
  d.supertypes.map fun parent => ⟨parent, d.name⟩

/-- The classes and links that one edit changed. -/
structure Diff where
  /-- The number of the edit, counted from one. -/
  sequence : UInt64
  addedClasses : List String
  removedClasses : List String
  /-- The classes that have another definition than before. -/
  modifiedClasses : List String
  addedLinks : List Link
  removedLinks : List Link
deriving DecidableEq, Inhabited

namespace Diff

/-- The diff of an edit that changed nothing so far. -/
def ofSequence (sequence : UInt64) : Diff := ⟨sequence, [], [], [], [], []⟩

/-- Whether nothing changed. -/
def isEmpty (diff : Diff) : Bool :=
  diff.addedClasses.isEmpty && diff.removedClasses.isEmpty && diff.modifiedClasses.isEmpty &&
    diff.addedLinks.isEmpty && diff.removedLinks.isEmpty

/-- The diff with a class that was not there before. -/
def addClass (diff : Diff) (d : Descriptor) : Diff :=
  { diff with
    addedClasses := diff.addedClasses ++ [d.name]
    addedLinks := diff.addedLinks ++ d.links }

/-- The diff with a class that is no longer there. -/
def removeClass (diff : Diff) (d : Descriptor) : Diff :=
  { diff with
    removedClasses := diff.removedClasses ++ [d.name]
    removedLinks := diff.removedLinks ++ d.links }

/-- The diff with a class whose definition `old` gave way to `new`, under the same name. -/
def modifyClass (diff : Diff) (old new : Descriptor) : Diff :=
  { diff with
    modifiedClasses := diff.modifiedClasses ++ [new.name]
    addedLinks := diff.addedLinks
      ++ (new.supertypes.filter (· ∉ old.supertypes)).map fun parent => ⟨parent, new.name⟩
    removedLinks := diff.removedLinks
      ++ (old.supertypes.filter (· ∉ new.supertypes)).map fun parent => ⟨parent, old.name⟩ }

/-- The diff with one class entered, by its definitions before and after the edit. -/
def record (diff : Diff) (old new : Option Descriptor) : Diff :=
  match old, new with
  | none, none => diff
  | none, some new => diff.addClass new
  | some old, none => diff.removeClass old
  | some old, some new =>
      if old.name ≠ new.name then (diff.removeClass old).addClass new
      else if old = new then diff
      else diff.modifyClass old new

end Diff

end Lineage
