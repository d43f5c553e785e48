import Lineage.Json.Record
import Lineage.Proofs.Json.Values

/-!
# Written records are read back

A record is written as an object, and each member of the object fills the slot of its field.
So a shape accepts an object for a record if its members, one after the other, are accepted
by fields that have not been read before, and the slots they fill make the record
(`accepts_object`).
-/

namespace Lineage.Json

open Text (length_of_dropWhile_eq_cons)

variable {σ α β : Type} {json : Json} {key : String}
variable {text rest left : List Char}

/-! ### Keys -/

theorem takes_readColon (layout : Layout) (rest : List Char) :
  ∃ left, Reader.Takes readColon (layout.colon ++ rest) () left ∧
    skipBlanks left = skipBlanks rest
  := by
  cases layout with
  | compact => exact ⟨rest, ⟨_, rfl, rfl, rfl⟩, rfl⟩
  | pretty depth => exact ⟨' ' :: rest, ⟨_, rfl, rfl, rfl⟩, rfl⟩

namespace Shape

theorem takes_readKey {name : List Char} (hname : SpellsString key name) (rest : List Char) :
  Reader.Takes readKey (name ++ rest) key rest
  := by
  obtain ⟨quoted, hquoted, hchars, -⟩ := hname.exists_append rest
  obtain ⟨shorter, hchars⟩ := hchars.eq_ok
  rw [hquoted, Reader.Takes, readKey, hchars]
  exact ⟨_, rfl, String.ofList_toList, rfl⟩

theorem nextMember_closing (first : Bool) (h : skipBlanks text = '\x7d' :: rest) :
  ∃ lt, nextMember first text = .ok (.closing rest lt)
  := by
  rw [nextMember]
  split
  · rename_i hnil
    cases h.symm.trans hnil
  · rename_i hcons
    cases h.symm.trans hcons
    rw [if_pos rfl]
    exact ⟨length_of_dropWhile_eq_cons h, rfl⟩

/-- The next key of an object is found behind what separates it from the member before. -/
theorem nextMember_entry {first : Bool} {sep name : List Char} (hsep : Separates first sep)
    (hname : SpellsString key name) :
  ∃ lt, nextMember first (sep ++ (name ++ rest)) = .ok (.key key rest lt)
  := by
  have hkey := takes_readKey hname rest
  obtain ⟨quoted, hquoted, -⟩ := hname.exists_append rest
  rw [hquoted] at hkey ⊢
  have hquote : skipBlanks ('"' :: quoted) = '"' :: quoted := skipBlanks_cons rfl quoted
  cases first
  case true =>
    obtain ⟨shorter, hkey⟩ := hkey.eq_ok
    have hskip := hsep.skipBlanks_first ('"' :: quoted)
    rw [hquote] at hskip
    rw [nextMember]
    split
    · rename_i hnil
      cases hskip.symm.trans hnil
    · rename_i hcons
      cases hskip.symm.trans hcons
      rw [if_neg (by decide), if_pos rfl, hkey]
      exact ⟨Nat.lt_of_lt_of_le shorter (length_of_dropWhile_eq_cons hskip), rfl⟩
  case false =>
    obtain ⟨blanks, hblanks, hskip⟩ := hsep.skipBlanks_comma ('"' :: quoted)
    rw [← hquote, ← hblanks.skipBlanks_append] at hkey
    obtain ⟨shorter, hkey⟩ := hkey.eq_ok
    have hlt := length_of_dropWhile_eq_cons hskip
    have hle := skipBlanks_length_le (blanks ++ '"' :: quoted)
    rw [nextMember]
    split
    · rename_i hnil
      cases hskip.symm.trans hnil
    · rename_i hcons
      cases hskip.symm.trans hcons
      rw [if_neg (by decide), if_neg Bool.false_ne_true, if_pos rfl]
      simp only [bind, Except.bind, hkey]
      exact ⟨by omega, rfl⟩

/-- The first key of an object is found after the blanks of the layout. -/
theorem nextMember_first (layout : Layout) (key : String) (rest : List Char) :
  ∃ lt, nextMember true (layout.newline ++ (writeString key ++ rest)) = .ok (.key key rest lt)
  := nextMember_entry (.first (blanks_newline layout)) (spellsString_writeString key)

/-- The next key of an object is found after a comma and the blanks of the layout. -/
theorem nextMember_comma (layout : Layout) (key : String) (rest : List Char) :
  ∃ lt, nextMember false (',' :: (layout.newline ++ (writeString key ++ rest)))
    = .ok (.key key rest lt)
  := nextMember_entry (.comma .nil (blanks_newline layout)) (spellsString_writeString key)

/-! ### Members -/

variable {shape : Shape σ α} {slots last : σ} {field : Field σ} {fill : σ → σ}
variable {members : List (String × Json)} {first : Bool} {start : List Char}

/-- The members fill `last` from `slots`: each is accepted by the field of its key, which has
not been read before. -/
inductive Fills (shape : Shape σ α) : σ → List (String × Json) → σ → Prop where
  | nil {slots : σ} : Fills shape slots [] slots
  | cons {slots last : σ} {key : String} {json : Json} {members : List (String × Json)}
      {field : Field σ} {fill : σ → σ}
      (hfield : shape.fields.find? (·.key = key) = some field)
      (hempty : field.filled slots = false) (hvalue : field.read.Accepts json fill)
      (hmembers : Fills shape (fill slots) members last) :
      Fills shape slots ((key, json) :: members) last

theorem Fills.append {middle : σ} {more : List (String × Json)}
    (h : shape.Fills slots members middle) (hmore : shape.Fills middle more last) :
  shape.Fills slots (members ++ more) last
  := by
  induction h with
  | nil => exact hmore
  | cons hfield hempty hvalue _ ih => exact .cons hfield hempty hvalue (ih hmore)

/-- A member fills the slot of its field. -/
theorem Fills.slot {optional : Bool} {get : σ → Option β} {set : σ → β → σ} {read : Reader β}
    {value : β}
    (hfield : shape.fields.find? (·.key = key) = some (.ofSlot key optional get set read))
    (hempty : get slots = none) (hvalue : read.Accepts json value)
    (hmembers : shape.Fills (set slots value) members last) :
  shape.Fills slots ((key, json) :: members) last
  := by
  apply Fills.cons hfield _ (hvalue.map fun value slots => set slots value) hmembers
  change (get slots).isSome = false
  rw [hempty]
  rfl

theorem takes_readMember (hfield : shape.fields.find? (·.key = key) = some field)
    (hempty : field.filled slots = false) (hvalue : field.read.Accepts json fill)
    (outer layout : Layout) (hrest : isDelimited rest = true) :
  Reader.Takes (readMember shape slots key) (outer.colon ++ (write layout json ++ rest))
    (fill slots) rest
  := by
  obtain ⟨left, hcolon, hleft⟩ := takes_readColon outer (write layout json ++ rest)
  rw [hvalue.skipBlanks_write] at hleft
  have hread : field.read.Takes left fill rest := hvalue.takes layout left rest hleft hrest
  obtain ⟨shorter, hcolon⟩ := hcolon.eq_ok
  obtain ⟨shorter', hread⟩ := hread.eq_ok
  rw [Reader.Takes, readMember, hfield]
  simp only [hempty, Bool.false_eq_true, if_false, bind, Except.bind, hcolon, hread]
  exact ⟨_, rfl, rfl, rfl⟩

theorem takes_readMembers_nil (first : Bool) (h : skipBlanks text = '\x7d' :: rest) :
  Reader.Takes (readMembers shape slots first) text slots rest
  := by
  obtain ⟨lt, hnext⟩ := nextMember_closing first h
  rw [Reader.Takes, readMembers, hnext]
  exact ⟨_, rfl, rfl, rfl⟩

theorem takes_readMembers_cons {filled : σ}
    (hnext : ∃ lt, nextMember first text = .ok (.key key start lt))
    (hmember : Reader.Takes (readMember shape slots key) start filled left)
    (hmembers : Reader.Takes (readMembers shape filled false) left last rest) :
  Reader.Takes (readMembers shape slots first) text last rest
  := by
  obtain ⟨lt, hnext⟩ := hnext
  obtain ⟨shorter, hmember⟩ := hmember.eq_ok
  obtain ⟨shorter', hmembers⟩ := hmembers.eq_ok
  rw [Reader.Takes, readMembers, hnext]
  simp only [bind, Except.bind, hmember, hmembers]
  exact ⟨_, rfl, rfl, rfl⟩

theorem isDelimited_writeMembers_append (layout outer : Layout)
    (members : List (String × Json)) (rest : List Char) :
  isDelimited (writeMembers layout members ++ (outer.newline ++ '\x7d' :: rest)) = true
  := by
  cases members with
  | nil => apply isDelimited_newline_append outer rfl
  | cons member members =>
    rw [writeMembers]
    rfl

/-- The members of an object after the first are read up to the bracket that closes it. -/
theorem Fills.takes_readMembers (h : shape.Fills slots members last) (layout outer : Layout)
    (rest : List Char) :
  Reader.Takes (readMembers shape slots false)
    (writeMembers layout members ++ (outer.newline ++ '\x7d' :: rest)) last rest
  := by
  induction h with
  | nil =>
    apply takes_readMembers_nil
    rw [writeMembers, List.nil_append, skipBlanks_newline_append]
    apply skipBlanks_cons rfl
  | @cons slots last key json members field fill hfield hempty hvalue hmembers ih =>
    have hend := isDelimited_writeMembers_append layout outer members rest
    have hmember := takes_readMember hfield hempty hvalue layout layout hend
    rw [writeMembers]
    simp only [List.cons_append, List.append_assoc]
    apply takes_readMembers_cons (nextMember_comma layout key _) hmember ih

/-- The members of an object are read from after the bracket that opens it. -/
theorem Fills.takes_readMembers_first (h : shape.Fills slots ((key, json) :: members) last)
    (layout outer : Layout) (rest : List Char) :
  Reader.Takes (readMembers shape slots true)
    (layout.newline ++ (writeString key ++ (outer.colon ++ (write layout json ++
      (writeMembers layout members ++ (outer.newline ++ '\x7d' :: rest)))))) last rest
  := by
  obtain _ | @⟨_, _, _, _, _, field, fill, hfield, hempty, hvalue, hmembers⟩ := h
  have hend := isDelimited_writeMembers_append layout outer members rest
  have hmember := takes_readMember hfield hempty hvalue outer layout hend
  apply takes_readMembers_cons (nextMember_first layout key _) hmember
  apply hmembers.takes_readMembers layout outer rest

/-- The fields of a record are read from an object. -/
theorem Fills.takes_readSlots (h : shape.Fills shape.slots members last) (layout : Layout)
    (rest : List Char) :
  Reader.Takes (reader.readSlots shape) (write layout (.object members) ++ rest) last rest
  := by
  obtain _ | ⟨⟨key, json⟩, members⟩ := members
  · cases h
    have hmembers : Reader.Takes (readMembers shape shape.slots true) ('\x7d' :: rest)
        shape.slots rest := takes_readMembers_nil true (skipBlanks_cons rfl rest)
    obtain ⟨shorter, hmembers⟩ := hmembers.eq_ok
    rw [write, List.cons_append, List.singleton_append, Reader.Takes, reader.readSlots,
      hmembers]
    exact ⟨_, rfl, rfl, rfl⟩
  · obtain ⟨shorter, hmembers⟩ := (h.takes_readMembers_first layout.inner layout rest).eq_ok
    rw [write]
    simp only [List.cons_append, List.append_assoc, List.nil_append]
    rw [Reader.Takes, reader.readSlots, hmembers]
    exact ⟨_, rfl, rfl, rfl⟩

/-- The shape accepts an object whose members fill slots that make the record. -/
theorem accepts_object {value : α} (hmembers : shape.Fills shape.slots members last)
    (hvalue : shape.finish last = .ok value) :
  shape.reader.Accepts (.object members) value
  where
  starts layout := by
    cases members with
    | nil => exact ⟨_, _, by rw [write], rfl, by decide⟩
    | cons member members => exact ⟨_, _, by rw [write], rfl, by decide⟩
  takes layout text rest htext hrest := by
    obtain ⟨shorter, hslots⟩ := (hmembers.takes_readSlots layout rest).eq_ok
    apply Reader.Takes.afterBlanks
    rw [htext, Reader.Takes]
    simp only [bind, Except.bind, hslots, record, hvalue]
    exact ⟨_, rfl, rfl, rfl⟩

end Shape

end Lineage.Json
