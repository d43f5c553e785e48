import Lineage.Proofs.Json.Reading
import Lineage.Proofs.Json.Records

/-!
# What a shape accepts

A record is read from an object member by member: a member with the key of a field fills the
slot of the field, which must be empty, and any other member leaves the slots as they are.
From an array the fields are filled in their order, and only optional ones may be left over.
So if it is known what the readers of the fields accept, it is known what the shape accepts
(`Shape.reads`).
-/

namespace Lineage.Json.Shape

open Text (bind_eq_ok map_eq_ok length_of_dropWhile_eq_cons)

variable {σ α : Type} {shape : Shape σ α} {accepts : String → Json → (σ → σ) → Prop}
variable {slots filled last : σ} {key : String} {json : Json}
variable {text start rest left sep name before after : List Char} {c : Char}

/-! ### Members -/

/-- What becomes of the slots with a member: the field of its key, if there is one, must not
have been filled before, and is filled with what the value is accepted for. -/
inductive Enters (shape : Shape σ α) (accepts : String → Json → (σ → σ) → Prop) (slots : σ)
    (key : String) (json : Json) : σ → Prop where
  | unknown (hfield : shape.fields.find? (·.key = key) = none) :
      Enters shape accepts slots key json slots
  | known {field : Field σ} {fill : σ → σ}
      (hfield : shape.fields.find? (·.key = key) = some field)
      (hempty : field.filled slots = false) (hvalue : accepts key json fill) :
      Enters shape accepts slots key json (fill slots)

/-- What becomes of the slots with the members of an object. -/
inductive Gathers (shape : Shape σ α) (accepts : String → Json → (σ → σ) → Prop) :
    σ → List (String × Json) → σ → Prop where
  | nil {slots : σ} : Gathers shape accepts slots [] slots
  | cons {slots filled last : σ} {key : String} {json : Json} {members : List (String × Json)}
      (hmember : shape.Enters accepts slots key json filled)
      (hmembers : Gathers shape accepts filled members last) :
      Gathers shape accepts slots ((key, json) :: members) last

theorem gathers_nil_iff :
  shape.Gathers accepts slots [] last ↔ last = slots
  := by
  constructor
  · rintro ⟨⟩
    rfl
  · rintro rfl
    exact .nil

theorem gathers_cons_iff {members : List (String × Json)} :
  shape.Gathers accepts slots ((key, json) :: members) last ↔
    ∃ filled, shape.Enters accepts slots key json filled ∧
      shape.Gathers accepts filled members last
  := by
  constructor
  · rintro (_ | ⟨hmember, hmembers⟩)
    exact ⟨_, hmember, hmembers⟩
  · rintro ⟨filled, hmember, hmembers⟩
    exact .cons hmember hmembers

theorem enters_unknown_iff (hfield : shape.fields.find? (·.key = key) = none) :
  shape.Enters accepts slots key json filled ↔ filled = slots
  := by
  constructor
  · rintro (_ | ⟨hknown, -⟩)
    · rfl
    · cases hfield.symm.trans hknown
  · rintro rfl
    exact .unknown hfield

theorem enters_known_iff {field : Field σ}
    (hfield : shape.fields.find? (·.key = key) = some field) :
  shape.Enters accepts slots key json filled ↔
    field.filled slots = false ∧ ∃ fill, accepts key json fill ∧ fill slots = filled
  := by
  constructor
  · rintro (hunknown | ⟨hknown, hempty, hvalue⟩)
    · cases hfield.symm.trans hunknown
    · cases hfield.symm.trans hknown
      exact ⟨hempty, _, hvalue, rfl⟩
  · rintro ⟨hempty, fill, hvalue, rfl⟩
    exact .known hfield hempty hvalue

/-- Every field is read for what the relation says of values under its key. -/
def FieldsRead (shape : Shape σ α) (accepts : String → Json → (σ → σ) → Prop) : Prop :=
  ∀ field ∈ shape.fields, field.read.Reads (accepts field.key)

/-- The field of a key is read for what the relation says of values under the key. -/
theorem FieldsRead.of_find? {field : Field σ} (h : shape.FieldsRead accepts)
    (hfield : shape.fields.find? (·.key = key) = some field) :
  field.read.Reads (accepts key)
  := by
  have hkey : field.key = key := by simpa using List.find?_some hfield
  have hread := h field (List.mem_of_find?_eq_some hfield)
  rwa [hkey] at hread

theorem takes_readMember_unknown (hfield : shape.fields.find? (·.key = key) = none)
    (hcolon : Reader.Takes readColon text () start)
    (hskip : Reader.Takes skipValue start () rest) :
  Reader.Takes (readMember shape slots key) text slots rest
  := by
  obtain ⟨shorter, hcolon⟩ := hcolon.eq_ok
  obtain ⟨shorter', hskip⟩ := hskip.eq_ok
  rw [Reader.Takes, readMember, hfield]
  simp only [bind, Except.bind, hcolon, hskip]
  exact ⟨_, rfl, rfl, rfl⟩

theorem takes_readMember_known_iff {field : Field σ}
    (hfield : shape.fields.find? (·.key = key) = some field)
    (hcolon : Reader.Takes readColon text () start) :
  Reader.Takes (readMember shape slots key) text filled left ↔
    field.filled slots = false ∧ ∃ fill, field.read.Takes start fill left ∧ fill slots = filled
  := by
  obtain ⟨shorter, hcolon⟩ := hcolon.eq_ok
  unfold Reader.Takes
  rw [readMember, hfield]
  dsimp only
  cases hfilled : field.filled slots with
  | true => simp
  | false =>
    rw [if_neg Bool.false_ne_true, hcolon]
    constructor
    · rintro ⟨p, hp, rfl, rfl⟩
      obtain ⟨_, ⟨⟩, hp⟩ := bind_eq_ok.mp hp
      obtain ⟨value, hvalue, ⟨⟩⟩ := bind_eq_ok.mp hp
      exact ⟨rfl, value.value, ⟨value, hvalue, rfl, rfl⟩, rfl⟩
    · rintro ⟨-, fill, ⟨p, hp, rfl, rfl⟩, rfl⟩
      simp only [bind, Except.bind, hp]
      exact ⟨_, rfl, rfl, rfl⟩

/-- A member is read for what becomes of the slots with it. -/
theorem takes_readMember_iff (h : shape.FieldsRead accepts) (hbefore : Blanks before)
    (hafter : Blanks after) (hvalue : Spells (.value json) text)
    (hrest : isDelimited rest = true) :
  Reader.Takes (readMember shape slots key) (before ++ ':' :: (after ++ (text ++ rest))) filled
      left ↔ shape.Enters accepts slots key json filled ∧ left = rest
  := by
  have hcolon := takes_readColon_append hbefore (after ++ (text ++ rest))
  have hstart : skipBlanks (after ++ (text ++ rest)) = text ++ rest := by
    rw [hafter.skipBlanks_append, hvalue.skipBlanks_append]
  cases hfield : shape.fields.find? (·.key = key) with
  | none =>
    have hskip := hvalue.takes_skipValue hstart hrest
    rw [(takes_readMember_unknown hfield hcolon hskip).iff, enters_unknown_iff hfield]
  | some field =>
    simp only [takes_readMember_known_iff hfield hcolon, enters_known_iff hfield,
      h.of_find? hfield hvalue hrest hstart]
    constructor
    · rintro ⟨hempty, fill, ⟨hfill, hleft⟩, hfilled⟩
      exact ⟨⟨hempty, fill, hfill, hfilled⟩, hleft⟩
    · rintro ⟨⟨hempty, fill, hfill, hfilled⟩, hleft⟩
      exact ⟨hempty, fill, ⟨hfill, hleft⟩, hfilled⟩

/-! ### Objects -/

theorem takes_readMembers_cons_iff {first : Bool}
    (hnext : ∃ lt, nextMember first text = .ok (.key key start lt)) :
  Reader.Takes (readMembers shape slots first) text last rest ↔
    ∃ filled left, Reader.Takes (readMember shape slots key) start filled left ∧
      Reader.Takes (readMembers shape filled false) left last rest
  := by
  constructor
  · rintro ⟨p, hp, rfl, rfl⟩
    obtain ⟨lt, hnext⟩ := hnext
    rw [readMembers, hnext, bind_eq_ok] at hp
    obtain ⟨_, ⟨⟩, hp⟩ := hp
    obtain ⟨⟨filled, left, shorter⟩, hmember, hp⟩ := bind_eq_ok.mp hp
    obtain ⟨⟨last, rest, shorter'⟩, hmembers, ⟨⟩⟩ := bind_eq_ok.mp hp
    exact ⟨filled, left, ⟨_, hmember, rfl, rfl⟩, ⟨_, hmembers, rfl, rfl⟩⟩
  · rintro ⟨filled, left, hmember, hmembers⟩
    apply takes_readMembers_cons hnext hmember hmembers

/-- The members of an object are read for what becomes of the slots with them. -/
theorem takes_readMembers_iff (h : shape.FieldsRead accepts) {first : Bool}
    {members : List (String × Json)} (hspells : Spells (.members first members) text) :
  Reader.Takes (readMembers shape slots first) (text ++ '\x7d' :: rest) last left ↔
    shape.Gathers accepts slots members last ∧ left = rest
  := by
  induction members generalizing first text slots with
  | nil =>
    cases hspells with
    | noMembers hblanks =>
      have hclosing : skipBlanks (text ++ '\x7d' :: rest) = '\x7d' :: rest := by
        rw [hblanks.skipBlanks_append]
        apply skipBlanks_cons rfl
      rw [(takes_readMembers_nil first hclosing).iff, gathers_nil_iff]
  | cons member members ih =>
    cases hspells with
    | @member _ key json _ sep name before after text more hsep hname hbefore hafter hvalue
        hmembers =>
      have hend := hmembers.isDelimited_members rest
      simp only [List.append_assoc, List.cons_append,
        takes_readMembers_cons_iff (nextMember_entry hsep hname),
        takes_readMember_iff h hbefore hafter hvalue hend, gathers_cons_iff]
      constructor
      · rintro ⟨filled, _, ⟨hmember, rfl⟩, htakes⟩
        obtain ⟨hgathers, hleft⟩ := (ih hmembers).mp htakes
        exact ⟨⟨filled, hmember, hgathers⟩, hleft⟩
      · rintro ⟨⟨filled, hmember, hgathers⟩, hleft⟩
        exact ⟨filled, _, ⟨hmember, rfl⟩, (ih hmembers).mpr ⟨hgathers, hleft⟩⟩

/-! ### Arrays -/

/-- What becomes of the slots with the items of an array: they fill the fields in their order,
and the fields that are left over are optional. -/
inductive Lists (accepts : String → Json → (σ → σ) → Prop) :
    List (Field σ) → σ → List Json → σ → Prop where
  | nil {fields : List (Field σ)} {slots : σ} (hfields : ∀ field ∈ fields, field.optional = true) :
      Lists accepts fields slots [] slots
  | cons {field : Field σ} {fields : List (Field σ)} {slots last : σ} {json : Json}
      {items : List Json} {fill : σ → σ} (hvalue : accepts field.key json fill)
      (hitems : Lists accepts fields (fill slots) items last) :
      Lists accepts (field :: fields) slots (json :: items) last

theorem lists_nil_iff {fields : List (Field σ)} :
  Lists accepts fields slots [] last ↔
    (∀ field ∈ fields, field.optional = true) ∧ last = slots
  := by
  constructor
  · rintro ⟨hfields⟩
    exact ⟨hfields, rfl⟩
  · rintro ⟨hfields, rfl⟩
    exact .nil hfields

theorem not_lists_surplus {items : List Json} :
  ¬ Lists accepts [] slots (json :: items) last
  := by
  rintro ⟨⟩

theorem lists_cons_iff {field : Field σ} {fields : List (Field σ)} {items : List Json} :
  Lists accepts (field :: fields) slots (json :: items) last ↔
    ∃ fill, accepts field.key json fill ∧ Lists accepts fields (fill slots) items last
  := by
  constructor
  · rintro (_ | ⟨hvalue, hitems⟩)
    exact ⟨_, hvalue, hitems⟩
  · rintro ⟨fill, hvalue, hitems⟩
    exact .cons hvalue hitems

/-- Read the fields of a record that remain from the list of their values. -/
def positions (shape : Shape σ α) (slots : σ) (count : Nat) (fields : List (Field σ)) : Reader σ :=
  fun text => readPositions shape slots count text fields

variable {field : Field σ} {fields : List (Field σ)} {count : Nat}

theorem findIdx?_optional_eq_none_iff :
  fields.findIdx? (!·.optional) = none ↔ ∀ field ∈ fields, field.optional = true
  := by
  simp [List.findIdx?_eq_none_iff]

theorem takes_positions_closing (h : skipBlanks text = ']' :: rest)
    (hfields : ∀ field ∈ fields, field.optional = true) :
  (positions shape slots count fields).Takes text slots rest
  := by
  cases fields with
  | nil =>
    rw [Reader.Takes, positions, readPositions]
    split
    · rename_i hnil
      cases h.symm.trans hnil
    · rename_i hcons
      cases h.symm.trans hcons
      rw [if_pos rfl]
      exact ⟨_, rfl, rfl, rfl⟩
  | cons field fields =>
    obtain ⟨lt, hnext⟩ := nextElement_closing (count = 0) h
    rw [Reader.Takes, positions, readPositions, hnext]
    simp only [bind, Except.bind, findIdx?_optional_eq_none_iff.mpr hfields]
    exact ⟨_, rfl, rfl, rfl⟩

theorem not_takes_positions_closing (h : skipBlanks text = ']' :: rest)
    (hfields : ¬ ∀ field ∈ fields, field.optional = true) :
  ¬ (positions shape slots count fields).Takes text last left
  := by
  obtain ⟨index, hindex⟩ := Option.ne_none_iff_exists'.mp
    (mt findIdx?_optional_eq_none_iff.mp hfields)
  cases fields with
  | nil => cases hindex
  | cons field fields =>
    obtain ⟨lt, hnext⟩ := nextElement_closing (count = 0) h
    apply Reader.not_takes
    rw [positions, readPositions, hnext]
    simp only [bind, Except.bind, hindex]
    rfl

/-- An item is not read where no field is left. -/
theorem not_takes_positions_surplus {first : Bool} (hsep : Separates first sep)
    (hblank : isBlank c = false) (hbracket : c ≠ ']') :
  ¬ (positions shape slots count []).Takes (sep ++ c :: after) last left
  := by
  have hskip : ∃ d rest, skipBlanks (sep ++ c :: after) = d :: rest ∧ d ≠ ']' := by
    cases first
    case true => exact ⟨c, after, by rw [hsep.skipBlanks_first, skipBlanks_cons hblank], hbracket⟩
    case false =>
      obtain ⟨blanks, -, hcomma⟩ := hsep.skipBlanks_comma (c :: after)
      exact ⟨',', _, hcomma, by decide⟩
  obtain ⟨d, rest, h, hd⟩ := hskip
  rintro ⟨p, hp, -⟩
  simp only [positions, readPositions] at hp
  split at hp
  · cases hp
  · rename_i hcons
    cases h.symm.trans hcons
    rw [if_neg hd] at hp
    cases hp

theorem takes_positions_cons_iff
    (hnext : ∃ le, Reader.nextElement (count = 0) text = .ok (.element start le)) :
  (positions shape slots count (field :: fields)).Takes text last rest ↔
    ∃ fill left, field.read.Takes start fill left ∧
      (positions shape (fill slots) (count + 1) fields).Takes left last rest
  := by
  obtain ⟨le, hnext⟩ := hnext
  constructor
  · rintro ⟨p, hp, rfl, rfl⟩
    rw [positions, readPositions, hnext, bind_eq_ok] at hp
    obtain ⟨_, ⟨⟩, hp⟩ := hp
    obtain ⟨⟨fill, left, shorter⟩, hfill, hp⟩ := bind_eq_ok.mp hp
    obtain ⟨⟨last, rest, shorter'⟩, hmore, ⟨⟩⟩ := bind_eq_ok.mp hp
    exact ⟨fill, left, ⟨_, hfill, rfl, rfl⟩, ⟨_, hmore, rfl, rfl⟩⟩
  · rintro ⟨fill, left, hfill, hmore⟩
    obtain ⟨shorter, hfill⟩ := hfill.eq_ok
    obtain ⟨shorter', hmore⟩ := hmore.eq_ok
    rw [positions] at hmore
    rw [Reader.Takes, positions, readPositions, hnext]
    simp only [bind, Except.bind, hfill, hmore]
    exact ⟨_, rfl, rfl, rfl⟩

/-- The items of an array are read for what becomes of the slots with them. -/
theorem takes_positions_iff (h : ∀ field ∈ fields, field.read.Reads (accepts field.key))
    {items : List Json} (hspells : Spells (.items (count = 0) items) text) :
  (positions shape slots count fields).Takes (text ++ ']' :: rest) last left ↔
    Lists accepts fields slots items last ∧ left = rest
  := by
  induction items generalizing count fields text slots with
  | nil =>
    cases hspells with
    | noItems hblanks =>
      have hclosing : skipBlanks (text ++ ']' :: rest) = ']' :: rest := by
        rw [hblanks.skipBlanks_append]
        apply skipBlanks_cons rfl
      by_cases hfields : ∀ field ∈ fields, field.optional = true
      · rw [(takes_positions_closing hclosing hfields).iff, lists_nil_iff, and_iff_right hfields]
      · simp only [not_takes_positions_closing hclosing hfields, lists_nil_iff, hfields,
          false_and]
  | cons json items ih =>
    cases hspells with
    | @item _ _ _ sep text more hsep hitem hitems =>
      obtain ⟨c, after, hcons, hopens⟩ := hitem.exists_append (more ++ ']' :: rest)
      obtain ⟨hblank, -, hbracket, -⟩ := hopens.ne
      simp only [List.append_assoc]
      rw [hcons]
      cases fields with
      | nil =>
        simp only [not_takes_positions_surplus hsep hblank hbracket, not_lists_surplus, false_and]
      | cons field fields =>
        have hskip := hitem.skipBlanks_append (more ++ ']' :: rest)
        have hread := h field List.mem_cons_self hitem (hitems.isDelimited_items rest) hskip
        rw [hcons] at hread
        have hmore : Spells (.items (count + 1 = 0) items) more := hitems
        have hfields := fun field hin => h field (List.mem_cons_of_mem _ hin)
        simp only [takes_positions_cons_iff (nextElement_entry hsep hblank hbracket), hread,
          lists_cons_iff]
        constructor
        · rintro ⟨fill, _, ⟨hfill, rfl⟩, htakes⟩
          obtain ⟨hlists, hleft⟩ := (ih hfields hmore).mp htakes
          exact ⟨⟨fill, hfill, hlists⟩, hleft⟩
        · rintro ⟨⟨fill, hfill, hlists⟩, hleft⟩
          exact ⟨fill, _, ⟨hfill, rfl⟩, (ih hfields hmore).mpr ⟨hlists, hleft⟩⟩

/-! ### Records -/

/-- What becomes of the slots with an object or an array. -/
inductive Yields (shape : Shape σ α) (accepts : String → Json → (σ → σ) → Prop) :
    Json → σ → Prop where
  | object {members : List (String × Json)} {last : σ}
      (hmembers : shape.Gathers accepts shape.slots members last) :
      Yields shape accepts (.object members) last
  | array {items : List Json} {last : σ}
      (hitems : Lists accepts shape.fields shape.slots items last) :
      Yields shape accepts (.array items) last

theorem takes_readSlots_object_iff :
  Reader.Takes (reader.readSlots shape) ('\x7b' :: text) last left ↔
    Reader.Takes (readMembers shape shape.slots true) text last left
  := Reader.takes_behind rfl

theorem takes_readSlots_array_iff :
  Reader.Takes (reader.readSlots shape) ('[' :: text) last left ↔
    (positions shape shape.slots 0 shape.fields).Takes text last left
  := Reader.takes_behind rfl

theorem not_takes_readSlots (harray : c ≠ '[') (hobject : c ≠ '\x7b') :
  ¬ Reader.Takes (reader.readSlots shape) (c :: text) last left
  := by
  apply Reader.not_takes
  rw [reader.readSlots]
  · rintro rest hcons
    cases hcons
    contradiction
  · rintro rest hcons
    cases hcons
    contradiction

theorem takes_readSlots_iff (h : shape.FieldsRead accepts) (hspells : Spells (.value json) text) :
  Reader.Takes (reader.readSlots shape) (text ++ rest) last left ↔
    shape.Yields accepts json last ∧ left = rest
  := by
  obtain ⟨c, after, hcons, hopens⟩ := hspells.exists_append rest
  by_cases harray : c = '['
  · subst harray
    obtain ⟨items, rfl⟩ := hopens.eq_array
    cases hspells with
    | @array _ text hitems =>
      have hfirst : Spells (.items ((0 : Nat) = 0) items) text := hitems
      rw [List.cons_append, List.append_assoc, takes_readSlots_array_iff]
      apply (takes_positions_iff h hfirst).trans
      constructor
      · rintro ⟨hlists, hleft⟩
        exact ⟨.array hlists, hleft⟩
      · rintro ⟨_ | hlists, hleft⟩
        exact ⟨hlists, hleft⟩
  by_cases hobject : c = '\x7b'
  · subst hobject
    obtain ⟨members, rfl⟩ := hopens.eq_object
    cases hspells with
    | @object _ text hmembers =>
      rw [List.cons_append, List.append_assoc, takes_readSlots_object_iff]
      apply (takes_readMembers_iff h hmembers).trans
      constructor
      · rintro ⟨hgathers, hleft⟩
        exact ⟨.object hgathers, hleft⟩
      · rintro ⟨hgathers | _, hleft⟩
        exact ⟨hgathers, hleft⟩
  have hnot : ¬ shape.Yields accepts json last := by
    rintro ⟨⟩
    · exact hobject hopens
    · exact harray hopens
  rw [hcons]
  simp only [not_takes_readSlots harray hobject, hnot, false_and]

theorem record_eq_ok_iff {value : α} :
  shape.record last = .ok value ↔ shape.finish last = .ok value
  := by
  rw [record]
  cases shape.finish last <;> simp [Except.mapError]

theorem takes_reader_iff {value : α} :
  shape.reader.Takes start value left ↔
    ∃ last, Reader.Takes (reader.readSlots shape) (skipBlanks start) last left ∧
      shape.finish last = .ok value
  := by
  rw [reader, Reader.takes_afterBlanks]
  constructor
  · rintro ⟨p, hp, rfl, rfl⟩
    obtain ⟨⟨last, rest, shorter⟩, hlast, hp⟩ := bind_eq_ok.mp hp
    obtain ⟨value, hvalue, ⟨⟩⟩ := bind_eq_ok.mp hp
    exact ⟨last, ⟨_, hlast, rfl, rfl⟩, record_eq_ok_iff.mp hvalue⟩
  · rintro ⟨last, hlast, hvalue⟩
    obtain ⟨shorter, hlast⟩ := hlast.eq_ok
    unfold Reader.Takes
    simp only [hlast, record_eq_ok_iff.mpr hvalue, bind, Except.bind]
    exact ⟨_, rfl, rfl, rfl⟩

/-- A record is read from what fills its slots, if they make a record. -/
theorem reads (h : shape.FieldsRead accepts) :
  shape.reader.Reads fun json value =>
    ∃ last, shape.Yields accepts json last ∧ shape.finish last = .ok value
  := by
  intro json text start rest hspells hrest hstart value left
  simp only [takes_reader_iff, hstart, takes_readSlots_iff h hspells]
  constructor
  · rintro ⟨last, ⟨hlast, hleft⟩, hvalue⟩
    exact ⟨⟨last, hlast, hvalue⟩, hleft⟩
  · rintro ⟨⟨last, hlast, hvalue⟩, hleft⟩
    exact ⟨last, ⟨hlast, hleft⟩, hvalue⟩

/-! ### Slots -/

section Slots

variable {β : Type} {means : Json → β → Prop} {slot filledSlot : Option β} {value : β}
variable {values : List Json} {members : List (String × Json)}

/-- A member with the key of a field that goes into one slot fills the slot, which must be
empty. -/
theorem enters_slot_iff {optional : Bool} {get : σ → Option β} {set : σ → β → σ}
    {read : Reader β}
    (hfield : shape.fields.find? (·.key = key) = some (.ofSlot key optional get set read))
    (haccepts : ∀ fill, accepts key json fill ↔
      ∃ value, means json value ∧ (fun slots => set slots value) = fill) :
  shape.Enters accepts slots key json filled ↔
    get slots = none ∧ ∃ value, means json value ∧ set slots value = filled
  := by
  have hempty : (Field.ofSlot key optional get set read).filled slots = false ↔
      get slots = none := by
    simp [Field.ofSlot]
  rw [enters_known_iff hfield, hempty]
  simp only [haccepts]
  constructor
  · rintro ⟨hnone, _, ⟨value, hvalue, rfl⟩, hfilled⟩
    exact ⟨hnone, value, hvalue, hfilled⟩
  · rintro ⟨hnone, value, hvalue, hfilled⟩
    exact ⟨hnone, _, ⟨value, hvalue, rfl⟩, hfilled⟩

/-- What becomes of a slot with the values that are given for it, of which an empty slot takes
one and a filled slot none. -/
inductive Given (means : Json → β → Prop) : Option β → List Json → Option β → Prop where
  | nil {slot : Option β} : Given means slot [] slot
  | cons {json : Json} {value : β} {values : List Json} {last : Option β}
      (hvalue : means json value) (hvalues : Given means (some value) values last) :
      Given means none (json :: values) last

theorem given_nil_iff :
  Given means slot [] filledSlot ↔ filledSlot = slot
  := by
  constructor
  · rintro ⟨⟩
    rfl
  · rintro rfl
    exact .nil

theorem given_cons_iff :
  Given means slot (json :: values) filledSlot ↔
    slot = none ∧ ∃ value, means json value ∧ Given means (some value) values filledSlot
  := by
  constructor
  · rintro (_ | ⟨hvalue, hvalues⟩)
    exact ⟨rfl, _, hvalue, hvalues⟩
  · rintro ⟨rfl, value, hvalue, hvalues⟩
    exact .cons hvalue hvalues

/-- An empty slot is filled by exactly one value. -/
theorem given_none_some_iff :
  Given means none values (some value) ↔ ∃ json, values = [json] ∧ means json value
  := by
  constructor
  · rintro (_ | ⟨hvalue, _ | _⟩)
    exact ⟨_, rfl, hvalue⟩
  · rintro ⟨json, rfl, hvalue⟩
    exact .cons hvalue .nil

/-- An empty slot stays empty if no value is given for it. -/
theorem given_none_none_iff :
  Given means none values none ↔ values = []
  := by
  constructor
  · rintro (_ | ⟨-, ⟨⟩⟩)
    rfl
  · rintro rfl
    exact .nil

end Slots

end Lineage.Json.Shape
