import Lineage.Interchange
import Lineage.Proofs.Json.Shapes

/-!
# The documents that hold a descriptor

Which JSON values describe a class is said here without a reader (`Describes`): an object
with one name, which is a string, at most one superclass, which is a string or null, and at
most one list of interfaces, or else an array of these in their order.  A well-formed text is
read as a descriptor exactly if its value describes one, whatever else an object has and in
whatever order, and a list of descriptors is an array of such values
(`reads_what_is_described`).
-/

namespace Lineage

open Json (Document Field OrNull Reader Spells SpellsChar SpellsString SpellsUnit
  spellsString_of_plain)
open Json.Shape (Given gathers_nil_iff gathers_cons_iff given_nil_iff given_cons_iff
  given_none_none_iff given_none_some_iff Lists)

/-- The values of the members with a key, in their order. -/
def Json.valuesOf (key : String) (members : List (String × Json)) : List Json :=
  (members.filter (·.1 = key)).map (·.2)

theorem Json.valuesOf_cons_self {key : String} {json : Json} {members : List (String × Json)} :
  valuesOf key ((key, json) :: members) = json :: valuesOf key members
  := by
  simp [valuesOf]

theorem Json.valuesOf_cons_of_ne {key other : String} {json : Json}
    {members : List (String × Json)} (h : other ≠ key) :
  valuesOf key ((other, json) :: members) = valuesOf key members
  := by
  simp [valuesOf, h]

namespace Descriptor

/-! ### Values that describe a class -/

/-- The superclass by the values that are given for it. -/
inductive GivesSuper : List Json → Option String → Prop where
  | missing : GivesSuper [] none
  | null : GivesSuper [.null] none
  | name {name : String} : GivesSuper [.string name] (some name)

/-- The interfaces by the values that are given for them. -/
inductive GivesInterfaces : List Json → List String → Prop where
  | missing : GivesInterfaces [] []
  | names {names : List String} : GivesInterfaces [Json.strings names] names

/-- The JSON value describes a class. -/
inductive Describes : Json → Descriptor → Prop where
  /-- An object has one name; members with other keys do not matter. -/
  | object {members : List (String × Json)} {d : Descriptor}
      (hname : Json.valuesOf "name" members = [.string d.name])
      (hsuper : GivesSuper (Json.valuesOf "super_name" members) d.superName)
      (hinterfaces : GivesInterfaces (Json.valuesOf "interfaces" members) d.interfaces) :
      Describes (.object members) d
  /-- An array has the name, the superclass and the interfaces in this order. -/
  | array {more : List Json} {d : Descriptor} (hsuper : GivesSuper (more.take 1) d.superName)
      (hinterfaces : GivesInterfaces (more.drop 1) d.interfaces) :
      Describes (.array (.string d.name :: more)) d

/-! ### The fields -/

/-- What a value under a key puts into the slots. -/
def Puts (key : String) (json : Json) (fill : Slots → Slots) : Prop :=
  match key with
  | "name" => ∃ name, json = .string name ∧
      (fun slots : Slots => { slots with name := some name }) = fill
  | "super_name" => ∃ name, OrNull (fun json name => json = .string name) json name ∧
      (fun slots : Slots => { slots with superName := some name }) = fill
  | "interfaces" => ∃ names, json = Json.strings names ∧
      (fun slots : Slots => { slots with interfaces := some names }) = fill
  | _ => False

theorem fieldsRead_puts :
  shape.FieldsRead Puts
  := by
  intro field hin
  simp only [shape, List.mem_cons, List.not_mem_nil, or_false] at hin
  obtain rfl | rfl | rfl := hin
  · exact Json.reads_string.map
  · exact (Json.reads_optional Json.reads_string).map
  · exact Json.reads_strings.map

section Slots

variable {slots filled last : Slots} {key : String} {json : Json}
variable {members : List (String × Json)} {d : Descriptor}

theorem enters_name_iff :
  shape.Enters Puts slots "name" json filled ↔ slots.name = none ∧
    ∃ name, json = .string name ∧ { slots with name := some name } = filled
  := by
  have hfield : shape.fields.find? (·.key = "name") = some _ := rfl
  apply Json.Shape.enters_slot_iff hfield
  intro fill
  rfl

theorem enters_super_iff :
  shape.Enters Puts slots "super_name" json filled ↔ slots.superName = none ∧
    ∃ name, OrNull (fun json name => json = .string name) json name ∧
      { slots with superName := some name } = filled
  := by
  have hfield : shape.fields.find? (·.key = "super_name") = some _ := rfl
  apply Json.Shape.enters_slot_iff hfield
  intro fill
  rfl

theorem enters_interfaces_iff :
  shape.Enters Puts slots "interfaces" json filled ↔ slots.interfaces = none ∧
    ∃ names, json = Json.strings names ∧ { slots with interfaces := some names } = filled
  := by
  have hfield : shape.fields.find? (·.key = "interfaces") = some _ := rfl
  apply Json.Shape.enters_slot_iff hfield
  intro fill
  rfl

theorem enters_other_iff (hname : key ≠ "name") (hsuper : key ≠ "super_name")
    (hinterfaces : key ≠ "interfaces") :
  shape.Enters Puts slots key json filled ↔ filled = slots
  := by
  apply Json.Shape.enters_unknown_iff
  simp [shape, Field.ofSlot, hname.symm, hsuper.symm, hinterfaces.symm]

/-- Each slot is filled by the values under its key, whatever stands between them. -/
theorem gathers_iff :
  shape.Gathers Puts slots members last ↔
    Given (fun json name => json = .string name) slots.name (Json.valuesOf "name" members)
      last.name ∧
    Given (OrNull fun json name => json = .string name) slots.superName
      (Json.valuesOf "super_name" members) last.superName ∧
    Given (fun json names => json = Json.strings names) slots.interfaces
      (Json.valuesOf "interfaces" members) last.interfaces
  := by
  induction members generalizing slots with
  | nil =>
    obtain ⟨name, superName, interfaces⟩ := slots
    obtain ⟨lastName, lastSuper, lastInterfaces⟩ := last
    simp only [gathers_nil_iff, Json.valuesOf, List.filter_nil, List.map_nil, given_nil_iff,
      Slots.mk.injEq]
  | cons member members ih =>
    obtain ⟨key, json⟩ := member
    simp only [gathers_cons_iff, ih]
    by_cases hname : key = "name"
    · subst hname
      simp only [enters_name_iff, Json.valuesOf_cons_self, given_cons_iff]
      rw [Json.valuesOf_cons_of_ne (by decide), Json.valuesOf_cons_of_ne (by decide)]
      constructor
      · rintro ⟨_, ⟨hempty, name, hname, rfl⟩, hgiven, hothers⟩
        exact ⟨⟨hempty, name, hname, hgiven⟩, hothers⟩
      · rintro ⟨⟨hempty, name, hname, hgiven⟩, hothers⟩
        exact ⟨_, ⟨hempty, name, hname, rfl⟩, hgiven, hothers⟩
    by_cases hsuper : key = "super_name"
    · subst hsuper
      simp only [enters_super_iff, Json.valuesOf_cons_self, given_cons_iff]
      rw [Json.valuesOf_cons_of_ne (by decide), Json.valuesOf_cons_of_ne (by decide)]
      constructor
      · rintro ⟨_, ⟨hempty, name, hname, rfl⟩, hbefore, hgiven, hafter⟩
        exact ⟨hbefore, ⟨hempty, name, hname, hgiven⟩, hafter⟩
      · rintro ⟨hbefore, ⟨hempty, name, hname, hgiven⟩, hafter⟩
        exact ⟨_, ⟨hempty, name, hname, rfl⟩, hbefore, hgiven, hafter⟩
    by_cases hinterfaces : key = "interfaces"
    · subst hinterfaces
      simp only [enters_interfaces_iff, Json.valuesOf_cons_self, given_cons_iff]
      rw [Json.valuesOf_cons_of_ne (by decide), Json.valuesOf_cons_of_ne (by decide)]
      constructor
      · rintro ⟨_, ⟨hempty, names, hnames, rfl⟩, hname, hsuper, hgiven⟩
        exact ⟨hname, hsuper, hempty, names, hnames, hgiven⟩
      · rintro ⟨hname, hsuper, hempty, names, hnames, hgiven⟩
        exact ⟨_, ⟨hempty, names, hnames, rfl⟩, hname, hsuper, hgiven⟩
    rw [Json.valuesOf_cons_of_ne hname, Json.valuesOf_cons_of_ne hsuper,
      Json.valuesOf_cons_of_ne hinterfaces]
    simp only [enters_other_iff hname hsuper hinterfaces, exists_eq_left]

/-! ### Descriptors -/

theorem finish_eq_ok_iff :
  last.finish = .ok d ↔ last.name = some d.name ∧ last.superName.getD none = d.superName ∧
    last.interfaces.getD [] = d.interfaces
  := by
  obtain ⟨name, superName, interfaces⟩ := d
  rw [Slots.finish]
  cases last.name with
  | none => simp
  | some name => simp

/-- The superclass that the values give is what they leave in an empty slot. -/
theorem givesSuper_iff {values : List Json} {superName : Option String} :
  GivesSuper values superName ↔
    ∃ slot, Given (OrNull fun json name => json = .string name) none values slot ∧
      slot.getD none = superName
  := by
  constructor
  · rintro (_ | _ | _)
    · exact ⟨none, .nil, rfl⟩
    · exact ⟨some none, .cons .null .nil, rfl⟩
    · exact ⟨some (some _), .cons (.value (by simp) rfl) .nil, rfl⟩
  · rintro ⟨_ | name, hgiven, rfl⟩
    · obtain rfl := given_none_none_iff.mp hgiven
      exact .missing
    · obtain ⟨json, rfl, _ | ⟨-, rfl⟩⟩ := given_none_some_iff.mp hgiven
      · exact .null
      · exact .name

/-- The interfaces that the values give are what they leave in an empty slot. -/
theorem givesInterfaces_iff {values : List Json} {interfaces : List String} :
  GivesInterfaces values interfaces ↔
    ∃ slot, Given (fun json names => json = Json.strings names) none values slot ∧
      slot.getD [] = interfaces
  := by
  constructor
  · rintro (_ | _)
    · exact ⟨none, .nil, rfl⟩
    · exact ⟨some _, .cons rfl .nil, rfl⟩
  · rintro ⟨_ | names, hgiven, rfl⟩
    · obtain rfl := given_none_none_iff.mp hgiven
      exact .missing
    · obtain ⟨json, rfl, rfl⟩ := given_none_some_iff.mp hgiven
      exact .names

theorem describes_object_iff :
  Describes (.object members) d ↔
    ∃ last, shape.Gathers Puts shape.slots members last ∧ last.finish = .ok d
  := by
  simp only [gathers_iff, finish_eq_ok_iff]
  constructor
  · rintro ⟨hname, hsuper, hinterfaces⟩
    obtain ⟨superName, hsuper, hsuperName⟩ := givesSuper_iff.mp hsuper
    obtain ⟨interfaces, hinterfaces, hnames⟩ := givesInterfaces_iff.mp hinterfaces
    have hfilled : Given (fun json name => json = .string name) none
        (Json.valuesOf "name" members) (some d.name) :=
      given_none_some_iff.mpr ⟨_, hname, rfl⟩
    exact ⟨⟨some d.name, superName, interfaces⟩, ⟨hfilled, hsuper, hinterfaces⟩, rfl,
      hsuperName, hnames⟩
  · rintro ⟨last, ⟨hname, hsuper, hinterfaces⟩, hfinish, hsuperName, hnames⟩
    rw [hfinish] at hname
    obtain ⟨json, hvalues, rfl⟩ := given_none_some_iff.mp hname
    apply Describes.object hvalues
    · exact givesSuper_iff.mpr ⟨_, hsuper, hsuperName⟩
    · exact givesInterfaces_iff.mpr ⟨_, hinterfaces, hnames⟩

theorem describes_array_iff {items : List Json} :
  Describes (.array items) d ↔
    ∃ last, Lists Puts shape.fields shape.slots items last ∧ last.finish = .ok d
  := by
  simp only [finish_eq_ok_iff]
  constructor
  · rintro (_ | @⟨more, _, hsuper, hinterfaces⟩)
    obtain ⟨superName, hsuper, hsuperName⟩ := givesSuper_iff.mp hsuper
    obtain ⟨interfaces, hinterfaces, hnames⟩ := givesInterfaces_iff.mp hinterfaces
    refine ⟨⟨some d.name, superName, interfaces⟩, ?_, rfl, hsuperName, hnames⟩
    apply Lists.cons ⟨d.name, rfl, rfl⟩
    -- what is given for a slot has one value at most, so the array has three
    obtain _ | ⟨second, more⟩ := more
    · cases hsuper
      cases hinterfaces
      exact .nil (by decide)
    obtain ⟨-, value, hvalue, hnil⟩ := given_cons_iff.mp hsuper
    obtain rfl := given_nil_iff.mp hnil
    apply Lists.cons ⟨value, hvalue, rfl⟩
    obtain _ | ⟨third, more⟩ := more
    · cases hinterfaces
      exact .nil (by decide)
    obtain ⟨-, names, rfl, hmore⟩ := given_cons_iff.mp hinterfaces
    obtain _ | _ := hmore
    apply Lists.cons ⟨names, rfl, rfl⟩
    exact .nil (by decide)
  · rintro ⟨last, hlists, hname, hsuper, hinterfaces⟩
    obtain ⟨hfields⟩ | ⟨⟨name, rfl, rfl⟩, hmore⟩ := hlists
    · cases hfields _ List.mem_cons_self
    obtain ⟨-⟩ | ⟨⟨superName, hvalue, rfl⟩, hmore⟩ := hmore
    · cases hname
      exact .array (givesSuper_iff.mpr ⟨none, .nil, hsuper⟩)
        (givesInterfaces_iff.mpr ⟨none, .nil, hinterfaces⟩)
    obtain ⟨-⟩ | ⟨⟨names, rfl, rfl⟩, ⟨-⟩⟩ := hmore
    · cases hname
      exact .array (givesSuper_iff.mpr ⟨some superName, .cons hvalue .nil, hsuper⟩)
        (givesInterfaces_iff.mpr ⟨none, .nil, hinterfaces⟩)
    · cases hname
      exact .array (givesSuper_iff.mpr ⟨some superName, .cons hvalue .nil, hsuper⟩)
        (givesInterfaces_iff.mpr ⟨some names, .cons rfl .nil, hinterfaces⟩)

end Slots

theorem reads_describes :
  shape.reader.Reads Describes
  := by
  apply (Json.Shape.reads fieldsRead_puts).congr
  intro json d
  constructor
  · rintro ⟨last, hmembers | hitems, hfinish⟩
    · exact describes_object_iff.mpr ⟨last, hmembers, hfinish⟩
    · exact describes_array_iff.mpr ⟨last, hitems, hfinish⟩
  · intro h
    cases h with
    | object hname hsuper hinterfaces =>
      obtain ⟨last, hmembers, hfinish⟩ :=
        describes_object_iff.mp (.object hname hsuper hinterfaces)
      exact ⟨last, .object hmembers, hfinish⟩
    | array hsuper hinterfaces =>
      obtain ⟨last, hitems, hfinish⟩ := describes_array_iff.mp (.array hsuper hinterfaces)
      exact ⟨last, .array hitems, hfinish⟩

/-! ### Fields in another order -/

/-- Whether a key is that of a field. -/
def isField (key : String) : Bool := shape.fields.any (·.key = key)

theorem valuesOf_filter_isField {key : String} (hkey : isField key = true)
    (members : List (String × Json)) :
  Json.valuesOf key (members.filter fun member => isField member.1) = Json.valuesOf key members
  := by
  rw [Json.valuesOf, List.filter_filter, Json.valuesOf]
  congr 1
  apply List.filter_congr
  rintro ⟨other, json⟩ -
  by_cases h : other = key
  · simp [h, hkey]
  · simp [h]

/-- The values under the key of a field are the same but for their order. -/
theorem valuesOf_perm {key : String} (hkey : isField key = true)
    {members members' : List (String × Json)}
    (h : (members.filter fun member => isField member.1).Perm
      (members'.filter fun member => isField member.1)) :
  (Json.valuesOf key members).Perm (Json.valuesOf key members')
  := by
  rw [← valuesOf_filter_isField hkey members, ← valuesOf_filter_isField hkey members']
  exact (h.filter _).map _

theorem GivesSuper.perm {values values' : List Json} {superName : Option String}
    (h : GivesSuper values superName) (hperm : values.Perm values') :
  GivesSuper values' superName
  := by
  cases h with
  | missing =>
    rw [← hperm.nil_eq]
    exact .missing
  | null =>
    rw [← hperm.singleton_eq]
    exact .null
  | name =>
    rw [← hperm.singleton_eq]
    exact .name

theorem GivesInterfaces.perm {values values' : List Json} {interfaces : List String}
    (h : GivesInterfaces values interfaces) (hperm : values.Perm values') :
  GivesInterfaces values' interfaces
  := by
  cases h with
  | missing =>
    rw [← hperm.nil_eq]
    exact .missing
  | names =>
    rw [← hperm.singleton_eq]
    exact .names

/-- An object describes the same with its fields in any other order and with any other members
between them. -/
theorem Describes.perm {members members' : List (String × Json)} {d : Descriptor}
    (h : Describes (.object members) d)
    (hperm : (members.filter fun member => isField member.1).Perm
      (members'.filter fun member => isField member.1)) :
  Describes (.object members') d
  := by
  cases h with
  | object hname hsuper hinterfaces =>
    have hfield : isField "name" = true := rfl
    have hnames := valuesOf_perm hfield hperm
    rw [hname] at hnames
    apply Describes.object hnames.singleton_eq.symm
    · apply hsuper.perm (valuesOf_perm rfl hperm)
    · apply hinterfaces.perm (valuesOf_perm rfl hperm)

/-! ### Texts -/

/-- A well-formed text is read as a descriptor if its value describes one, and otherwise not
at all; a list of descriptors is read from an array of such values.  The order of the fields
of an object and its other members make no difference. -/
theorem reads_what_is_described :
  (∀ text json, Document text json → ∀ d, ofText text = .ok d ↔ Describes json d) ∧
  (∀ text json, Document text json → ∀ descriptors, listOfText text = .ok descriptors ↔
    ∃ items, json = .array items ∧ List.Forall₂ Describes items descriptors) ∧
  (∀ text text' members members', Document text (.object members) →
    Document text' (.object members') →
    (members.filter fun member => isField member.1).Perm
      (members'.filter fun member => isField member.1) →
    ∀ d, ofText text = .ok d ↔ ofText text' = .ok d)
  := by
  have hread := fun text json (h : Document text json) => reads_describes.run h
  refine ⟨hread, ?_, ?_⟩
  · intro text json h
    exact (Json.reads_list reads_describes).run h
  · intro text text' members members' h h' hperm d
    constructor
    · intro hd
      exact (hread _ _ h' d).mpr (((hread _ _ h d).mp hd).perm hperm)
    · intro hd
      exact (hread _ _ h d).mpr (((hread _ _ h' d).mp hd).perm hperm.symm)

/-! ### Three texts of one class -/

theorem spellsString_name_escaped :
  SpellsString "name" ['"', 'n', '\\', 'u', '0', '0', '6', '1', 'm', 'e', '"']
  := by
  have hunits : SpellsChar 'a' ['\\', 'u', '0', '0', '6', '1'] := by
    have hunit : SpellsUnit 'a'.toNat ['0', '0', '6', '1'] :=
      ⟨_, _, _, _, rfl, ⟨by decide, .inl rfl⟩, ⟨by decide, .inl rfl⟩, ⟨by decide, .inl rfl⟩,
        ⟨by decide, .inl rfl⟩⟩
    have hunits : List.Forall₂ SpellsUnit (Json.utf16 'a') [_] := .cons hunit .nil
    exact .units hunits
  have hplain : ∀ c ∈ ['n', 'm', 'e'], SpellsChar c [c] := by
    intro c hc
    simp only [List.mem_cons, List.not_mem_nil, or_false] at hc
    obtain rfl | rfl | rfl := hc <;> exact .plain (by decide) (by decide) (by decide)
  exact ⟨[['n'], _, ['m'], ['e']], .cons (hplain _ (by decide)) (.cons hunits
    (.cons (hplain _ (by decide)) (.cons (hplain _ (by decide)) .nil))), rfl⟩

/-- The key of the name is written with the number of a letter. -/
theorem document_escaped :
  Document "\x7b\"n\\u0061me\":\"A\",\"super_name\":null\x7d"
    (.object [("name", .string "A"), ("super_name", .null)])
  := by
  have hsuper : SpellsString "super_name" _ := spellsString_of_plain rfl
  have hvalue : SpellsString "A" _ := spellsString_of_plain rfl
  apply Spells.document
  exact .object (.member (.first .nil) spellsString_name_escaped .nil .nil (.string hvalue)
    (.member (.comma .nil .nil) hsuper .nil .nil .null (.noMembers .nil)))

/-- The superclass comes first, and another member stands before the name. -/
theorem document_reordered :
  Document "\x7b\"super_name\":null,\"x\":[\x7b\x7d],\"name\":\"A\"\x7d"
    (.object [("super_name", .null), ("x", .array [.object []]), ("name", .string "A")])
  := by
  have hsuper : SpellsString "super_name" _ := spellsString_of_plain rfl
  have hother : SpellsString "x" _ := spellsString_of_plain rfl
  have hname : SpellsString "name" _ := spellsString_of_plain rfl
  have hvalue : SpellsString "A" _ := spellsString_of_plain rfl
  have hlist : Spells (.value (.array [.object []])) ['[', '\x7b', '\x7d', ']'] :=
    .array (.item (.first .nil) (.object (.noMembers .nil)) (.noItems .nil))
  apply Spells.document
  exact .object (.member (.first .nil) hsuper .nil .nil .null
    (.member (.comma .nil .nil) hother .nil .nil hlist
      (.member (.comma .nil .nil) hname .nil .nil (.string hvalue) (.noMembers .nil))))

theorem document_listed :
  Document "[[\"A\"]]" (.array [.array [.string "A"]])
  := by
  have hvalue : SpellsString "A" _ := spellsString_of_plain rfl
  apply Spells.document
  exact .array (.item (.first .nil)
    (.array (.item (.first .nil) (.string hvalue) (.noItems .nil))) (.noItems .nil))

/-- A class is read from an object, from another one with its members in another order and one
more between them, and from a list of arrays. -/
theorem reads_what_is_described_thrice :
  ofText "\x7b\"n\\u0061me\":\"A\",\"super_name\":null\x7d" = .ok ⟨"A", none, []⟩ ∧
  ofText "\x7b\"super_name\":null,\"x\":[\x7b\x7d],\"name\":\"A\"\x7d" = .ok ⟨"A", none, []⟩ ∧
  listOfText "[[\"A\"]]" = .ok [⟨"A", none, []⟩]
  := by
  obtain ⟨hread, hlist, horder⟩ := reads_what_is_described
  have hescaped := (hread _ _ document_escaped ⟨"A", none, []⟩).mpr (.object rfl .null .missing)
  have harray : Describes (.array [.string "A"]) ⟨"A", none, []⟩ :=
    @Describes.array [] ⟨"A", none, []⟩ .missing .missing
  refine ⟨hescaped, ?_, ?_⟩
  · apply (horder _ _ _ _ document_escaped document_reordered _ _).mp hescaped
    exact List.Perm.swap _ _ _
  · apply (hlist _ _ document_listed _).mpr
    exact ⟨_, rfl, .cons harray .nil⟩

end Descriptor

end Lineage
