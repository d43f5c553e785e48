import Lineage.Proofs.Json.Skipping
import Lineage.Proofs.Json.Values

/-!
# What a reader accepts

A reader is known by the relation of values and what it makes of them: on every text of a
value, however it is spelled and whatever follows it, the reader takes off what the relation
says and nothing else (`Reader.Reads`).  Here the readers of strings, of values that may be
null and of lists are described in this way; each looks at the first character of a value,
which tells what kind of value it is.
-/

namespace Lineage.Json

open Text (Parsed bind_eq_ok map_eq_ok)

variable {α β : Type} {read : Reader α} {accepts : Json → α → Prop} {json : Json}
variable {text start rest left sep after : List Char} {c : Char}

/-! ### What is taken off -/

namespace Reader

theorem Takes.iff {value other : α} (h : read.Takes text value rest) :
  read.Takes text other left ↔ other = value ∧ left = rest
  := by
  constructor
  · rintro ⟨p, hp, rfl, rfl⟩
    obtain ⟨q, hq, rfl, rfl⟩ := h
    cases hp.symm.trans hq
    exact ⟨rfl, rfl⟩
  · rintro ⟨rfl, rfl⟩
    exact h

theorem not_takes {value : α} {fault : Fault} (h : read text = .error fault) :
  ¬ read.Takes text value left
  := by
  rintro ⟨p, hp, -⟩
  cases hp.symm.trans h

theorem takes_afterBlanks {value : α} :
  (Reader.afterBlanks read).Takes text value rest ↔ read.Takes (skipBlanks text) value rest
  := by
  constructor
  · rintro ⟨p, hp, rfl, rfl⟩
    obtain ⟨q, hq, rfl⟩ := map_eq_ok.mp hp
    exact ⟨q, hq, rfl, rfl⟩
  · apply Takes.afterBlanks

theorem takes_map {f : α → β} {value : β} :
  (Reader.map f read).Takes text value rest ↔ ∃ a, read.Takes text a rest ∧ f a = value
  := by
  constructor
  · rintro ⟨p, hp, rfl, rfl⟩
    obtain ⟨q, hq, rfl⟩ := map_eq_ok.mp hp
    exact ⟨q.value, ⟨q, hq, rfl, rfl⟩, rfl⟩
  · rintro ⟨a, ha, rfl⟩
    apply ha.map

/-- A reader that goes on behind a first character. -/
theorem takes_behind {next : Reader α} {value : α}
    (h : read (c :: text) = (next text).map Parsed.behind) :
  read.Takes (c :: text) value rest ↔ next.Takes text value rest
  := by
  constructor
  · rintro ⟨p, hp, rfl, rfl⟩
    obtain ⟨q, hq, rfl⟩ := map_eq_ok.mp (h.symm.trans hp)
    exact ⟨q, hq, rfl, rfl⟩
  · rintro ⟨q, hq, rfl, rfl⟩
    exact ⟨q.behind, h.trans (map_eq_ok.mpr ⟨q, hq, rfl⟩), rfl, rfl⟩

/-- On every text of a value the reader takes off what the value is accepted for, up to where
the value ends, and it takes off nothing if the value is not accepted. -/
def Reads (read : Reader α) (accepts : Json → α → Prop) : Prop :=
  ∀ ⦃json text start rest⦄, Spells (.value json) text → isDelimited rest = true →
    skipBlanks start = text ++ rest →
    ∀ value left, read.Takes start value left ↔ accepts json value ∧ left = rest

/-- A text that holds one value is read for what the value is accepted for. -/
theorem Reads.run {text : String} (h : read.Reads accepts) (hdocument : Document text json)
    (value : α) :
  read.run text = .ok value ↔ accepts json value
  := by
  obtain ⟨before, body, after, hbefore, hspells, hafter, htext⟩ := hdocument
  have hend : isDelimited after = true := by
    have hnil : isDelimited [] = true := rfl
    have happend := hafter.isDelimited_append hnil
    rwa [List.append_nil] at happend
  have hstart : skipBlanks text.toList = body ++ after := by
    rw [htext, hbefore.skipBlanks_append, hspells.skipBlanks_append]
  have hread := h hspells hend hstart value
  rw [Reader.run, bind_eq_ok]
  constructor
  · rintro ⟨⟨result, left, shorter⟩, hresult, hvalue⟩
    dsimp only at hvalue
    split at hvalue
    · cases hvalue
      exact ((hread left).mp ⟨_, hresult, rfl, rfl⟩).1
    · cases hvalue
  · intro haccepts
    obtain ⟨shorter, htakes⟩ := ((hread after).mpr ⟨haccepts, rfl⟩).eq_ok
    refine ⟨_, htakes, ?_⟩
    dsimp only
    rw [hafter.skipBlanks]
    rfl

theorem Reads.congr {accepts' : Json → α → Prop} (h : read.Reads accepts)
    (haccepts : ∀ json value, accepts json value ↔ accepts' json value) :
  read.Reads accepts'
  := by
  intro json text start rest hspells hrest hstart value left
  rw [← haccepts]
  apply h hspells hrest hstart

theorem Reads.map {f : α → β} (h : read.Reads accepts) :
  (Reader.map f read).Reads fun json value => ∃ a, accepts json a ∧ f a = value
  := by
  intro json text start rest hspells hrest hstart value left
  simp only [takes_map, h hspells hrest hstart]
  constructor
  · rintro ⟨a, ⟨ha, hleft⟩, hvalue⟩
    exact ⟨⟨a, ha, hvalue⟩, hleft⟩
  · rintro ⟨⟨a, ha, hvalue⟩, hleft⟩
    exact ⟨a, ⟨ha, hleft⟩, hvalue⟩

end Reader

/-! ### Kinds of values -/

theorem Opens.eq_null (h : Opens json 'n') :
  json = .null
  := by
  cases json with
  | null => rfl
  | bool value => cases value <;> cases h
  | _ => cases h

theorem Opens.eq_string (h : Opens json '"') :
  ∃ string, json = .string string
  := by
  cases json with
  | string text => exact ⟨text, rfl⟩
  | bool value => cases value <;> cases h
  | _ => cases h

theorem Opens.eq_array (h : Opens json '[') :
  ∃ items, json = .array items
  := by
  cases json with
  | array items => exact ⟨items, rfl⟩
  | bool value => cases value <;> cases h
  | _ => cases h

theorem Opens.eq_object (h : Opens json '\x7b') :
  ∃ members, json = .object members
  := by
  cases json with
  | object members => exact ⟨members, rfl⟩
  | bool value => cases value <;> cases h
  | _ => cases h

/-- A text that starts with a value starts with the first character of the value. -/
theorem Spells.exists_append (h : Spells (.value json) text) (rest : List Char) :
  ∃ c after, text ++ rest = c :: after ∧ Opens json c
  := by
  obtain ⟨c, after, rfl, hc⟩ := h.exists_cons
  exact ⟨c, after ++ rest, rfl, hc⟩

/-! ### Strings and nulls -/

theorem takes_string {cs : List Char} (hstart : skipBlanks start = '"' :: text)
    (hchars : Reader.Takes readChars text cs rest) :
  Reader.string.Takes start (String.ofList cs) rest
  := by
  obtain ⟨shorter, hchars⟩ := hchars.eq_ok
  rw [Reader.string, Reader.takes_afterBlanks, hstart, Reader.Takes]
  simp only [hchars]
  exact ⟨_, rfl, rfl, rfl⟩

theorem not_takes_string {value : String} (hstart : skipBlanks start = c :: rest)
    (hc : c ≠ '"') :
  ¬ Reader.string.Takes start value left
  := by
  rw [Reader.string, Reader.takes_afterBlanks]
  generalize skipBlanks start = whole at hstart
  rintro ⟨p, hp, -⟩
  dsimp only at hp
  split at hp
  · cases hstart
    contradiction
  · cases hp

theorem reads_string :
  Reader.string.Reads fun json text => json = .string text
  := by
  intro json text start rest hspells _ hstart value left
  obtain ⟨c, after, hcons, hopens⟩ := hspells.exists_append rest
  by_cases hc : c = '"'
  · subst hc
    obtain ⟨string, rfl⟩ := hopens.eq_string
    cases hspells with
    | string hstring =>
      obtain ⟨quoted, hquoted, hchars, -⟩ := hstring.exists_append rest
      have htakes := takes_string (hstart.trans hquoted) hchars
      rw [String.ofList_toList] at htakes
      simp only [htakes.iff, Json.string.injEq, @eq_comm _ value]
  · have hnot : json ≠ .string value := by
      rintro rfl
      exact hc hopens
    simp only [not_takes_string (hstart.trans hcons) hc, hnot, false_and]

/-- What is made of a null, or else of a value that is accepted. -/
inductive OrNull (accepts : Json → α → Prop) : Json → Option α → Prop where
  | null : OrNull accepts .null none
  | value {json : Json} {value : α} (hne : json ≠ .null) (hvalue : accepts json value) :
      OrNull accepts json (some value)

theorem takes_optional_null (read : Reader α)
    (hstart : skipBlanks start = 'n' :: 'u' :: 'l' :: 'l' :: rest) :
  (Reader.optional read).Takes start none rest
  := by
  rw [Reader.optional, Reader.takes_afterBlanks, hstart]
  exact ⟨_, rfl, rfl, rfl⟩

theorem takes_optional_iff {value : Option α} (hstart : skipBlanks start = c :: after)
    (hc : c ≠ 'n') :
  (Reader.optional read).Takes start value left ↔
    ∃ a, read.Takes (skipBlanks start) a left ∧ value = some a
  := by
  rw [Reader.optional, Reader.takes_afterBlanks]
  generalize skipBlanks start = whole at hstart
  unfold Reader.Takes
  dsimp only
  split
  · cases hstart
    contradiction
  · constructor
    · rintro ⟨p, hp, rfl, rfl⟩
      obtain ⟨q, hq, rfl⟩ := map_eq_ok.mp hp
      exact ⟨q.value, ⟨q, hq, rfl, rfl⟩, rfl⟩
    · rintro ⟨a, ⟨q, hq, rfl, rfl⟩, rfl⟩
      exact ⟨_, map_eq_ok.mpr ⟨q, hq, rfl⟩, rfl, rfl⟩

theorem reads_optional (h : read.Reads accepts) :
  (Reader.optional read).Reads (OrNull accepts)
  := by
  intro json text start rest hspells hrest hstart value left
  obtain ⟨c, after, hcons, hopens⟩ := hspells.exists_append rest
  by_cases hc : c = 'n'
  · subst hc
    obtain rfl := hopens.eq_null
    cases hspells with
    | null =>
      rw [(takes_optional_null read hstart).iff]
      constructor
      · rintro ⟨rfl, rfl⟩
        exact ⟨.null, rfl⟩
      · rintro ⟨⟨⟩ | ⟨hne, -⟩, rfl⟩
        · exact ⟨rfl, rfl⟩
        · contradiction
  · have hne : json ≠ .null := by
      rintro rfl
      exact hc hopens
    have hskip : skipBlanks (skipBlanks start) = text ++ rest := by
      rw [hstart, hspells.skipBlanks_append]
    rw [takes_optional_iff (hstart.trans hcons) hc]
    simp only [h hspells hrest hskip]
    constructor
    · rintro ⟨a, ⟨ha, hleft⟩, rfl⟩
      exact ⟨.value hne ha, hleft⟩
    · rintro ⟨⟨⟩ | ⟨-, ha⟩, hleft⟩
      · contradiction
      · exact ⟨_, ⟨ha, hleft⟩, rfl⟩

/-! ### Lists -/

theorem takes_elements_cons_iff {first : Bool} {values : List α}
    (hnext : ∃ le, Reader.nextElement first text = .ok (.element start le)) :
  Reader.Takes (Reader.elements read first) text values rest ↔
    ∃ value more left, read.Takes start value left ∧
      Reader.Takes (Reader.elements read false) left more rest ∧ values = value :: more
  := by
  constructor
  · rintro ⟨p, hp, rfl, rfl⟩
    obtain ⟨le, hnext⟩ := hnext
    rw [Reader.elements, hnext, bind_eq_ok] at hp
    obtain ⟨_, ⟨⟩, hp⟩ := hp
    obtain ⟨⟨value, left, shorter⟩, hvalue, hp⟩ := bind_eq_ok.mp hp
    obtain ⟨⟨more, last, shorter'⟩, hmore, ⟨⟩⟩ := bind_eq_ok.mp hp
    exact ⟨value, more, left, ⟨_, hvalue, rfl, rfl⟩, ⟨_, hmore, rfl, rfl⟩, rfl⟩
  · rintro ⟨value, more, left, hvalue, hmore, rfl⟩
    apply takes_elements_cons hnext hvalue hmore

theorem takes_elements_iff (hread : read.Reads accepts) {first : Bool} {items : List Json}
    {values : List α} (h : Spells (.items first items) text) :
  Reader.Takes (Reader.elements read first) (text ++ ']' :: rest) values left ↔
    List.Forall₂ accepts items values ∧ left = rest
  := by
  induction items generalizing first text values with
  | nil =>
    cases h with
    | noItems hblanks =>
      have hclosing : skipBlanks (text ++ ']' :: rest) = ']' :: rest := by
        rw [hblanks.skipBlanks_append]
        apply skipBlanks_cons rfl
      rw [(takes_elements_nil first hclosing).iff, List.forall₂_nil_left_iff]
  | cons json items ih =>
    cases h with
    | @item _ _ _ sep text more hsep hitem hitems =>
      obtain ⟨c, after, hcons, hopens⟩ := hitem.exists_append (more ++ ']' :: rest)
      obtain ⟨hblank, -, hbracket, -⟩ := hopens.ne
      have hskip := hitem.skipBlanks_append (more ++ ']' :: rest)
      have hread := hread hitem (hitems.isDelimited_items rest) hskip
      rw [hcons] at hread
      simp only [List.append_assoc, hcons, hread, List.forall₂_cons_left_iff,
        takes_elements_cons_iff (nextElement_entry hsep hblank hbracket)]
      constructor
      · rintro ⟨value, values, _, ⟨hvalue, rfl⟩, hvalues, rfl⟩
        obtain ⟨hvalues, hleft⟩ := (ih hitems).mp hvalues
        exact ⟨⟨value, values, hvalue, hvalues, rfl⟩, hleft⟩
      · rintro ⟨⟨value, values, hvalue, hvalues, rfl⟩, hleft⟩
        exact ⟨value, values, _, ⟨hvalue, rfl⟩, (ih hitems).mpr ⟨hvalues, hleft⟩, rfl⟩

theorem takes_list_iff {values : List α} (hstart : skipBlanks start = '[' :: text) :
  (Reader.list read).Takes start values left ↔
    Reader.Takes (Reader.elements read true) text values left
  := by
  rw [Reader.list, Reader.takes_afterBlanks, hstart]
  apply Reader.takes_behind rfl

theorem not_takes_list {values : List α} (hstart : skipBlanks start = c :: rest)
    (hc : c ≠ '[') :
  ¬ (Reader.list read).Takes start values left
  := by
  rw [Reader.list, Reader.takes_afterBlanks]
  generalize skipBlanks start = whole at hstart
  rintro ⟨p, hp, -⟩
  dsimp only at hp
  split at hp
  · cases hstart
    contradiction
  · cases hp

/-- What is made of a list, item by item. -/
theorem reads_list (h : read.Reads accepts) :
  (Reader.list read).Reads fun json values =>
    ∃ items, json = .array items ∧ List.Forall₂ accepts items values
  := by
  intro json text start rest hspells _ hstart values left
  obtain ⟨c, after, hcons, hopens⟩ := hspells.exists_append rest
  by_cases hc : c = '['
  · subst hc
    obtain ⟨items, rfl⟩ := hopens.eq_array
    cases hspells with
    | @array _ text hitems =>
      rw [List.cons_append, List.append_assoc] at hstart
      rw [takes_list_iff hstart]
      simp only [List.singleton_append, takes_elements_iff h hitems, Json.array.injEq,
        exists_eq_left']
  · have hnot : ∀ items, json ≠ .array items := by
      rintro items rfl
      exact hc hopens
    simp only [not_takes_list (hstart.trans hcons) hc, hnot, false_and, exists_false]

theorem reads_strings :
  (Reader.list Reader.string).Reads fun json texts => json = Json.strings texts
  := by
  apply (reads_list reads_string).congr
  intro json texts
  have hitems : ∀ items, List.Forall₂ (fun json text => json = Json.string text) items texts ↔
      items = texts.map .string := by
    intro items
    rw [← List.forall₂_eq_eq_eq, List.forall₂_map_right_iff]
  simp only [hitems, exists_eq_right, Json.strings]

end Lineage.Json
