import Lineage.Proofs.Diff
import Lineage.Proofs.Session.Soundness

/-!
# Edits of one class

To enter a class and to take one out are edits of one class: they give a name another definition in
the workspace, or none (`amend`).  Both see to the registered vertex of the name in the same way.
It turns to what the name stands for afterwards, and leaves the registry if that is nothing.

Whether such an edit is refused, and what its diff tells, depends on nothing but the definition
that there was before (`edit_of_revises`).
-/

namespace Lineage

/-- A vertex turned to a definition, if there is one. -/
def Vertex.turn (d : Option Descriptor) (v : Vertex) : Vertex := { v with data := d.getD v.data }

theorem Vertex.map_turn_none (v : Option Vertex) :
  v.map (turn none) = v
  := by
  cases v <;> rfl

/-- A table is determined by the vertices at all places. -/
theorem VertexTable.ext {t u : VertexTable} (h : ∀ id, t.get? id = u.get? id) :
  t = u
  := by
  cases t
  cases u
  congr 1
  apply List.ext_getElem?
  intro index
  apply h ⟨index⟩

/-- A registry is determined by the vertices of all names. -/
theorem Registry.ext {V : Type} {r q : Registry V} (h : ∀ name, r.get? name = q.get? name) :
  r = q
  := by
  cases r
  cases q
  congr 1
  ext1 name
  apply h name

/-! ### What an edit is to do -/

/-- An edit is to give the class `name` the definition `new`, or to take it out if this is none. -/
inductive Edit.Revises : Edit → String → Option Descriptor → Prop where
  | put (d : Descriptor) : Revises (.put d) d.name (some d)
  | remove (name : String) : Revises (.remove name) name none

/-- The cause for which the class `name` is not given the definition `new` in the place of `old`,
if there is one. -/
def refusal? (name : String) (old new : Option Descriptor) : Option EditError :=
  match new with
  | some d => if d.declares name then some (.selfInheritance name) else none
  | none => if old = none then some (.classNotFound name) else none

/-- A definition is refused if it lists its own name, and a class that is not there cannot be taken
out; nothing else is refused. -/
theorem refusal?_eq_none_iff {name : String} {old new : Option Descriptor} :
  refusal? name old new = none
    ↔ (∀ d, new = some d → ¬ d.declares name) ∧ (new = none → old ≠ none)
  := by
  cases new with
  | some d => simp [refusal?]
  | none => simp [refusal?]

theorem Edit.Revises.bears {e : Edit} {name : String} {new : Option Descriptor}
    (h : e.Revises name new) :
  Bears new name
  := by
  intro d hd
  cases h with
  | put e => rw [Option.some.inj hd]
  | remove => exact absurd hd (Option.some_ne_none d).symm

namespace Session

/-- The session in which `new` is the definition of the class `name`, or in which there is no such
class in the workspace. -/
def amend (s : Session) (name : String) (new : Option Descriptor) : Session :=
  match new with
  | some d => s.define d
  | none => (s.withWorkspace (s.workspace.erase name)).release name

/-- What a name stands for when `new` is its definition in the workspace. -/
def prospect (s : Session) (name : String) (new : Option Descriptor) : Option Descriptor :=
  new.or (s.classPath.lookup name)

variable {s t : Session} {name a : String} {new : Option Descriptor} {d : Descriptor}
variable {id : VertexId}

/-- What a name stands for is its prospect as long as its definition stays. -/
theorem prospect_lookup (s : Session) (name : String) :
  s.prospect name (s.workspace.lookup name) = s.hierarchy.resolve name
  := rfl

/-! ### What amending a class changes -/

theorem lookup_amend (hnew : Bears new name) (a : String) :
  (s.amend name new).workspace.lookup a = if a = name then new else s.workspace.lookup a
  := by
  cases new with
  | some d =>
    obtain rfl := hnew d rfl
    apply Workspace.lookup_insert
  | none =>
    rw [amend, workspace, hierarchy_release]
    apply Workspace.lookup_erase

theorem classPath_amend (s : Session) (name : String) (new : Option Descriptor) :
  (s.amend name new).classPath = s.classPath
  := by
  cases new with
  | some d => rfl
  | none =>
    rw [amend, classPath, hierarchy_release]
    rfl

theorem options_amend (s : Session) (name : String) (new : Option Descriptor) :
  (s.amend name new).hierarchy.options = s.hierarchy.options
  := by
  cases new with
  | some d => rfl
  | none =>
    rw [amend, hierarchy_release]
    rfl

theorem prospect_amend (s : Session) (name a : String) (new other : Option Descriptor) :
  (s.amend name new).prospect a other = s.prospect a other
  := by
  rw [prospect, classPath_amend, prospect]

/-- The vertex of the name leaves the registry exactly if the name stands for nothing any more. -/
theorem vertex?_amend (s : Session) (name : String) (new : Option Descriptor) (a : String) :
  (s.amend name new).vertex? a
    = if a = name ∧ s.prospect name new = none then none else s.vertex? a
  := by
  cases new with
  | some d => exact (if_neg (fun h => Option.some_ne_none d h.2)).symm
  | none => apply vertex?_release

theorem get?_refreshed (s : Session) (name : String) (d : Descriptor) (id : VertexId) :
  (s.refreshed name d).get? id
    = (s.vertices.get? id).map (Vertex.turn (if s.vertex? name = some id then some d else none))
  := by
  rw [refreshed]
  cases h : s.vertex? name with
  | none =>
    rw [if_neg (Option.some_ne_none id).symm, Vertex.map_turn_none]
  | some i =>
    rw [VertexTable.get?_hold]
    by_cases hi : id = i
    · rw [if_pos hi, hi, if_pos rfl]
      rfl
    · rw [if_neg hi, if_neg (fun h => hi (Option.some.inj h).symm), Vertex.map_turn_none]

/-- The registered vertex of the name turns to what the name stands for afterwards. -/
theorem get?_amend (hnew : Bears new name) (id : VertexId) :
  (s.amend name new).vertices.get? id
    = (s.vertices.get? id).map
        (Vertex.turn (if s.vertex? name = some id then s.prospect name new else none))
  := by
  cases new with
  | some d =>
    obtain rfl := hnew d rfl
    apply get?_refreshed
  | none =>
    rw [amend, prospect, Option.none_or]
    cases hpath : s.classPath.lookup name with
    | some d =>
      have hpath : (s.withWorkspace (s.workspace.erase name)).classPath.lookup name = some d :=
        hpath
      rw [vertices_release_of_some hpath]
      apply get?_refreshed
    | none =>
      have hpath : (s.withWorkspace (s.workspace.erase name)).classPath.lookup name = none :=
        hpath
      rw [vertices_release_of_none hpath, ite_self, Vertex.map_turn_none]
      rfl

theorem Sound.amend (hs : s.Sound) (name : String) (new : Option Descriptor) :
  (s.amend name new).Sound
  := by
  cases new with
  | some d => apply hs.define
  | none => apply (hs.withWorkspace (hs.workspace.erase name)).release

/-- The edits are counted apart from what they change. -/
theorem amend_advance (s : Session) (name : String) (new : Option Descriptor) :
  s.advance.2.amend name new = (s.amend name new).advance.2
  := by
  cases new with
  | some d => rfl
  | none =>
    have hpath : (s.withWorkspace (s.workspace.erase name)).classPath = s.classPath := rfl
    have hpath' : (s.advance.2.withWorkspace (s.advance.2.workspace.erase name)).classPath
        = s.classPath := rfl
    rw [amend, amend, release, release, hpath, hpath']
    cases s.classPath.lookup name <;> rfl

theorem sequence_amend (s : Session) (name : String) (new : Option Descriptor) :
  (s.amend name new).sequence = s.sequence
  := by
  cases new with
  | some d => rfl
  | none =>
    rw [amend, release]
    split <;> rfl

/-- Sound sessions are the same if they count the same edits, stand on the same ground and have the
same definitions, registered vertices and vertices at all places. -/
theorem Sound.ext (hs : s.Sound) (ht : t.Sound) (hsequence : s.sequence = t.sequence)
    (hpath : s.classPath = t.classPath) (hoptions : s.hierarchy.options = t.hierarchy.options)
    (hlookup : ∀ a, s.workspace.lookup a = t.workspace.lookup a)
    (hvertex : ∀ a, s.vertex? a = t.vertex? a)
    (hvertices : ∀ id, s.vertices.get? id = t.vertices.get? id) :
  s = t
  := by
  have hworkspace : s.workspace = t.workspace := hs.workspace.ext ht.workspace hlookup
  have hregistry : s.registry = t.registry := Registry.ext hvertex
  have htable : s.vertices = t.vertices := VertexTable.ext hvertices
  obtain ⟨⟨_, _, _⟩, _, _, _⟩ := s
  obtain ⟨⟨_, _, _⟩, _, _, _⟩ := t
  congr

/-! ### Edits that amend a class -/

/-- An edit of one class is refused for a cause that shows in the definition there was, or amends
the class, enters it in its diff and counts. -/
theorem edit_of_revises {e : Edit} (h : e.Revises name new) (s : Session) :
  s.edit e
    = match refusal? name (s.workspace.lookup name) new with
      | some error => .error error
      | none => .ok (s.advance.1.record (s.workspace.lookup name) new,
          (s.amend name new).advance.2)
  := by
  rw [← amend_advance]
  cases h with
  | put d =>
    rw [edit, put, refusal?]
    split <;> rfl
  | remove name =>
    rw [edit, remove, refusal?]
    cases s.workspace.lookup name <;> rfl

end Session

end Lineage
