import Lineage.Descriptor
import Lineage.EditError

/-!
# Vertices

A vertex stands for a class in a graph.  Its name never changes; the definition it holds can
be exchanged for another one of the same class.  A `VertexTable` keeps all vertices that
have been made, and a `VertexId` is a place in the table: two vertices of one class are
equal as vertices, yet they are two, and only their places tell them apart.
-/

namespace Lineage

/-- A class as a vertex of a graph. -/
structure Vertex where
  name : String
  /-- The definition held at present. -/
  data : Descriptor
deriving DecidableEq, Inhabited

/-- The vertex made for a definition. -/
def Vertex.ofDescriptor (d : Descriptor) : Vertex := ⟨d.name, d⟩

/-- A vertex written out, with whether it is the registered one of its class. -/
def Vertex.text (v : Vertex) (tracked : Bool) : String :=
  Text.record "ClassVertex" [("name", Text.quoted v.name), ("tracked", Text.bool tracked)]

/-- The identity of a vertex: its place among all vertices, in the order they were made. -/
structure VertexId where
  index : Nat
deriving DecidableEq, Inhabited

/-- All vertices made so far. -/
structure VertexTable where
  /-- The vertices, in the order they were made. -/
  vertices : List Vertex
deriving DecidableEq

namespace VertexTable

/-- The table before any vertex is made. -/
def empty : VertexTable := ⟨[]⟩

instance : EmptyCollection VertexTable := ⟨empty⟩

instance : Inhabited VertexTable := ⟨empty⟩

/-- The vertex at a place. -/
def get? (t : VertexTable) (id : VertexId) : Option Vertex := t.vertices[id.index]?

/-- The definition that the vertex at a place holds. -/
def data? (t : VertexTable) (id : VertexId) : Option Descriptor := (t.get? id).map Vertex.data

/-- The place that the next vertex will have. -/
def next (t : VertexTable) : VertexId := ⟨t.vertices.length⟩

/-- The table with one more vertex, at the place `t.next`. -/
def add (t : VertexTable) (d : Descriptor) : VertexTable :=
  ⟨t.vertices ++ [Vertex.ofDescriptor d]⟩

/-- The table with `d` held at a place, whatever class it defines. -/
def hold (t : VertexTable) (id : VertexId) (d : Descriptor) : VertexTable :=
  ⟨t.vertices.modify id.index fun v => { v with data := d }⟩

/-- The table with `d` held at a place, if it defines the class of the vertex there. -/
def setData (t : VertexTable) (id : VertexId) (d : Descriptor) :
    Except EditError VertexTable :=
  match t.get? id with
  | none => .ok t
  | some v =>
      if d.name = v.name then .ok (t.hold id d) else .error (.nameMismatch v.name d.name)

/-- Whether two places have equal vertices, which is to say vertices of one class. -/
def equal (t : VertexTable) (v w : VertexId) : Bool :=
  (t.get? v).map Vertex.name = (t.get? w).map Vertex.name

/-! ### The vertex at a place after a change -/

theorem get?_add {t : VertexTable} {d : Descriptor} {id : VertexId} :
  (t.add d).get? id = if id = t.next then some (Vertex.ofDescriptor d) else t.get? id
  := by
  by_cases h : id = t.next
  · rw [if_pos h, h]
    apply List.getElem?_concat_length
  · have hne : id.index ≠ t.vertices.length := by
      rintro e
      apply h
      cases id
      subst e
      rfl
    rw [if_neg h, get?, get?, add, List.getElem?_append]
    split
    · rfl
    · rw [List.getElem?_eq_none (by rw [List.length_singleton]; omega),
        List.getElem?_eq_none (by omega)]

theorem get?_hold {t : VertexTable} {d : Descriptor} {id a : VertexId} :
  (t.hold id d).get? a
    = if a = id then (t.get? id).map (fun v => { v with data := d }) else t.get? a
  := by
  rw [get?, hold, List.getElem?_modify]
  by_cases h : a = id
  · rw [if_pos h, h]
    simp [get?]
  · have hne : id.index ≠ a.index := by
      intro e
      apply h
      cases id
      cases a
      subst e
      rfl
    simp [get?, h, hne]

/-- What is at a place stays there when another vertex is made. -/
theorem get?_add_of_some {t : VertexTable} {d : Descriptor} {id : VertexId} {v : Vertex}
    (h : t.get? id = some v) :
  (t.add d).get? id = some v
  := by
  rw [get?_add, if_neg, h]
  rintro rfl
  rw [get?, next, List.getElem?_eq_none (Nat.le_refl _)] at h
  exact absurd h (Option.some_ne_none v).symm

/-- A vertex keeps its name when another definition is held. -/
theorem map_name_hold {t : VertexTable} {d : Descriptor} {id a : VertexId} :
  ((t.hold id d).get? a).map Vertex.name = (t.get? a).map Vertex.name
  := by
  rw [get?_hold]
  split
  · rename_i h
    rw [h, Option.map_map]
    rfl
  · rfl

theorem data?_hold_self {t : VertexTable} {d : Descriptor} {id : VertexId} {v : Vertex}
    (h : t.get? id = some v) :
  (t.hold id d).data? id = some d
  := by
  rw [data?, get?_hold, if_pos rfl, h]
  rfl

theorem data?_hold_of_ne {t : VertexTable} {d : Descriptor} {id a : VertexId} (h : a ≠ id) :
  (t.hold id d).data? a = t.data? a
  := by
  rw [data?, get?_hold, if_neg h, data?]

end VertexTable

end Lineage
