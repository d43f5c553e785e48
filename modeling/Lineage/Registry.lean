import Lineage.NameMap

/-!
# The registry of vertices

A registry has at most one vertex for each class name.  `Registry.obtain` gives out the
vertex that is there, and makes one only where there is none.
-/

namespace Lineage

/-- The vertex registered for each name that has one. -/
structure Registry (V : Type) where
  /-- The registered vertices. -/
  vertices : NameMap V
deriving DecidableEq

namespace Registry

variable {V : Type}

/-- The registry without a vertex. -/
def empty : Registry V := ⟨∅⟩

instance : EmptyCollection (Registry V) := ⟨empty⟩

instance : Inhabited (Registry V) := ⟨empty⟩

/-- The vertex registered for `name`. -/
def get? (r : Registry V) (name : String) : Option V := r.vertices.get? name

/-- Whether a vertex is registered for `name`. -/
def contains (r : Registry V) (name : String) : Bool := r.vertices.contains name

/-- The names that have a vertex. -/
def names (r : Registry V) : NameSet := r.vertices.keys

/-- The number of registered vertices. -/
def size (r : Registry V) : Nat := r.vertices.size

/-- Whether no vertex is registered. -/
def isEmpty (r : Registry V) : Bool := r.vertices.isEmpty

/-- The registry without a vertex for `name`. -/
def remove (r : Registry V) (name : String) : Registry V := ⟨r.vertices.erase name⟩

/-- What comes of asking a registry for the vertex of a name. -/
structure Obtained (V : Type) where
  /-- The vertex that is registered now. -/
  vertex : V
  /-- Whether the vertex was made for the occasion. -/
  made : Bool
  registry : Registry V

/-- The vertex registered for `name`, or else the one that `make` gives, registered. -/
def obtain (r : Registry V) (name : String) (make : Unit → V) : Obtained V :=
  match r.get? name with
  | some vertex => ⟨vertex, false, r⟩
  | none =>
      let vertex := make ()
      ⟨vertex, true, ⟨r.vertices.insert name vertex⟩⟩

theorem get?_remove {r : Registry V} {a name : String} :
  (r.remove name).get? a = if a = name then none else r.get? a
  := NameMap.get?_erase

/-- A name without a vertex gets the one that is made. -/
theorem obtain_of_none {r : Registry V} {name : String} (h : r.get? name = none)
    (make : Unit → V) :
  r.obtain name make = ⟨make (), true, ⟨r.vertices.insert name (make ())⟩⟩
  := by
  rw [obtain, h]

end Registry

end Lineage
