import Lineage.Network

/-!
# Graphs of a hierarchy

A graph is what a network says of its classes, whatever their places: which there are, and which
have an edge to which (`Network.graph`).  `Graph.sort?` puts the classes into an order in which
every supertype comes before its subtypes, which is possible exactly when no edge closes a cycle.
-/

namespace Lineage

/-- A finite graph of class names. -/
structure Graph where
  /-- The targets of the edges from each class. -/
  targets : NameMap NameSet
deriving DecidableEq

/-- The classes of a network and the edges between them. -/
def Network.graph (g : Network) : Graph :=
  ⟨g.names.foldl (fun targets name => targets.insert name (NameSet.ofList (g.subtypes name))) ∅⟩

namespace Graph

/-- The classes. -/
def names (g : Graph) : NameSet := g.targets.keys

/-- Whether `name` is one of the classes. -/
def contains (g : Graph) (name : String) : Bool := g.targets.contains name

/-- The classes that `name` has an edge to. -/
def subtypes (g : Graph) (name : String) : NameSet := (g.targets.get? name).getD ∅

/-- The classes that have an edge to `name`. -/
def supertypes (g : Graph) (name : String) : NameSet :=
  g.names.filter fun source => name ∈ g.subtypes source

/-! ### Topological order -/

/-- Whether no class in `waiting` has an edge to `name`. -/
def isFree (g : Graph) (waiting : List String) (name : String) : Bool :=
  waiting.all fun other => name ∉ g.subtypes other

/-- The classes in `waiting` in an order that puts each of them after its supertypes there;
none if some of them wait for each other. -/
def sortFrom (g : Graph) (waiting : List String) : Option (List String) :=
  match _h : waiting.find? (g.isFree waiting) with
  | some name => (sortFrom g (waiting.erase name)).map (name :: ·)
  | none => if waiting.isEmpty then some [] else none
termination_by waiting.length
decreasing_by
  have hmem := List.mem_of_find?_eq_some _h
  have hpos := List.length_pos_of_mem hmem
  rw [List.length_erase_of_mem hmem]
  omega

/-- The classes in an order that puts each one after its supertypes, if there is one. -/
def sort? (g : Graph) : Option (List String) := g.sortFrom g.names.toList

/-- Whether `order` has every class once and each one before its subtypes. -/
def isTopological (g : Graph) (order : List String) : Bool :=
  order.mergeSort (· ≤ ·) = g.names.toList &&
    order.all fun name => (g.subtypes name).toList.all fun child =>
      order.idxOf name < order.idxOf child

end Graph

end Lineage
