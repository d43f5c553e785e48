import Lineage.Hierarchy.Basic

/-!
# Ancestors, descendants and families

The queries that follow links over any distance, each a breadth-first search of
`Lineage.Adjacency`:

* `allSupertypes` goes up along declared supertypes, through names that resolve, and also
  lists the last, unresolved, names it meets;
* `descendants` goes down along subtypes of both sources and then keeps those to be reported;
* `family` goes both ways among names that resolve, but does not go through a class without
  a superclass other than its start, for otherwise every family would be everything.
-/

namespace Lineage.Hierarchy

/-- The declared supertypes as an adjacency. -/
def upward (h : Hierarchy) : Adjacency where
  next := h.supertypes
  bounded := ⟨h.declaredNames, fun _ _ => mem_declaredNames⟩

/-- The direct subtypes as an adjacency. -/
def downward (h : Hierarchy) : Adjacency where
  next := h.subtypes
  bounded := ⟨h.linkedNames, fun _ _ => mem_linkedNames⟩

/-- The names linked to `name` in the family of `start`: its supertypes that resolve and its
subtypes, but none for a class without a superclass that is not `start`. -/
def relatives (h : Hierarchy) (start name : String) : List String :=
  match h.resolve name with
  | none => []
  | some d =>
      if d.superName = none ∧ name ≠ start then []
      else h.knownSupertypes name ++ h.subtypes name

theorem mem_of_mem_relatives {h : Hierarchy} {start name relative : String}
    (hr : relative ∈ h.relatives start name) :
  relative ∈ h.supertypes name ∨ relative ∈ h.subtypes name
  := by
  rw [relatives] at hr
  split at hr
  · simp at hr
  · split at hr
    · simp at hr
    · exact (List.mem_append.mp hr).imp (fun hr => (List.mem_filter.mp hr).1) id

/-- The relatives in the family of `start` as an adjacency. -/
def kinship (h : Hierarchy) (start : String) : Adjacency where
  next := h.relatives start
  bounded := ⟨h.declaredNames ++ h.linkedNames, fun _ _ hr =>
    List.mem_append.mpr ((mem_of_mem_relatives hr).imp mem_declaredNames mem_linkedNames)⟩

/-- Every supertype of `name` over any number of links, resolved or not, without `name`. -/
def allSupertypes (h : Hierarchy) (name : String) : NameSet :=
  (h.upward.reach name).erase name

/-- Whether the descendants of a class list `name`. -/
def isReported (h : Hierarchy) (name : String) : Bool :=
  h.options.runtimeDescendants || h.workspace.contains name

/-- Every class to be reported below `name` over any number of links, without `name`. -/
def descendants (h : Hierarchy) (name : String) : NameSet :=
  ((h.downward.reach name).erase name).filter h.isReported

/-- Whether a value of the class `child` may stand where one of `parent` is expected. -/
def isSubtype (h : Hierarchy) (child parent : String) : Bool :=
  child = parent || parent ∈ h.allSupertypes child

/-- Every class joined to `name` by links in either direction, `name` included; none if
`name` does not resolve. -/
def family (h : Hierarchy) (name : String) : NameSet :=
  if h.resolves name then (h.kinship name).reach name else ∅

/-- The workspace classes with a supertype that does not resolve, and those supertypes. -/
def unresolved (h : Hierarchy) : List (String × List String) :=
  (h.workspace.names.toList.map fun name => (name, h.missingSupertypes name)).filter
    fun entry => !entry.2.isEmpty

/-! ### Neighbours in the graph of a hierarchy -/

/-- The names at the other end of the edges at `name`: its supertypes that resolve, and its
descendants that resolve. -/
def neighbours (h : Hierarchy) (name : String) : List String :=
  h.knownSupertypes name ++ (h.descendants name).toList.filter h.resolves

theorem mem_linkedNames_of_mem_descendants {h : Hierarchy} {name child : String}
    (hc : child ∈ h.descendants name) :
  child ∈ h.linkedNames
  := by
  obtain ⟨hc, hne⟩ := NameSet.mem_erase.mp (NameSet.mem_filter.mp hc).1
  rcases Adjacency.mem_reach_imp hc with e | ⟨source, hs⟩
  · exact absurd e hne
  · exact mem_linkedNames hs

/-- The neighbours as an adjacency. -/
def neighbourhood (h : Hierarchy) : Adjacency where
  next := h.neighbours
  bounded := ⟨h.declaredNames ++ h.linkedNames, fun _ _ hn =>
    List.mem_append.mpr ((List.mem_append.mp hn).imp
      (fun hn => mem_declaredNames (List.mem_filter.mp hn).1)
      (fun hn => mem_linkedNames_of_mem_descendants (List.mem_filter.mp hn).1))⟩

end Lineage.Hierarchy
