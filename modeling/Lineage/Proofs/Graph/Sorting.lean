import Lineage.Proofs.Graph
import Mathlib.Data.List.Sort
import Mathlib.Order.WellFoundedSet

/-!
# Topological sorting

A function `Sorts` graphs when it gives an order with every class once and before its
subtypes, and gives none exactly for the graphs in which some edges close a cycle.  It is
free to choose among the orders of a graph.  Taking, over and over, a class to which no
waiting class has an edge is such a function (`sorts_sort?`): it is stuck only among classes
each of which has an edge from another one there, and finitely many of these close a cycle
(`cyclic_of_forall_link`).
-/

namespace Lineage.Graph

/-- Some edges close a cycle. -/
def Cyclic (g : Graph) : Prop := ∃ name, Relation.TransGen g.Link name name

/-- A function gives a topological order of every graph that has one. -/
structure Sorts (sort : Graph → Option (List String)) : Prop where
  /-- There is no order exactly if some edges close a cycle. -/
  eq_none_iff : ∀ g, sort g = none ↔ g.Cyclic
  /-- An order has every class once and each one before its subtypes. -/
  isTopological : ∀ {g order}, sort g = some order → g.isTopological order

variable {g : Graph} {order waiting : List String} {name source target : String}

/-! ### Topological orders -/

/-- The classes in any order, once put in order, are the list of the classes. -/
theorem mergeSort_eq_names_iff :
  order.mergeSort (· ≤ ·) = g.names.toList ↔ order.Perm g.names.toList
  := by
  constructor
  · intro h
    rw [← h]
    apply (List.mergeSort_perm order _).symm
  · intro h
    have hnames : g.names.toList.Pairwise (· ≤ ·) :=
      g.names.ascending.imp fun hlt => String.not_lt.mp (String.lt_asymm hlt)
    have horder := List.pairwise_mergeSort' (· ≤ ·) order
    apply ((List.mergeSort_perm order _).trans h).eq_of_pairwise' horder hnames

theorem isTopological_iff :
  g.isTopological order
    ↔ order.Perm g.names.toList
      ∧ ∀ source ∈ order, ∀ target, g.Link source target →
          order.idxOf source < order.idxOf target
  := by
  rw [isTopological, Bool.and_eq_true, decide_eq_true_eq, mergeSort_eq_names_iff,
    List.all_eq_true]
  simp only [List.all_eq_true, decide_eq_true_eq]
  rfl

/-- In a topological order a class comes before all that a chain of edges leads to. -/
theorem idxOf_lt_of_transGen (h : g.isTopological order)
    (hchain : Relation.TransGen g.Link source target) :
  order.idxOf source < order.idxOf target
  := by
  obtain ⟨hperm, horder⟩ := isTopological_iff.mp h
  have hlink : ∀ {a b}, g.Link a b → order.idxOf a < order.idxOf b := by
    intro a b hab
    apply horder a (hperm.mem_iff.mpr (mem_names_of_link hab)) b hab
  induction hchain with
  | single hab => apply hlink hab
  | tail _ hbc ih => apply ih.trans (hlink hbc)

/-- A graph with a topological order has no cycle. -/
theorem not_cyclic_of_isTopological (h : g.isTopological order) :
  ¬ g.Cyclic
  := by
  rintro ⟨name, hcycle⟩
  apply Nat.lt_irrefl _ (idxOf_lt_of_transGen h hcycle)

/-! ### Sorting by free classes -/

theorem isFree_iff :
  g.isFree waiting name ↔ ∀ other ∈ waiting, ¬ g.Link other name
  := by
  rw [isFree, List.all_eq_true]
  simp only [decide_eq_true_eq]
  rfl

/-- If each of some classes has an edge from one of them, the edges close a cycle. -/
theorem cyclic_of_forall_link (hne : waiting ≠ [])
    (h : ∀ name ∈ waiting, ∃ other ∈ waiting, g.Link other name) :
  g.Cyclic
  := by
  by_contra hacyclic
  -- without a cycle the chains of edges among finitely many classes are well-founded
  have : Std.Irrefl (Relation.TransGen g.Link) := ⟨fun name h => hacyclic ⟨name, h⟩⟩
  have : IsStrictOrder String (Relation.TransGen g.Link) := {}
  have hwf : {name | name ∈ waiting}.WellFoundedOn (Relation.TransGen g.Link) :=
    (List.finite_toSet waiting).wellFoundedOn
  obtain ⟨head, hhead⟩ := List.exists_mem_of_ne_nil waiting hne
  apply hwf.induction (P := fun _ => False) hhead
  intro name hname ih
  obtain ⟨other, hother, hlink⟩ := h name hname
  apply ih other hother (Relation.TransGen.single hlink)

/-- An order that is found has the waiting classes, each after those with an edge to it. -/
theorem sortFrom_eq_some (h : g.sortFrom waiting = some order) :
  order.Perm waiting
    ∧ ∀ source ∈ order, ∀ target, g.Link source target →
        order.idxOf source < order.idxOf target
  := by
  fun_induction sortFrom g waiting generalizing order with
  | case1 waiting name hfind ih =>
    obtain ⟨rest, hrest, rfl⟩ := Option.map_eq_some_iff.mp h
    obtain ⟨hperm, horder⟩ := ih hrest
    have hname : name ∈ waiting := List.mem_of_find?_eq_some hfind
    have hfree := isFree_iff.mp (List.find?_some hfind)
    have hall : (name :: rest).Perm waiting :=
      (hperm.cons name).trans (List.perm_cons_erase hname).symm
    use hall
    intro source hsource target hlink
    have htarget : name ≠ target := by
      rintro rfl
      exact hfree source (hall.mem_iff.mp hsource) hlink
    rw [List.idxOf_cons_ne _ htarget]
    by_cases hne : name = source
    · rw [hne, List.idxOf_cons_self]
      apply Nat.succ_pos
    · rw [List.idxOf_cons_ne _ hne]
      apply Nat.succ_lt_succ
      apply horder source _ target hlink
      apply (List.mem_cons.mp hsource).resolve_left (Ne.symm hne)
  | case2 waiting hfind hempty =>
    obtain rfl := Option.some.inj h
    rw [List.isEmpty_iff.mp hempty]
    constructor
    · apply List.Perm.refl
    · intro source hsource
      exact absurd hsource List.not_mem_nil
  | case3 waiting hfind hempty => exact absurd h (Option.some_ne_none order).symm

/-- If no order is found, some edges close a cycle. -/
theorem cyclic_of_sortFrom_eq_none (h : g.sortFrom waiting = none) :
  g.Cyclic
  := by
  fun_induction sortFrom g waiting with
  | case1 waiting name hfind ih => apply ih (Option.map_eq_none_iff.mp h)
  | case2 waiting hfind hempty => exact absurd h (Option.some_ne_none [])
  | case3 waiting hfind hempty =>
    have hne : waiting ≠ [] := mt List.isEmpty_iff.mpr hempty
    apply cyclic_of_forall_link hne
    intro name hname
    by_contra hnone
    apply List.find?_eq_none.mp hfind name hname
    apply isFree_iff.mpr
    intro other hother hlink
    exact hnone ⟨other, hother, hlink⟩

/-- Sorting by free classes gives a topological order of every graph that has one. -/
theorem sorts_sort? :
  Sorts sort?
  := by
  have hsome : ∀ {g : Graph} {order}, g.sort? = some order → g.isTopological order := by
    intro g order h
    apply isTopological_iff.mpr (sortFrom_eq_some h)
  constructor
  case isTopological => apply hsome
  case eq_none_iff =>
    intro g
    constructor
    · apply cyclic_of_sortFrom_eq_none
    · intro hcyclic
      apply Option.eq_none_iff_forall_ne_some.mpr
      intro order h
      apply not_cyclic_of_isTopological (hsome h) hcyclic

end Lineage.Graph
