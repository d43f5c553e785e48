import Lineage.Proofs.Hierarchy.Ancestry
import Lineage.Proofs.Session.Worklist

/-!
# Every search ends

The searches for what lies above a name, for what lies below it and for its family are loops
over a queue of names, and a walk is one over a queue of vertices.  They differ in what they
mark: the first two mark what they find or have visited, and pass over their start without
marking it; the third has its start among its members from the beginning, if that resolves; and
a walk enters its start into the graph.

In every session, however its classes run in circles, each of the four ends with an empty
queue, has had no name in it twice, and has found what the hierarchy answers
(`searches_end`).
-/

namespace Lineage

namespace Search.State

/-- A search begun at a name that is not marked. -/
def unmarked (start : String) : State := ⟨∅, ∅, [start]⟩

/-- A search begun at a name that is marked, and a result. -/
def marking (start : String) : State :=
  ⟨(∅ : NameSet).insert start, (∅ : NameSet).insert start, [start]⟩

/-- A search that has nothing to look at. -/
def idle : State := ⟨∅, ∅, []⟩

end Search.State

namespace Hierarchy

variable (h : Hierarchy) (name : String)

/-- The search for the supertypes of a name, which finds all that it comes upon but its
start. -/
def searchAbove : Search := ⟨h.supertypes, (· = name), fun _ => true⟩

/-- The search for the descendants of a name, which comes upon all subtypes but its start, and
finds those that are reported. -/
def searchBelow : Search := ⟨h.subtypes, (· = name), h.isReported⟩

/-- The search for the family of a name, which finds all that it comes upon. -/
def searchKin : Search := ⟨h.relatives name, fun _ => false, fun _ => true⟩

/-- The state in which the search for the family of a name begins. -/
def kinBegun : Search.State := if h.resolves name then .marking name else .idle

/-- A search that passes over its start ends with what else can be reached and is reported. -/
theorem ends_unmarked (a : Adjacency) (reports : String → Bool) :
  (Search.mk a.next (· = name) reports).loop.Ends (.unmarked name)
    fun w => w.found = ((a.reach name).erase name).filter reports
  := by
  have hsettled : (Search.mk a.next (· = name) reports).Settled name ∅ (.unmarked name) := by
    constructor
    case skips => exact of_decide_eq_true
    case guarded => exact Or.inl (decide_eq_true rfl)
    case mem_found =>
      intro b
      simp [Search.State.unmarked]
  have hends := hsettled.ends (a := a) rfl (fun b hb => absurd hb (NameSet.not_mem_empty b)) rfl
  apply hends.imp
  intro w hw
  ext b
  rw [hw b, or_iff_right (NameSet.not_mem_empty b), NameSet.mem_filter, NameSet.mem_erase,
    and_assoc]

theorem ends_searchAbove :
  (h.searchAbove name).loop.Ends (.unmarked name) fun w => w.found = h.allSupertypes name
  := by
  apply (ends_unmarked name h.upward fun _ => true).imp
  intro w hw
  rw [hw, allSupertypes]
  ext b
  simp

theorem ends_searchBelow :
  (h.searchBelow name).loop.Ends (.unmarked name) fun w => w.found = h.descendants name
  := ends_unmarked name h.downward h.isReported

theorem ends_searchKin :
  (h.searchKin name).loop.Ends (h.kinBegun name) fun w => w.found = h.family name
  := by
  rw [kinBegun, family]
  split
  · have hsettled : (h.searchKin name).Settled name ((∅ : NameSet).insert name)
        (.marking name) := by
      constructor
      case skips => exact fun hskips => absurd hskips Bool.false_ne_true
      case guarded => exact Or.inr (NameSet.mem_insert.mpr (Or.inl rfl))
      case mem_found =>
        intro b
        simp [Search.State.marking]
        tauto
    have hends := hsettled.ends (a := h.kinship name) rfl (by simp [Search.State.marking]) rfl
    apply hends.imp
    intro w hw
    ext b
    rw [hw b, NameSet.mem_insert, or_iff_left (NameSet.not_mem_empty b)]
    -- the start is reached in any case
    have hstart : b = name → b ∈ (h.kinship name).reach name := by
      rintro rfl
      apply Adjacency.mem_reach_iff.mpr Relation.ReflTransGen.refl
    constructor
    · rintro (hb | ⟨hb, -⟩)
      · apply hstart hb
      · apply hb
    · intro hb
      by_cases e : b = name
      · exact Or.inl e
      · exact Or.inr ⟨hb, e, rfl⟩
  · have hqueue : (h.searchKin name).loop.queue .idle = [] := rfl
    apply QueueLoop.ends_of_queue_eq_nil hqueue
    rfl

end Hierarchy

namespace Session

variable {s : Session}

/-- In every session that can come about, the searches for the supertypes, the descendants and
the family of any name, and the walk from any vertex, one of the session or one that no one else
has, end: whatever turns they take, they come to an empty queue, after a bounded number of turns,
and no name is put into the queue twice.  What they have found by then is what the hierarchy
answers. -/
theorem searches_end (hs : s.Reachable) :
  (∀ name, (s.hierarchy.searchAbove name).loop.Ends (.unmarked name)
    fun w => w.found = s.hierarchy.allSupertypes name)
  ∧ (∀ name, (s.hierarchy.searchBelow name).loop.Ends (.unmarked name)
    fun w => w.found = s.hierarchy.descendants name)
  ∧ (∀ name, (s.hierarchy.searchKin name).loop.Ends (s.hierarchy.kinBegun name)
    fun w => w.found = s.hierarchy.family name)
  ∧ ∀ start, s.Known start → s.walkLoop.Ends (s.begun start)
    fun w => w.graph = Graph.walk s.hierarchy (s.endName start)
  := by
  refine ⟨s.hierarchy.ends_searchAbove, s.hierarchy.ends_searchBelow,
    s.hierarchy.ends_searchKin, ?_⟩
  intro start hstart
  apply (hs.sound.ends_walkLoop hstart).imp
  rintro w ⟨-, hgraph⟩
  apply hgraph

/-- A class of the workspace that lists itself and is in a cycle with one of the class path: the
search below it passes over its start, which it comes upon twice, and the walk from it comes to
both classes. -/
theorem searches_end_cycle :
  let s := (start (Workspace.ofDescriptors [⟨"A", some "R", ["A"]⟩])
      (ClassPath.ofDescriptors [⟨"R", some "A", []⟩]) Options.default).run [.register "A"]
  "A" ∈ s.hierarchy.subtypes "A" ∧ "A" ∈ s.hierarchy.subtypes "R"
    ∧ (∃ n entered w, (s.hierarchy.searchBelow "A").loop.Course (.unmarked "A") n entered w
      ∧ w.queue = [] ∧ entered.Nodup ∧ w.found = s.hierarchy.descendants "A")
    ∧ ∃ n entered w, s.walkLoop.Course (s.begun (.held ⟨0⟩)) n entered w
      ∧ w.queue = [] ∧ (entered.map s.endName).Nodup ∧ w.graph = Graph.walk s.hierarchy "A"
  := by
  intro s
  have hs : s.Reachable := (Reachable.opened (.start (Workspace.made_ofDescriptors _) _ _)).run _
  have hv : s.vertices.get? ⟨0⟩ = some ⟨"A", ⟨"A", some "R", ["A"]⟩⟩ := by decide
  have hknown : s.Known (.held ⟨0⟩) := by
    intro id hid
    obtain rfl := Endpoint.held.inj hid
    exact ⟨_, hv⟩
  obtain ⟨-, hbelow, -, hwalk⟩ := searches_end hs
  obtain ⟨m, added, w, hcourse, hqueue⟩ := (hbelow "A").ends .begin
  obtain ⟨m', added', w', hcourse', hqueue'⟩ := (hwalk _ hknown).ends .begin
  have hnodup := (hbelow "A").once hcourse
  have hgraph := (hwalk _ hknown).done hcourse' hqueue'
  change (List.map id _).Nodup at hnodup
  rw [List.map_id] at hnodup
  rw [endName_held hv] at hgraph
  refine ⟨by decide, by decide, ?_, ?_⟩
  · exact ⟨_, _, w, hcourse, hqueue, hnodup, (hbelow "A").done hcourse hqueue⟩
  · exact ⟨_, _, w', hcourse', hqueue', (hwalk _ hknown).once hcourse', hgraph⟩

end Session

end Lineage
