import Lineage.Adjacency
import Mathlib.Logic.Relation

/-!
# What a search reaches

The search of an `Adjacency` reaches a name exactly when a chain of successors leads there
from the start (`mem_reach_iff`).  No chain is lost: the names that have been looked at,
together with those still in the queue, are closed under successors at every moment of the
search, and in the end the queue is empty.

So what a search reaches depends on the chains only: a map that carries the successors of
every name to the successors of its image carries what is reached from a name to what is
reached from its image (`reach_map`).
-/

namespace Lineage

/-- What a chain leads to depends on the relation at the ends of chains only. -/
theorem reflTransGen_congr {α : Type} {r q : α → α → Prop} {a b : α}
    (hagree : ∀ {x y}, Relation.ReflTransGen r a x → (r x y ↔ q x y)) :
  Relation.ReflTransGen r a b ↔ Relation.ReflTransGen q a b
  := by
  constructor
  · intro h
    induction h with
    | refl => apply Relation.ReflTransGen.refl
    | tail hchain hlast ih => apply ih.tail ((hagree hchain).mp hlast)
  · intro h
    induction h with
    | refl => apply Relation.ReflTransGen.refl
    | tail _ hlast ih => apply ih.tail ((hagree ih).mpr hlast)

/-! ### Images of sets -/

namespace NameSet

variable {f : String → String} {names : NameSet} {a : String}

/-- The names that the members of a set become, as a set. -/
def image (f : String → String) (names : NameSet) : NameSet :=
  ofList (names.toList.map f)

@[simp]
theorem mem_image :
  a ∈ names.image f ↔ ∃ b ∈ names, f b = a
  := by
  rw [image, mem_ofList, List.mem_map]
  rfl

/-- The images that are kept are those of the members that are kept. -/
theorem filter_image {keep keep' : String → Bool}
    (hkeep : ∀ b ∈ names, keep' (f b) = keep b) :
  (names.image f).filter keep' = (names.filter keep).image f
  := by
  ext a
  simp only [mem_filter, mem_image]
  constructor
  · rintro ⟨⟨b, hb, rfl⟩, hkept⟩
    rw [hkeep b hb] at hkept
    exact ⟨b, ⟨hb, hkept⟩, rfl⟩
  · rintro ⟨b, ⟨hb, hkept⟩, rfl⟩
    rw [← hkeep b hb] at hkept
    exact ⟨⟨b, hb, rfl⟩, hkept⟩

/-- The images without one that no other member has are those of the other members. -/
theorem erase_image (ha : ∀ b ∈ names, f b = f a ↔ b = a) :
  (names.image f).erase (f a) = (names.erase a).image f
  := by
  apply filter_image
  intro b hb
  simp only [ne_eq, ha b hb]

end NameSet

namespace Adjacency

/-- An adjacency is determined by the successors it gives. -/
theorem ext {a b : Adjacency} (h : ∀ name, a.next name = b.next name) :
  a = b
  := by
  have hnext : a.next = b.next := funext h
  cases a
  cases b
  congr

/-- The link from a name to one of its successors. -/
def Step (a : Adjacency) (source target : String) : Prop := target ∈ a.next source

/-! ### Discovery -/

/-- The set after a discovery has what it had before and the names of the list. -/
theorem mem_discover_snd {reached : NameSet} {names : List String} {name : String} :
  name ∈ (discover reached names).2 ↔ name ∈ reached ∨ name ∈ names
  := by
  induction names generalizing reached with
  | nil => simp [discover]
  | cons head tail ih =>
    rw [discover, List.mem_cons]
    split
    · rename_i hin
      rw [ih]
      constructor
      · rintro (h | h)
        · apply Or.inl h
        · apply Or.inr (Or.inr h)
      · rintro (h | rfl | h)
        · apply Or.inl h
        · apply Or.inl hin
        · apply Or.inr h
    · rw [ih, NameSet.mem_insert, or_assoc, or_left_comm]

/-- A name of the list that the set did not have is discovered. -/
theorem mem_discover_fst {reached : NameSet} {names : List String} {name : String}
    (hin : name ∈ names) (hout : name ∉ reached) :
  name ∈ (discover reached names).1
  := by
  induction names generalizing reached with
  | nil => exact absurd hin List.not_mem_nil
  | cons head tail ih =>
    rw [discover]
    rcases List.mem_cons.mp hin with rfl | hin
    · rw [if_neg hout]
      apply List.mem_cons_self
    · split
      · apply ih hin hout
      · by_cases e : name = head
        · subst e
          apply List.mem_cons_self
        · apply List.mem_cons_of_mem
          apply ih hin
          rw [NameSet.mem_insert]
          rintro (h | h)
          · exact e h
          · exact hout h

/-! ### Soundness -/

/-- Every name that is looked at lies on a chain from the queue. -/
theorem exists_chain_of_mem_explore {a : Adjacency} {reached : NameSet}
    {queue : List String} {name : String} (h : name ∈ a.explore reached queue) :
  ∃ source ∈ queue, Relation.ReflTransGen a.Step source name
  := by
  fun_induction explore a reached queue with
  | case1 => exact absurd h List.not_mem_nil
  | case2 reached current queue found ih =>
    rcases List.mem_cons.mp h with rfl | h
    · exact ⟨name, List.mem_cons_self, Relation.ReflTransGen.refl⟩
    · obtain ⟨source, hsource, hchain⟩ := ih h
      rcases List.mem_append.mp hsource with hsource | hsource
      · exact ⟨source, List.mem_cons_of_mem _ hsource, hchain⟩
      · use current, List.mem_cons_self
        apply Relation.ReflTransGen.head _ hchain
        apply mem_of_mem_discover hsource

/-! ### Completeness -/

theorem mem_explore_of_mem_queue {a : Adjacency} {reached : NameSet}
    {queue : List String} {name : String} (h : name ∈ queue) :
  name ∈ a.explore reached queue
  := by
  fun_induction explore a reached queue with
  | case1 => exact absurd h List.not_mem_nil
  | case2 reached current queue found ih =>
    rcases List.mem_cons.mp h with rfl | h
    · apply List.mem_cons_self
    · apply List.mem_cons_of_mem
      apply ih (List.mem_append_left _ h)

/-- Let every name come upon be finished or in the queue, and let the successors of the
finished names have been come upon.  Then the names that are finished or will be looked at
are closed under successors. -/
theorem explore_closed {a : Adjacency} {reached : NameSet} {queue : List String}
    (finished : String → Prop)
    (hreached : ∀ name ∈ reached, finished name ∨ name ∈ queue)
    (hfinished : ∀ name, finished name → ∀ target ∈ a.next name, target ∈ reached)
    {source target : String} (hsource : finished source ∨ source ∈ a.explore reached queue)
    (hstep : a.Step source target) :
  finished target ∨ target ∈ a.explore reached queue
  := by
  fun_induction explore a reached queue generalizing finished with
  | case1 reached =>
    rcases hsource with hsource | hsource
    · apply (hreached target (hfinished source hsource target hstep)).imp id
      intro h
      exact absurd h List.not_mem_nil
    · exact absurd hsource List.not_mem_nil
  | case2 reached current queue found =>
    rename_i ih
    -- the invariant after `current` has been looked at, which makes it a finished name
    have key := ih (fun name => finished name ∨ name = current)
      (by
        intro name hname
        by_cases hin : name ∈ reached
        · rcases hreached name hin with h | h
          · apply Or.inl (Or.inl h)
          · rcases List.mem_cons.mp h with rfl | h
            · apply Or.inl (Or.inr rfl)
            · apply Or.inr (List.mem_append_left _ h)
        · rcases mem_discover_snd.mp hname with h | h
          · exact absurd h hin
          · apply Or.inr (List.mem_append_right _ (mem_discover_fst h hin)))
      (by
        rintro name (hname | rfl) target htarget
        · apply mem_discover_snd.mpr (Or.inl (hfinished name hname target htarget))
        · apply mem_discover_snd.mpr (Or.inr htarget))
    rw [List.mem_cons, ← or_assoc] at hsource ⊢
    apply key hsource

/-- The names that a search reaches are those that chains of successors lead to. -/
theorem mem_reach_iff {a : Adjacency} {start name : String} :
  name ∈ a.reach start ↔ Relation.ReflTransGen a.Step start name
  := by
  rw [reach, NameSet.mem_ofList, visits]
  constructor
  · intro h
    obtain ⟨source, hsource, hchain⟩ := exists_chain_of_mem_explore h
    rw [List.mem_singleton.mp hsource] at hchain
    apply hchain
  · intro h
    induction h with
    | refl => apply mem_explore_of_mem_queue List.mem_cons_self
    | tail _ hstep ih =>
      -- nothing is finished when the search begins
      apply (explore_closed (fun _ => False) _ _ (Or.inr ih) hstep).resolve_left id
      · intro name hname
        rw [NameSet.mem_insert] at hname
        apply Or.inr (List.mem_singleton.mpr (hname.resolve_right (NameSet.not_mem_empty name)))
      · intro _ h
        exact absurd h id

/-! ### Searches along a map -/

section Map

variable {a b : Adjacency} {f : String → String} {start name : String}

/-- A search does not leave what is closed under successors. -/
theorem mem_of_mem_reach (domain : String → Prop)
    (hclosed : ∀ {source target}, domain source → a.Step source target → domain target)
    (hstart : domain start) (h : name ∈ a.reach start) :
  domain name
  := by
  rw [mem_reach_iff] at h
  induction h with
  | refl => apply hstart
  | tail _ hstep ih => apply hclosed ih hstep

/-- Let a map carry the successors of every name to the successors of its image.  Then it
carries the names that a search reaches to those that the search from the image reaches. -/
theorem reach_map (domain : String → Prop)
    (hclosed : ∀ {source target}, domain source → a.Step source target → domain target)
    (hstep : ∀ {source image}, domain source →
      (b.Step (f source) image ↔ ∃ target, a.Step source target ∧ f target = image))
    (hstart : domain start) :
  b.reach (f start) = (a.reach start).image f
  := by
  ext name
  rw [NameSet.mem_image]
  constructor
  · intro h
    rw [mem_reach_iff] at h
    induction h with
    | refl => exact ⟨start, mem_reach_iff.mpr Relation.ReflTransGen.refl, rfl⟩
    | tail _ hlast ih =>
      obtain ⟨source, hsource, rfl⟩ := ih
      have hdomain := mem_of_mem_reach domain hclosed hstart hsource
      obtain ⟨target, htarget, rfl⟩ := (hstep hdomain).mp hlast
      refine ⟨target, ?_, rfl⟩
      rw [mem_reach_iff] at hsource ⊢
      apply hsource.tail htarget
  · rintro ⟨target, htarget, rfl⟩
    rw [mem_reach_iff] at htarget ⊢
    induction htarget with
    | refl => apply Relation.ReflTransGen.refl
    | tail hchain hlast ih =>
      have hdomain := mem_of_mem_reach domain hclosed hstart (mem_reach_iff.mpr hchain)
      apply ih.tail
      apply (hstep hdomain).mpr
      exact ⟨_, hlast, rfl⟩

end Map

end Adjacency

end Lineage
