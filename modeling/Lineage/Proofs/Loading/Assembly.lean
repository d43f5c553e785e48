import Lineage.Proofs.Diff
import Lineage.Proofs.Loading
import Mathlib.Data.Finset.Card

/-!
# Loading is assembling

The classes of the workspace files are entered one by one, each of them checked, and those
that take the place of an earlier class of their name are counted.  All the same a session
that is loaded is the one begun with all these classes at once, the last definition of each
name counting, but for the number of edits, which is the number of classes; and each class is
either the first of its name or counted as a redefinition (`build_assembles`).
-/

namespace Lineage

/-- The names that some definitions have between them, each of them once. -/
def distinctNames (descriptors : List Descriptor) : Finset String :=
  (descriptors.map Descriptor.name).toFinset

section DistinctNames

variable {ds : List Descriptor} {d : Descriptor} {name : String}

theorem mem_distinctNames :
  name ∈ distinctNames ds ↔ ∃ d ∈ ds, d.name = name
  := by
  rw [distinctNames, List.mem_toFinset, List.mem_map]

theorem distinctNames_append_singleton (ds : List Descriptor) (d : Descriptor) :
  distinctNames (ds ++ [d]) = insert d.name (distinctNames ds)
  := by
  ext name
  rw [distinctNames, distinctNames, List.map_append, List.toFinset_append]
  simp

/-- Exactly the names of the definitions have a last definition. -/
theorem contains_lastDefinitions (ds : List Descriptor) (name : String) :
  (lastDefinitions ds).contains name ↔ name ∈ distinctNames ds
  := by
  rw [NameMap.contains, get?_lastDefinitions, List.find?_isSome, mem_distinctNames]
  simp

theorem size_lastDefinitions (ds : List Descriptor) :
  (lastDefinitions ds).size = (distinctNames ds).card
  := by
  have hkeys : (lastDefinitions ds).keys.toList.toFinset = distinctNames ds := by
    ext name
    rw [List.mem_toFinset, NameSet.mem_toList, NameMap.mem_keys, contains_lastDefinitions]
  rw [← hkeys, List.toFinset_card_of_nodup (NameSet.nodup _)]
  apply NameMap.size_keys.symm

end DistinctNames

namespace Session

/-- The session begun with some classes at once, but for the number of edits, which is that of
the classes. -/
def assembled (classPath : ClassPath) (options : Options) (classes : List Descriptor) :
    Session :=
  { start (Workspace.ofDescriptors classes) classPath options with
    sequence := UInt64.ofNat classes.length }

variable {classPath : ClassPath} {options : Options} {classes : List Descriptor}
variable {d : Descriptor} {diff : Diff} {t : Session}

/-- Putting one more class into an assembled session assembles it with the others. -/
theorem put_assembled (h : (assembled classPath options classes).put d = .ok (diff, t)) :
  t = assembled classPath options (classes ++ [d])
  := by
  obtain ⟨-, -, rfl⟩ := put_eq_ok_iff.mp h
  have hworkspace : Workspace.ofDescriptors (classes ++ [d])
      = (Workspace.ofDescriptors classes).insert d := by
    apply List.foldl_concat
  have hlength : UInt64.ofNat (classes ++ [d]).length = UInt64.ofNat classes.length + 1 := by
    rw [List.length_append, List.length_singleton, UInt64.ofNat_add]
    rfl
  rw [assembled, assembled, hworkspace, hlength]
  rfl

/-- The diff tells of an added class exactly if there was none of the name before. -/
theorem isEmpty_addedClasses_put_assembled
    (h : (assembled classPath options classes).put d = .ok (diff, t)) :
  diff.addedClasses.isEmpty ↔ d.name ∈ distinctNames classes
  := by
  obtain ⟨-, rfl, -⟩ := put_eq_ok_iff.mp h
  have hlookup : (assembled classPath options classes).workspace.lookup d.name
      = (lastDefinitions classes).get? d.name := by
    rw [← Workspace.classes_ofDescriptors]
    rfl
  rw [← contains_lastDefinitions, NameMap.contains, Diff.addedClasses_record, hlookup]
  cases e : (lastDefinitions classes).get? d.name with
  | none => simp
  | some old =>
    have hname : old.name = d.name := named_lastDefinitions classes e
    simp [hname, Session.advance, Diff.ofSequence]

end Session

namespace Loaded

/-- Loading has come to the session assembled of some classes, each of which is the first of
its name or is counted as a redefinition. -/
structure Assembles (l : Loaded) (classPath : ClassPath) (options : Options)
    (classes : List Descriptor) : Prop where
  session : l.session = Session.assembled classPath options classes
  redefined : (distinctNames classes).card + l.redefined = classes.length

variable {l m : Loaded} {classPath : ClassPath} {options : Options}
variable {classes descriptors : List Descriptor} {d : Descriptor} {files : Files}
variable {path : String}

theorem assembles_start (classPath : ClassPath) (options : Options) :
  Assembles ⟨Session.start ∅ classPath options, 0⟩ classPath options []
  := ⟨rfl, rfl⟩

theorem Assembles.addClass (hl : l.Assembles classPath options classes)
    (h : l.addClass path d = .ok m) :
  m.Assembles classPath options (classes ++ [d])
  := by
  rw [Loaded.addClass, hl.session] at h
  split at h
  · cases h
  · rename_i diff t hput
    obtain rfl := Except.ok.inj h
    refine ⟨Session.put_assembled hput, ?_⟩
    have hadded := Session.isEmpty_addedClasses_put_assembled hput
    have hcount := hl.redefined
    rw [distinctNames_append_singleton, List.length_append, List.length_singleton]
    by_cases hd : d.name ∈ distinctNames classes
    · rw [Finset.insert_eq_of_mem hd, if_pos (hadded.mpr hd), ← hcount]
      rfl
    · rw [Finset.card_insert_of_notMem hd, if_neg (fun h => hd (hadded.mp h)), ← hcount]
      apply Nat.add_right_comm

theorem Assembles.addClasses (hl : l.Assembles classPath options classes)
    (h : descriptors.foldlM (Loaded.addClass path) l = .ok m) :
  m.Assembles classPath options (classes ++ descriptors)
  := by
  induction descriptors generalizing l classes with
  | nil =>
    obtain rfl := Except.ok.inj h
    rw [List.append_nil]
    apply hl
  | cons d rest ih =>
    rw [List.foldlM_cons] at h
    obtain ⟨k, hk, h⟩ := Text.bind_eq_ok.mp h
    rw [List.append_cons]
    apply ih (hl.addClass hk) h

/-- Loading files one after the other assembles the classes of all of them. -/
theorem Assembles.addFiles (hl : l.Assembles classPath options classes) {paths : List String}
    (h : paths.foldlM (Loaded.addFile files) l = .ok m) :
  ∃ lists, paths.mapM (readDescriptors files) = .ok lists
    ∧ m.Assembles classPath options (classes ++ lists.flatten)
  := by
  induction paths generalizing l classes with
  | nil =>
    obtain rfl := Except.ok.inj h
    use [], rfl
    rw [List.flatten_nil, List.append_nil]
    apply hl
  | cons path rest ih =>
    rw [List.foldlM_cons] at h
    obtain ⟨k, hk, h⟩ := Text.bind_eq_ok.mp h
    obtain ⟨descriptors, hread, hk⟩ := Text.bind_eq_ok.mp hk
    obtain ⟨lists, hlists, hm⟩ := ih (hl.addClasses hk) h
    use descriptors :: lists
    constructor
    · rw [List.mapM_cons, hread, hlists]
      rfl
    · rw [List.flatten_cons, ← List.append_assoc]
      apply hm

end Loaded

/-- Let `path` be the platform classes, if they are asked for, and after them the classes of
the class path's files, and `classes` those of the workspace's files, each in their order.  A
session that is loaded is the one begun with the workspace that `classes` make and the class
path that `path` make, with the settings of the configuration and nothing registered, but for
its number of edits, which is the number of `classes`.  The counts are the numbers of names
that `classes` and `path` have, and of those `classes` whose name came before. -/
theorem build_assembles {files : Files} {config : Config} {l : Loaded}
    (h : config.build files = .ok l) :
  ∃ runtime workspace, config.runtimeClasses.mapM (readDescriptors files) = .ok runtime
    ∧ config.workspaceClasses.mapM (readDescriptors files) = .ok workspace
    ∧ let path := (if config.platform then platformClasses else []) ++ runtime.flatten
      let classes := workspace.flatten
      l.session = { Session.start (Workspace.ofDescriptors classes)
          (ClassPath.ofDescriptors path) config.options with
        sequence := UInt64.ofNat classes.length }
      ∧ l.session.tracked = ∅
      ∧ l.summary.workspaceClasses = (classes.map Descriptor.name).toFinset.card
      ∧ l.summary.runtimeClasses = (path.map Descriptor.name).toFinset.card
      ∧ l.summary.workspaceClasses + l.summary.redefined = classes.length
  := by
  obtain ⟨runtime, hruntime, h⟩ := Text.bind_eq_ok.mp h
  obtain ⟨workspace, hworkspace, hl⟩ := (Loaded.assembles_start _ _).addFiles h
  rw [List.nil_append] at hl
  refine ⟨runtime, workspace, hruntime, hworkspace, ?_⟩
  intro path classes
  have hsession : l.session
      = Session.assembled (ClassPath.ofDescriptors path) config.options classes := hl.session
  have hworkspace : l.summary.workspaceClasses = (distinctNames classes).card := by
    rw [Loaded.summary, hsession, ← size_lastDefinitions, ← Workspace.classes_ofDescriptors]
    rfl
  have hruntime : l.summary.runtimeClasses = (distinctNames path).card := by
    rw [Loaded.summary, hsession, ← size_lastDefinitions]
    rfl
  refine ⟨hsession, ?_, hworkspace, hruntime, ?_⟩
  · rw [hsession]
    rfl
  · rw [hworkspace]
    apply hl.redefined

/-- Three files: the second one of the workspace defines a class of the first one again, and
that of the class path defines one of the platform's. -/
theorem build_assembles_redefined :
  let files : Files := ⟨fun path =>
      if path = "a.json" then .ok "[[\"A\", \"R\"], [\"B\", null, [\"A\", \"A\"]]]"
      else if path = "b.json" then .ok "[[\"A\"]]"
      else if path = "lib.json" then .ok "[[\"R\"], [\"java/lang/Runnable\", \"R\"]]"
      else .error .notFound, fun _ => true⟩
  let config : Config := ⟨["a.json", "b.json"], true, ["lib.json"], false⟩
  ∃ l, config.build files = .ok l
    ∧ l.session = { Session.start
          (Workspace.ofDescriptors [⟨"A", some "R", []⟩, ⟨"B", none, ["A", "A"]⟩, ⟨"A", none, []⟩])
          (ClassPath.ofDescriptors (platformClasses
            ++ [⟨"R", none, []⟩, ⟨"java/lang/Runnable", some "R", []⟩])) config.options with
        sequence := 3 }
    ∧ l.summary.workspaceClasses = 2 ∧ l.summary.runtimeClasses = 33 ∧ l.summary.redefined = 1
  := by
  intro files config
  have hworkspace : (config.workspaceClasses.mapM (readDescriptors files)).toOption
      = some [[⟨"A", some "R", []⟩, ⟨"B", none, ["A", "A"]⟩], [⟨"A", none, []⟩]] := by
    decide +kernel
  have hruntime : (config.runtimeClasses.mapM (readDescriptors files)).toOption
      = some [[⟨"R", none, []⟩, ⟨"java/lang/Runnable", some "R", []⟩]] := by
    decide +kernel
  have hbuild : (config.build files).toOption.isSome := by
    decide +kernel
  cases hl : config.build files with
  | error error =>
    rw [hl] at hbuild
    cases hbuild
  | ok l =>
    obtain ⟨runtime, workspace, hruntime', hworkspace', hsession, -, hclasses, hpath, hcount⟩ :=
      build_assembles hl
    rw [hruntime'] at hruntime
    rw [hworkspace'] at hworkspace
    obtain rfl := Option.some.inj hruntime
    obtain rfl := Option.some.inj hworkspace
    have hdistinct : l.summary.workspaceClasses = 2 := by
      rw [hclasses]
      decide +kernel
    refine ⟨l, rfl, hsession, hdistinct, ?_, ?_⟩
    · rw [hpath]
      decide +kernel
    · rw [hdistinct] at hcount
      apply Nat.add_left_cancel hcount

end Lineage
