import Lineage.Loading
import Lineage.Proofs.Session.Edits

/-!
# Where loading stops

Loading takes steps, each of which can fail: the text of a file is fetched, it is read as a
list of descriptors, and each class of a workspace file is entered.  The steps for all files
stand in one list, in the order in which they are taken (`Config.loadSteps`), and whether a
step fails does not depend on the steps before it (`LoadStep.problem?`).

Loading fails exactly if one of its steps does, with the problem of the first one that fails
(`build_stops_at_first`).
-/

namespace Lineage

/-- A step of loading that can fail. -/
inductive LoadStep where
  /-- The text of the file at a path is fetched. -/
  | fetch (path : String)
  /-- The text of the file at a path is read as a list of descriptors. -/
  | interpret (path : String)
  /-- A class of the file at a path is entered into the workspace. -/
  | enter (path : String) (d : Descriptor)
deriving DecidableEq, Inhabited

/-- The problem with which a step fails, if it does. -/
def LoadStep.problem? (files : Files) : LoadStep → Option LoadError
  | .fetch path =>
      match files.read path with
      | .error cause => some (.access path cause)
      | .ok _ => none
  | .interpret path =>
      match (files.read path).map Descriptor.listOfText with
      | .ok (.error fault) => some (.descriptors path fault)
      | _ => none
  | .enter path d =>
      if d.declares d.name then some (.refused path (.selfInheritance d.name)) else none

/-- The classes that the file at a path defines; none if they cannot be read. -/
def definitionsAt (files : Files) (path : String) : List Descriptor :=
  match (files.read path).map Descriptor.listOfText with
  | .ok (.ok descriptors) => descriptors
  | _ => []

namespace Config

/-- The steps in which a file is read. -/
def readSteps (path : String) : List LoadStep := [.fetch path, .interpret path]

/-- The steps in which a file of the workspace is loaded. -/
def fileSteps (files : Files) (path : String) : List LoadStep :=
  readSteps path ++ (definitionsAt files path).map (.enter path)

/-- The steps of loading, in their order: those for the files of the class path, and then
those for the files of the workspace. -/
def loadSteps (files : Files) (config : Config) : List LoadStep :=
  config.runtimeClasses.flatMap readSteps ++ config.workspaceClasses.flatMap (fileSteps files)

end Config

section Stops

variable {α β : Type} {files : Files} {steps more : List LoadStep} {path : String}

/-- A computation fails with the problem of the first step that fails, and succeeds if none
does. -/
def Stops (files : Files) (steps : List LoadStep) (x : Except LoadError α) : Prop :=
  ∀ e, x = .error e ↔ steps.findSome? (LoadStep.problem? files) = some e

/-! ### Computations one after the other -/

theorem Stops.findSome?_eq_none {x : Except LoadError α} (h : Stops files steps x) {a : α}
    (hx : x = .ok a) :
  steps.findSome? (LoadStep.problem? files) = none
  := by
  apply Option.eq_none_iff_forall_ne_some.mpr
  intro e he
  rw [← h e, hx] at he
  cases he

theorem stops_nil (a : α) :
  Stops files [] (.ok a)
  := by
  intro e
  constructor
  · intro h
    cases h
  · intro h
    cases h

/-- The steps of a second computation come after those of the first, which decides on them. -/
theorem Stops.bind {x : Except LoadError α} {f : α → Except LoadError β}
    (hx : Stops files steps x) (hf : ∀ a, x = .ok a → Stops files more (f a)) :
  Stops files (steps ++ more) (x >>= f)
  := by
  intro e
  rw [List.findSome?_append]
  cases h : x with
  | error cause =>
    rw [(hx cause).mp h, Option.some_or, Option.some.injEq]
    constructor
    · apply Except.error.inj
    · rintro rfl
      rfl
  | ok a =>
    rw [hx.findSome?_eq_none h, Option.none_or]
    apply hf a h

theorem Stops.mapM {f : α → Except LoadError β} {stepsOf : α → List LoadStep}
    (hf : ∀ a, Stops files (stepsOf a) (f a)) (list : List α) :
  Stops files (list.flatMap stepsOf) (list.mapM f)
  := by
  induction list with
  | nil => apply stops_nil
  | cons head tail ih =>
    rw [List.mapM_cons, List.flatMap_cons]
    apply (hf head).bind
    intro b _
    rw [← List.append_nil (tail.flatMap stepsOf)]
    apply ih.bind
    intro bs _
    apply stops_nil

theorem Stops.foldlM {g : β → α → Except LoadError β} {stepsOf : α → List LoadStep}
    (hg : ∀ b a, Stops files (stepsOf a) (g b a)) (list : List α) (b : β) :
  Stops files (list.flatMap stepsOf) (list.foldlM g b)
  := by
  induction list generalizing b with
  | nil => apply stops_nil
  | cons head tail ih =>
    rw [List.foldlM_cons, List.flatMap_cons]
    apply (hg b head).bind
    intro c _
    apply ih c

/-! ### The steps of loading -/

theorem stops_readDescriptors (files : Files) (path : String) :
  Stops files (Config.readSteps path) (readDescriptors files path)
  := by
  intro e
  rw [readDescriptors, Config.readSteps, List.findSome?_cons, LoadStep.problem?]
  cases hread : files.read path with
  | error cause => simp
  | ok text =>
    cases hlist : Descriptor.listOfText text with
    | error fault => simp [LoadStep.problem?, hread, hlist, Except.map, Except.mapError]
    | ok descriptors => simp [LoadStep.problem?, hread, hlist, Except.map, Except.mapError]

theorem definitionsAt_of_readDescriptors {descriptors : List Descriptor}
    (h : readDescriptors files path = .ok descriptors) :
  definitionsAt files path = descriptors
  := by
  rw [readDescriptors] at h
  cases hread : files.read path with
  | error cause =>
    rw [hread] at h
    cases h
  | ok text =>
    cases hlist : Descriptor.listOfText text with
    | error fault =>
      simp only [hread, hlist] at h
      cases h
    | ok list =>
      simp only [hread, hlist] at h
      obtain rfl := Except.ok.inj h
      simp only [definitionsAt, hread, hlist, Except.map]

/-- A class is refused if it lists itself, whatever has been loaded before. -/
theorem stops_addClass (path : String) (l : Loaded) (d : Descriptor) :
  Stops files [.enter path d] (Loaded.addClass path l d)
  := by
  intro e
  rw [Loaded.addClass, Session.put, List.findSome?_singleton, LoadStep.problem?]
  by_cases h : d.declares d.name
  · simp [h]
  · simp [h]

theorem stops_addFile (files : Files) (l : Loaded) (path : String) :
  Stops files (Config.fileSteps files path) (Loaded.addFile files l path)
  := by
  apply (stops_readDescriptors files path).bind
  intro descriptors hread
  rw [definitionsAt_of_readDescriptors hread, List.map_eq_flatMap]
  apply Stops.foldlM (stops_addClass path)

theorem stops_build (files : Files) (config : Config) :
  Stops files (config.loadSteps files) (config.build files)
  := by
  apply (Stops.mapM (stops_readDescriptors files) config.runtimeClasses).bind
  intro runtime _
  apply Stops.foldlM (stops_addFile files)

end Stops

/-! ### Which steps fail -/

section Problems

variable {files : Files} {config : Config} {step : LoadStep} {path : String} {e : LoadError}

theorem problem?_fetch_eq_some_iff :
  (LoadStep.fetch path).problem? files = some e
    ↔ ∃ cause, files.read path = .error cause ∧ e = .access path cause
  := by
  rw [LoadStep.problem?]
  cases files.read path <;> simp [eq_comm]

theorem problem?_interpret_eq_some_iff :
  (LoadStep.interpret path).problem? files = some e
    ↔ ∃ text fault, files.read path = .ok text ∧ Descriptor.listOfText text = .error fault
      ∧ e = .descriptors path fault
  := by
  rw [LoadStep.problem?]
  cases files.read path with
  | error cause => simp [Except.map]
  | ok text => cases h : Descriptor.listOfText text <;> simp [Except.map, h, eq_comm]

theorem problem?_enter_eq_some_iff {d : Descriptor} :
  (LoadStep.enter path d).problem? files = some e
    ↔ d.name ∈ d.supertypes ∧ e = .refused path (.selfInheritance d.name)
  := by
  rw [LoadStep.problem?, Descriptor.mem_supertypes]
  split <;> simp [*, eq_comm]

theorem mem_definitionsAt {d : Descriptor} :
  d ∈ definitionsAt files path
    ↔ ∃ text descriptors, files.read path = .ok text
      ∧ Descriptor.listOfText text = .ok descriptors ∧ d ∈ descriptors
  := by
  rw [definitionsAt]
  cases files.read path with
  | error cause => simp [Except.map]
  | ok text => cases h : Descriptor.listOfText text <;> simp [Except.map, h]

/-- The steps are those in which the files are read, and those in which the classes of the
workspace files are entered. -/
theorem mem_loadSteps :
  step ∈ config.loadSteps files
    ↔ (∃ path ∈ config.runtimeClasses ++ config.workspaceClasses,
        step = .fetch path ∨ step = .interpret path)
      ∨ ∃ path ∈ config.workspaceClasses, ∃ d ∈ definitionsAt files path, step = .enter path d
  := by
  simp only [Config.loadSteps, Config.fileSteps, Config.readSteps, List.mem_append,
    List.mem_flatMap, List.mem_cons, List.not_mem_nil, or_false, List.mem_map]
  grind

end Problems

/-- Loading fails exactly with the problem of the first step that fails: the runtime files are
read in their order, and after them each file of the workspace in its order, with its text
fetched first, then read as a whole, and then its classes entered in their order; and the
problem names the file of its step.  So loading fails exactly if some file cannot be fetched, if
some text cannot be read as a list of descriptors, or if some class of a workspace file lists
itself as a supertype, which no class of the class path is refused for. -/
theorem build_stops_at_first (files : Files) (config : Config) :
  (∀ e, config.build files = .error e
    ↔ ∃ before step after, config.loadSteps files = before ++ step :: after
      ∧ (∀ earlier ∈ before, earlier.problem? files = none) ∧ step.problem? files = some e)
  ∧ ((∃ e, config.build files = .error e)
    ↔ (∃ path ∈ config.runtimeClasses ++ config.workspaceClasses,
        (∃ cause, files.read path = .error cause)
        ∨ ∃ text fault, files.read path = .ok text
          ∧ Descriptor.listOfText text = .error fault)
      ∨ ∃ path ∈ config.workspaceClasses, ∃ text descriptors, files.read path = .ok text
        ∧ Descriptor.listOfText text = .ok descriptors
        ∧ ∃ d ∈ descriptors, d.name ∈ d.supertypes)
  := by
  have hstops := stops_build files config
  constructor
  · intro e
    rw [hstops e, List.findSome?_eq_some_iff]
    simp only [and_comm]
  · have hsome : (∃ e, config.build files = .error e)
        ↔ ∃ step ∈ config.loadSteps files, ∃ e, step.problem? files = some e := by
      simp only [hstops _, ← Option.isSome_iff_exists, List.findSome?_isSome_iff]
    rw [hsome]
    constructor
    · rintro ⟨step, hstep, e, he⟩
      rcases mem_loadSteps.mp hstep with ⟨path, hpath, rfl | rfl⟩ | ⟨path, hpath, d, hd, rfl⟩
      · obtain ⟨cause, hread, -⟩ := problem?_fetch_eq_some_iff.mp he
        exact Or.inl ⟨path, hpath, Or.inl ⟨cause, hread⟩⟩
      · obtain ⟨text, fault, hread, hlist, -⟩ := problem?_interpret_eq_some_iff.mp he
        exact Or.inl ⟨path, hpath, Or.inr ⟨text, fault, hread, hlist⟩⟩
      · obtain ⟨text, descriptors, hread, hlist, hd⟩ := mem_definitionsAt.mp hd
        obtain ⟨hself, -⟩ := problem?_enter_eq_some_iff.mp he
        exact Or.inr ⟨path, hpath, text, descriptors, hread, hlist, d, hd, hself⟩
    · rintro (⟨path, hpath, ⟨cause, hread⟩ | ⟨text, fault, hread, hlist⟩⟩
        | ⟨path, hpath, text, descriptors, hread, hlist, d, hd, hself⟩)
      · use .fetch path, mem_loadSteps.mpr (Or.inl ⟨path, hpath, Or.inl rfl⟩)
        exact ⟨_, problem?_fetch_eq_some_iff.mpr ⟨cause, hread, rfl⟩⟩
      · use .interpret path, mem_loadSteps.mpr (Or.inl ⟨path, hpath, Or.inr rfl⟩)
        exact ⟨_, problem?_interpret_eq_some_iff.mpr ⟨text, fault, hread, hlist, rfl⟩⟩
      · have hdefined := mem_definitionsAt.mpr ⟨text, descriptors, hread, hlist, hd⟩
        use .enter path d, mem_loadSteps.mpr (Or.inr ⟨path, hpath, d, hdefined, rfl⟩)
        exact ⟨_, problem?_enter_eq_some_iff.mpr ⟨hself, rfl⟩⟩

end Lineage
