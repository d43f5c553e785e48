import Lineage.CommandLine.Run
import Lineage.Proofs.Loading.Assembly
import Lineage.Proofs.Path
import Lineage.Proofs.Sources

/-!
# Where configured paths lead

A configuration file lists paths, and a relative one starts at the directory of the file.  It is
loaded as a path that starts where the path of the file does, and takes the steps of that path but
for the last, which is the file, and then those that are listed (`Path.Placed`).  The files that an
invocation adds are left as they are given; they come last, so what they define takes the place of
what the configured files define (`load_places_paths`).
-/

namespace Lineage

/-! ### Placed paths -/

/-- A path is what one that is listed in a file stands for. -/
structure Path.Placed (file listed loaded : String) : Prop where
  absolute : Path.isAbsolute listed → loaded = listed
  isAbsolute_iff : ¬ Path.isAbsolute listed → (Path.isAbsolute loaded ↔ Path.isAbsolute file)
  components : ¬ Path.isAbsolute listed →
    Path.components loaded = (Path.components file).dropLast ++ Path.components listed

/-- A path joined to the directory of a file is placed; the file is not the root. -/
theorem Path.placed_join {file : String} (hfile : Path.isAbsolute file → Path.components file ≠ [])
    (listed : String) :
  Path.Placed file listed (Path.join (Path.parent file) listed)
  := by
  refine ⟨Path.join_of_isAbsolute, ?_, ?_⟩
  · intro hrelative
    rw [Path.isAbsolute_join _ (eq_false_of_ne_true hrelative)]
    by_cases h : Path.components file = []
    · have hroot : ¬ Path.isAbsolute file := fun habsolute => hfile habsolute h
      rw [Path.parent_eq_empty h]
      simpa [Path.isAbsolute] using hroot
    · rw [Path.isAbsolute_parent h]
  · intro hrelative
    rw [Path.components_join _ (eq_false_of_ne_true hrelative), Path.components_parent]

/-- A configuration is the one that is written in a file, with the listed paths placed. -/
structure Config.PlacedFrom (file : String) (written config : Config) : Prop where
  workspaceClasses :
    List.Forall₂ (Path.Placed file) written.workspaceClasses config.workspaceClasses
  runtimeClasses : List.Forall₂ (Path.Placed file) written.runtimeClasses config.runtimeClasses
  platform : config.platform = written.platform
  runtimeDescendants : config.runtimeDescendants = written.runtimeDescendants

theorem Config.placedFrom_rebase {file : String}
    (hfile : Path.isAbsolute file → Path.components file ≠ []) (c : Config) :
  c.PlacedFrom file (c.rebase (Path.parent file))
  := by
  have hplaced (paths : List String) :
      List.Forall₂ (Path.Placed file) paths (paths.map (Path.join (Path.parent file))) := by
    apply List.forall₂_map_right_iff.mpr
    apply List.forall₂_same.mpr
    intro listed _
    apply Path.placed_join hfile
  exact ⟨hplaced c.workspaceClasses, hplaced c.runtimeClasses, rfl, rfl⟩

/-- A configuration is loaded from a file if the file holds one, and only its paths are changed. -/
theorem Config.load_eq_ok_iff {files : Files} {path : String} {config : Config} :
  Config.load files path = .ok config
    ↔ ∃ text written, files.read path = .ok text ∧ Config.ofText text = some written
      ∧ config = written.rebase (Path.parent path)
  := by
  rw [Config.load]
  cases files.read path with
  | error cause => simp
  | ok text =>
    cases hwritten : Config.ofText text with
    | none => simp [hwritten]
    | some written => simp [hwritten, eq_comm]

/-! ### The root -/

/-- The root is a directory, so there is no text at a path that starts there and takes no step. -/
def Files.RootIsDirectory (files : Files) : Prop :=
  ∀ path text, Path.isAbsolute path → files.read path = .ok text → Path.components path ≠ []

theorem FileTree.foldlM_step_above (tree : FileTree) {pieces : List (List Char)}
    (h : ∀ piece ∈ pieces, Path.isVoid piece) :
  pieces.foldlM tree.step .above = .ok .above
  := by
  induction pieces with
  | nil => rfl
  | cons piece rest ih =>
    obtain ⟨hpiece, hrest⟩ := List.forall_mem_cons.mp h
    have hstep : tree.step .above piece = .ok .above := by
      rw [FileTree.step, if_neg (by simp [FileTree.isDirectory]), if_pos hpiece]
    rw [List.foldlM_cons, hstep]
    apply ih hrest

/-- In a file tree the root is a directory. -/
theorem FileTree.rootIsDirectory_files (tree : FileTree) :
  tree.files.RootIsDirectory
  := by
  intro path text habsolute hread hnone
  have hroot : path.toList.head? = some '/' := of_decide_eq_true habsolute
  have hne : path ≠ "" := by
    rintro rfl
    cases hroot
  have hlocate : tree.locate path = .ok .above := by
    rw [locate, if_neg hne, origin, if_pos hroot]
    apply foldlM_step_above
    rw [← Path.steps_eq_nil_iff, ← Path.components_eq, hnone]
  obtain ⟨place, hplace, hread⟩ := Text.bind_eq_ok.mp hread
  rw [hlocate] at hplace
  obtain rfl := Except.ok.inj hplace
  cases hread

/-! ### Definitions that come later -/

theorem get?_lastDefinitions_append (front back : List Descriptor) (name : String) :
  (lastDefinitions (front ++ back)).get? name
    = ((lastDefinitions back).get? name).or ((lastDefinitions front).get? name)
  := by
  rw [get?_lastDefinitions, get?_lastDefinitions, get?_lastDefinitions, List.reverse_append,
    List.find?_append]

namespace CommandLine

variable {files : Files} {inv : Invocation} {config : Config} {s : Session}

theorem Invocation.loadConfig_eq_ok_iff {full : Config} :
  inv.loadConfig files = .ok full
    ↔ ∃ config, Config.loadOrDefault files inv.config = .ok config
      ∧ full = { config with workspaceClasses := config.workspaceClasses ++ inv.workspace }
  := by
  rw [Invocation.loadConfig, Text.map_eq_ok]
  simp only [eq_comm]

theorem Invocation.exists_of_load_eq_ok (h : inv.load files = .ok s) :
  ∃ full loaded, inv.loadConfig files = .ok full ∧ full.build files = .ok loaded
    ∧ s = loaded.session
  := by
  obtain ⟨full, hfull, h⟩ := Text.bind_eq_ok.mp h
  obtain ⟨loaded, hloaded, h⟩ := Text.bind_eq_ok.mp h
  exact ⟨full, loaded, Text.mapError_eq_ok.mp hfull, Text.mapError_eq_ok.mp hloaded,
    (Except.ok.inj h).symm⟩

/-- The workspace of a session that is loaded holds what the added files define, and else what
the configured files do. -/
theorem Invocation.lookup_of_load (hconfig : Config.loadOrDefault files inv.config = .ok config)
    (h : inv.load files = .ok s) :
  ∃ own extra, config.workspaceClasses.mapM (readDescriptors files) = .ok own
    ∧ inv.workspace.mapM (readDescriptors files) = .ok extra
    ∧ ∀ name, s.workspace.lookup name
        = ((lastDefinitions extra.flatten).get? name).or ((lastDefinitions own.flatten).get? name)
  := by
  obtain ⟨full, loaded, hfull, hbuild, rfl⟩ := exists_of_load_eq_ok h
  obtain ⟨config', hconfig', rfl⟩ := loadConfig_eq_ok_iff.mp hfull
  rw [hconfig] at hconfig'
  obtain rfl := Except.ok.inj hconfig'
  obtain ⟨runtime, -, hbuild⟩ := Text.bind_eq_ok.mp hbuild
  rw [List.foldlM_append] at hbuild
  obtain ⟨middle, hmiddle, hloaded⟩ := Text.bind_eq_ok.mp hbuild
  obtain ⟨own, hown, hassembled⟩ := (Loaded.assembles_start _ _).addFiles hmiddle
  obtain ⟨extra, hextra, hassembled⟩ := hassembled.addFiles hloaded
  refine ⟨own, extra, hown, hextra, ?_⟩
  intro name
  rw [hassembled.session, ← get?_lastDefinitions_append, ← Workspace.classes_ofDescriptors]
  rfl

/-- Let the root be a directory.  A configuration that is loaded from a file is the one written
there but for the paths that it lists, which are as many and in the same order: an absolute one is
kept, and a relative one is a path now that is absolute exactly if that of the file is, and has its
components but for the last one and then those that are listed.  The configuration of an invocation
is the one loaded, or the default, with the added workspace files after the others, as they are
given.  In the session that comes of it a class stands for its last definition in the added files,
or, if they do not define it, for the last one in the configured files. -/
theorem load_places_paths (hroot : files.RootIsDirectory) :
  (∀ path config, Config.load files path = .ok config →
      ∃ text written, files.read path = .ok text ∧ Config.ofText text = some written
        ∧ written.PlacedFrom path config)
    ∧ (∀ (inv : Invocation) full, inv.loadConfig files = .ok full ↔
      ∃ config, Config.loadOrDefault files inv.config = .ok config
        ∧ full = { config with workspaceClasses := config.workspaceClasses ++ inv.workspace })
    ∧ ∀ (inv : Invocation) config s, Config.loadOrDefault files inv.config = .ok config →
        inv.load files = .ok s →
      ∃ own extra, config.workspaceClasses.mapM (readDescriptors files) = .ok own
        ∧ inv.workspace.mapM (readDescriptors files) = .ok extra
        ∧ (∀ name d, LastDefinition extra.flatten name d →
            s.hierarchy.locate name = some (d, .workspace))
        ∧ ∀ name d, (∀ e ∈ extra.flatten, e.name ≠ name) →
            (s.workspace.lookup name = some d ↔ LastDefinition own.flatten name d)
  := by
  refine ⟨?_, fun inv full => Invocation.loadConfig_eq_ok_iff, ?_⟩
  · intro path config h
    obtain ⟨text, written, hread, hwritten, rfl⟩ := Config.load_eq_ok_iff.mp h
    use text, written, hread, hwritten
    apply Config.placedFrom_rebase
    intro habsolute
    apply hroot path text habsolute hread
  · intro inv config s hconfig h
    obtain ⟨own, extra, hown, hextra, hlookup⟩ := Invocation.lookup_of_load hconfig h
    refine ⟨own, extra, hown, hextra, ?_, ?_⟩
    · intro name d hlast
      have hd : s.workspace.lookup name = some d := by
        rw [hlookup, get?_lastDefinitions_eq_some_iff.mpr hlast, Option.some_or]
      rw [Session.workspace] at hd
      rw [Hierarchy.locate, hd]
    · intro name d hname
      have hnone : (lastDefinitions extra.flatten).get? name = none := by
        rw [get?_lastDefinitions, List.find?_eq_none]
        simpa using hname
      rw [hlookup, hnone, Option.none_or, get?_lastDefinitions_eq_some_iff]

/-- Three listed files of an absolute configuration file, with doubled slashes and dots in the
paths, and an added file that defines a class of the first one again. -/
theorem load_places_paths_absolute :
  let file := "/srv/./app//classgraph.toml"
  let files : Files := ⟨fun path =>
      if path = file then
        .ok "[workspace]\nclasses = [\"a.json\", \"../lib//b.json\", \"/c.json\"]"
      else if path = "/srv/./app/a.json" then .ok "[[\"A\", \"B\"], [\"D\"]]"
      else if path = "/srv/./app/../lib//b.json" then .ok "[[\"B\"]]"
      else if path = "/c.json" then .ok "[[\"D\", \"A\"]]"
      else if path = "x.json" then .ok "[[\"A\", \"C\"]]"
      else .error .notFound, fun _ => true⟩
  let inv : Invocation := ⟨.check, file, ["x.json"], false, false⟩
  let config : Config :=
    ⟨["/srv/./app/a.json", "/srv/./app/../lib//b.json", "/c.json"], true, [], false⟩
  Config.load files file = .ok config
    ∧ Config.PlacedFrom file ⟨["a.json", "../lib//b.json", "/c.json"], true, [], false⟩ config
    ∧ ∃ s, inv.load files = .ok s
      ∧ s.hierarchy.locate "A" = some (⟨"A", some "C", []⟩, .workspace)
      ∧ s.workspace.lookup "D" = some ⟨"D", some "A", []⟩
  := by
  intro file files inv config
  have hroot : files.RootIsDirectory := by
    intro path text _ hread
    dsimp only [files] at hread
    split_ifs at hread with hfile ha hb hc hx
    · rw [hfile]
      decide +kernel
    · rw [ha]
      decide +kernel
    · rw [hb]
      decide +kernel
    · rw [hc]
      decide +kernel
    · rw [hx]
      decide +kernel
  have hwritten : Config.ofText
      "[workspace]\nclasses = [\"a.json\", \"../lib//b.json\", \"/c.json\"]"
        = some ⟨["a.json", "../lib//b.json", "/c.json"], true, [], false⟩ := by
    decide +kernel
  have hloads : Config.load files file = .ok config := by
    decide +kernel
  have hconfig : Config.loadOrDefault files inv.config = .ok config := hloads
  have hown : (config.workspaceClasses.mapM (readDescriptors files)).toOption
      = some [[⟨"A", some "B", []⟩, ⟨"D", none, []⟩], [⟨"B", none, []⟩],
          [⟨"D", some "A", []⟩]] := by
    decide +kernel
  have hextra : (inv.workspace.mapM (readDescriptors files)).toOption
      = some [[⟨"A", some "C", []⟩]] := by
    decide +kernel
  obtain ⟨hplaced, -, hsession⟩ := load_places_paths hroot
  obtain ⟨text, written, htext, hread, hplaced⟩ := hplaced file config hloads
  obtain rfl : _ = text := Except.ok.inj htext
  rw [hwritten] at hread
  obtain rfl := Option.some.inj hread
  refine ⟨hloads, hplaced, ?_⟩
  cases h : inv.load files with
  | error failure =>
    have hloaded : (inv.load files).toOption.isSome := by
      decide +kernel
    rw [h] at hloaded
    cases hloaded
  | ok s =>
    obtain ⟨own, extra, hown', hextra', hwins, hkept⟩ := hsession inv config s hconfig h
    rw [hown'] at hown
    rw [hextra'] at hextra
    obtain rfl := Option.some.inj hown
    obtain rfl := Option.some.inj hextra
    refine ⟨s, rfl, ?_, ?_⟩
    · apply hwins
      exact ⟨[], [], rfl, rfl, by simp⟩
    · apply (hkept "D" _ (by simp)).mpr
      exact ⟨[⟨"A", some "B", []⟩, ⟨"D", none, []⟩, ⟨"B", none, []⟩], [], rfl, rfl, by simp⟩

end CommandLine

end Lineage
