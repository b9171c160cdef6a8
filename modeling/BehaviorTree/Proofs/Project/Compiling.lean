import BehaviorTree.Project.Run
import Mathlib.Data.List.Basic

/-!
# Compiling a project

A run that compiles only looks at files and puts something out.  It is described part by part: what a
part answers to the files, and the lines it prints on the way.  From this follows when a run succeeds,
for any files and any list of trees, and that a document which fails stops no other one.
-/

namespace BehaviorTree.Project

open BehaviorTree.Compiler BehaviorTree.Document

/-! ## What the files hold -/

/-- The configuration of a project, if it can be loaded. -/
def configOf? (files : Files) (root : String) : Option Config :=
  let path := Path.join root Config.path
  if files.contains path then do
    let text ← (files.read path).toOption
    return (← Config.read? text).below root
  else
    some (Config.below root {})

/-- The tree of a file, if it can be loaded. -/
def treeOf? (files : Files) (path : String) : Option Tree := do
  let text ← (files.read path).toOption
  let loaded ← (Tree.load text).toOption
  return Session.named path loaded.tree

/-- The set of access keys of a file, if it can be loaded. -/
def keysOf? (files : Files) (path : String) : Option AccessKeySet := do
  let text ← (files.read path).toOption
  let loaded ← (AccessKeySet.load text).toOption
  return loaded.set

/-- Nothing stands at a path, or a directory. -/
def IsListable (files : Files) (path : String) : Prop :=
  files.contains path = true → files.isDirectory path = true

/-- The document files directly in a directory. -/
def documentsOf (files : Files) (directory : String) : List String :=
  match files.list directory with
  | .ok names =>
      ((names.filter fun name => Path.extension? name = some "json").map
        (Path.join directory)).filter files.isFile
  | .error _ => []

/-- These are the paths of the document files directly in a directory, in the order of their names. -/
structure ListsDocuments (files : Files) (directory : String) (paths : List String) : Prop where
  absent : files.contains directory = false → paths = []
  present : ∀ inside, files.content directory = .ok (.directory inside) →
    ∃ names : List String, paths = names.map (Path.join directory) ∧ names.Pairwise (· ≤ ·) ∧
      names.Perm ((inside.map Prod.fst).filter fun name =>
        Path.extension? name = some "json" ∧ files.isFile (Path.join directory name) = true)

theorem listsDocuments_documentsOf (files : Files) (directory : String) :
    ListsDocuments files directory (documentsOf files directory) where
  absent := by
    intro missing
    cases content : files.content directory with
    | ok _ => simp [Files.contains, content] at missing
    | error failure => simp [documentsOf, Files.list, content, bind, Except.bind]
  present := by
    intro inside content
    refine ⟨(Files.Directory.names inside).filter fun name =>
      Path.extension? name = some "json" ∧ files.isFile (Path.join directory name) = true,
      ?_, ?_, ?_⟩
    · simp [documentsOf, Files.list, content, bind, Except.bind, pure, Except.pure,
        List.filter_map, List.filter_filter, Function.comp_def, Bool.and_comm]
    · have sorted : (Files.Directory.names inside).Pairwise (· ≤ ·) := by
        have ordered : (Files.Directory.names inside).Pairwise
            fun left right => decide (left ≤ right) = true := by
          apply List.pairwise_mergeSort
          · intro left middle right before after
            simp only [decide_eq_true_eq] at before after ⊢
            exact String.le_trans before after
          · intro left right
            simpa using String.le_total left right
        simpa using ordered
      exact sorted.filter _
    · exact (List.mergeSort_perm _ _).filter _

/-! ## What is to be reported -/

namespace Config

/-- The trees that are compiled: those that are asked for, or all of the project. -/
def selected (config : Config) (files : Files) (trees : List String) : List String :=
  if trees = [] then documentsOf files config.treesDirectory else trees

/-- The sets of access keys that trees are compiled against. -/
def sets (config : Config) (files : Files) : List AccessKeySet :=
  (documentsOf files config.keysDirectory).filterMap (keysOf? files)

/-- All the documents of a compilation can be loaded. -/
structure Loads (config : Config) (files : Files) (paths : List String) : Prop where
  keys : ∀ path ∈ documentsOf files config.keysDirectory, keysOf? files path ≠ none
  trees : ∀ path ∈ paths, treeOf? files path ≠ none

/-- All the documents of a compilation pass. -/
structure Passes (config : Config) (files : Files) (paths : List String) : Prop where
  keys : config.checkAccessKeys = true → ∀ set ∈ config.sets files,
    (set.compile config.options).passed = true
  trees : ∀ path ∈ paths, ∀ tree, treeOf? files path = some tree →
    (tree.compile (config.sets files) config.options).passed = true

/-- A set of access keys with its report, if it is to be checked. -/
def prepared (config : Config) (set : AccessKeySet) : AccessKeySet × Option Report :=
  (set, if config.checkAccessKeys then some (set.compile config.options) else none)

/-- What is printed of a set of access keys, if it is to be checked. -/
def keyLines (config : Config) (set : AccessKeySet) : List String :=
  if config.checkAccessKeys then
    reportLines s!"access keys {set.name}" (set.compile config.options)
  else []

/-- The report of every document, under the label with which it is printed. -/
def results (config : Config) (files : Files) (paths : List String) : List (String × Report) :=
  (if config.checkAccessKeys then
    (config.sets files).map fun set => (s!"access keys {set.name}", set.compile config.options)
  else []) ++
  (paths.filterMap (treeOf? files)).map fun tree =>
    (tree.name, tree.compile (config.sets files) config.options)

def failing (config : Config) (files : Files) (paths : List String) : Nat :=
  (config.results files paths).countP fun result => !result.2.passed

variable {config : Config} {files : Files} {paths : List String}

theorem failing_eq_zero_iff : config.failing files paths = 0 ↔ config.Passes files paths := by
  have keys : (∀ result ∈ (if config.checkAccessKeys then
      (config.sets files).map fun set => (s!"access keys {set.name}", set.compile config.options)
        else []), result.2.passed = true) ↔
      (config.checkAccessKeys = true → ∀ set ∈ config.sets files,
        (set.compile config.options).passed = true) := by
    cases config.checkAccessKeys <;> simp
  have trees : (∀ result ∈ (paths.filterMap (treeOf? files)).map fun tree =>
      (tree.name, tree.compile (config.sets files) config.options), result.2.passed = true) ↔
      ∀ path ∈ paths, ∀ tree, treeOf? files path = some tree →
        (tree.compile (config.sets files) config.options).passed = true := by
    simp only [List.forall_mem_map, List.mem_filterMap, forall_exists_index, and_imp]
    exact ⟨fun all path member tree => all tree path member,
      fun all tree path member => all path member tree⟩
  simp only [failing, results, List.countP_eq_zero, Bool.not_eq_true', Bool.not_eq_false,
    List.forall_mem_append, keys, trees]
  exact ⟨fun passes => ⟨passes.1, passes.2⟩, fun passes => ⟨passes.keys, passes.trees⟩⟩

theorem failing_eq : config.failing files paths =
    failures (((config.sets files).map config.prepared).filterMap Prod.snd) +
      failures ((paths.filterMap (treeOf? files)).map fun tree =>
        tree.compile (config.sets files) config.options) := by
  simp only [failing, results, failures, List.countP_append, List.filterMap_map]
  cases check : config.checkAccessKeys <;>
    simp [prepared, check, Function.comp_def, List.countP_map]

theorem flatMap_results : ((config.results files paths).flatMap fun result =>
      reportLines result.1 result.2) =
    (config.sets files).flatMap config.keyLines ++
      (paths.filterMap (treeOf? files)).flatMap fun tree =>
        reportLines tree.name (tree.compile (config.sets files) config.options) := by
  have keys : ((if config.checkAccessKeys then
      (config.sets files).map fun set => (s!"access keys {set.name}", set.compile config.options)
        else []).flatMap fun result => reportLines result.1 result.2) =
      (config.sets files).flatMap config.keyLines := by
    cases check : config.checkAccessKeys with
    | false => simp [keyLines, check]
    | true =>
        simp only [↓reduceIte, List.flatMap_map]
        exact List.flatMap_congr fun set _ => by simp [keyLines, check]
  rw [results, List.flatMap_append, keys, List.flatMap_map]

end Config

/-! ## What a part of a command comes to -/

def Output.line? : Output → Option String
  | .line text => some text
  | .entry _ => none

/-- The lines that are printed. -/
def linesOf (output : List Output) : List String :=
  output.filterMap Output.line?

namespace Session

variable {α β γ : Type} {files : Files}

/-- A part of a command leaves the files alone, and comes to an answer; so many lines are printed on
the way. -/
def Ends (session : Session α) (files : Files) (answer : Except CommandFailure α)
    (lines : List String) : Prop :=
  ∀ output, ∃ told, session.run ⟨files, output⟩ = (answer, ⟨files, output ++ told⟩) ∧
    linesOf told = lines

/-- A part of a command fails. -/
def Fails (session : Session α) (files : Files) : Prop :=
  ∃ failure lines, session.Ends files (.error failure) lines

/-- What has been printed stays as it is. -/
theorem untouched (answer : Except CommandFailure α) (output : List Output) :
    (answer, Desk.mk files output) = (answer, ⟨files, output ++ []⟩) := by
  rw [List.append_nil]

theorem ends_pure (result : α) : Ends (pure result) files (.ok result) [] :=
  fun output => ⟨[], untouched (.ok result) output, rfl⟩

theorem ends_throw (failure : CommandFailure) :
    Ends (throw failure : Session α) files (.error failure) [] :=
  fun output => ⟨[], untouched (.error failure) output, rfl⟩

theorem ends_put (told : List Output) : Ends (put told) files (.ok ()) (linesOf told) :=
  fun _ => ⟨told, rfl, rfl⟩

theorem ends_say (lines : List String) : Ends (say lines) files (.ok ()) lines := by
  have printed : linesOf (lines.map .line) = lines := by
    simp [linesOf, List.filterMap_map, Function.comp_def, Output.line?]
  have told : Ends (put (lines.map .line)) files (.ok ()) (linesOf (lines.map .line)) := ends_put _
  rwa [printed] at told

theorem ends_log (entries : List Entry) : Ends (log entries) files (.ok ()) [] := by
  have silent : linesOf (entries.map .entry) = [] := by
    simp [linesOf, List.filterMap_map, Function.comp_def, Output.line?]
  have told : Ends (put (entries.map .entry)) files (.ok ()) (linesOf (entries.map .entry)) :=
    ends_put _
  rwa [silent] at told

theorem ends_files : Ends Session.files files (.ok files) [] :=
  fun output => ⟨[], untouched (.ok files) output, rfl⟩

variable {session : Session α} {next : α → Session β} {lines rest : List String}

theorem run_bind (desk : Desk) :
    (session >>= next).run desk =
      match session.run desk with
      | (.ok result, after) => (next result).run after
      | (.error failure, after) => (.error failure, after) := by
  rw [ExceptT.run_bind]
  simp only [bind, StateT.bind]
  cases ran : session.run desk with
  | mk answer after => cases answer <;> rfl

theorem Ends.bind {result : α} {answer : Except CommandFailure β}
    (first : session.Ends files (.ok result) lines)
    (second : (next result).Ends files answer rest) :
    (session >>= next).Ends files answer (lines ++ rest) := by
  intro output
  rcases first output with ⟨told, ran, printed⟩
  rcases second (output ++ told) with ⟨more, ranOn, printedMore⟩
  refine ⟨told ++ more, ?_, ?_⟩
  · simp only [run_bind, ran, ranOn, List.append_assoc]
  · simp only [linesOf, List.filterMap_append] at printed printedMore ⊢
    simp only [printed, printedMore]

/-- What is printed by nothing but the second part is printed by both. -/
theorem Ends.then {result : α} {answer : Except CommandFailure β}
    (first : session.Ends files (.ok result) [])
    (second : (next result).Ends files answer rest) : (session >>= next).Ends files answer rest :=
  first.bind second

/-- What is printed by nothing but the first part is printed by both. -/
theorem Ends.finally {result : α} {answer : Except CommandFailure β}
    (first : session.Ends files (.ok result) lines)
    (second : (next result).Ends files answer []) : (session >>= next).Ends files answer lines := by
  simpa only [List.append_nil] using first.bind second

theorem Ends.map {result : α} (f : α → β) (ends : session.Ends files (.ok result) lines) :
    Ends (do return f (← session)) files (.ok (f result)) lines :=
  ends.finally (ends_pure _)

theorem Fails.bind (fails : session.Fails files) : (session >>= next).Fails files := by
  rcases fails with ⟨failure, lines, fails⟩
  refine ⟨failure, lines, fun output => ?_⟩
  rcases fails output with ⟨told, ran, printed⟩
  exact ⟨told, by simp only [run_bind, ran], printed⟩

theorem Ends.bind_fails {result : α} (first : session.Ends files (.ok result) lines)
    (second : (next result).Fails files) : (session >>= next).Fails files := by
  rcases second with ⟨failure, rest, fails⟩
  exact ⟨failure, lines ++ rest, first.bind fails⟩

/-- Whether a part of a command succeeds is up to an item that it needs. -/
structure Yields (session : Session α) (files : Files) (item? : Option γ) (result : γ → α)
    (printed : γ → List String) : Prop where
  ends : ∀ item, item? = some item → session.Ends files (.ok (result item)) (printed item)
  fails : item? = none → session.Fails files

section Item

variable {result : γ → α} {printed : γ → List String}

theorem yields_some {item : γ} (ends : session.Ends files (.ok (result item)) (printed item)) :
    session.Yields files (some item) result printed where
  ends := fun _ found => Option.some.inj found ▸ ends
  fails := nofun

theorem yields_none (fails : session.Fails files) :
    session.Yields files none result printed where
  ends := nofun
  fails := fun _ => fails

end Item

section Row

variable {part : α → Session β} {item? : α → Option γ} {result : γ → β}
  {printed : γ → List String} {paths : List α}
  (each : ∀ path, (part path).Yields files (item? path) result printed)
include each

/-- Where there is an item for every part of a row, each part is done. -/
theorem ends_mapM (all : ∀ path ∈ paths, item? path ≠ none) :
    (paths.mapM part).Ends files (.ok ((paths.filterMap item?).map result))
      ((paths.filterMap item?).flatMap printed) := by
  induction paths with
  | nil => exact ends_pure []
  | cons path paths ih =>
      simp only [List.forall_mem_cons] at all
      rcases Option.ne_none_iff_exists'.mp all.1 with ⟨item, found⟩
      rw [List.mapM_cons, List.filterMap_cons_some found, List.map_cons, List.flatMap_cons]
      exact ((each path).ends item found).bind ((ih all.2).map (result item :: ·))

/-- A row fails where an item is missing. -/
theorem fails_mapM (missing : ∃ path ∈ paths, item? path = none) :
    (paths.mapM part).Fails files := by
  induction paths with
  | nil => simp at missing
  | cons path paths ih =>
      rw [List.mapM_cons]
      rcases found : item? path with _ | item
      · exact ((each path).fails found).bind
      · have later : ∃ path ∈ paths, item? path = none := by simpa [found] using missing
        exact ((each path).ends item found).bind_fails (ih later).bind

end Row

/-! ## The parts of a compilation -/

theorem fails_throw (failure : CommandFailure) : Fails (throw failure : Session α) files :=
  ⟨failure, [], ends_throw failure⟩

theorem loadConfig_yields (root : String) :
    (loadConfig root).Yields files (configOf? files root) id fun _ => [] := by
  by_cases present : files.contains (Path.join root Config.path)
  · cases read : files.read (Path.join root Config.path) with
    | error _ =>
        have missing : configOf? files root = none := by
          simp [configOf?, present, read, Except.toOption]
        refine missing ▸ yields_none (ends_files.bind_fails ?_)
        simp only [present, read, ↓reduceIte]
        exact (fails_throw _).bind
    | ok text =>
        cases parsed : Config.read? text with
        | none =>
            have missing : configOf? files root = none := by
              simp [configOf?, present, read, parsed, Except.toOption]
            refine missing ▸ yields_none (ends_files.bind_fails ?_)
            simp only [present, read, parsed, ↓reduceIte]
            exact (fails_throw _).bind
        | some config =>
            have found : configOf? files root = some (config.below root) := by
              simp [configOf?, present, read, parsed, Except.toOption]
            refine found ▸ yields_some (ends_files.then ?_)
            simp only [present, read, parsed, ↓reduceIte, pure_bind]
            exact (ends_log _).then (ends_pure _)
  · have found : configOf? files root = some (Config.below root {}) := by
      simp [configOf?, present]
    refine found ▸ yields_some (ends_files.then ?_)
    simp only [present, Bool.false_eq_true, ↓reduceIte, pure_bind]
    exact (ends_log _).then (ends_pure _)

theorem ends_documentsIn {directory : String} (listable : IsListable files directory) :
    (documentsIn directory).Ends files (.ok (documentsOf files directory)) [] := by
  refine ends_files.then ?_
  rw [documentsOf]
  cases content : files.content directory with
  | error _ =>
      simp only [Files.contains, Files.list, content]
      exact ends_pure _
  | ok found =>
      have isDirectory := listable (by simp [Files.contains, content])
      cases found with
      | directory inside =>
          simp only [Files.contains, Files.list, content]
          exact ends_pure _
      | text _ => simp [Files.isDirectory, content] at isDirectory
      | binary => simp [Files.isDirectory, content] at isDirectory

theorem loadKeys_yields (path : String) :
    (loadKeys path).Yields files (keysOf? files path) id fun _ => [] := by
  cases read : files.read path with
  | error _ =>
      have missing : keysOf? files path = none := by simp [keysOf?, read, Except.toOption]
      refine missing ▸ yields_none (ends_files.bind_fails ?_)
      simp only [read]
      exact fails_throw _
  | ok text =>
      cases loads : AccessKeySet.load text with
      | error _ =>
          have missing : keysOf? files path = none := by
            simp [keysOf?, read, loads, Except.toOption]
          refine missing ▸ yields_none (ends_files.bind_fails ?_)
          simp only [read, loads]
          exact fails_throw _
      | ok loaded =>
          have found : keysOf? files path = some loaded.set := by
            simp [keysOf?, read, loads, Except.toOption]
          refine found ▸ yields_some (ends_files.then ?_)
          simp only [read, loads]
          exact (ends_log _).then (ends_pure _)

theorem ends_report (entries : List Entry) (lines : List String) (report : Report) :
    Ends (do log entries; say lines; return report) files (.ok report) lines :=
  (ends_log entries).then ((ends_say lines).map fun _ => report)

theorem prepareKeys_yields (config : Config) (path : String) :
    (prepareKeys config path).Yields files (keysOf? files path) config.prepared
      config.keyLines where
  ends := by
    intro set found
    refine ((loadKeys_yields path).ends set found).then ?_
    rw [Config.prepared, Config.keyLines]
    cases config.checkAccessKeys with
    | false => exact ends_pure _
    | true => exact (ends_report _ _ _).map fun report => (set, some report)
  fails := fun missing => ((loadKeys_yields path).fails missing).bind

theorem reportTree_yields (options : Options) (sets : List AccessKeySet) (path : String) :
    (reportTree options sets path).Yields files (treeOf? files path)
      (fun tree => tree.compile sets options)
      (fun tree => reportLines tree.name (tree.compile sets options)) := by
  cases read : files.read path with
  | error _ =>
      have missing : treeOf? files path = none := by simp [treeOf?, read, Except.toOption]
      refine missing ▸ yields_none (Fails.bind (ends_files.bind_fails ?_))
      simp only [read]
      exact fails_throw _
  | ok text =>
      cases loads : Tree.load text with
      | error _ =>
          have missing : treeOf? files path = none := by
            simp [treeOf?, read, loads, Except.toOption]
          refine missing ▸ yields_none (Fails.bind (ends_files.bind_fails ?_))
          simp only [read, loads]
          exact fails_throw _
      | ok loaded =>
          have found : treeOf? files path = some (named path loaded.tree) := by
            simp [treeOf?, read, loads, Except.toOption]
          have loading : (loadTree path).Ends files
              (.ok { loaded with tree := named path loaded.tree }) [] := by
            refine ends_files.then ?_
            simp only [read, loads]
            exact (ends_log _).then (ends_pure _)
          exact found ▸ yields_some (loading.then (ends_report _ _ _))

theorem ends_failOn (count : Nat) (failure : Nat → CommandFailure) :
    (failOn count failure).Ends files (if 0 < count then .error (failure count) else .ok ()) [] := by
  rw [failOn]
  split
  · exact ends_throw _
  · exact ends_pure _

end Session

/-! ## The whole compilation -/

open Session

/-- What a compilation does with the trees that it has selected. -/
def compileAll (config : Config) (paths : List String) : Session Unit := do
  if paths.isEmpty then
    say [s!"No behavior trees found in {config.treesDirectory}"]
  else
    let keys ← (← documentsIn config.keysDirectory).mapM (prepareKeys config)
    let reports ← paths.mapM (reportTree config.options (keys.map Prod.fst))
    failOn (failures (keys.filterMap Prod.snd) + failures reports) .documentsFailed

variable {config : Config} {files : Files} {paths : List String}

theorem ends_compileAll (listable : IsListable files config.keysDirectory) (selected : paths ≠ [])
    (loads : config.Loads files paths) :
    (compileAll config paths).Ends files
      (if 0 < config.failing files paths then .error (.documentsFailed (config.failing files paths))
      else .ok ())
      ((config.results files paths).flatMap fun result => reportLines result.1 result.2) := by
  have isEmpty : paths.isEmpty = false := by simpa using selected
  have keys := ends_mapM (prepareKeys_yields config) loads.keys
  have reports := ends_mapM (reportTree_yields config.options (config.sets files)) loads.trees
  simp only [compileAll, isEmpty, Bool.false_eq_true, ↓reduceIte]
  refine (ends_documentsIn listable).then ?_
  rw [Config.failing_eq, Config.flatMap_results]
  have sets : ((config.sets files).map config.prepared).map Prod.fst = config.sets files := by
    simp [Config.prepared, Function.comp_def]
  refine keys.bind ?_
  rw [← Config.sets, sets]
  exact reports.finally (ends_failOn _ _)

theorem fails_compileAll (listable : IsListable files config.keysDirectory) (selected : paths ≠ [])
    (stuck : ¬config.Loads files paths) : (compileAll config paths).Fails files := by
  have isEmpty : paths.isEmpty = false := by simpa using selected
  simp only [compileAll, isEmpty, Bool.false_eq_true, ↓reduceIte]
  refine (ends_documentsIn listable).bind_fails ?_
  by_cases keys : ∀ path ∈ documentsOf files config.keysDirectory, keysOf? files path ≠ none
  · refine (ends_mapM (prepareKeys_yields config) keys).bind_fails (Fails.bind ?_)
    apply fails_mapM (reportTree_yields config.options _)
    by_contra trees
    push Not at trees
    exact stuck ⟨keys, trees⟩
  · push Not at keys
    exact (fails_mapM (prepareKeys_yields config) keys).bind

variable {root : String} {trees : List String}

theorem ends_selected (listable : IsListable files config.treesDirectory) :
    Ends (if trees.isEmpty then documentsIn config.treesDirectory else pure trees) files
      (.ok (config.selected files trees)) [] := by
  cases trees with
  | nil => exact ends_documentsIn listable
  | cons tree trees => exact ends_pure _

theorem runCompile_eq (root : String) (trees : List String) :
    runCompile root trees = loadConfig root >>= fun config =>
      (if trees.isEmpty then documentsIn config.treesDirectory else pure trees) >>=
        compileAll config := by
  cases trees <;> rfl

theorem ends_runCompile {answer : Except CommandFailure Unit} {lines : List String}
    (found : configOf? files root = some config)
    (listable : IsListable files config.treesDirectory)
    (ends : (compileAll config (config.selected files trees)).Ends files answer lines) :
    (runCompile root trees).Ends files answer lines := by
  rw [runCompile_eq]
  exact ((loadConfig_yields root).ends config found).then ((ends_selected listable).then ends)

theorem fails_runCompile (found : configOf? files root = some config)
    (listable : IsListable files config.treesDirectory)
    (fails : (compileAll config (config.selected files trees)).Fails files) :
    (runCompile root trees).Fails files := by
  rcases fails with ⟨failure, lines, ends⟩
  exact ⟨failure, lines, ends_runCompile found listable ends⟩

/-- How the outcome of a compilation depends on the files. -/
structure CompilesExactly (files : Files) (root : String) (trees : List String)
    (outcome : Outcome) : Prop where
  succeeds : outcome.failure = none ↔ ∃ config, configOf? files root = some config ∧
    (config.selected files trees = [] ∨ config.Loads files (config.selected files trees) ∧
      config.Passes files (config.selected files trees))
  directories : ∀ config, configOf? files root = some config →
    ListsDocuments files config.treesDirectory (documentsOf files config.treesDirectory) ∧
      ListsDocuments files config.keysDirectory (documentsOf files config.keysDirectory)
  /-- Every document is compiled and printed, whether or not those before it have passed. -/
  complete : ∀ config, configOf? files root = some config → config.selected files trees ≠ [] →
    config.Loads files (config.selected files trees) →
    linesOf outcome.desk.output = (config.results files (config.selected files trees)).flatMap
      (fun result => reportLines result.1 result.2) ∧
    outcome.failure =
      if 0 < config.failing files (config.selected files trees) then
        some (.documentsFailed (config.failing files (config.selected files trees)))
      else none

section Outcome

variable {project : Option String} (verbose : Bool)

theorem run_of_ends {answer : Except CommandFailure Unit} {lines : List String}
    (ends : (runCompile (project.getD (workingPath files)) trees).Ends files answer lines) :
    linesOf (Invocation.run ⟨project, verbose, some (.compile trees)⟩ files).desk.output = lines ∧
      (Invocation.run ⟨project, verbose, some (.compile trees)⟩ files).failure =
        match answer with
        | .ok _ => none
        | .error failure => some failure := by
  rcases ends [] with ⟨told, ran, printed⟩
  simp only [Invocation.run, runCommand, ran]
  cases answer <;> exact ⟨printed, rfl⟩

theorem run_of_fails (fails : (runCompile (project.getD (workingPath files)) trees).Fails files) :
    (Invocation.run ⟨project, verbose, some (.compile trees)⟩ files).failure ≠ none := by
  rcases fails with ⟨failure, lines, ends⟩
  simp [(run_of_ends verbose ends).2]

variable (found : configOf? files (project.getD (workingPath files)) = some config)
  (treesListable : IsListable files config.treesDirectory)
  (keysListable : IsListable files config.keysDirectory)
include found treesListable

theorem run_of_nothing (nothing : config.selected files trees = []) :
    (Invocation.run ⟨project, verbose, some (.compile trees)⟩ files).failure = none := by
  have ends : (compileAll config (config.selected files trees)).Ends files (.ok ())
      [s!"No behavior trees found in {config.treesDirectory}"] := by
    rw [nothing]
    exact ends_say _
  exact (run_of_ends verbose (ends_runCompile found treesListable ends)).2

include keysListable

theorem run_of_loads (selected : config.selected files trees ≠ [])
    (loads : config.Loads files (config.selected files trees)) :
    linesOf (Invocation.run ⟨project, verbose, some (.compile trees)⟩ files).desk.output =
        (config.results files (config.selected files trees)).flatMap
          (fun result => reportLines result.1 result.2) ∧
      (Invocation.run ⟨project, verbose, some (.compile trees)⟩ files).failure =
        if 0 < config.failing files (config.selected files trees) then
          some (.documentsFailed (config.failing files (config.selected files trees)))
        else none := by
  have ends := ends_runCompile found treesListable (ends_compileAll keysListable selected loads)
  rcases run_of_ends verbose ends with ⟨printed, failure⟩
  refine ⟨printed, failure.trans ?_⟩
  split <;> split <;> simp_all

theorem run_eq_none_iff (selected : config.selected files trees ≠ []) :
    (Invocation.run ⟨project, verbose, some (.compile trees)⟩ files).failure = none ↔
      config.Loads files (config.selected files trees) ∧
        config.Passes files (config.selected files trees) := by
  by_cases loads : config.Loads files (config.selected files trees)
  · rw [(run_of_loads verbose found treesListable keysListable selected loads).2,
      ← Config.failing_eq_zero_iff]
    simp [loads]
  · have fails := fails_runCompile found treesListable (fails_compileAll keysListable selected loads)
    simp [loads, run_of_fails verbose fails]

end Outcome

/-- A compilation succeeds exactly where the configuration can be loaded and there is nothing to
compile, or every document can be loaded and passes. -/
theorem compile_exact (project : Option String) (verbose : Bool) (trees : List String) (files : Files)
    (listable : ∀ config, configOf? files (project.getD (workingPath files)) = some config →
      IsListable files config.treesDirectory ∧ IsListable files config.keysDirectory) :
    CompilesExactly files (project.getD (workingPath files)) trees
      (Invocation.run ⟨project, verbose, some (.compile trees)⟩ files) := by
  refine ⟨?_, fun _ _ => ⟨listsDocuments_documentsOf .., listsDocuments_documentsOf ..⟩, ?_⟩
  · constructor
    · intro succeeded
      cases found : configOf? files (project.getD (workingPath files)) with
      | none =>
          have fails : (runCompile (project.getD (workingPath files)) trees).Fails files := by
            rw [runCompile_eq]
            exact ((loadConfig_yields _).fails found).bind
          exact absurd succeeded (run_of_fails verbose fails)
      | some config =>
          rcases listable config found with ⟨treesListable, keysListable⟩
          refine ⟨config, rfl, or_iff_not_imp_left.mpr fun selected => ?_⟩
          exact (run_eq_none_iff verbose found treesListable keysListable selected).mp succeeded
    · rintro ⟨config, found, done⟩
      rcases listable config found with ⟨treesListable, keysListable⟩
      by_cases selected : config.selected files trees = []
      · exact run_of_nothing verbose found treesListable selected
      · have passes := done.resolve_left selected
        exact (run_eq_none_iff verbose found treesListable keysListable selected).mpr passes
  · intro config found selected loads
    rcases listable config found with ⟨treesListable, keysListable⟩
    exact run_of_loads verbose found treesListable keysListable selected loads

/-! ### A project of two trees that do nothing, and without access keys -/

def idleProject : Files where
  root := [("trees", .directory [
    ("Rest.json", .text "\x7b\"Name\":\"Rest\"\x7d"),
    ("Guard.json", .text "\x7b\"Name\":\"Guard\"\x7d")])]

def idleTrees : List String := ["/trees/Rest.json", "/trees/Guard.json"]

theorem configOf_idleProject : configOf? idleProject "/" = some (Config.below "/" {}) := by
  have path : Path.join "/" Config.path = "/.btree/config.yaml" := by decide +kernel
  have clean : "/.btree/config.yaml".contains '\x00' = false := by simp
  have absent : idleProject.contains "/.btree/config.yaml" = false := by
    simp only [Files.contains, Files.content, Files.follow, Files.checkPath, clean]
    decide +kernel
  simp [configOf?, path, absent]

theorem contains_keys_idleProject :
    idleProject.contains (Config.below "/" {}).keysDirectory = false := by
  have path : (Config.below "/" {}).keysDirectory = "/access_keys" := by decide +kernel
  have clean : "/access_keys".contains '\x00' = false := by simp
  simp only [path, Files.contains, Files.content, Files.follow, Files.checkPath, clean]
  decide +kernel

theorem isDirectory_trees_idleProject :
    idleProject.isDirectory (Config.below "/" {}).treesDirectory = true := by
  have path : (Config.below "/" {}).treesDirectory = "/trees" := by decide +kernel
  have clean : "/trees".contains '\x00' = false := by simp
  simp only [path, Files.isDirectory, Files.content, Files.follow, Files.checkPath, clean]
  decide +kernel

theorem read_idleProject :
    idleProject.read "/trees/Rest.json" = .ok "\x7b\"Name\":\"Rest\"\x7d" ∧
      idleProject.read "/trees/Guard.json" = .ok "\x7b\"Name\":\"Guard\"\x7d" := by
  have clean : "/trees/Rest.json".contains '\x00' = false ∧
      "/trees/Guard.json".contains '\x00' = false := by simp
  simp only [Files.read, Files.content, Files.follow, Files.checkPath, clean]
  decide +kernel

theorem compile_exact_idleProject :
    CompilesExactly idleProject "/" idleTrees
        (Invocation.run ⟨some "/", false, some (.compile idleTrees)⟩ idleProject) ∧
      (Invocation.run ⟨some "/", false, some (.compile idleTrees)⟩ idleProject).failure =
        some (.documentsFailed 2) := by
  have noKeys : documentsOf idleProject (Config.below "/" {}).keysDirectory = [] :=
    (listsDocuments_documentsOf ..).absent contains_keys_idleProject
  have loads : (Config.below "/" {}).Loads idleProject idleTrees := by
    constructor
    · simp [noKeys]
    · simp only [idleTrees, List.forall_mem_cons, treeOf?, read_idleProject]
      decide +kernel
  have failing : (Config.below "/" {}).failing idleProject idleTrees = 2 := by
    simp only [Config.failing, Config.results, Config.sets, noKeys, idleTrees, List.filterMap,
      treeOf?, read_idleProject]
    decide +kernel
  have exact : CompilesExactly idleProject "/" idleTrees
      (Invocation.run ⟨some "/", false, some (.compile idleTrees)⟩ idleProject) := by
    refine compile_exact (some "/") false idleTrees idleProject fun config found => ?_
    obtain rfl : Config.below "/" {} = config :=
      Option.some.inj (configOf_idleProject.symm.trans found)
    refine ⟨fun _ => isDirectory_trees_idleProject, fun present => ?_⟩
    exact absurd present (by simp [contains_keys_idleProject])
  have selected : (Config.below "/" {}).selected idleProject idleTrees ≠ [] :=
    List.cons_ne_nil _ _
  refine ⟨exact, (exact.complete _ configOf_idleProject selected loads).2.trans ?_⟩
  have count : (Config.below "/" {}).failing idleProject
      ((Config.below "/" {}).selected idleProject idleTrees) = 2 := failing
  rw [count]
  rfl

end BehaviorTree.Project
