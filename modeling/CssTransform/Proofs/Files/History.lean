import CssTransform.Files.Run
import CssTransform.Proofs.Files.Tree

/-!
# The history of a run

A run threads a tree through everything it does and keeps reports. Its history is told as a list of
steps, one for each report, each with the tree that it finds and the tree that it leaves. A step
leaves the tree as it is, or it has read a file and stored its compiled text, or it has failed to
store it and has at most made directories.

## Which choice is load-bearing

The walk itself knows locations. A step is told by paths only, by its root and by the path in its
report, and where the file stands and where its compiled text goes is read off these by following
them. So two steps are about the same file if their paths lead to the same location, however they
are written. That the walk and its paths agree needs a tree whose locations are made of names that
lead down.

## Main definitions

* `Step`, `Step.location`, `Step.target` — a step, the place of its file and that of its result
* `Job.history` — the steps of a run
* `Job.Makes`, `Job.Runs` — what one step does, and steps that follow one another

## Main results

* `Job.run_eq_history` — the tree after a run and its reports, by its history
* `Job.runs_history` — the steps of a run
* `Job.Makes.find?_cases` — everything that a step can do to a location
* `Job.Runs.invariant` — what every step keeps is kept by all of them
-/

namespace CssTransform

namespace Files

/-! ### Steps -/

/-- One report of a run, with the root it belongs to and the trees before and after it. -/
structure Step where
  root : Path
  before : Tree
  after : Tree
  report : Report

namespace Step

/-- The location of the file. -/
def location (s : Step) : Location := s.before.locate s.report.path

/-- The path that the compiled file goes to. -/
def targetPath (job : Job) (s : Step) : Path := job.target s.root s.report.path s.before

/-- The location that the compiled file goes to. -/
def target (job : Job) (s : Step) : Location := s.before.locate (s.targetPath job)

end Step

/-- The tree after some steps. -/
def treeAfter (tree : Tree) (steps : List Step) : Tree := steps.foldl (fun _ s => s.after) tree

@[simp] theorem treeAfter_nil (tree : Tree) : treeAfter tree [] = tree := rfl

@[simp] theorem treeAfter_cons (tree : Tree) (s : Step) (steps : List Step) :
    treeAfter tree (s :: steps) = treeAfter s.after steps := rfl

theorem treeAfter_append (tree : Tree) (steps steps' : List Step) :
    treeAfter tree (steps ++ steps') = treeAfter (treeAfter tree steps) steps' :=
  List.foldl_append

/-- The steps of several things done one after another. -/
def inTurn {α : Type} (steps : α → Tree → List Step) : List α → Tree → List Step
  | [], _ => []
  | a :: as, tree => steps a tree ++ inTurn steps as (treeAfter tree (steps a tree))

/-- What some steps add to a tree and the reports so far. -/
def Progress.extend (p : Progress) (steps : List Step) : Progress where
  tree := treeAfter p.tree steps
  reports := (steps.map Step.report).reverse ++ p.reports

theorem Progress.extend_append (p : Progress) (steps steps' : List Step) :
    p.extend (steps ++ steps') = (p.extend steps).extend steps' := by
  simp [extend, treeAfter_append]

theorem foldl_eq_extend {α : Type} {f : Progress → α → Progress} {steps : α → Tree → List Step}
    (as : List α) (h : ∀ a ∈ as, ∀ p : Progress, f p a = p.extend (steps a p.tree))
    (p : Progress) : as.foldl f p = p.extend (inTurn steps as p.tree) := by
  induction as generalizing p with
  | nil => rfl
  | cons a as ih =>
    rw [List.foldl_cons, h a List.mem_cons_self, ih fun b hb => h b (List.mem_cons_of_mem a hb),
      inTurn, Progress.extend_append]
    rfl

namespace Job

/-! ### The history of a run -/

/-- The step about a file, if its path matches. -/
def fileSteps (job : Job) (root path : Path) (location : Location) (tree : Tree) : List Step :=
  if job.filter.isMatch path then
    [⟨root, tree, (job.compileFile root path location tree).2,
      ⟨path, (job.compileFile root path location tree).1⟩⟩]
  else []

/-- The steps of a walk from a path on. -/
def visitSteps (job : Job) (root : Path) : Nat → Path → Location → Tree → List Step
  | 0, path, _, tree => [⟨root, tree, tree, scanFailure path .nameTooLong⟩]
  | levels + 1, path, location, tree =>
    match tree.find? location with
    | none => [⟨root, tree, tree, scanFailure path .notFound⟩]
    | some (.file _) => job.fileSteps root path location tree
    | some .directory =>
      inTurn (fun name => job.visitSteps root levels (Path.child path name) (location ++ [name]))
        (tree.names location) tree

/-- The steps of a root. -/
def rootSteps (job : Job) (root : Path) (tree : Tree) : List Step :=
  match tree.resolve root with
  | .error failure => [⟨root, tree, tree, scanFailure root failure⟩]
  | .ok (location, .file _) => job.fileSteps root root location tree
  | .ok (location, .directory) => job.visitSteps root maxLevels root location tree

/-- The steps of a run. -/
def history (job : Job) (roots : List Path) (tree : Tree) : List Step :=
  inTurn job.rootSteps roots tree

variable {job : Job} {root path : Path} {location l : Location} {tree : Tree} {s : Step}

theorem process_eq_extend (p : Progress) :
    job.process root path location p = p.extend (job.fileSteps root path location p.tree) := by
  rw [process, fileSteps]
  split <;> rfl

theorem visit_eq_extend (levels : Nat) (p : Progress) :
    job.visit root levels path location p =
      p.extend (job.visitSteps root levels path location p.tree) := by
  induction levels generalizing path location p with
  | zero => rfl
  | succ levels ih =>
    rw [visit, visitSteps]
    cases p.tree.find? location with
    | none => rfl
    | some node =>
      cases node with
      | file content => exact process_eq_extend p
      | directory =>
        have hentries := fun (name : List Char) (_ : name ∈ p.tree.names location) p =>
          @ih (Path.child path name) (location ++ [name]) p
        exact foldl_eq_extend _ hentries p

theorem visitRoot_eq_extend (root : Path) (p : Progress) :
    job.visitRoot root p = p.extend (job.rootSteps root p.tree) := by
  rw [visitRoot, rootSteps]
  cases p.tree.resolve root with
  | error failure => rfl
  | ok found =>
    obtain ⟨location, node⟩ := found
    cases node with
    | file content => exact process_eq_extend p
    | directory => exact visit_eq_extend maxLevels p

/-- **A run is its history**: the tree after its last step, and the reports of its steps. -/
theorem run_eq_history (job : Job) (roots : List Path) (tree : Tree) :
    job.run roots tree =
      (treeAfter tree (job.history roots tree), (job.history roots tree).map Step.report) := by
  rw [run, foldl_eq_extend roots (fun root _ p => visitRoot_eq_extend root p)]
  simp [Progress.extend, history]

/-! ### What a step does -/

/-- Everything that a step can do to the tree: nothing, prepare it for a file and fail to write that,
or prepare it and write the compiled text of what was read. -/
inductive Makes (job : Job) (s : Step) : Prop
  | nothing (hafter : s.after = s.before)
      (hreport : s.report.isChanged = true → job.dryRun = true)
  | prepare (hafter : s.after = s.before.prepared (s.targetPath job)) (hdry : job.dryRun = false)
      (hreport : s.report.isChanged = false)
  | write (css : List Char) (hread : s.before.read s.location = .ok css)
      (hdirectory : (s.before.prepared (s.targetPath job)).find? (s.target job) ≠
        some .directory)
      (hafter : s.after = (s.before.prepared (s.targetPath job)).put (s.target job)
        (.file (Tree.bytesOf (Stylesheet.compile job.settings css).css)))
      (hdry : job.dryRun = false) (hreport : s.report.isChanged = true)

theorem Makes.of_not_isChanged (hafter : s.after = s.before)
    (hreport : s.report.isChanged = false) : job.Makes s :=
  .nothing hafter fun hchanged => absurd (hreport.symm.trans hchanged) Bool.false_ne_true

/-- Steps that follow one another from a tree on. -/
inductive Runs (job : Job) : Tree → List Step → Prop
  | nil {tree : Tree} : Runs job tree []
  | cons {s : Step} {steps : List Step} (hs : job.Makes s) (hsteps : Runs job s.after steps) :
      Runs job s.before (s :: steps)

theorem Runs.append {steps steps' : List Step} (h : job.Runs tree steps)
    (h' : job.Runs (treeAfter tree steps) steps') : job.Runs tree (steps ++ steps') := by
  induction h with
  | nil => exact h'
  | cons hs hsteps ih => exact .cons hs (ih h')

/-- A step with the steps before and after it. -/
theorem Runs.of_append_cons {earlier later : List Step} {s : Step}
    (h : job.Runs tree (earlier ++ s :: later)) :
    s.before = treeAfter tree earlier ∧ job.Makes s ∧ job.Runs s.after later := by
  induction earlier generalizing tree with
  | nil =>
    cases h with
    | cons hs hsteps => exact ⟨rfl, hs, hsteps⟩
  | cons t earlier ih =>
    cases h with
    | cons _ hsteps => exact ih hsteps

/-- What every step keeps is kept by all of them. -/
theorem Runs.invariant {steps : List Step} (h : job.Runs tree steps) {P : Tree → Prop}
    (hstep : ∀ s ∈ steps, job.Makes s → P s.before → P s.after) (htree : P tree) :
    P (treeAfter tree steps) := by
  induction h with
  | nil => exact htree
  | @cons s steps hs hsteps ih =>
    exact ih (fun t ht => hstep t (List.mem_cons_of_mem s ht))
      (hstep s List.mem_cons_self hs htree)

/-- What every step keeps holds before each of them. -/
theorem Runs.invariant_before {steps : List Step} (h : job.Runs tree steps) {P : Tree → Prop}
    (hkeep : ∀ s, job.Makes s → P s.before → P s.after) (htree : P tree) :
    ∀ s ∈ steps, P s.before := by
  induction h with
  | nil => exact fun s hs => absurd hs List.not_mem_nil
  | cons hs _ ih => exact List.forall_mem_cons.2 ⟨htree, ih (hkeep _ hs htree)⟩

/-- Things that are done one after another, each from a tree with a property that steps keep. -/
theorem runs_inTurn {α : Type} {steps : α → Tree → List Step} {as : List α} {P : Tree → Prop}
    (hkeep : ∀ s, job.Makes s → P s.before → P s.after)
    (h : ∀ a ∈ as, ∀ tree, P tree → job.Runs tree (steps a tree)) (htree : P tree) :
    job.Runs tree (inTurn steps as tree) := by
  induction as generalizing tree with
  | nil => exact .nil
  | cons a as ih =>
    have ha := h a List.mem_cons_self tree htree
    exact ha.append (ih (fun b hb => h b (List.mem_cons_of_mem a hb))
      (ha.invariant (fun s _ => hkeep s) htree))

/-! ### What steps keep -/

/-- Everything that a step can do to a location: nothing, make a directory where nothing was, or
write the compiled text of what was read to its target, which is no directory. -/
theorem Makes.find?_cases (h : job.Makes s) (l : Location) :
    s.after.find? l = s.before.find? l ∨
      s.before.find? l = none ∧ s.after.find? l = some .directory ∨
      s.report.isChanged = true ∧ s.target job = l ∧ s.before.find? l ≠ some .directory ∧
        ∃ css, s.before.read s.location = .ok css ∧ s.after.find? l =
          some (.file (Tree.bytesOf (Stylesheet.compile job.settings css).css)) := by
  have hprepared := s.before.find?_prepared (s.targetPath job) l
  cases h with
  | nothing hafter _ => exact .inl (by rw [hafter])
  | prepare hafter _ _ =>
    rw [hafter]
    exact hprepared.imp_right .inl
  | write css hread hdirectory hafter _ hreport =>
    rw [hafter, Tree.find?_put _ (Tree.ne_nil_of_not_directory hdirectory)]
    by_cases hl : l = s.target job
    · subst hl
      rw [if_pos rfl]
      refine .inr (.inr ⟨hreport, rfl, fun htarget => ?_, css, hread, rfl⟩)
      rcases hprepared with hsame | ⟨hnone, -⟩
      · exact hdirectory (hsame.trans htarget)
      · rw [htarget] at hnone
        cases hnone
    · rw [if_neg hl]
      exact hprepared.imp_right .inl

/-- A step that has changed something has written the compiled text of what it has read. -/
theorem Makes.of_isChanged (h : job.Makes s) (hdry : job.dryRun = false)
    (hchanged : s.report.isChanged = true) :
    ∃ css, s.before.read s.location = .ok css ∧ s.after.find? (s.target job) =
      some (.file (Tree.bytesOf (Stylesheet.compile job.settings css).css)) := by
  cases h with
  | nothing _ hreport =>
    rw [hreport hchanged] at hdry
    cases hdry
  | prepare _ _ hreport =>
    rw [hchanged] at hreport
    cases hreport
  | write css hread hdirectory hafter _ _ =>
    refine ⟨css, hread, ?_⟩
    rw [hafter, Tree.find?_put _ (Tree.ne_nil_of_not_directory hdirectory), if_pos rfl]

theorem Makes.find?_directory (h : job.Makes s) (hl : s.before.find? l = some .directory) :
    s.after.find? l = some .directory := by
  rcases h.find?_cases l with hsame | ⟨-, hdirectory⟩ | ⟨-, -, hother, -⟩
  · rwa [hsame]
  · exact hdirectory
  · exact absurd hl hother

theorem Makes.workingDirectory (h : job.Makes s) :
    s.after.workingDirectory = s.before.workingDirectory := by
  cases h with
  | nothing hafter _ => rw [hafter]
  | prepare hafter _ _ => rw [hafter, Tree.workingDirectory_prepared]
  | write css _ _ hafter _ _ =>
    rw [hafter, Tree.workingDirectory_put, Tree.workingDirectory_prepared]

/-- Paths start at the same place all along. -/
theorem Runs.workingDirectory {steps : List Step} (h : job.Runs tree steps) :
    ∀ s ∈ steps, s.before.workingDirectory = tree.workingDirectory :=
  h.invariant_before (P := fun t => t.workingDirectory = tree.workingDirectory)
    (fun _ hs ht => hs.workingDirectory.trans ht) rfl

theorem Makes.isProper (h : job.Makes s) (hs : s.before.IsProper) : s.after.IsProper := by
  cases h with
  | nothing hafter _ => rwa [hafter]
  | prepare hafter _ _ =>
    rw [hafter]
    exact hs.prepared _
  | write css _ _ hafter _ _ =>
    rw [hafter]
    exact (hs.prepared _).put (hs.isNormal_of_mem_locate _) _

/-! ### The steps of a run -/

theorem store_of_dryRun (hdry : job.dryRun = true) (target : Path) (text : List Char)
    (tree : Tree) : job.store target text tree = .ok tree := if_pos hdry

/-- Storing prepares the tree, and then it writes or fails. -/
theorem store_cases (hdry : job.dryRun = false) (target : Path) (text : List Char) (tree : Tree) :
    (∃ failure, job.store target text tree = .error ⟨failure, tree.prepared target⟩) ∨
      (tree.prepared target).find? (tree.locate target) ≠ some .directory ∧
        job.store target text tree =
          .ok ((tree.prepared target).put (tree.locate target) (.file (Tree.bytesOf text))) := by
  rw [store, if_neg (by simp [hdry]), Tree.prepared]
  cases hmake : tree.makeDirectories (tree.way target).dropLast with
  | error stopped => exact .inl ⟨stopped.failure, rfl⟩
  | ok made =>
    simp only [bind, Except.bind, Tree.treeOf, Tree.write]
    split
    · exact .inl ⟨_, rfl⟩
    · next hdirectory => exact .inr ⟨hdirectory, rfl⟩

/-- The step about a file that is told by its path. -/
theorem runs_fileSteps (hlocation : location = tree.locate path) :
    job.Runs tree (job.fileSteps root path location tree) := by
  subst hlocation
  rw [fileSteps]
  split
  · refine .cons (s := ⟨root, tree, _, _⟩) ?_ .nil
    rw [compileFile]
    cases hread : tree.read (tree.locate path) with
    | error failure => exact .of_not_isChanged rfl rfl
    | ok css =>
      dsimp only
      split
      · cases hdry : job.dryRun with
        | true =>
          rw [store_of_dryRun hdry]
          exact .nothing rfl fun _ => hdry
        | false =>
          rcases store_cases hdry (job.target root path tree)
            (Stylesheet.compile job.settings css).css tree with
            ⟨failure, hstore⟩ | ⟨hdirectory, hstore⟩ <;> rw [hstore]
          · exact .prepare rfl hdry rfl
          · exact .write css hread hdirectory rfl hdry rfl
      · exact .of_not_isChanged rfl rfl
  · exact .nil

/-- What a walk relies on: names that lead down, and the place where paths start. -/
def IsWalkable (directory : Location) (tree : Tree) : Prop :=
  tree.IsProper ∧ tree.workingDirectory = directory

theorem Makes.isWalkable {directory : Location} (h : job.Makes s)
    (hs : IsWalkable directory s.before) : IsWalkable directory s.after :=
  ⟨h.isProper hs.1, h.workingDirectory.trans hs.2⟩

theorem runs_visitSteps (levels : Nat) (hproper : tree.IsProper)
    (hlocation : location = tree.locate path) :
    job.Runs tree (job.visitSteps root levels path location tree) := by
  induction levels generalizing path location tree with
  | zero => exact .cons (s := ⟨root, tree, tree, _⟩) (.of_not_isChanged rfl rfl) .nil
  | succ levels ih =>
    rw [visitSteps]
    cases tree.find? location with
    | none => exact .cons (s := ⟨root, tree, tree, _⟩) (.of_not_isChanged rfl rfl) .nil
    | some node =>
      cases node with
      | file content => exact runs_fileSteps hlocation
      | directory =>
        refine runs_inTurn (P := IsWalkable tree.workingDirectory) (fun s hs => hs.isWalkable)
          (fun name hname tree' htree' => ih htree'.1 ?_) ⟨hproper, rfl⟩
        exact Tree.append_eq_locate_child hlocation (hproper.isNormal_of_mem_names hname) htree'.2

theorem runs_rootSteps (root : Path) (hproper : tree.IsProper) :
    job.Runs tree (job.rootSteps root tree) := by
  rw [rootSteps]
  cases hresolve : tree.resolve root with
  | error failure => exact .cons (s := ⟨root, tree, tree, _⟩) (.of_not_isChanged rfl rfl) .nil
  | ok found =>
    obtain ⟨location, node⟩ := found
    obtain ⟨hlocation, -⟩ := Tree.of_resolve hresolve
    cases node with
    | file content => exact runs_fileSteps hlocation
    | directory => exact runs_visitSteps maxLevels hproper hlocation

/-- **The steps of a run** follow one another, and each is told by its paths. -/
theorem runs_history (job : Job) (roots : List Path) (hproper : tree.IsProper) :
    job.Runs tree (job.history roots tree) :=
  runs_inTurn (fun _ hs => hs.isProper) (fun root _ _ h => runs_rootSteps root h) hproper

end Job

end Files

end CssTransform
