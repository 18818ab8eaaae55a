import CssTransform.Proofs.Files.History

/-!
# What a run leaves alone

A run changes files at the targets of its steps and nowhere else. Directories may be made on the way
to a target, and none of them takes the place of a file. With an output directory every target lies
below it: what is added to it are names that lead down.

## Which choice is load-bearing

The names that are added come from entries that the walk has met, or are the last name of a root
that is a file. The former lead down because they are names of entries, and the latter does because
a path that ends in `..` leads to no file. So nothing has to be assumed of the roots. They may go
back up or start at the root directory.

## Main results

* `Job.of_mem_history` — the root of a step, and what is added to the output directory for it
* `Job.run_frame` — what a run leaves alone
-/

namespace CssTransform

namespace Files

namespace Job

variable {job : Job} {root path : Path} {location l : Location} {names : List (List Char)}
  {tree : Tree} {s : Step}

/-! ### One step -/

/-- A file stays a file. -/
theorem Makes.isFile (h : job.Makes s) (hl : ∃ content, s.before.find? l = some (.file content)) :
    ∃ content, s.after.find? l = some (.file content) := by
  obtain ⟨content, hcontent⟩ := hl
  rcases h.find?_cases l with hsame | ⟨hnone, -⟩ | ⟨-, -, -, css, -, hfile⟩
  · exact ⟨content, hsame.trans hcontent⟩
  · rw [hcontent] at hnone
    cases hnone
  · exact ⟨_, hfile⟩

theorem Makes.after_of_dryRun (h : job.Makes s) (hdry : job.dryRun = true) :
    s.after = s.before := by
  cases h with
  | nothing hafter _ => exact hafter
  | prepare _ hwrites _ =>
    rw [hdry] at hwrites
    cases hwrites
  | write css _ _ _ hwrites _ =>
    rw [hdry] at hwrites
    cases hwrites

/-! ### The steps of a run -/

/-- A step belongs to a root, and if it changes a file, then names that lead down are put behind the
output directory for it. -/
def IsBelow (root : Path) (s : Step) : Prop :=
  s.root = root ∧ (s.report.isChanged = true →
    ∃ names, relative? s.before root s.report.path = some names ∧
      ∀ name ∈ names, Path.IsNormal name)

theorem isBelow_scanFailure (root path : Path) (failure : Failure) :
    IsBelow root ⟨root, tree, tree, scanFailure path failure⟩ := by
  refine ⟨rfl, fun hchanged => ?_⟩
  cases hchanged

theorem isBelow_of_mem_fileSteps
    (h : ∃ names, relative? tree root path = some names ∧ ∀ name ∈ names, Path.IsNormal name) :
    ∀ s ∈ job.fileSteps root path location tree, IsBelow root s := by
  intro s hs
  rw [fileSteps] at hs
  split at hs
  · obtain rfl := List.mem_singleton.1 hs
    exact ⟨rfl, fun _ => h⟩
  · exact absurd hs List.not_mem_nil

/-- What is added for a root that is a file. -/
theorem relative?_of_file {content : ByteArray}
    (hresolve : tree.resolve root = .ok (l, .file content)) :
    ∃ names, relative? tree root root = some names ∧ ∀ name ∈ names, Path.IsNormal name := by
  obtain ⟨name, hname⟩ := Tree.fileName?_of_resolve hresolve
  refine ⟨[name], ?_, List.forall_mem_singleton.2 (Path.isNormal_of_fileName? hname)⟩
  rw [relative?, Tree.isFile, hresolve, if_pos rfl, hname]
  rfl

/-- What is added for a path that goes on behind its root, if that is a directory. -/
theorem relative?_of_directory (hroot : tree.find? (tree.locate root) = some .directory)
    (habsolute : Path.isAbsolute path = Path.isAbsolute root)
    (hnames : Path.names path = Path.names root ++ names) :
    relative? tree root path = some names := by
  have hfile : ¬tree.isFile root = true := by
    rw [Tree.isFile]
    split
    · next l content hresolve =>
      obtain ⟨rfl, hl⟩ := Tree.of_resolve hresolve
      rw [hroot] at hl
      cases hl
    · exact Bool.false_ne_true
  rw [relative?, if_neg hfile, Path.stripPrefix?_of_names habsolute hnames]

/-- What holds of the steps of each of several things, whatever the tree before them, holds of the
steps of all. -/
theorem forall_mem_inTurn {α : Type} {steps : α → Tree → List Step} {as : List α}
    {P : Tree → Prop} {Q : Step → Prop} (hkeep : ∀ s, job.Makes s → P s.before → P s.after)
    (hruns : ∀ a ∈ as, ∀ tree, P tree → job.Runs tree (steps a tree))
    (hall : ∀ a ∈ as, ∀ tree, P tree → ∀ s ∈ steps a tree, Q s) (htree : P tree) :
    ∀ s ∈ inTurn steps as tree, Q s := by
  induction as generalizing tree with
  | nil => exact fun s hs => absurd hs List.not_mem_nil
  | cons a as ih =>
    have hfirst := hruns a List.mem_cons_self tree htree
    have hrest := ih (fun b hb => hruns b (List.mem_cons_of_mem a hb))
      (fun b hb => hall b (List.mem_cons_of_mem a hb))
      (hfirst.invariant (fun s _ => hkeep s) htree)
    exact List.forall_mem_append.2 ⟨hall a List.mem_cons_self tree htree, hrest⟩

/-- What the walk of a root relies on: names that lead down, the place where paths start, and that
the root leads to a directory. -/
def IsWalked (root : Path) (directory : Location) (tree : Tree) : Prop :=
  IsWalkable directory tree ∧ tree.find? (tree.locate root) = some .directory

theorem Makes.isWalked {directory : Location} (h : job.Makes s)
    (hs : IsWalked root directory s.before) : IsWalked root directory s.after := by
  refine ⟨h.isWalkable hs.1, ?_⟩
  rw [Tree.locate_congr h.workingDirectory]
  exact h.find?_directory hs.2

/-- The steps of a walk are about what is below its root. -/
theorem isBelow_of_mem_visitSteps {levels : Nat} {directory : Location}
    (hwalked : IsWalked root directory tree) (hlocation : location = tree.locate path)
    (habsolute : Path.isAbsolute path = Path.isAbsolute root)
    (hpath : Path.names path = Path.names root ++ names)
    (hnames : ∀ name ∈ names, Path.IsNormal name) :
    ∀ s ∈ job.visitSteps root levels path location tree, IsBelow root s := by
  induction levels generalizing path location names tree with
  | zero => exact List.forall_mem_singleton.2 (isBelow_scanFailure root path _)
  | succ levels ih =>
    rw [visitSteps]
    cases tree.find? location with
    | none => exact List.forall_mem_singleton.2 (isBelow_scanFailure root path _)
    | some node =>
      cases node with
      | file content =>
        exact isBelow_of_mem_fileSteps
          ⟨names, relative?_of_directory hwalked.2 habsolute hpath, hnames⟩
      | directory =>
        -- every entry is walked with one more name, in whatever tree the entries before it left
        have hentry : ∀ name ∈ tree.names location, ∀ tree', IsWalked root directory tree' →
            Path.IsNormal name ∧ location ++ [name] = tree'.locate (Path.child path name) := by
          intro name hname tree' htree'
          have hnormal := hwalked.1.1.isNormal_of_mem_names hname
          have hdirectory := htree'.1.2.trans hwalked.1.2.symm
          exact ⟨hnormal, Tree.append_eq_locate_child hlocation hnormal hdirectory⟩
        refine forall_mem_inTurn (fun s (hs : job.Makes s) => hs.isWalked) ?_ ?_ hwalked
        · intro name hname tree' htree'
          exact runs_visitSteps levels htree'.1.1 (hentry name hname tree' htree').2
        · intro name hname tree' htree'
          obtain ⟨hnormal, hchild⟩ := hentry name hname tree' htree'
          refine @ih (Path.child path name) (location ++ [name]) (names ++ [name]) tree' htree'
            hchild ((Path.isAbsolute_child hnormal.1).trans habsolute) ?_ ?_
          · rw [Path.names_child hnormal, hpath, List.append_assoc]
          · exact List.forall_mem_append.2 ⟨hnames, List.forall_mem_singleton.2 hnormal⟩

theorem isBelow_of_mem_rootSteps (root : Path) (hproper : tree.IsProper) :
    ∀ s ∈ job.rootSteps root tree, IsBelow root s := by
  rw [rootSteps]
  cases hresolve : tree.resolve root with
  | error failure => exact List.forall_mem_singleton.2 (isBelow_scanFailure root root failure)
  | ok found =>
    obtain ⟨location, node⟩ := found
    cases node with
    | file content => exact isBelow_of_mem_fileSteps (relative?_of_file hresolve)
    | directory =>
      obtain ⟨rfl, hfind⟩ := Tree.of_resolve hresolve
      exact isBelow_of_mem_visitSteps ⟨⟨hproper, rfl⟩, hfind⟩ rfl rfl (List.append_nil _).symm
        fun _ hname => absurd hname List.not_mem_nil

/-- The root of a step, and what is added to the output directory for it. -/
theorem of_mem_history {roots : List Path} (hproper : tree.IsProper) :
    ∀ s ∈ job.history roots tree, s.root ∈ roots ∧ IsBelow s.root s := by
  refine forall_mem_inTurn (fun s (hs : job.Makes s) => hs.isProper) ?_ ?_ hproper
  · exact fun root _ tree htree => runs_rootSteps root htree
  · intro root hroot tree htree s hs
    have hbelow := isBelow_of_mem_rootSteps root htree s hs
    rw [hbelow.1]
    exact ⟨hroot, hbelow⟩

/-- The target of a step that changes a file lies below the output directory. -/
theorem IsBelow.target_eq (h : IsBelow s.root s) (hchanged : s.report.isChanged = true)
    {directory : Path} (hdirectory : job.outDir = some directory) :
    ∃ names, s.target job = s.before.locate directory ++ names ∧
      ∀ name ∈ names, Path.IsNormal name := by
  obtain ⟨names, hrelative, hnames⟩ := h.2 hchanged
  have htarget : s.targetPath job = Path.below directory names := by
    rw [Step.targetPath, target, hdirectory]
    simp only [hrelative]
  exact ⟨names, by rw [Step.target, htarget, Tree.locate_below _ _ hnames], hnames⟩

/-! ### Runs -/

/-- **What a run leaves alone.** No file disappears, and a run that only reports changes nothing. A
file that is new after a run, or has other bytes than before, is the target of a step whose report
says that something was converted. With an output directory that target is the directory with names
added that lead down. -/
theorem run_frame (job : Job) {roots : List Path} (hproper : tree.IsProper) :
    (job.run roots tree).2 = (job.history roots tree).map Step.report ∧
      (∀ l content, tree.find? l = some (.file content) →
        ∃ content', (job.run roots tree).1.find? l = some (.file content')) ∧
      (job.dryRun = true → (job.run roots tree).1 = tree) ∧
      ∀ l content, (job.run roots tree).1.find? l = some (.file content) →
        tree.find? l ≠ some (.file content) →
        ∃ s ∈ job.history roots tree, s.root ∈ roots ∧ s.report.isChanged = true ∧
          s.target job = l ∧ ∀ directory, job.outDir = some directory →
            ∃ names, l = tree.locate directory ++ names ∧ ∀ name ∈ names, Path.IsNormal name := by
  have hruns := runs_history job roots hproper
  rw [run_eq_history]
  refine ⟨rfl, ?_, ?_, ?_⟩
  · intro l content hcontent
    exact hruns.invariant (P := fun tree => ∃ content, tree.find? l = some (.file content))
      (fun s _ hs => hs.isFile) ⟨content, hcontent⟩
  · intro hdry
    exact hruns.invariant (P := fun tree' => tree' = tree)
      (fun s _ hs h => (hs.after_of_dryRun hdry).trans h) rfl
  · intro l content hafter hbefore
    -- a location that is no target keeps what it has, or gets a directory
    have hwritten : ∃ s ∈ job.history roots tree, s.report.isChanged = true ∧ s.target job = l := by
      by_contra hnone
      have hkept := hruns.invariant
        (P := fun tree' => tree'.find? l = tree.find? l ∨ tree'.find? l = some .directory) ?_
        (.inl rfl)
      · rcases hkept with hsame | hdirectory
        · exact hbefore (hsame.symm.trans hafter)
        · rw [hafter] at hdirectory
          cases hdirectory
      · intro s hmem hs htree'
        rcases hs.find?_cases l with hsame | ⟨-, hdirectory⟩ | ⟨hchanged, htarget, -⟩
        · rwa [hsame]
        · exact .inr hdirectory
        · exact absurd ⟨s, hmem, hchanged, htarget⟩ hnone
    obtain ⟨s, hmem, hchanged, htarget⟩ := hwritten
    obtain ⟨hroot, hbelow⟩ := of_mem_history hproper s hmem
    refine ⟨s, hmem, hroot, hchanged, htarget, fun directory hdirectory => ?_⟩
    obtain ⟨names, heq, hnames⟩ := hbelow.target_eq hchanged hdirectory
    refine ⟨names, ?_, hnames⟩
    rw [← htarget, heq, Tree.locate_congr (hruns.workingDirectory s hmem)]

section NestedSheet

/-- A sheet two directories down. -/
def nestedSheet : Tree where
  entries := [
    (["a".toList], .directory),
    (["a".toList, "css".toList], .directory),
    (["a".toList, "css".toList, "x.css".toList],
      .file (Tree.bytesOf "p{transform:scale(2)}".toList))]

/-- All files are compiled into one directory, which is not there yet. -/
def mirroring : Job where
  settings := default
  filter := .empty
  outDir := some "out".toList
  dryRun := false

/-- The file that is new is the target of the only step, two names below the output directory. The
root goes down and back up. -/
theorem run_frame_nestedSheet :
    nestedSheet.IsProper ∧
      (∃ content, (mirroring.run ["./a/css/..".toList] nestedSheet).1.find?
        ["out".toList, "css".toList, "x.css".toList] = some (.file content)) ∧
      nestedSheet.find? ["out".toList, "css".toList, "x.css".toList] = none ∧
      ∃ s ∈ mirroring.history ["./a/css/..".toList] nestedSheet, s.report.isChanged = true ∧
        s.target mirroring = ["out".toList, "css".toList, "x.css".toList] ∧
        ∃ names, ["out".toList, "css".toList, "x.css".toList] =
            nestedSheet.locate "out".toList ++ names ∧ ∀ name ∈ names, Path.IsNormal name := by
  have hproper : nestedSheet.IsProper := by decide
  have hread : (mirroring.run ["./a/css/..".toList] nestedSheet).1.read
      ["out".toList, "css".toList, "x.css".toList] = .ok
        "p{transform:matrix3d(2, 0, 0, 0, 0, 2, 0, 0, 0, 0, 1, 0, 0, 0, 0, 1)}".toList := by
    decide +kernel
  have hnone : nestedSheet.find? ["out".toList, "css".toList, "x.css".toList] = none := rfl
  obtain ⟨content, hcontent, -⟩ := Tree.exists_of_read hread
  obtain ⟨-, -, -, hframe⟩ := run_frame mirroring hproper
  have hother : nestedSheet.find? ["out".toList, "css".toList, "x.css".toList] ≠
      some (.file content) := by
    rw [hnone]
    exact (Option.some_ne_none _).symm
  obtain ⟨s, hs, -, hchanged, htarget, hnames⟩ := hframe _ content hcontent hother
  exact ⟨hproper, ⟨content, hcontent⟩, hnone, s, hs, hchanged, htarget, hnames _ rfl⟩

end NestedSheet

end Job

end Files

end CssTransform
