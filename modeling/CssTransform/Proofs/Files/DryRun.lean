import CssTransform.Proofs.Files.Growth
import CssTransform.Proofs.Files.Survey
import CssTransform.Proofs.Stylesheet.Visit

/-!
# A run told in advance

A run that only reports looks at the tree at the beginning, and it does not keep account of what the
run itself would have written. So it tells the reports of that run where no step of the run reads
what an earlier one has written. A file that is compiled where it is may be come upon again, if the
compiled values have replaced the written ones: then it has the same counts a second time.

## Which choice is load-bearing

The two runs are compared at the steps of the one that writes. Its tree only grows, and whatever is
new in it was written by one of its steps. So a walk through the tree as it is by then passes the old
files in the old order, and comes upon a new file only where a step has read what was written.

## Main definitions

* `Job.dry` — the job that only reports
* `Step.Spares` — a step does nothing to a file that a later one would see
* `Job.IsSmooth` — steps that succeed, each of which spares the files of the later ones

## Main results

* `outcomeOf_compile` — a file that has been compiled has the same outcome again
* `Job.run_dry` — the reports of a run, told in advance
* `Job.misleads_copying_gathering_choosing` — runs whose reports are others than was told
-/

namespace CssTransform

namespace Files

variable {job : Job} {tree tree' : Tree} {path root : Path} {location l : Location}
  {content : ByteArray} {steps earlier later : List Step}

/-! ### What is said of a file that was written -/

/-- A file that has been compiled, with the compiled values in place of the written ones, has the
same outcome again. -/
theorem outcomeOf_compile {settings : Settings} (hreplace : settings.keepWritten = false)
    {css : List Char} (h : Tree.textOf content = .ok css) :
    outcomeOf settings (Tree.bytesOf (Stylesheet.compile settings css).css) =
      outcomeOf settings content := by
  obtain ⟨hconverted, hunchanged⟩ := Stylesheet.counts_compile settings hreplace css
  have hmodified : (Stylesheet.compile settings (Stylesheet.compile settings css).css).isModified =
      (Stylesheet.compile settings css).isModified := by
    rw [Stylesheet.Compiled.isModified, Stylesheet.Compiled.isModified, hconverted]
  rw [outcomeOf, Tree.textOf_bytesOf, outcomeOf, h]
  dsimp only
  rw [hmodified, hconverted, hunchanged]

/-- What is said of the file at a location. -/
def Tree.outcomeAt? (settings : Settings) (tree : Tree) (location : Location) : Option Outcome :=
  match tree.find? location with
  | some (.file content) => some (outcomeOf settings content)
  | _ => none

/-- A step spares a location: it writes elsewhere, or it has compiled that very file where it is and
replaced the written values. -/
def Step.Spares (job : Job) (s : Step) (l : Location) : Prop :=
  s.report.isChanged = true → s.target job = l →
    s.location = l ∧ job.settings.keepWritten = false

namespace Job

/-- The job that only reports. -/
def dry (job : Job) : Job := { job with dryRun := true }

theorem reportOf?_file_eq :
    job.reportOf? tree (.file root path location) =
      if job.filter.isMatch path then
        (tree.outcomeAt? job.settings location).map (Report.mk path)
      else none := by
  rw [reportOf?, Tree.outcomeAt?]
  cases tree.find? location with
  | none => rfl
  | some node => cases node <;> rfl

theorem Makes.outcomeAt?_after {s : Step} (h : job.Makes s) (hl : s.Spares job l) :
    s.after.outcomeAt? job.settings l = s.before.outcomeAt? job.settings l := by
  rcases h.find?_cases l with hsame | ⟨hnone, hnew⟩ | ⟨hchanged, htarget, -, css, hread, hwritten⟩
  · rw [Tree.outcomeAt?, hsame, Tree.outcomeAt?]
  · rw [Tree.outcomeAt?, hnew, Tree.outcomeAt?, hnone]
  · obtain ⟨rfl, hreplace⟩ := hl hchanged htarget
    obtain ⟨content, hfind, htext⟩ := Tree.exists_of_read hread
    rw [Tree.outcomeAt?, hwritten, Tree.outcomeAt?, hfind]
    exact congrArg some (outcomeOf_compile hreplace htext)

/-- What is said of a file that all steps spare. -/
theorem Runs.outcomeAt?_treeAfter (h : job.Runs tree steps) (hl : ∀ s ∈ steps, s.Spares job l) :
    (treeAfter tree steps).outcomeAt? job.settings l = tree.outcomeAt? job.settings l :=
  h.invariant (P := fun t => t.outcomeAt? job.settings l = tree.outcomeAt? job.settings l)
    (fun s hs hmakes ht => (hmakes.outcomeAt?_after (hl s hs)).trans ht) rfl

/-! ### Smooth steps -/

/-- Steps that succeed, each of which spares the files of the later ones. -/
structure IsSmooth (job : Job) (steps : List Step) : Prop where
  success : ∀ s ∈ steps, s.report.isFailure = false
  spares : steps.Pairwise fun s t => s.Spares job t.location

theorem IsSmooth.of_append (h : job.IsSmooth (earlier ++ later)) : job.IsSmooth earlier where
  success := (List.forall_mem_append.1 h.success).1
  spares := (List.pairwise_append.1 h.spares).1

theorem IsSmooth.success_right (h : job.IsSmooth (earlier ++ later)) :
    ∀ s ∈ later, s.report.isFailure = false :=
  (List.forall_mem_append.1 h.success).2

theorem IsSmooth.spares_right (h : job.IsSmooth (earlier ++ later)) {t : Step} (ht : t ∈ later) :
    ∀ s ∈ earlier, s.Spares job t.location :=
  fun s hs => (List.pairwise_append.1 h.spares).2.2 s hs t ht

/-- In a smooth run nothing is there that cannot be looked at. -/
theorem not_isSmooth_scanFailure {failure : Failure} :
    ¬job.IsSmooth (earlier ++ [⟨root, tree, tree', scanFailure path failure⟩]) :=
  fun h => Bool.false_ne_true (h.success_right _ List.mem_cons_self).symm

/-! ### The steps of a run, told in advance -/

/-- What is said of a file is told by its bytes, unless it cannot be stored. -/
theorem compileFile_outcome (hfind : tree.find? location = some (.file content)) :
    (job.compileFile root path location tree).1 = outcomeOf job.settings content ∨
      ∃ message, (job.compileFile root path location tree).1 = .failed message := by
  by_cases hmodified : ∃ css, Tree.textOf content = .ok css ∧
      (Stylesheet.compile job.settings css).isModified = true
  · obtain ⟨css, htext, hmodified⟩ := hmodified
    cases hstore : job.store (job.target root path tree)
      (Stylesheet.compile job.settings css).css tree with
    | ok stored =>
      rw [compileFile_of_ok hfind htext hmodified hstore]
      exact .inl rfl
    | error stopped =>
      rw [compileFile_of_error hfind htext hmodified hstore]
      exact .inr ⟨_, rfl⟩
  · rw [compileFile_of_not_modified hfind fun css htext h => hmodified ⟨css, htext, h⟩]
    exact .inl rfl

/-- The step about a file, if it succeeds, says of it what its bytes say. -/
theorem map_report_fileSteps (hfind : tree.find? location = some (.file content))
    (hsuccess : ∀ s ∈ job.fileSteps root path location tree, s.report.isFailure = false) :
    (job.fileSteps root path location tree).map Step.report =
      [.file root path location].filterMap (job.reportOf? tree) := by
  rw [fileSteps] at hsuccess ⊢
  rw [List.filterMap_cons]
  by_cases hmatch : job.filter.isMatch path = true
  · rw [if_pos hmatch] at hsuccess ⊢
    rw [reportOf?_file hfind hmatch]
    rcases @compileFile_outcome job tree path root location content hfind with hsame | ⟨_, hfailed⟩
    · rw [hsame]
      rfl
    · have hfine := hsuccess _ List.mem_cons_self
      rw [hfailed] at hfine
      cases hfine
  · rw [if_neg hmatch, reportOf?_of_not_isMatch hmatch]
    rfl

/-- The step about a file says what the tree at the beginning says. -/
theorem reports_fileSteps (hlocation : location = tree.locate path) (hruns : job.Runs tree earlier)
    (hsmooth : job.IsSmooth
      (earlier ++ job.fileSteps root path location (treeAfter tree earlier)))
    (hfind : (treeAfter tree earlier).find? location = some (.file content)) :
    (job.fileSteps root path location (treeAfter tree earlier)).map Step.report =
      [.file root path location].filterMap (job.reportOf? tree) := by
  have hsame : job.reportOf? (treeAfter tree earlier) (.file root path location) =
      job.reportOf? tree (.file root path location) := by
    rw [reportOf?_file_eq, reportOf?_file_eq]
    by_cases hmatch : job.filter.isMatch path = true
    · rw [fileSteps, if_pos hmatch] at hsmooth
      have hspares := hsmooth.spares_right List.mem_cons_self
      rw [Step.location, Tree.locate_congr hruns.growsTo.workingDirectory, ← hlocation] at hspares
      rw [hruns.outcomeAt?_treeAfter hspares]
    · rw [if_neg hmatch, if_neg hmatch]
  rw [map_report_fileSteps hfind hsmooth.success_right, List.filterMap_cons, hsame]
  rfl

/-- Things that are done one after another, each with the reports that are told of it. -/
theorem reports_inTurn {α : Type} {f : α → Tree → List Step} {reports : α → List Report}
    {as : List α}
    (h : ∀ a ∈ as, ∀ earlier, job.Runs tree earlier →
      job.IsSmooth (earlier ++ f a (treeAfter tree earlier)) →
      job.Runs (treeAfter tree earlier) (f a (treeAfter tree earlier)) ∧
        (f a (treeAfter tree earlier)).map Step.report = reports a)
    (hruns : job.Runs tree earlier)
    (hsmooth : job.IsSmooth (earlier ++ inTurn f as (treeAfter tree earlier))) :
    (inTurn f as (treeAfter tree earlier)).map Step.report = as.flatMap reports := by
  induction as generalizing earlier with
  | nil => rfl
  | cons a as ih =>
    rw [inTurn, ← List.append_assoc, ← treeAfter_append] at hsmooth
    obtain ⟨hfirst, hreports⟩ := h a List.mem_cons_self earlier hruns hsmooth.of_append
    rw [inTurn, List.map_append, hreports, List.flatMap_cons, ← treeAfter_append,
      ih (fun b hb => h b (List.mem_cons_of_mem a hb)) (hruns.append hfirst) hsmooth]

/-- What is told of a walk: nothing is, if it begins where nothing was. -/
def told (job : Job) (tree : Tree) (root : Path) (levels : Nat) (path : Path)
    (location : Location) : List Report :=
  if (tree.find? location).isSome then
    (tree.surveyFrom root levels path location).filterMap (job.reportOf? tree)
  else []

/-- Of the entries of a directory only the old ones are told of. -/
theorem flatMap_told (hgrows : tree.GrowsTo tree') (root : Path) (levels : Nat) (path : Path)
    (location : Location) :
    (tree'.names location).flatMap (fun name =>
        job.told tree root levels (Path.child path name) (location ++ [name])) =
      (tree.names location).flatMap fun name => (tree.surveyFrom root levels
        (Path.child path name) (location ++ [name])).filterMap (job.reportOf? tree) := by
  rw [← hgrows.filter_names]
  generalize tree'.names location = names
  induction names with
  | nil => rfl
  | cons name names ih =>
    rw [List.flatMap_cons, List.filter_cons, told, ih]
    split <;> rfl

theorem told_directory (hclosed : tree.IsClosed) (hgrows : tree.GrowsTo tree') (levels : Nat)
    (hfind : tree'.find? location = some .directory) :
    job.told tree root (levels + 1) path location =
      (tree'.names location).flatMap fun name =>
        job.told tree root levels (Path.child path name) (location ++ [name]) := by
  rw [flatMap_told hgrows, told]
  cases hl : tree.find? location with
  | none =>
    -- nothing stands below a location where nothing is
    have hempty : tree.names location = [] := by
      refine List.eq_nil_iff_forall_not_mem.2 fun name hname => ?_
      have hparent := hclosed.find?_dropLast (Tree.isSome_find?_of_mem_names hname)
      rw [List.dropLast_concat, hl] at hparent
      cases hparent
    rw [hempty]
    rfl
  | some node =>
    have hkind := hgrows.kinds location node.isDirectory (by rw [hl]; rfl)
    rw [hfind] at hkind
    obtain rfl := Node.eq_directory (Option.some.inj hkind).symm
    rw [Tree.surveyFrom, hl]
    exact List.filterMap_flatMap

/-- The steps of a walk say what is told of it. -/
theorem reports_visitSteps {levels : Nat} (hproper : tree.IsProper) (hclosed : tree.IsClosed)
    (hlocation : location = tree.locate path) (hruns : job.Runs tree earlier)
    (hsmooth : job.IsSmooth (earlier ++
      job.visitSteps root levels path location (treeAfter tree earlier))) :
    (job.visitSteps root levels path location (treeAfter tree earlier)).map Step.report =
      job.told tree root levels path location := by
  induction levels generalizing path location earlier with
  | zero => exact absurd hsmooth not_isSmooth_scanFailure
  | succ levels ih =>
    rw [visitSteps] at hsmooth ⊢
    cases hfind : (treeAfter tree earlier).find? location with
    | none =>
      rw [hfind] at hsmooth
      exact absurd hsmooth not_isSmooth_scanFailure
    | some node =>
      rw [hfind] at hsmooth
      cases node with
      | file content =>
        dsimp only at hsmooth ⊢
        rw [reports_fileSteps hlocation hruns hsmooth hfind, told]
        cases hl : tree.find? location with
        | none =>
          rw [List.filterMap_cons, reportOf?_file_eq, Tree.outcomeAt?, hl, Option.map_none, ite_self]
          rfl
        | some node =>
          have hkind := hruns.growsTo.kinds _ node.isDirectory (by rw [hl]; rfl)
          rw [hfind] at hkind
          obtain ⟨content', rfl⟩ := Node.exists_file (Option.some.inj hkind).symm
          rw [Tree.surveyFrom, hl]
          rfl
      | directory =>
        rw [told_directory hclosed hruns.growsTo levels hfind]
        refine reports_inTurn (fun name hname earlier' hruns' hsmooth' => ?_) hruns hsmooth
        have hnormal := (hruns.isProper hproper).isNormal_of_mem_names hname
        have hchild : ∀ t : Tree, t.workingDirectory = tree.workingDirectory →
            location ++ [name] = t.locate (Path.child path name) :=
          fun _ => Tree.append_eq_locate_child hlocation hnormal
        exact ⟨runs_visitSteps levels (hruns'.isProper hproper)
          (hchild _ hruns'.growsTo.workingDirectory), ih (hchild tree rfl) hruns' hsmooth'⟩

/-- The steps of a root that led somewhere say what is told of it. -/
theorem reports_rootSteps (hproper : tree.IsProper) (hclosed : tree.IsClosed)
    (hroot : ∃ found, tree.resolve root = .ok found) (hruns : job.Runs tree earlier)
    (hsmooth : job.IsSmooth (earlier ++ job.rootSteps root (treeAfter tree earlier))) :
    (job.rootSteps root (treeAfter tree earlier)).map Step.report =
      (tree.survey root).filterMap (job.reportOf? tree) := by
  obtain ⟨⟨location, node⟩, hresolve⟩ := hroot
  obtain ⟨hlocation, hl⟩ := Tree.of_resolve hresolve
  obtain ⟨node', hresolve', hkind⟩ := hruns.growsTo.resolve hresolve
  obtain ⟨-, hl'⟩ := Tree.of_resolve hresolve'
  rw [rootSteps, hresolve'] at hsmooth ⊢
  rw [Tree.survey, hresolve]
  cases node with
  | file content =>
    obtain ⟨content', rfl⟩ := Node.exists_file hkind
    dsimp only at hsmooth ⊢
    rw [reports_fileSteps hlocation hruns hsmooth hl']
  | directory =>
    obtain rfl := Node.eq_directory hkind
    dsimp only at hsmooth ⊢
    rw [reports_visitSteps hproper hclosed hlocation hruns hsmooth, told, if_pos (by rw [hl]; rfl)]

/-- A step that compiles a file where it is and replaces the written values spares every location. -/
theorem spares_of_inPlace (hplace : job.outDir = none)
    (hreplace : job.settings.keepWritten = false) (s : Step) (l : Location) : s.Spares job l := by
  intro _ htarget
  rw [Step.target, Step.targetPath, target, hplace] at htarget
  exact ⟨htarget, hreplace⟩

/-- **The reports of a run, told in advance.** Take a run whose steps succeed, and none of which
reads a file that an earlier one has written; but a file that is compiled where it is may be come
upon again, if the written values are replaced. Then the run that only reports gives the same
reports, exactly if every root led somewhere at the beginning. -/
theorem run_dry (hproper : tree.IsProper) (hclosed : tree.IsClosed) {roots : List Path}
    (hsuccess : ∀ r ∈ (job.run roots tree).2, r.isFailure = false)
    (hspares : (job.history roots tree).Pairwise fun s t => s.Spares job t.location) :
    (job.dry.run roots tree).2 = (job.run roots tree).2 ↔
      ∀ root ∈ roots, ∃ found, tree.resolve root = .ok found := by
  have hdry : job.dry.dryRun = true := rfl
  have htold : (job.dry.run roots tree).2 = roots.flatMap fun root =>
      (tree.survey root).filterMap (job.reportOf? tree) := by
    rw [run_of_dryRun hdry roots hproper]
    exact List.filterMap_flatMap
  constructor
  · intro heq root hroot
    cases hresolve : tree.resolve root with
    | ok found => exact ⟨found, rfl⟩
    | error failure =>
      have hmem : scanFailure root failure ∈ (job.dry.run roots tree).2 := by
        rw [htold]
        refine List.mem_flatMap.2 ⟨root, hroot, ?_⟩
        rw [Tree.survey, hresolve]
        exact List.mem_cons_self
      rw [heq] at hmem
      exact (Bool.false_ne_true (hsuccess _ hmem).symm).elim
  · intro hroots
    rw [run_eq_history job] at hsuccess ⊢
    have hsmooth : job.IsSmooth ([] ++ inTurn job.rootSteps roots tree) :=
      ⟨List.forall_mem_map.1 hsuccess, hspares⟩
    rw [htold]
    refine (reports_inTurn (fun root hroot earlier hruns hsmooth => ?_) .nil hsmooth).symm
    exact ⟨runs_rootSteps root (hruns.isProper hproper),
      reports_rootSteps hproper hclosed (hroots root hroot) hruns hsmooth⟩

section Sheets

/-- One style sheet. -/
def oneSheet : Tree where
  entries := [(["a.css".toList], .file (Tree.bytesOf "p{transform:scale(2)}".toList))]

/-- Style sheets are compiled where they are, and written values are replaced. -/
def replacing : Job where
  settings := default
  filter := .sequence [.literal ".css".toList, .condition .textEnd]
  outDir := none
  dryRun := false

/-- A sheet that is compiled twice, by a relative and an absolute path, is told twice. -/
theorem run_dry_oneSheet :
    (oneSheet.IsProper ∧ oneSheet.IsClosed ∧
        (replacing.run ["a.css".toList, "/a.css".toList] oneSheet).2 =
          [⟨"a.css".toList, .changed 1 0⟩, ⟨"/a.css".toList, .changed 1 0⟩] ∧
        (replacing.history ["a.css".toList, "/a.css".toList] oneSheet).Pairwise
          fun s t => s.Spares replacing t.location) ∧
      (replacing.dry.run ["a.css".toList, "/a.css".toList] oneSheet).2 =
        (replacing.run ["a.css".toList, "/a.css".toList] oneSheet).2 := by
  have hproper : oneSheet.IsProper := by decide
  have hclosed : oneSheet.IsClosed := by decide +kernel
  have hreports : (replacing.run ["a.css".toList, "/a.css".toList] oneSheet).2 =
      [⟨"a.css".toList, .changed 1 0⟩, ⟨"/a.css".toList, .changed 1 0⟩] := by
    decide +kernel
  have hsuccess : ∀ r ∈ (replacing.run ["a.css".toList, "/a.css".toList] oneSheet).2,
      r.isFailure = false := by
    rw [hreports]
    decide
  have hspares : (replacing.history ["a.css".toList, "/a.css".toList] oneSheet).Pairwise
      fun s t => s.Spares replacing t.location :=
    List.pairwise_of_forall fun s t => spares_of_inPlace rfl rfl s t.location
  refine ⟨⟨hproper, hclosed, hreports, hspares⟩,
    (run_dry hproper hclosed hsuccess hspares).2 fun root hroot => ?_⟩
  rcases List.mem_cons.1 hroot with rfl | hroot
  · exact ⟨_, rfl⟩
  · obtain rfl := List.mem_singleton.1 hroot
    exact ⟨_, rfl⟩

/-- A run that succeeds, with other reports than was told. -/
def Misleads (job : Job) (roots : List Path) (tree : Tree) : Prop :=
  job.dryRun = false ∧ tree.IsProper ∧ tree.IsClosed ∧
    (∀ r ∈ (job.run roots tree).2, r.isFailure = false) ∧
    (job.dry.run roots tree).2 ≠ (job.run roots tree).2

instance (job : Job) (roots : List Path) (tree : Tree) : Decidable (job.Misleads roots tree) :=
  inferInstanceAs (Decidable (_ ∧ _))

/-- Copies with the compiled values are put behind the written declarations. -/
def copying : Job := { replacing with settings := { replacing.settings with keepWritten := true } }

/-- A style sheet in a directory. -/
def nested : Tree where
  entries := [
    (["a".toList], .directory),
    (["a".toList, "x.css".toList], .file (Tree.bytesOf "p{transform:scale(2)}".toList))]

/-- The same one, with another one where its result goes. -/
def nestedTwice : Tree where
  entries := nested.entries ++ [
    (["out".toList], .directory),
    (["out".toList, "x.css".toList], .file (Tree.bytesOf "p{color:red}".toList))]

/-- The results go to a directory of their own. -/
def gathering : Job := { replacing with outDir := some "out".toList }

/-- Only what is in the first directory is compiled. -/
def choosing : Job := { gathering with filter := .literal "a/".toList }

/-- **Runs whose reports are others than was told.** A sheet is compiled a second time where copies
of its declarations have been put in it; a step reads the result of an earlier one; a root is only
made by the run. -/
theorem misleads_copying_gathering_choosing :
    copying.Misleads ["a.css".toList, "a.css".toList] oneSheet ∧
      gathering.Misleads ["a".toList, "out".toList] nestedTwice ∧
      choosing.Misleads ["a".toList, "out".toList] nested := by
  refine ⟨?_, ?_, ?_⟩ <;> decide +kernel

/-- An output directory that leads back to where the sheet is. -/
example :
    Misleads { copying with outDir := some "a/..".toList } ["x.css".toList, "x.css".toList]
      { entries := [(["a".toList], .directory),
          (["x.css".toList], .file (Tree.bytesOf "p{transform:scale(2)}".toList))] } := by
  decide +kernel

end Sheets

end Job

end Files

end CssTransform
