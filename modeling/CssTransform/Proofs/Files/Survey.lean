import CssTransform.Files.Run
import CssTransform.Proofs.Files.Shape

/-!
# What a walk comes upon

A walk over a tree that keeps its shape can be told in advance: it comes upon files, in order, and
upon what cannot be looked at. What is said of a file in the end depends on its path and its bytes.

## Which choice is load-bearing

The survey is taken once, in the tree at the beginning. It says where the files are and not what is
in them, so that it is the same in every tree of that shape. A run that only reports keeps the tree,
and one that compiles files where they are keeps its shape.

## Main definitions

* `Sight`, `Tree.survey` — what a walk from a root comes upon
* `outcomeOf`, `contentAfter` — what is said of a file with some bytes, and its bytes after that
* `Job.take` — what a run does at a sight

## Main results

* `Job.run_eq_foldl` — a run that keeps the shape of the tree goes through the survey
* `Job.run_of_dryRun` — the reports of a run that only reports
-/

namespace CssTransform

namespace Files

/-! ### Surveys -/

/-- What a walk comes upon: a file, or something that it cannot look at. -/
inductive Sight where
  | file (root path : Path) (location : Location)
  | failure (report : Report)

/-- The path of a file that was come upon leads to it. -/
def Sight.IsThere (tree : Tree) : Sight → Prop
  | .file _ path location => ∃ content, tree.resolve path = .ok (location, .file content)
  | .failure _ => True

namespace Tree

/-- What a walk from a path on comes upon. -/
def surveyFrom (tree : Tree) (root : Path) : Nat → Path → Location → List Sight
  | 0, path, _ => [.failure (Job.scanFailure path .nameTooLong)]
  | levels + 1, path, location =>
    match tree.find? location with
    | none => [.failure (Job.scanFailure path .notFound)]
    | some (.file _) => [.file root path location]
    | some .directory =>
      (tree.names location).flatMap fun name =>
        tree.surveyFrom root levels (Path.child path name) (location ++ [name])

/-- What a walk from a root comes upon. -/
def survey (tree : Tree) (root : Path) : List Sight :=
  match tree.resolve root with
  | .error failure => [.failure (Job.scanFailure root failure)]
  | .ok (location, .file _) => [.file root root location]
  | .ok (location, .directory) => tree.surveyFrom root Job.maxLevels root location

variable {tree tree' : Tree} {root path : Path} {location : Location} {sight : Sight}

theorem SameShape.surveyFrom (h : tree.SameShape tree') (root : Path) (levels : Nat) (path : Path)
    (location : Location) :
    tree.surveyFrom root levels path location = tree'.surveyFrom root levels path location := by
  induction levels generalizing path location with
  | zero => rfl
  | succ levels ih =>
    have hkind := h.kinds location
    rw [Tree.surveyFrom, Tree.surveyFrom]
    cases hfind : tree'.find? location with
    | none =>
      rw [hfind, Option.map_none, Option.map_eq_none_iff] at hkind
      rw [hkind]
    | some node =>
      cases node with
      | file content =>
        obtain ⟨content', hcontent'⟩ := h.find?_file hfind
        rw [hcontent']
      | directory =>
        rw [hfind] at hkind
        rw [find?_directory_iff.1 hkind]
        dsimp only
        rw [h.names]
        exact List.flatMap_congr fun name _ => ih _ _

/-- A walk comes upon the same things in trees of one shape. -/
theorem SameShape.survey (h : tree.SameShape tree') (root : Path) :
    tree.survey root = tree'.survey root := by
  have hresolve := h.resolve root
  rw [Tree.survey, Tree.survey]
  rcases hleft : tree.resolve root with failure | ⟨location, node⟩ <;>
    rcases hright : tree'.resolve root with failure' | ⟨location', node'⟩ <;>
    rw [hleft, hright] at hresolve
  · cases hresolve
    rfl
  · cases hresolve
  · cases hresolve
  · obtain ⟨rfl, hkind⟩ := Prod.mk.inj (Except.ok.inj hresolve)
    cases node with
    | directory =>
      obtain rfl := Node.eq_directory hkind.symm
      exact h.surveyFrom _ _ _ _
    | file content =>
      obtain ⟨content', rfl⟩ := Node.exists_file hkind.symm
      rfl

/-- The paths of the files that a walk comes upon lead to them. -/
theorem isThere_of_mem_surveyFrom {levels : Nat} {node : Node} (hproper : tree.IsProper)
    (hresolve : tree.resolve path = .ok (location, node))
    (h : sight ∈ tree.surveyFrom root levels path location) : sight.IsThere tree := by
  induction levels generalizing path location node with
  | zero =>
    obtain rfl := List.mem_singleton.1 h
    trivial
  | succ levels ih =>
    obtain ⟨-, hfind⟩ := of_resolve hresolve
    rw [Tree.surveyFrom, hfind] at h
    cases node with
    | file content =>
      obtain rfl := List.mem_singleton.1 h
      exact ⟨content, hresolve⟩
    | directory =>
      obtain ⟨name, hname, hsight⟩ := List.mem_flatMap.1 h
      obtain ⟨next, hnext⟩ := Option.isSome_iff_exists.1 (isSome_find?_of_mem_names hname)
      exact ih (resolve_child hresolve (hproper.isNormal_of_mem_names hname) hnext) hsight

theorem isThere_of_mem_survey (hproper : tree.IsProper) (h : sight ∈ tree.survey root) :
    sight.IsThere tree := by
  rw [Tree.survey] at h
  split at h
  · obtain rfl := List.mem_singleton.1 h
    trivial
  · next l content hresolve =>
    obtain rfl := List.mem_singleton.1 h
    exact ⟨content, hresolve⟩
  · next l hresolve => exact isThere_of_mem_surveyFrom hproper hresolve h

theorem isThere_of_mem_surveys {roots : List Path} (hproper : tree.IsProper)
    (h : sight ∈ roots.flatMap tree.survey) : sight.IsThere tree := by
  obtain ⟨root, -, hroot⟩ := List.mem_flatMap.1 h
  exact isThere_of_mem_survey hproper hroot

theorem SameShape.isThere (h : tree.SameShape tree') (hsight : sight.IsThere tree') :
    sight.IsThere tree := by
  cases sight with
  | failure report => trivial
  | file root path location =>
    obtain ⟨content, hresolve⟩ := hsight
    exact h.resolve_file hresolve

end Tree

/-! ### What is said of a file -/

/-- What is said of a file with some bytes. -/
def outcomeOf (settings : Settings) (content : ByteArray) : Outcome :=
  match Tree.textOf content with
  | .error failure => .failed failure.message
  | .ok css =>
    if (Stylesheet.compile settings css).isModified then
      .changed (Stylesheet.compile settings css).converted
        (Stylesheet.compile settings css).unchanged
    else .untouched (Stylesheet.compile settings css).unchanged

/-- The bytes of a file after it has been compiled where it is. -/
def contentAfter (settings : Settings) (content : ByteArray) : ByteArray :=
  match Tree.textOf content with
  | .error _ => content
  | .ok css =>
    if (Stylesheet.compile settings css).isModified then
      Tree.bytesOf (Stylesheet.compile settings css).css
    else content

/-- What is reported of a sight in a tree, if anything is. -/
def Job.reportOf? (job : Job) (tree : Tree) : Sight → Option Report
  | .file _ path location =>
    if job.filter.isMatch path then
      match tree.find? location with
      | some (.file content) => some ⟨path, outcomeOf job.settings content⟩
      | _ => none
    else none
  | .failure report => some report

/-- What a run does at a sight. -/
def Job.take (job : Job) (p : Progress) : Sight → Progress
  | .file root path location => job.process root path location p
  | .failure report => p.report report

namespace Job

variable {job : Job} {root path : Path} {location : Location} {content : ByteArray}
  {tree tree' : Tree} {p : Progress}

theorem reportOf?_file (hfind : tree.find? location = some (.file content))
    (hmatch : job.filter.isMatch path = true) :
    job.reportOf? tree (.file root path location) =
      some ⟨path, outcomeOf job.settings content⟩ := by
  rw [reportOf?, if_pos hmatch, hfind]

theorem reportOf?_of_not_isMatch (hmatch : ¬job.filter.isMatch path = true) :
    job.reportOf? tree (.file root path location) = none := if_neg hmatch

theorem outcomeOf_of_error {failure : Failure} (h : Tree.textOf content = .error failure) :
    outcomeOf job.settings content = .failed failure.message := by
  rw [outcomeOf, h]

/-- A file in which nothing is converted. -/
theorem compileFile_of_not_modified (hfind : tree.find? location = some (.file content))
    (h : ∀ css, Tree.textOf content = .ok css →
      ¬(Stylesheet.compile job.settings css).isModified = true) :
    job.compileFile root path location tree = (outcomeOf job.settings content, tree) := by
  rw [compileFile, Tree.read, hfind, outcomeOf]
  dsimp only
  cases htext : Tree.textOf content with
  | error failure => rfl
  | ok css =>
    dsimp only
    rw [if_neg (h css htext), if_neg (h css htext)]

/-- A file in which something is converted, and whose compiled text is stored. -/
theorem compileFile_of_ok {css : List Char} {stored : Tree}
    (hfind : tree.find? location = some (.file content)) (h : Tree.textOf content = .ok css)
    (hmodified : (Stylesheet.compile job.settings css).isModified = true)
    (hstore : job.store (job.target root path tree) (Stylesheet.compile job.settings css).css
      tree = .ok stored) :
    job.compileFile root path location tree = (outcomeOf job.settings content, stored) := by
  rw [compileFile, Tree.read, hfind, outcomeOf]
  simp only [h, hmodified, if_true, hstore]

/-- A file in which something is converted, and whose compiled text cannot be stored. -/
theorem compileFile_of_error {css : List Char} {stopped : Stopped}
    (hfind : tree.find? location = some (.file content)) (h : Tree.textOf content = .ok css)
    (hmodified : (Stylesheet.compile job.settings css).isModified = true)
    (hstore : job.store (job.target root path tree) (Stylesheet.compile job.settings css).css
      tree = .error stopped) :
    job.compileFile root path location tree = (.failed stopped.message, stopped.tree) := by
  rw [compileFile, Tree.read, hfind]
  simp only [h, hmodified, if_true, hstore]

/-- A file whose path matches, where nothing keeps it from being stored. -/
theorem process_of_store (hfind : p.tree.find? location = some (.file content))
    (hmatch : job.filter.isMatch path = true)
    (hstore : ∀ css, Tree.textOf content = .ok css →
      (Stylesheet.compile job.settings css).isModified = true →
      job.store (job.target root path p.tree) (Stylesheet.compile job.settings css).css p.tree =
        .ok tree)
    (hkeep : (∀ css, Tree.textOf content = .ok css →
      ¬(Stylesheet.compile job.settings css).isModified = true) → p.tree = tree) :
    job.process root path location p =
      { tree := tree, reports := ⟨path, outcomeOf job.settings content⟩ :: p.reports } := by
  rw [process, if_pos hmatch]
  by_cases hmodified : ∃ css, Tree.textOf content = .ok css ∧
      (Stylesheet.compile job.settings css).isModified = true
  · obtain ⟨css, htext, hmodified⟩ := hmodified
    rw [compileFile_of_ok hfind htext hmodified (hstore css htext hmodified)]
    rfl
  · have hnone : ∀ css, Tree.textOf content = .ok css →
        ¬(Stylesheet.compile job.settings css).isModified = true :=
      fun css htext h => hmodified ⟨css, htext, h⟩
    rw [compileFile_of_not_modified hfind hnone, hkeep hnone]
    rfl

theorem process_of_not_isMatch (hmatch : ¬job.filter.isMatch path = true) :
    job.process root path location p = p := if_neg hmatch

/-! ### Runs -/

section Fold

variable {α β : Type} {P : Progress → Prop} {f : Progress → α → Progress}
  {g : Progress → β → Progress} {items : α → List β}

/-- A fold whose every step is a fold over some items is a fold over all of them. The steps are
compared where a property holds that the items keep. -/
theorem foldl_eq_foldl_flatMap {as : List α}
    (hkeep : ∀ a ∈ as, ∀ b ∈ items a, ∀ p, P p → P (g p b))
    (h : ∀ a ∈ as, ∀ p, P p → f p a = (items a).foldl g p) (hp : P p) :
    as.foldl f p = (as.flatMap items).foldl g p := by
  induction as generalizing p with
  | nil => rfl
  | cons a as ih =>
    have hfirst : P ((items a).foldl g p) :=
      List.foldlRecOn (items a) g hp fun q hq b hb => hkeep a List.mem_cons_self b hb q hq
    rw [List.foldl_cons, List.flatMap_cons, List.foldl_append, h a List.mem_cons_self p hp]
    exact ih (fun b hb => hkeep b (List.mem_cons_of_mem a hb))
      (fun b hb => h b (List.mem_cons_of_mem a hb)) hfirst

end Fold

/-- A run keeps the shape of a tree at some sights. -/
def KeepsShape (job : Job) (tree : Tree) (sights : List Sight) : Prop :=
  ∀ sight ∈ sights, ∀ p : Progress, p.tree.SameShape tree → (job.take p sight).tree.SameShape tree

theorem visit_eq_foldl {levels : Nat}
    (hkeep : job.KeepsShape tree (tree.surveyFrom root levels path location))
    (hp : p.tree.SameShape tree) :
    job.visit root levels path location p =
      (tree.surveyFrom root levels path location).foldl job.take p := by
  induction levels generalizing path location p with
  | zero => rfl
  | succ levels ih =>
    rw [← hp.surveyFrom, visit, Tree.surveyFrom]
    cases hfind : p.tree.find? location with
    | none => rfl
    | some node =>
      cases node with
      | file content => rfl
      | directory =>
        dsimp only
        have hdirectory : tree.find? location = some .directory := by
          rw [← Tree.find?_directory_iff, ← hp.kinds, hfind]
          rfl
        have hname : ∀ name ∈ p.tree.names location, ∀ sight ∈ tree.surveyFrom root levels
            (Path.child path name) (location ++ [name]),
            sight ∈ tree.surveyFrom root (levels + 1) path location := by
          intro name hname sight hsight
          rw [hp.names] at hname
          rw [Tree.surveyFrom, hdirectory]
          exact List.mem_flatMap.2 ⟨name, hname, hsight⟩
        have hsurvey := fun (name : List Char) (_ : name ∈ p.tree.names location) =>
          hp.surveyFrom root levels (Path.child path name) (location ++ [name])
        rw [List.flatMap_congr hsurvey]
        refine foldl_eq_foldl_flatMap (P := fun p => p.tree.SameShape tree)
          (fun name hmem sight hsight => hkeep sight (hname name hmem sight hsight)) ?_ hp
        intro name hmem q hq
        exact ih (fun sight hsight => hkeep sight (hname name hmem sight hsight)) hq

theorem visitRoot_eq_foldl (hkeep : job.KeepsShape tree (tree.survey root))
    (hp : p.tree.SameShape tree) :
    job.visitRoot root p = (tree.survey root).foldl job.take p := by
  rw [← hp.survey] at hkeep ⊢
  rw [visitRoot]
  rw [Tree.survey] at hkeep ⊢
  cases hresolve : p.tree.resolve root with
  | error failure => rfl
  | ok found =>
    obtain ⟨location, node⟩ := found
    cases node with
    | file content => rfl
    | directory =>
      rw [hresolve] at hkeep
      dsimp only at hkeep ⊢
      rw [hp.surveyFrom] at hkeep ⊢
      exact visit_eq_foldl hkeep hp

/-- **A run that keeps the shape of the tree goes through the survey**, which was taken in the tree
at the beginning. -/
theorem run_eq_foldl {roots : List Path} (hkeep : job.KeepsShape tree (roots.flatMap tree.survey)) :
    job.run roots tree =
      (((roots.flatMap tree.survey).foldl job.take ⟨tree, []⟩).tree,
        ((roots.flatMap tree.survey).foldl job.take ⟨tree, []⟩).reports.reverse) := by
  have hroots : roots.foldl (fun p root => job.visitRoot root p) ⟨tree, []⟩ =
      (roots.flatMap tree.survey).foldl job.take ⟨tree, []⟩ := by
    have hsight : ∀ root ∈ roots, ∀ sight ∈ tree.survey root,
        sight ∈ roots.flatMap tree.survey :=
      fun root hroot sight hsight => List.mem_flatMap.2 ⟨root, hroot, hsight⟩
    refine foldl_eq_foldl_flatMap (P := fun p => p.tree.SameShape tree)
      (fun root hroot sight h => hkeep sight (hsight root hroot sight h)) ?_ (.refl tree)
    intro root hroot p hp
    exact visitRoot_eq_foldl (fun sight h => hkeep sight (hsight root hroot sight h)) hp
  rw [run, hroots]

/-! ### Runs that only report -/

theorem take_of_dryRun (hdry : job.dryRun = true) {sight : Sight}
    (hsight : sight.IsThere p.tree) :
    job.take p sight = { p with reports := (job.reportOf? p.tree sight).toList ++ p.reports } := by
  cases sight with
  | failure report => rfl
  | file root path location =>
    obtain ⟨content, hresolve⟩ := hsight
    obtain ⟨-, hfind⟩ := Tree.of_resolve hresolve
    rw [take]
    by_cases hmatch : job.filter.isMatch path = true
    · rw [reportOf?_file hfind hmatch]
      refine process_of_store hfind hmatch (fun css _ _ => ?_) fun _ => rfl
      rw [store, if_pos hdry]
    · rw [reportOf?_of_not_isMatch hmatch, process_of_not_isMatch hmatch]
      rfl

theorem foldl_take_of_dryRun (hdry : job.dryRun = true) {sights : List Sight}
    (hsights : ∀ sight ∈ sights, sight.IsThere tree) (reports : List Report) :
    sights.foldl job.take ⟨tree, reports⟩ =
      ⟨tree, (sights.filterMap (job.reportOf? tree)).reverse ++ reports⟩ := by
  induction sights generalizing reports with
  | nil => rfl
  | cons sight sights ih =>
    obtain ⟨hsight, hsights⟩ := List.forall_mem_cons.1 hsights
    rw [List.foldl_cons, take_of_dryRun hdry hsight, ih hsights, List.filterMap_cons]
    cases job.reportOf? tree sight <;> simp

/-- **A run that only reports** leaves the tree, and says of each file what its bytes say. -/
theorem run_of_dryRun (hdry : job.dryRun = true) (roots : List Path) (hproper : tree.IsProper) :
    job.run roots tree = (tree, (roots.flatMap tree.survey).filterMap (job.reportOf? tree)) := by
  have hthere : ∀ sight ∈ roots.flatMap tree.survey, sight.IsThere tree :=
    fun sight hsight => Tree.isThere_of_mem_surveys hproper hsight
  have hkeep : job.KeepsShape tree (roots.flatMap tree.survey) := by
    intro sight hsight p hp
    rw [take_of_dryRun hdry (hp.isThere (hthere sight hsight))]
    exact hp
  rw [run_eq_foldl hkeep, foldl_take_of_dryRun hdry hthere]
  simp

end Job

end Files

end CssTransform
