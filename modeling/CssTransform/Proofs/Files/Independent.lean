import CssTransform.Proofs.Files.Survey
import Mathlib.Data.List.Forall2

/-!
# Files compiled where they are

A run without an output directory writes each file to its own place. As long as it comes upon no
file twice, no step sees what another one has done: what becomes of a file, and what is said of it,
is told by its path and by the bytes that it had at the beginning.

## Which choice is load-bearing

Compiling files in place commutes, whatever the files. It is the reports that need every file to be
come upon once. The second report of a file would be about the compiled text.

## Main definitions

* `Tree.compileAt` — a tree with one file compiled where it is
* `Job.filesOf` — the files that a run compiles, in order
* `Job.TreatsAlone` — files, roots and failures do not see one another

## Main results

* `Job.run_inPlace` — a run in place, by the tree at the beginning
* `Job.treatsAlone_of_inPlace` — its files are treated each by itself
-/

namespace CssTransform

namespace Files

/-! ### One file -/

/-- A node compiled: a file has its compiled text, a directory stays. -/
def Node.compiled (settings : Settings) : Node → Node
  | .directory => .directory
  | .file content => .file (contentAfter settings content)

namespace Tree

/-- A tree with a file compiled where it is. -/
def compileAt (settings : Settings) (tree : Tree) (location : Location) : Tree :=
  match tree.find? location with
  | some (.file content) => tree.put location (.file (contentAfter settings content))
  | _ => tree

variable {settings : Settings} {tree : Tree} {location l : Location} {content : ByteArray}

theorem compileAt_of_file (h : tree.find? l = some (.file content)) :
    tree.compileAt settings l = tree.put l (.file (contentAfter settings content)) := by
  rw [compileAt, h]

theorem compileAt_of_not_file (h : ∀ content, tree.find? l ≠ some (.file content)) :
    tree.compileAt settings l = tree := by
  rw [compileAt]
  split
  · next content hfind => exact absurd hfind (h content)
  · rfl

theorem find?_compileAt (tree : Tree) (location l : Location) :
    (tree.compileAt settings location).find? l =
      if l = location then (tree.find? l).map (Node.compiled settings) else tree.find? l := by
  by_cases hfile : ∃ content, tree.find? location = some (.file content)
  · obtain ⟨content, hfind⟩ := hfile
    rw [compileAt_of_file hfind, find?_put tree (ne_nil_of_file hfind)]
    split
    · next heq =>
      rw [heq, hfind]
      rfl
    · rfl
  · rw [compileAt_of_not_file fun content h => hfile ⟨content, h⟩]
    split
    · next heq =>
      subst heq
      cases hfind : tree.find? l with
      | none => rfl
      | some node =>
        cases node with
        | directory => rfl
        | file content => exact absurd ⟨content, hfind⟩ hfile
    · rfl

theorem sameShape_compileAt (tree : Tree) (location : Location) :
    (tree.compileAt settings location).SameShape tree := by
  by_cases hfile : ∃ content, tree.find? location = some (.file content)
  · obtain ⟨content, hfind⟩ := hfile
    rw [compileAt_of_file hfind]
    exact sameShape_put hfind _
  · rw [compileAt_of_not_file fun content h => hfile ⟨content, h⟩]
    exact .refl tree

/-- Another file is put in before or after. -/
theorem compileAt_put (hne : location ≠ l) (h : tree.find? l = some (.file content))
    (content' : ByteArray) :
    (tree.put l (.file content')).compileAt settings location =
      (tree.compileAt settings location).put l (.file content') := by
  have hput : (tree.put l (.file content')).find? location = tree.find? location := by
    rw [find?_put tree (ne_nil_of_file h), if_neg hne]
  by_cases hfile : ∃ content, tree.find? location = some (.file content)
  · obtain ⟨other, hother⟩ := hfile
    rw [compileAt_of_file hother, compileAt_of_file (hput.trans hother)]
    exact put_comm hne.symm (isSome_lookup_of_file h) (isSome_lookup_of_file hother)
  · rw [compileAt_of_not_file fun content h => hfile ⟨content, h⟩,
      compileAt_of_not_file fun content h => hfile ⟨content, hput ▸ h⟩]

/-- Files are compiled in place in either order. -/
theorem compileAt_comm (tree : Tree) (a b : Location) :
    (tree.compileAt settings a).compileAt settings b =
      (tree.compileAt settings b).compileAt settings a := by
  by_cases hab : a = b
  · rw [hab]
  · by_cases hfile : ∃ content, tree.find? a = some (.file content)
    · obtain ⟨content, hfind⟩ := hfile
      have hafter : (tree.compileAt settings b).find? a = some (.file content) := by
        rw [find?_compileAt, if_neg hab, hfind]
      rw [compileAt_of_file hfind, compileAt_of_file hafter]
      exact compileAt_put (Ne.symm hab) hfind _
    · have hnone : ∀ content, tree.find? a ≠ some (.file content) :=
        fun content h => hfile ⟨content, h⟩
      have hafter : ∀ content, (tree.compileAt settings b).find? a ≠ some (.file content) := by
        rwa [find?_compileAt, if_neg hab]
      rw [compileAt_of_not_file hnone, compileAt_of_not_file hafter]

/-- Files that are compiled in place once each. -/
theorem find?_foldl_compileAt {locations : List Location} (hnodup : locations.Nodup)
    (tree : Tree) (l : Location) :
    (locations.foldl (compileAt settings) tree).find? l =
      if l ∈ locations then (tree.find? l).map (Node.compiled settings) else tree.find? l := by
  induction locations generalizing tree with
  | nil => rw [if_neg List.not_mem_nil, List.foldl_nil]
  | cons location locations ih =>
    obtain ⟨hlocation, hnodup⟩ := List.nodup_cons.1 hnodup
    rw [List.foldl_cons, ih hnodup, find?_compileAt]
    by_cases hl : l = location
    · subst hl
      rw [if_neg hlocation, if_pos rfl, if_pos List.mem_cons_self]
    · simp only [hl, if_false, List.mem_cons, false_or]

/-- A file with other bytes, compiled among others once. -/
theorem foldl_compileAt_put {locations : List Location} (hnodup : locations.Nodup)
    (h : tree.find? l = some (.file content)) (content' : ByteArray) :
    locations.foldl (compileAt settings) (tree.put l (.file content')) =
      (locations.foldl (compileAt settings) tree).put l
        (.file (if l ∈ locations then contentAfter settings content' else content')) := by
  induction locations generalizing tree content content' with
  | nil => rw [if_neg List.not_mem_nil, List.foldl_nil, List.foldl_nil]
  | cons location locations ih =>
    obtain ⟨hlocation, hnodup⟩ := List.nodup_cons.1 hnodup
    rw [List.foldl_cons, List.foldl_cons]
    by_cases hl : location = l
    · subst hl
      have hput : (tree.put location (.file content')).compileAt settings location =
          (tree.compileAt settings location).put location
            (.file (contentAfter settings content')) := by
        have hfind : (tree.put location (.file content')).find? location =
            some (.file content') := by
          rw [find?_put tree (ne_nil_of_file h), if_pos rfl]
        rw [compileAt_of_file hfind, compileAt_of_file h, put_put, put_put]
      have hafter : (tree.compileAt settings location).find? location =
          some (.file (contentAfter settings content)) := by
        rw [find?_compileAt, if_pos rfl, h]
        rfl
      rw [hput, ih hnodup hafter, if_neg hlocation, if_pos List.mem_cons_self]
    · have hafter : (tree.compileAt settings location).find? l = some (.file content) := by
        rw [find?_compileAt, if_neg (Ne.symm hl), h]
      rw [compileAt_put hl h, ih hnodup hafter]
      simp only [List.mem_cons, Ne.symm hl, false_or]

end Tree

/-! ### Runs in place -/

theorem contentAfter_of_modified {settings : Settings} {content : ByteArray} {css : List Char}
    (h : Tree.textOf content = .ok css)
    (hmodified : (Stylesheet.compile settings css).isModified = true) :
    contentAfter settings content = Tree.bytesOf (Stylesheet.compile settings css).css := by
  rw [contentAfter, h]
  exact if_pos hmodified

theorem contentAfter_of_not_modified {settings : Settings} {content : ByteArray}
    (h : ∀ css, Tree.textOf content = .ok css →
      ¬(Stylesheet.compile settings css).isModified = true) :
    contentAfter settings content = content := by
  rw [contentAfter]
  split
  · rfl
  · next css hcss => exact if_neg (h css hcss)

namespace Job

/-- The place of the file of a sight, if its path matches. -/
def matched? (job : Job) : Sight → Option Location
  | .file _ path location => if job.filter.isMatch path then some location else none
  | .failure _ => none

/-- The files that a run compiles, in the order in which it comes upon them. -/
def filesOf (job : Job) (tree : Tree) (roots : List Path) : List Location :=
  (roots.flatMap tree.survey).filterMap job.matched?

variable {job : Job} {root path : Path} {location l : Location} {content : ByteArray}
  {tree : Tree} {p : Progress} {sight : Sight} {sights : List Sight}

/-- A file is written where it is, and nothing has to be made for that. -/
theorem store_inPlace (hplace : job.outDir = none) (hdry : job.dryRun = false)
    (hproper : tree.IsProper) (hresolve : tree.resolve path = .ok (location, .file content))
    (text : List Char) :
    job.store (job.target root path tree) text tree =
      .ok (tree.put location (.file (Tree.bytesOf text))) := by
  obtain ⟨rfl, hfind⟩ := Tree.of_resolve hresolve
  rw [store, hdry, if_neg Bool.false_ne_true, target, hplace]
  simp only [bind, Except.bind]
  rw [hproper.makeDirectories_of_resolve hresolve]
  dsimp only
  rw [Tree.write, hfind]

theorem take_inPlace (hplace : job.outDir = none) (hdry : job.dryRun = false)
    (hproper : p.tree.IsProper) (hsight : sight.IsThere p.tree) :
    job.take p sight =
      { tree := (job.matched? sight).elim p.tree (p.tree.compileAt job.settings)
        reports := (job.reportOf? p.tree sight).toList ++ p.reports } := by
  cases sight with
  | failure report => rfl
  | file root path location =>
    obtain ⟨content, hresolve⟩ := hsight
    obtain ⟨-, hfind⟩ := Tree.of_resolve hresolve
    rw [take, matched?]
    by_cases hmatch : job.filter.isMatch path = true
    · rw [reportOf?_file hfind hmatch, if_pos hmatch, Option.elim_some,
        Tree.compileAt_of_file hfind]
      refine process_of_store hfind hmatch (fun css hcss hmodified => ?_) fun hnone => ?_
      · rw [store_inPlace hplace hdry hproper hresolve, contentAfter_of_modified hcss hmodified]
      · rw [contentAfter_of_not_modified hnone, Tree.put_self (Tree.ne_nil_of_file hfind) hfind]
    · rw [reportOf?_of_not_isMatch hmatch, if_neg hmatch, process_of_not_isMatch hmatch]
      rfl

/-- What is said of a file does not depend on the other files. -/
theorem reportOf?_congr {tree' : Tree}
    (h : ∀ l, job.matched? sight = some l → tree.find? l = tree'.find? l) :
    job.reportOf? tree sight = job.reportOf? tree' sight := by
  cases sight with
  | failure report => rfl
  | file root path location =>
    by_cases hmatch : job.filter.isMatch path = true
    · rw [reportOf?, reportOf?, h location (if_pos hmatch)]
    · rw [reportOf?_of_not_isMatch hmatch, reportOf?_of_not_isMatch hmatch]

theorem foldl_take_inPlace (hplace : job.outDir = none) (hdry : job.dryRun = false)
    (hproper : tree.IsProper) (hsights : ∀ sight ∈ sights, sight.IsThere tree)
    (hnodup : (sights.filterMap job.matched?).Nodup) (reports : List Report) :
    sights.foldl job.take ⟨tree, reports⟩ =
      ⟨(sights.filterMap job.matched?).foldl (Tree.compileAt job.settings) tree,
        (sights.filterMap (job.reportOf? tree)).reverse ++ reports⟩ := by
  induction sights generalizing tree reports with
  | nil => rfl
  | cons sight sights ih =>
    obtain ⟨hsight, hsights⟩ := List.forall_mem_cons.1 hsights
    rw [List.foldl_cons, take_inPlace hplace hdry hproper hsight]
    cases hmatched : job.matched? sight with
    | none =>
      rw [List.filterMap_cons_none hmatched] at hnodup ⊢
      rw [Option.elim_none, ih hproper hsights hnodup, List.filterMap_cons]
      cases job.reportOf? tree sight <;> simp
    | some location =>
      rw [List.filterMap_cons_some hmatched] at hnodup ⊢
      obtain ⟨hlocation, hnodup⟩ := List.nodup_cons.1 hnodup
      have hshape : (tree.compileAt job.settings location).SameShape tree :=
        tree.sameShape_compileAt location
      -- no sight behind this one is about the file that has just been compiled
      have hreports : sights.filterMap (job.reportOf? (tree.compileAt job.settings location)) =
          sights.filterMap (job.reportOf? tree) := by
        refine List.filterMap_congr fun other hother => reportOf?_congr fun l hl => ?_
        rw [Tree.find?_compileAt, if_neg]
        rintro rfl
        exact hlocation (List.mem_filterMap.2 ⟨other, hother, hl⟩)
      rw [Option.elim_some, ih (hshape.isProper hproper)
        (fun other hother => hshape.isThere (hsights other hother)) hnodup, hreports,
        List.filterMap_cons, List.foldl_cons]
      cases job.reportOf? tree sight <;> simp

theorem keepsShape_inPlace (hplace : job.outDir = none) (hdry : job.dryRun = false)
    (hproper : tree.IsProper) (hsights : ∀ sight ∈ sights, sight.IsThere tree) :
    job.KeepsShape tree sights := by
  intro sight hsight p hp
  rw [take_inPlace hplace hdry (hp.isProper hproper) (hp.isThere (hsights sight hsight))]
  cases job.matched? sight with
  | none => exact hp
  | some location => exact (p.tree.sameShape_compileAt location).trans hp

/-- **A run in place, by the tree at the beginning**, if it comes upon no matching file twice. -/
theorem run_inPlace (hplace : job.outDir = none) (hdry : job.dryRun = false)
    (hproper : tree.IsProper) {roots : List Path} (hnodup : (job.filesOf tree roots).Nodup) :
    job.run roots tree =
      ((job.filesOf tree roots).foldl (Tree.compileAt job.settings) tree,
        (roots.flatMap tree.survey).filterMap (job.reportOf? tree)) := by
  have hthere : ∀ sight ∈ roots.flatMap tree.survey, sight.IsThere tree :=
    fun sight hsight => Tree.isThere_of_mem_surveys hproper hsight
  rw [run_eq_foldl (keepsShape_inPlace hplace hdry hproper hthere),
    foldl_take_inPlace hplace hdry hproper hthere hnodup]
  simp [filesOf]

/-! ### Several runs -/

theorem filesOf_append (job : Job) (tree : Tree) (front back : List Path) :
    job.filesOf tree (front ++ back) = job.filesOf tree front ++ job.filesOf tree back := by
  rw [filesOf, List.flatMap_append, List.filterMap_append]
  rfl

/-- What happens to one file is no matter of another one: files, roots and failures of a run do not
see one another. -/
structure TreatsAlone (job : Job) (tree : Tree) (roots : List Path) : Prop where
  /-- The report of a file is told by its path and the bytes that it had at the beginning. -/
  reports : (job.run roots tree).2 = (roots.flatMap tree.survey).filterMap (job.reportOf? tree)
  /-- The bytes of a matching file in the end are told by those that it had at the beginning. -/
  files : ∀ l ∈ job.filesOf tree roots, ∀ content, tree.find? l = some (.file content) →
    (job.run roots tree).1.find? l = some (.file (contentAfter job.settings content))
  /-- All else stays. -/
  others : ∀ l, l ∉ job.filesOf tree roots → (job.run roots tree).1.find? l = tree.find? l
  /-- The roots may come in any order: each of them has the reports that it has alone. -/
  order : ∀ roots', roots'.Perm roots →
    (job.run roots' tree).1 = (job.run roots tree).1 ∧
      (job.run roots' tree).2 = roots'.flatMap fun root => (job.run [root] tree).2
  /-- One more root that leads nowhere has its own report, and nothing else is another. -/
  missing : ∀ front back, roots = front ++ back → ∀ root failure,
    tree.resolve root = .error failure →
      (job.run roots tree).2 = (job.run front tree).2 ++ (job.run back tree).2 ∧
        job.run (front ++ root :: back) tree =
          ((job.run roots tree).1,
            (job.run front tree).2 ++ scanFailure root failure :: (job.run back tree).2)
  /-- Other bytes in one file change that file and the reports of its path. -/
  bytes : ∀ l content content', tree.find? l = some (.file content) →
    (job.run roots (tree.put l (.file content'))).1 =
        (job.run roots tree).1.put l (.file
          (if l ∈ job.filesOf tree roots then contentAfter job.settings content' else content')) ∧
      List.Forall₂ (fun r r' => r' = r ∨
          tree.locate r.path = l ∧ r' = ⟨r.path, outcomeOf job.settings content'⟩)
        (job.run roots tree).2 (job.run roots (tree.put l (.file content'))).2
  /-- Bytes that are no text stay, and the reports of the path say so. -/
  spoiled : ∀ l content content', tree.find? l = some (.file content) →
    Tree.textOf content' = .error .notText →
    (job.run roots (tree.put l (.file content'))).1 =
        (job.run roots tree).1.put l (.file content') ∧
      List.Forall₂ (fun r r' => r' = r ∨
          tree.locate r.path = l ∧ r' = ⟨r.path, .failed Failure.notText.message⟩)
        (job.run roots tree).2 (job.run roots (tree.put l (.file content'))).2

variable {roots : List Path}

/-- The reports of trees that differ in one file, sight by sight. -/
theorem forall₂_reportOf?_put (hproper : tree.IsProper)
    (hfind : tree.find? l = some (.file content)) (content' : ByteArray) :
    List.Forall₂ (fun r r' => r' = r ∨
        tree.locate r.path = l ∧ r' = ⟨r.path, outcomeOf job.settings content'⟩)
      ((roots.flatMap tree.survey).filterMap (job.reportOf? tree))
      ((roots.flatMap tree.survey).filterMap (job.reportOf? (tree.put l (.file content')))) := by
  have hput := Tree.find?_put tree (Tree.ne_nil_of_file hfind) (.file content')
  refine List.rel_filterMap (R := fun a b => a = b ∧ a ∈ roots.flatMap tree.survey) ?_
    (List.forall₂_same.2 fun sight hsight => ⟨rfl, hsight⟩)
  rintro sight _ ⟨rfl, hsight⟩
  by_cases hmatched : job.matched? sight = some l
  · cases sight with
    | failure report => cases hmatched
    | file root path location =>
      obtain ⟨_, hresolve⟩ := Tree.isThere_of_mem_surveys hproper hsight
      obtain ⟨hlocation, -⟩ := Tree.of_resolve hresolve
      rw [matched?] at hmatched
      split at hmatched
      · next hmatch =>
        obtain rfl := Option.some.inj hmatched
        rw [reportOf?_file hfind hmatch, reportOf?_file ((hput _).trans (if_pos rfl)) hmatch]
        exact .some (.inr ⟨hlocation.symm, rfl⟩)
      · cases hmatched
  · have hsame : job.reportOf? (tree.put l (.file content')) sight = job.reportOf? tree sight := by
      refine reportOf?_congr fun l' hl' => ?_
      rw [hput, if_neg]
      rintro rfl
      exact hmatched hl'
    rw [hsame]
    cases job.reportOf? tree sight with
    | none => exact .none
    | some r => exact .some (.inl rfl)

/-- A walk comes upon the same files in trees of one shape. -/
theorem surveys_of_sameShape {tree' : Tree} (h : tree.SameShape tree') :
    roots.flatMap tree.survey = roots.flatMap tree'.survey :=
  List.flatMap_congr fun root _ => h.survey root

theorem nodup_filesOf_root (hnodup : (job.filesOf tree roots).Nodup) {root : Path}
    (hroot : root ∈ roots) : (job.filesOf tree [root]).Nodup := by
  obtain ⟨front, back, rfl⟩ := List.append_of_mem hroot
  rw [filesOf_append, ← List.singleton_append, filesOf_append] at hnodup
  exact (List.nodup_append.1 (List.nodup_append.1 hnodup).2.1).1

theorem filesOf_missing {failure : Failure} {root : Path} (h : tree.resolve root = .error failure)
    (front back : List Path) :
    job.filesOf tree (front ++ root :: back) = job.filesOf tree (front ++ back) := by
  have hroot : job.filesOf tree [root] = [] := by
    simp [filesOf, Tree.survey, h, matched?]
  rw [← List.singleton_append, filesOf_append, filesOf_append, filesOf_append, hroot,
    List.nil_append]

section InPlace

variable (hplace : job.outDir = none) (hdry : job.dryRun = false) (hproper : tree.IsProper)
  (hnodup : (job.filesOf tree roots).Nodup)

include hplace hdry hproper hnodup

theorem find?_run_inPlace (l : Location) :
    (job.run roots tree).1.find? l =
      if l ∈ job.filesOf tree roots then (tree.find? l).map (Node.compiled job.settings)
      else tree.find? l := by
  rw [run_inPlace hplace hdry hproper hnodup]
  exact Tree.find?_foldl_compileAt hnodup tree l

/-- The roots in another order. -/
theorem run_inPlace_perm {roots' : List Path} (hperm : roots'.Perm roots) :
    (job.run roots' tree).1 = (job.run roots tree).1 ∧
      (job.run roots' tree).2 = roots'.flatMap fun root => (job.run [root] tree).2 := by
  have hfiles : (job.filesOf tree roots').Perm (job.filesOf tree roots) :=
    (hperm.flatMap_right _).filterMap _
  rw [run_inPlace hplace hdry hproper (hfiles.nodup_iff.2 hnodup),
    run_inPlace hplace hdry hproper hnodup]
  refine ⟨hfiles.foldl_eq' (fun a _ b _ t => t.compileAt_comm a b) tree, ?_⟩
  rw [List.filterMap_flatMap]
  refine List.flatMap_congr fun root hroot => ?_
  rw [run_inPlace hplace hdry hproper (nodup_filesOf_root hnodup (hperm.subset hroot)),
    List.flatMap_singleton]

/-- One more root that leads nowhere. -/
theorem run_inPlace_missing {front back : List Path} (hroots : roots = front ++ back) {root : Path}
    {failure : Failure} (hresolve : tree.resolve root = .error failure) :
    (job.run roots tree).2 = (job.run front tree).2 ++ (job.run back tree).2 ∧
      job.run (front ++ root :: back) tree =
        ((job.run roots tree).1,
          (job.run front tree).2 ++ scanFailure root failure :: (job.run back tree).2) := by
  subst hroots
  have hfiles : job.filesOf tree (front ++ root :: back) = job.filesOf tree (front ++ back) :=
    filesOf_missing hresolve front back
  have hboth := hnodup
  rw [filesOf_append] at hboth
  obtain ⟨hfront, hback, -⟩ := List.nodup_append.1 hboth
  rw [run_inPlace hplace hdry hproper hnodup, run_inPlace hplace hdry hproper hfront,
    run_inPlace hplace hdry hproper hback, run_inPlace hplace hdry hproper (hfiles ▸ hnodup),
    hfiles, List.flatMap_append, List.filterMap_append, List.flatMap_append, List.flatMap_cons,
    List.filterMap_append, List.filterMap_append]
  refine ⟨rfl, ?_⟩
  rw [Tree.survey, hresolve]
  rfl

/-- Other bytes in one file. -/
theorem run_inPlace_put (hfind : tree.find? l = some (.file content))
    (content' : ByteArray) :
    (job.run roots (tree.put l (.file content'))).1 =
        (job.run roots tree).1.put l (.file
          (if l ∈ job.filesOf tree roots then contentAfter job.settings content' else content')) ∧
      List.Forall₂ (fun r r' => r' = r ∨
          tree.locate r.path = l ∧ r' = ⟨r.path, outcomeOf job.settings content'⟩)
        (job.run roots tree).2 (job.run roots (tree.put l (.file content'))).2 := by
  have hshape := Tree.sameShape_put hfind content'
  have hsurveys := @surveys_of_sameShape _ roots _ hshape
  have hfiles : job.filesOf (tree.put l (.file content')) roots = job.filesOf tree roots := by
    rw [filesOf, hsurveys]
    rfl
  rw [run_inPlace hplace hdry (hshape.isProper hproper) (hfiles ▸ hnodup),
    run_inPlace hplace hdry hproper hnodup, hfiles, hsurveys]
  exact ⟨Tree.foldl_compileAt_put hnodup hfind content',
    forall₂_reportOf?_put hproper hfind content'⟩

end InPlace

/-- **A run in place treats each file by itself**, if it comes upon no matching file twice. -/
theorem treatsAlone_of_inPlace (hplace : job.outDir = none) (hdry : job.dryRun = false)
    (hproper : tree.IsProper) (hnodup : (job.filesOf tree roots).Nodup) :
    job.TreatsAlone tree roots where
  reports := by rw [run_inPlace hplace hdry hproper hnodup]
  files l hl content hfind := by
    rw [find?_run_inPlace hplace hdry hproper hnodup, if_pos hl, hfind]
    rfl
  others l hl := by rw [find?_run_inPlace hplace hdry hproper hnodup, if_neg hl]
  order roots' hperm := run_inPlace_perm hplace hdry hproper hnodup hperm
  missing front back hroots root failure hresolve :=
    run_inPlace_missing hplace hdry hproper hnodup hroots hresolve
  bytes l content content' hfind :=
    run_inPlace_put hplace hdry hproper hnodup hfind content'
  spoiled l content content' hfind htext := by
    have hput := run_inPlace_put hplace hdry hproper hnodup hfind content'
    have hstays : contentAfter job.settings content' = content' := by
      refine contentAfter_of_not_modified fun css hcss => ?_
      rw [htext] at hcss
      cases hcss
    rwa [hstays, ite_self, outcomeOf_of_error htext] at hput

section TwoFiles

/-- A file, and another one in a directory. -/
def twoFiles : Tree where
  entries := [
    (["a.css".toList], .file (Tree.bytesOf "p{transform:scale(2)}".toList)),
    (["b".toList], .directory),
    (["b".toList, "c.css".toList], .file (Tree.bytesOf "q{transform:scale(3)}".toList))]

/-- Style sheets are compiled where they are. -/
def inPlace : Job where
  settings := default
  filter := .sequence [.literal ".css".toList, .condition .textEnd]
  outDir := none
  dryRun := false

/-- Two roots the other way round, and the first of two files with a byte that is no text. One root
is an absolute path, and the other one goes down and back up. -/
theorem treatsAlone_of_inPlace_twoFiles :
    (inPlace.outDir = none ∧ inPlace.dryRun = false ∧ twoFiles.IsProper ∧
        inPlace.filesOf twoFiles ["/a.css".toList, "b/../b".toList] =
          [["a.css".toList], ["b".toList, "c.css".toList]]) ∧
      (inPlace.run ["b/../b".toList, "/a.css".toList] twoFiles).1 =
          (inPlace.run ["/a.css".toList, "b/../b".toList] twoFiles).1 ∧
      (inPlace.run ["b/../b".toList, "/a.css".toList] twoFiles).2 =
          (inPlace.run ["b/../b".toList] twoFiles).2 ++
            (inPlace.run ["/a.css".toList] twoFiles).2 ∧
      (inPlace.run ["/a.css".toList, "b/../b".toList]
          (twoFiles.put ["a.css".toList] (.file ⟨#[255]⟩))).1 =
        (inPlace.run ["/a.css".toList, "b/../b".toList] twoFiles).1.put ["a.css".toList]
          (.file ⟨#[255]⟩) := by
  have hproper : twoFiles.IsProper := by decide
  have hfiles : inPlace.filesOf twoFiles ["/a.css".toList, "b/../b".toList] =
      [["a.css".toList], ["b".toList, "c.css".toList]] := by
    decide +kernel
  have hnodup : (inPlace.filesOf twoFiles ["/a.css".toList, "b/../b".toList]).Nodup := by
    rw [hfiles]
    decide
  have halone := treatsAlone_of_inPlace rfl rfl hproper hnodup
  obtain ⟨htree, hreports⟩ := halone.order ["b/../b".toList, "/a.css".toList] (.swap _ _ [])
  have htext : Tree.textOf ⟨#[255]⟩ = .error .notText := by decide +kernel
  obtain ⟨hspoiled, -⟩ := halone.spoiled ["a.css".toList] _ ⟨#[255]⟩ rfl htext
  refine ⟨⟨rfl, rfl, hproper, hfiles⟩, htree, ?_, hspoiled⟩
  rw [hreports]
  simp

end TwoFiles

end Job

end Files

end CssTransform
