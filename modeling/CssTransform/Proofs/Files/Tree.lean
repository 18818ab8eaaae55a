import CssTransform.Files.Tree
import CssTransform.Proofs.Files.Path
import Mathlib.Data.List.Induction

/-!
# Looking into a tree and changing it

A path as written leads to the location that its names lead to, if it leads anywhere. Making
directories puts directories where nothing was, even if it fails in the end, and writing puts a file
at one location; everything else stays as it was.

## Which choice is load-bearing

Every path is followed from the root. So whatever a path passes by has been found to be a directory,
and `..` never arrives at a file. Nothing has to be assumed of the tree for that.

## Main definitions

* `Tree.IsProper` — a tree whose locations are made of names
* `Tree.treeOf` — the tree after an operation that may have failed

## Main results

* `Tree.of_resolve` — what a path leads to
* `Tree.resolve_child` — what the path of an entry leads to
* `Tree.fileName?_of_resolve` — the path of a file ends in a name
* `Tree.makeDirectories_of_resolve` — the directories on the way to what is there are there
* `Tree.treeOf_makeDirectoriesFrom` — what is kept by making directories
* `Tree.textOf_bytesOf` — a text that is written can be read
-/

namespace CssTransform

namespace Files

namespace Tree

variable {tree tree' : Tree} {location l : Location} {node next : Node} {path : Path}
  {name : List Char} {content : ByteArray}

/-! ### Paths -/

theorem start_congr (h : tree'.workingDirectory = tree.workingDirectory) (path : Path) :
    tree'.start path = tree.start path := by
  rw [start, start, h]

theorem locate_congr (h : tree'.workingDirectory = tree.workingDirectory) (path : Path) :
    tree'.locate path = tree.locate path := by
  rw [locate, locate, way, way, start_congr h]

theorem start_child (tree : Tree) (path : Path) (hname : '/' ∉ name) :
    tree.start (Path.child path name) = tree.start path := by
  rw [start, start, Path.isAbsolute_child hname]

/-- An entry of a directory is one name further. -/
theorem locate_child (tree : Tree) (path : Path) (hname : Path.IsNormal name) :
    tree.locate (Path.child path name) = tree.locate path ++ [name] := by
  rw [locate, way, start_child tree path hname.1, Path.names_child hname, ← List.append_assoc,
    Path.follow_append]
  exact Path.step_of_isNormal hname

/-- The same in every tree whose paths start at the same place. -/
theorem append_eq_locate_child (hlocation : location = tree.locate path)
    (hname : Path.IsNormal name) (hdirectory : tree'.workingDirectory = tree.workingDirectory) :
    location ++ [name] = tree'.locate (Path.child path name) := by
  rw [locate_congr hdirectory, tree.locate_child path hname, hlocation]

theorem locate_below (tree : Tree) (directory : Path) {names : List (List Char)}
    (hnames : ∀ name ∈ names, Path.IsNormal name) :
    tree.locate (Path.below directory names) = tree.locate directory ++ names := by
  obtain ⟨heq, habsolute⟩ := @Path.names_below directory names hnames
  rw [locate, way, start, habsolute, heq, ← List.append_assoc, Path.follow_append]
  exact Path.follow_eq_append hnames

theorem of_resolveFrom {parts : List (List Char)} (hnode : tree.find? location = some node)
    (h : tree.resolveFrom location node parts = .ok (l, next)) :
    l = Path.follow location parts ∧ tree.find? l = some next := by
  induction parts generalizing location node with
  | nil =>
    obtain ⟨rfl, rfl⟩ := Prod.mk.inj (Except.ok.inj h)
    exact ⟨rfl, hnode⟩
  | cons part parts ih =>
    cases node with
    | file content => cases h
    | directory =>
      rw [resolveFrom] at h
      split at h
      · cases h
      · next hnext => exact ih hnext h

theorem of_resolve_eq_ok {found : Location × Node} (h : tree.resolve path = .ok found) :
    path ≠ [] ∧
      tree.resolveFrom [] .directory (tree.start path ++ Path.parts path) = .ok found := by
  rw [resolve] at h
  split at h
  · cases h
  · next hne => exact ⟨hne, h⟩

/-- What a path leads to stands at the location that its names lead to. -/
theorem of_resolve (h : tree.resolve path = .ok (l, node)) :
    l = tree.locate path ∧ tree.find? l = some node := by
  obtain ⟨-, h⟩ := of_resolve_eq_ok h
  obtain ⟨hl, hfind⟩ := of_resolveFrom (find?_nil tree) h
  refine ⟨hl.trans ?_, hfind⟩
  rw [locate, way, Path.follow_append, Path.follow_append, Path.follow_names]

/-- The last part leads one step further from a directory. -/
theorem resolveFrom_concat {parts : List (List Char)} {part : List Char} :
    tree.resolveFrom location node (parts ++ [part]) = .ok (l, next) ↔
      ∃ l', tree.resolveFrom location node parts = .ok (l', .directory) ∧
        l = Path.step l' part ∧ tree.find? l = some next := by
  induction parts generalizing location node with
  | nil =>
    cases node with
    | file content => simp [resolveFrom]
    | directory =>
      simp only [List.nil_append, resolveFrom]
      constructor
      · intro h
        split at h
        · cases h
        · next hnext =>
          cases h
          exact ⟨location, rfl, rfl, hnext⟩
      · rintro ⟨l', hl', rfl, hfind⟩
        cases hl'
        rw [hfind]
  | cons first parts ih =>
    cases node with
    | file content => simp [resolveFrom]
    | directory =>
      rw [List.cons_append, resolveFrom, resolveFrom]
      split
      · simp
      · exact ih

/-- Whatever stands above a directory that was reached is a directory. -/
theorem find?_of_prefix {parts : List (List Char)}
    (h : tree.resolveFrom [] .directory parts = .ok (l, .directory)) :
    ∀ front, front <+: l → tree.find? front = some .directory := by
  induction parts using List.reverseRecOn generalizing l with
  | nil =>
    cases h
    rintro front hfront
    rw [List.prefix_nil.1 hfront]
    rfl
  | append_singleton parts part ih =>
    obtain ⟨l', hl', rfl, hfind⟩ := resolveFrom_concat.1 h
    have habove := ih hl'
    rw [Path.step] at hfind ⊢
    split
    · exact habove
    · split
      · exact fun front hfront => habove front (hfront.trans (List.dropLast_prefix l'))
      · next hidle hup =>
        rw [if_neg hidle, if_neg hup] at hfind
        intro front hfront
        rcases List.prefix_concat_iff.1 hfront with rfl | hfront
        · exact hfind
        · exact habove front hfront

/-- The last part of the path of a file is its name. -/
theorem exists_parts_of_resolve (h : tree.resolve path = .ok (l, .file content)) :
    ∃ front name, Path.parts path = front ++ [name] ∧ Path.isIdle name = false ∧
      name ≠ Path.up := by
  obtain ⟨-, h⟩ := of_resolve_eq_ok h
  obtain hnil | ⟨front, name, hparts⟩ := List.eq_nil_or_concat (Path.parts path)
  · exact absurd hnil (List.splitOn_ne_nil '/' path)
  · rw [List.concat_eq_append] at hparts
    rw [hparts, ← List.append_assoc] at h
    obtain ⟨l', hl', rfl, hfind⟩ := resolveFrom_concat.1 h
    have habove := find?_of_prefix hl'
    refine ⟨front, name, hparts, ?_, ?_⟩
    · by_contra hidle
      rw [Path.step_of_isIdle (by simpa using hidle), habove l' List.prefix_rfl] at hfind
      cases hfind
    · rintro rfl
      rw [Path.step_up, habove _ (List.dropLast_prefix l')] at hfind
      cases hfind

/-- The path of a file ends in a name. -/
theorem fileName?_of_resolve (h : tree.resolve path = .ok (l, .file content)) :
    ∃ name, Path.fileName? path = some name := by
  obtain ⟨front, name, hparts, hidle, hup⟩ := exists_parts_of_resolve h
  exact ⟨name, Path.fileName?_of_parts hparts hidle hup⟩

/-- What the path of an entry of a directory leads to. -/
theorem resolve_child (h : tree.resolve path = .ok (location, .directory))
    (hname : Path.IsNormal name) (hfind : tree.find? (location ++ [name]) = some node) :
    tree.resolve (Path.child path name) = .ok (location ++ [name], node) := by
  obtain ⟨hne, h⟩ := of_resolve_eq_ok h
  obtain ⟨front, hchild, hpath⟩ := Path.parts_child hne hname.1
  have hfront : tree.resolveFrom [] .directory (tree.start path ++ front) =
      .ok (location, .directory) := by
    rcases hpath with hpath | hpath
    · rwa [hpath] at h
    · rw [hpath, ← List.append_assoc] at h
      obtain ⟨l', hl', rfl, -⟩ := resolveFrom_concat.1 h
      exact hl'
  have hchild_ne : Path.child path name ≠ [] := by
    intro hnil
    have hnames := @Path.names_child path name hname
    rw [hnil, Path.names_nil] at hnames
    exact List.append_ne_nil_of_right_ne_nil _ (List.cons_ne_nil name []) hnames.symm
  rw [resolve, if_neg hchild_ne, start_child tree path hname.1, hchild, ← List.append_assoc,
    resolveFrom_concat]
  exact ⟨location, hfront, (Path.step_of_isNormal hname).symm, hfind⟩

/-! ### Changes -/

theorem ne_nil_of_not_directory (h : tree.find? l ≠ some .directory) : l ≠ [] := by
  rintro rfl
  exact h rfl

/-- The tree after an operation that may have failed. -/
def treeOf : Except Stopped Tree → Tree
  | .ok tree => tree
  | .error stopped => stopped.tree

/-- What is kept by putting a directory where nothing was is kept by making directories, whether
that fails or not. -/
theorem treeOf_makeDirectoriesFrom {P : Tree → Prop} {Q : Location → Prop} {made : Bool}
    {names : List (List Char)} (hstep : ∀ l, ∀ name ∈ names, Q l → Q (Path.step l name))
    (hput : ∀ tree l, P tree → Q l → tree.find? l = none → P (tree.put l .directory))
    (htree : P tree) (hlocation : Q location) :
    P (treeOf (makeDirectoriesFrom made location names tree)) := by
  induction names generalizing made location tree with
  | nil => exact htree
  | cons name names ih =>
    have hnext := hstep location name List.mem_cons_self hlocation
    have hrest := fun l n hn => hstep l n (List.mem_cons_of_mem name hn)
    rw [makeDirectoriesFrom]
    split
    · next hnone => exact ih hrest (hput tree _ htree hnext hnone) hnext
    · exact ih hrest htree hnext
    · exact htree

/-- Directories on a way that leads further are there. -/
theorem makeDirectoriesFrom_of_resolveFrom {front : List (List Char)} {part : List Char}
    {found : Location × Node} (made : Bool)
    (h : tree.resolveFrom location .directory (front ++ [part]) = .ok found) :
    makeDirectoriesFrom made location (front.filter fun part => !Path.isIdle part) tree =
      .ok tree := by
  induction front generalizing location with
  | nil => rfl
  | cons first front ih =>
    rw [List.cons_append, resolveFrom] at h
    cases hnext : tree.find? (Path.step location first) with
    | none =>
      rw [hnext] at h
      cases h
    | some next =>
      rw [hnext] at h
      cases next with
      | file content => cases front <;> cases h
      | directory =>
        cases hidle : Path.isIdle first with
        | true =>
          rw [List.filter_cons_of_neg (by simp [hidle])]
          rw [Path.step_of_isIdle hidle] at h
          exact ih h
        | false =>
          rw [List.filter_cons_of_pos (by simp [hidle]), makeDirectoriesFrom, hnext]
          exact ih h

/-- A tree with the directories that a file needs, as far as they can be made. -/
def prepared (tree : Tree) (target : Path) : Tree :=
  treeOf (makeDirectories (tree.way target).dropLast tree)

/-- What is kept by putting a directory where nothing was. -/
theorem prepared_induction {P : Tree → Prop} (target : Path)
    (hput : ∀ tree l, P tree → tree.find? l = none → P (tree.put l .directory)) (htree : P tree) :
    P (tree.prepared target) :=
  treeOf_makeDirectoriesFrom (Q := fun _ => True) (fun _ _ _ _ => trivial)
    (fun tree l h _ => hput tree l h) htree trivial

@[simp] theorem workingDirectory_prepared (tree : Tree) (target : Path) :
    (tree.prepared target).workingDirectory = tree.workingDirectory :=
  prepared_induction (P := fun t => t.workingDirectory = tree.workingDirectory) target
    (fun _ _ h _ => h) rfl

/-- Directories are made where nothing was. -/
theorem find?_prepared (tree : Tree) (target : Path) (l : Location) :
    (tree.prepared target).find? l = tree.find? l ∨
      tree.find? l = none ∧ (tree.prepared target).find? l = some .directory := by
  refine prepared_induction (P := fun t => t.find? l = tree.find? l ∨
    tree.find? l = none ∧ t.find? l = some .directory) target (fun t l' h hnone => ?_) (.inl rfl)
  have hother : t.find? l' ≠ some .directory := by simp [hnone]
  rw [find?_put t (ne_nil_of_not_directory hother)]
  split
  · next heq =>
    subst heq
    rw [hnone] at h
    rcases h with hsame | ⟨-, hdirectory⟩
    · exact .inr ⟨hsame.symm, rfl⟩
    · cases hdirectory
  · exact h

/-! ### Entries -/

/-- The name of a location in a directory, if it is one of its entries. -/
def nameIn? (directory l : Location) : Option (List Char) :=
  if l.dropLast = directory then l.getLast? else none

theorem names_eq (tree : Tree) (location : Location) :
    tree.names location =
      ((tree.entries.map Prod.fst).filterMap (nameIn? location)).mergeSort Path.precedes := by
  rw [List.filterMap_map]
  rfl

theorem of_nameIn? (h : nameIn? location l = some name) : l = location ++ [name] := by
  rw [nameIn?] at h
  split at h
  · next hfront => rw [← hfront, List.dropLast_append_getLast? name h]
  · cases h

/-- Every entry of a directory is one of the tree. -/
theorem of_mem_names (h : name ∈ tree.names location) :
    location ++ [name] ∈ tree.entries.map Prod.fst := by
  rw [names_eq, List.mem_mergeSort, List.mem_filterMap] at h
  obtain ⟨l, hl, hname⟩ := h
  rwa [← of_nameIn? hname]

/-! ### Proper trees -/

/-- A tree whose locations are made of names that lead down. -/
structure IsProper (tree : Tree) : Prop where
  entries : ∀ entry ∈ tree.entries, ∀ name ∈ entry.1, Path.IsNormal name
  workingDirectory : ∀ name ∈ tree.workingDirectory, Path.IsNormal name

instance (tree : Tree) : Decidable tree.IsProper :=
  decidable_of_iff ((∀ entry ∈ tree.entries, ∀ name ∈ entry.1, Path.IsNormal name) ∧
    ∀ name ∈ tree.workingDirectory, Path.IsNormal name) ⟨fun h => ⟨h.1, h.2⟩, fun h => ⟨h.1, h.2⟩⟩

theorem mem_putEntry {entries : List (Location × Node)} {entry : Location × Node}
    (h : entry ∈ putEntry location node entries) : entry.1 = location ∨ entry ∈ entries := by
  induction entries with
  | nil => exact .inl (congrArg Prod.fst (List.mem_singleton.1 h))
  | cons e entries ih =>
    obtain ⟨k, old⟩ := e
    rw [putEntry] at h
    split at h
    · next hk =>
      rcases List.mem_cons.1 h with rfl | h
      · exact .inl hk
      · exact .inr (List.mem_cons_of_mem _ h)
    · rcases List.mem_cons.1 h with rfl | h
      · exact .inr List.mem_cons_self
      · exact (ih h).imp_right (List.mem_cons_of_mem _)

namespace IsProper

theorem put (h : tree.IsProper) (hl : ∀ name ∈ location, Path.IsNormal name) (node : Node) :
    (tree.put location node).IsProper where
  entries := by
    intro entry hentry name hname
    rcases mem_putEntry hentry with heq | hmem
    · exact hl name (heq ▸ hname)
    · exact h.entries entry hmem name hname
  workingDirectory := h.workingDirectory

theorem isNormal_of_mem_start (h : tree.IsProper) (path : Path) :
    ∀ name ∈ tree.start path, Path.IsNormal name := by
  rw [start]
  split
  · exact fun _ hname => absurd hname List.not_mem_nil
  · exact h.workingDirectory

theorem not_mem_of_mem_way (h : tree.IsProper) (path : Path) : ∀ name ∈ tree.way path, '/' ∉ name :=
  List.forall_mem_append.2
    ⟨fun name hname => (h.isNormal_of_mem_start path name hname).1,
      fun _ hname => Path.not_mem_of_mem_names hname⟩

/-- Where a path leads to is told by names that lead down. -/
theorem isNormal_of_mem_locate (h : tree.IsProper) (path : Path) :
    ∀ name ∈ tree.locate path, Path.IsNormal name :=
  Path.isNormal_of_mem_follow (fun _ hname => absurd hname List.not_mem_nil)
    (h.not_mem_of_mem_way path)

theorem prepared (h : tree.IsProper) (target : Path) : (tree.prepared target).IsProper := by
  have hslash : ∀ name ∈ (tree.way target).dropLast, '/' ∉ name := fun name hname =>
    h.not_mem_of_mem_way target name ((List.dropLast_sublist _).subset hname)
  exact treeOf_makeDirectoriesFrom (Q := fun l => ∀ name ∈ l, Path.IsNormal name)
    (fun l name hname hl => Path.isNormal_of_mem_step hl (hslash name hname))
    (fun tree l htree hl _ => htree.put hl .directory) h
    fun _ hname => absurd hname List.not_mem_nil

/-- The entries of a directory have names that lead to them. -/
theorem isNormal_of_mem_names (h : tree.IsProper) (hname : name ∈ tree.names location) :
    Path.IsNormal name := by
  obtain ⟨entry, hmem, heq⟩ := List.mem_map.1 (of_mem_names hname)
  exact h.entries entry hmem name (by rw [heq]; simp)

/-- The directories on the way to a file that is there are there. -/
theorem makeDirectories_of_resolve (h : tree.IsProper)
    (hresolve : tree.resolve path = .ok (l, .file content)) :
    makeDirectories (tree.way path).dropLast tree = .ok tree := by
  obtain ⟨front, name, hparts, hidle, -⟩ := exists_parts_of_resolve hresolve
  have hstart : (tree.start path).filter (fun part => !Path.isIdle part) = tree.start path :=
    List.filter_eq_self.2 fun name hname => by simp [(h.isNormal_of_mem_start path name hname).2.1]
  have hway : (tree.way path).dropLast =
      (tree.start path ++ front).filter fun part => !Path.isIdle part := by
    rw [way, Path.names, hparts, List.filter_append, List.filter_singleton, hidle,
      List.filter_append, hstart, ← List.append_assoc]
    exact List.dropLast_concat
  obtain ⟨-, hresolve⟩ := of_resolve_eq_ok hresolve
  rw [hparts, ← List.append_assoc] at hresolve
  rw [hway]
  exact makeDirectoriesFrom_of_resolveFrom false hresolve

end IsProper

/-! ### Texts -/

/-- Only files are read. -/
theorem exists_of_read {text : List Char} (h : tree.read l = .ok text) :
    ∃ content, tree.find? l = some (.file content) ∧ textOf content = .ok text := by
  rw [read] at h
  split at h
  · cases h
  · cases h
  · next content hfind => exact ⟨content, hfind, h⟩

/-- A text that is written can be read. -/
theorem textOf_bytesOf (text : List Char) : textOf (bytesOf text) = .ok text := by
  have hdecode : String.fromUTF8? (bytesOf text) = some (String.ofList text) :=
    dif_pos (String.ofList text).isValidUTF8
  rw [textOf, hdecode]
  exact congrArg Except.ok String.toList_ofList

end Tree

end Files

end CssTransform
