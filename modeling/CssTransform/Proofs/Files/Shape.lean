import CssTransform.Proofs.Files.Tree

/-!
# The shape of a tree

Where a walk goes depends on the locations of a tree, on which of them are directories and on where
paths start, and not on what is in the files. Writing a file that is there keeps that shape.

## Main definitions

* `Tree.SameShape` — trees with the same locations, files where the other has files
* `Tree.IsClosed` — a tree in which everything stands in a directory

## Main results

* `Tree.SameShape.resolve` — a path leads to the same location in both
* `Tree.sameShape_put` — writing a file that is there
* `Tree.put_comm`, `Tree.put_put`, `Tree.put_self` — several changes
-/

namespace CssTransform

namespace Files

/-- Whether a node is a directory. -/
def Node.isDirectory : Node → Bool
  | .directory => true
  | .file _ => false

theorem Node.eq_directory {node : Node} (h : node.isDirectory = true) : node = .directory := by
  cases node with
  | directory => rfl
  | file content => cases h

theorem Node.exists_file {node : Node} (h : node.isDirectory = false) :
    ∃ content, node = .file content := by
  cases node with
  | directory => cases h
  | file content => exact ⟨content, rfl⟩

namespace Tree

variable {tree tree' : Tree} {location l : Location} {node : Node}

theorem ne_nil_of_file {content : ByteArray} (h : tree.find? l = some (.file content)) :
    l ≠ [] := by
  rintro rfl
  cases h

theorem isSome_lookup_of_file {content : ByteArray} (h : tree.find? l = some (.file content)) :
    (tree.entries.lookup l).isSome = true := by
  rw [find?, if_neg (ne_nil_of_file h)] at h
  rw [h]
  rfl

/-- What is found somewhere is an entry, but for the root. -/
theorem mem_entries_of_find? (hne : l ≠ []) (h : tree.find? l = some node) :
    (l, node) ∈ tree.entries := by
  rw [find?, if_neg hne, List.lookup_eq_some_iff] at h
  obtain ⟨front, back, hentries, -⟩ := h
  rw [hentries]
  exact List.mem_append_right front List.mem_cons_self

/-! ### Entries -/

theorem isSome_find?_of_mem (h : l ∈ tree.entries.map Prod.fst) : (tree.find? l).isSome = true := by
  rw [find?]
  split
  · rfl
  · obtain ⟨entry, hentry, rfl⟩ := List.mem_map.1 h
    exact List.lookup_isSome_iff.2 ⟨entry, hentry, beq_self_eq_true _⟩

/-- Every entry of a directory is there. -/
theorem isSome_find?_of_mem_names {name : List Char} (h : name ∈ tree.names location) :
    (tree.find? (location ++ [name])).isSome = true :=
  isSome_find?_of_mem (of_mem_names h)

/-! ### Several changes -/

theorem putEntry_comm {a b : Location} (hne : a ≠ b) {entries : List (Location × Node)}
    (ha : (entries.lookup a).isSome = true) (hb : (entries.lookup b).isSome = true)
    (x y : Node) :
    putEntry b y (putEntry a x entries) = putEntry a x (putEntry b y entries) := by
  induction entries with
  | nil => cases ha
  | cons entry rest ih =>
    obtain ⟨k, old⟩ := entry
    rw [lookup_cons_eq_ite] at ha hb
    by_cases hka : k = a
    · subst hka
      simp [putEntry, hne]
    · by_cases hkb : k = b
      · subst hkb
        simp [putEntry, hka]
      · rw [if_neg (Ne.symm hka)] at ha
        rw [if_neg (Ne.symm hkb)] at hb
        simp [putEntry, hka, hkb, ih ha hb]

/-- Changes at two locations can be made in either order. -/
theorem put_comm {a b : Location} (hne : a ≠ b) {x y : Node}
    (ha : (tree.entries.lookup a).isSome = true) (hb : (tree.entries.lookup b).isSome = true) :
    (tree.put a x).put b y = (tree.put b y).put a x :=
  congrArg (Tree.mk · tree.workingDirectory) (putEntry_comm hne ha hb x y)

theorem putEntry_putEntry (location : Location) (x y : Node) (entries : List (Location × Node)) :
    putEntry location y (putEntry location x entries) = putEntry location y entries := by
  induction entries with
  | nil => simp [putEntry]
  | cons entry rest ih =>
    obtain ⟨k, old⟩ := entry
    by_cases hk : k = location
    · simp [putEntry, hk]
    · simp [putEntry, hk, ih]

/-- Of two changes at a location the second one counts. -/
theorem put_put (tree : Tree) (location : Location) (x y : Node) :
    (tree.put location x).put location y = tree.put location y :=
  congrArg (Tree.mk · tree.workingDirectory) (putEntry_putEntry location x y tree.entries)

theorem putEntry_self {entries : List (Location × Node)}
    (h : entries.lookup location = some node) : putEntry location node entries = entries := by
  induction entries with
  | nil => cases h
  | cons entry rest ih =>
    obtain ⟨k, old⟩ := entry
    rw [lookup_cons_eq_ite] at h
    by_cases hk : k = location
    · subst hk
      rw [if_pos rfl] at h
      rw [putEntry, if_pos rfl, Option.some.inj h]
    · rw [if_neg (Ne.symm hk)] at h
      rw [putEntry, if_neg hk, ih h]

/-- Putting what is there changes nothing. -/
theorem put_self (hne : l ≠ []) (h : tree.find? l = some node) : tree.put l node = tree := by
  rw [find?, if_neg hne] at h
  exact congrArg (Tree.mk · tree.workingDirectory) (putEntry_self h)

theorem map_fst_putEntry {entries : List (Location × Node)}
    (h : (entries.lookup location).isSome = true) :
    (putEntry location node entries).map Prod.fst = entries.map Prod.fst := by
  induction entries with
  | nil => cases h
  | cons entry rest ih =>
    obtain ⟨k, old⟩ := entry
    rw [lookup_cons_eq_ite] at h
    by_cases hk : k = location
    · rw [putEntry, if_pos hk]
      rfl
    · rw [if_neg (Ne.symm hk)] at h
      rw [putEntry, if_neg hk, List.map_cons, List.map_cons, ih h]

/-! ### Trees of one shape -/

/-- Trees with the same locations, with directories where the other has directories, and with the
same place where paths start. -/
structure SameShape (tree tree' : Tree) : Prop where
  workingDirectory : tree.workingDirectory = tree'.workingDirectory
  locations : tree.entries.map Prod.fst = tree'.entries.map Prod.fst
  kinds : ∀ l, (tree.find? l).map Node.isDirectory = (tree'.find? l).map Node.isDirectory

namespace SameShape

theorem refl (tree : Tree) : tree.SameShape tree := ⟨rfl, rfl, fun _ => rfl⟩

theorem trans {tree'' : Tree} (h : tree.SameShape tree') (h' : tree'.SameShape tree'') :
    tree.SameShape tree'' :=
  ⟨h.workingDirectory.trans h'.workingDirectory, h.locations.trans h'.locations,
    fun l => (h.kinds l).trans (h'.kinds l)⟩

theorem names (h : tree.SameShape tree') (location : Location) :
    tree.names location = tree'.names location := by
  rw [names_eq, names_eq, h.locations]

theorem find?_file (h : tree.SameShape tree') {content : ByteArray}
    (hl : tree'.find? l = some (.file content)) : ∃ content', tree.find? l = some (.file content') := by
  have hkind := h.kinds l
  rw [hl] at hkind
  obtain ⟨node, hnode, hfile⟩ := Option.map_eq_some_iff.1 hkind
  obtain ⟨content', rfl⟩ := Node.exists_file hfile
  exact ⟨content', hnode⟩

theorem resolveFrom (h : tree.SameShape tree') {node node' : Node}
    (hnode : node.isDirectory = node'.isDirectory) (parts : List (List Char)) :
    (tree.resolveFrom location node parts).map (Prod.map id Node.isDirectory) =
      (tree'.resolveFrom location node' parts).map (Prod.map id Node.isDirectory) := by
  induction parts generalizing location node node' with
  | nil => exact congrArg (fun kind => Except.ok (location, kind)) hnode
  | cons part parts ih =>
    cases node with
    | file content =>
      obtain ⟨content', rfl⟩ := Node.exists_file hnode.symm
      rfl
    | directory =>
      obtain rfl := Node.eq_directory hnode.symm
      rw [Tree.resolveFrom, Tree.resolveFrom]
      have hkind := h.kinds (Path.step location part)
      cases hnext : tree.find? (Path.step location part) with
      | none =>
        rw [hnext, Option.map_none, eq_comm, Option.map_eq_none_iff] at hkind
        rw [hkind]
      | some next =>
        rw [hnext, Option.map_some, eq_comm, Option.map_eq_some_iff] at hkind
        obtain ⟨next', hnext', hsame⟩ := hkind
        rw [hnext']
        exact ih hsame.symm

/-- A path leads to the same location in trees of one shape, or fails to for the same reason. -/
theorem resolve (h : tree.SameShape tree') (path : Path) :
    (tree.resolve path).map (Prod.map id Node.isDirectory) =
      (tree'.resolve path).map (Prod.map id Node.isDirectory) := by
  rw [Tree.resolve, Tree.resolve, start_congr h.workingDirectory]
  split
  · rfl
  · exact h.resolveFrom rfl _

/-- A path that leads to a file leads to a file in a tree of the same shape. -/
theorem resolve_file (h : tree.SameShape tree') {path : Path} {content : ByteArray}
    (hresolve : tree'.resolve path = .ok (l, .file content)) :
    ∃ content', tree.resolve path = .ok (l, .file content') := by
  have hsame := h.resolve path
  rw [hresolve] at hsame
  cases hleft : tree.resolve path with
  | error failure =>
    rw [hleft] at hsame
    cases hsame
  | ok found =>
    obtain ⟨l', node⟩ := found
    rw [hleft] at hsame
    obtain ⟨rfl, hkind⟩ := Prod.mk.inj (Except.ok.inj hsame)
    obtain ⟨content', rfl⟩ := Node.exists_file hkind
    exact ⟨content', rfl⟩

theorem isProper (h : tree.SameShape tree') (hproper : tree'.IsProper) : tree.IsProper where
  entries := by
    intro entry hentry
    have hmem : entry.1 ∈ tree'.entries.map Prod.fst := h.locations ▸ List.mem_map_of_mem hentry
    obtain ⟨entry', hentry', heq⟩ := List.mem_map.1 hmem
    rw [← heq]
    exact hproper.entries entry' hentry'
  workingDirectory := h.workingDirectory ▸ hproper.workingDirectory

end SameShape

/-- Writing a file that is there keeps the shape. -/
theorem sameShape_put {content : ByteArray} (h : tree.find? l = some (.file content))
    (content' : ByteArray) : (tree.put l (.file content')).SameShape tree where
  workingDirectory := rfl
  locations := map_fst_putEntry (isSome_lookup_of_file h)
  kinds l' := by
    rw [find?_put tree (ne_nil_of_file h)]
    split
    · next heq =>
      subst heq
      rw [h]
      rfl
    · rfl

/-! ### Closed trees -/

/-- Everything in the tree stands in a directory of the tree. -/
def IsClosed (tree : Tree) : Prop :=
  ∀ entry ∈ tree.entries, (tree.find? entry.1.dropLast).map Node.isDirectory = some true

instance (tree : Tree) : Decidable tree.IsClosed :=
  inferInstanceAs (Decidable (∀ entry ∈ tree.entries, _))

theorem find?_directory_iff :
    (tree.find? l).map Node.isDirectory = some true ↔ tree.find? l = some .directory := by
  constructor
  · intro h
    obtain ⟨node, hnode, hdirectory⟩ := Option.map_eq_some_iff.1 h
    rw [hnode, Node.eq_directory hdirectory]
  · intro h
    rw [h]
    rfl

theorem IsClosed.find?_dropLast (h : tree.IsClosed) (hl : (tree.find? l).isSome = true) :
    tree.find? l.dropLast = some .directory := by
  by_cases hne : l = []
  · subst hne
    rfl
  · obtain ⟨node, hnode⟩ := Option.isSome_iff_exists.1 hl
    exact find?_directory_iff.1 (h _ (mem_entries_of_find? hne hnode))

end Tree

end Files

end CssTransform
