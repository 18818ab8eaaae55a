import CssTransform.Proofs.Files.History
import CssTransform.Proofs.Files.Shape

/-!
# Trees that grow

A run takes nothing out of a tree. Whatever it writes is put behind what was there, so that the
tree at the beginning is found again in every later one: a path that led somewhere still leads
there, and among the entries of a directory the old ones stand in their old order.

## Main definitions

* `Tree.GrowsTo` — a tree with everything that another one had

## Main results

* `Tree.GrowsTo.resolve` — a path leads where it led
* `Tree.GrowsTo.filter_names` — the old ones of the entries of a directory
* `Job.Runs.growsTo` — steps let the tree grow
-/

namespace CssTransform

namespace Files

namespace Tree

variable {tree tree' : Tree} {location l : Location} {node : Node}

/-! ### Growth -/

/-- A tree with everything that another one had, in the same order, and with new things behind. -/
structure GrowsTo (tree tree' : Tree) : Prop where
  workingDirectory : tree'.workingDirectory = tree.workingDirectory
  locations : ∃ further, tree'.entries.map Prod.fst = tree.entries.map Prod.fst ++ further ∧
    ∀ l ∈ further, tree.find? l = none
  kinds : ∀ l kind, (tree.find? l).map Node.isDirectory = some kind →
    (tree'.find? l).map Node.isDirectory = some kind

theorem SameShape.growsTo (h : tree'.SameShape tree) : tree.GrowsTo tree' where
  workingDirectory := h.workingDirectory
  locations := ⟨[], h.locations.trans (List.append_nil _).symm, by simp⟩
  kinds l _ hkind := (h.kinds l).trans hkind

theorem growsTo_refl (tree : Tree) : tree.GrowsTo tree := (SameShape.refl tree).growsTo

theorem GrowsTo.find?_eq_none (h : tree.GrowsTo tree') (hl : tree'.find? l = none) :
    tree.find? l = none := by
  cases hfind : tree.find? l with
  | none => rfl
  | some node =>
    have hkind := h.kinds l node.isDirectory (by rw [hfind]; rfl)
    rw [hl] at hkind
    cases hkind

theorem GrowsTo.trans {tree'' : Tree} (h : tree.GrowsTo tree') (h' : tree'.GrowsTo tree'') :
    tree.GrowsTo tree'' where
  workingDirectory := h'.workingDirectory.trans h.workingDirectory
  locations := by
    obtain ⟨further, heq, hfurther⟩ := h.locations
    obtain ⟨further', heq', hfurther'⟩ := h'.locations
    refine ⟨further ++ further', by rw [heq', heq, List.append_assoc], ?_⟩
    exact List.forall_mem_append.2 ⟨hfurther, fun l hl => h.find?_eq_none (hfurther' l hl)⟩
  kinds l kind hkind := h'.kinds l kind (h.kinds l kind hkind)

theorem map_fst_putEntry_of_lookup {entries : List (Location × Node)}
    (h : entries.lookup location = none) :
    (putEntry location node entries).map Prod.fst = entries.map Prod.fst ++ [location] := by
  induction entries with
  | nil => rfl
  | cons entry rest ih =>
    obtain ⟨k, old⟩ := entry
    rw [lookup_cons_eq_ite] at h
    by_cases hk : k = location
    · rw [if_pos hk.symm] at h
      cases h
    · rw [if_neg (Ne.symm hk)] at h
      rw [putEntry, if_neg hk, List.map_cons, ih h, List.map_cons, List.cons_append]

/-- Something new. -/
theorem growsTo_put (hl : tree.find? l = none) (node : Node) : tree.GrowsTo (tree.put l node) := by
  have hne : l ≠ [] := by
    rintro rfl
    cases hl
  have hlookup : tree.entries.lookup l = none := by rwa [find?, if_neg hne] at hl
  refine ⟨rfl, ⟨[l], map_fst_putEntry_of_lookup hlookup, ?_⟩, fun l' kind hkind => ?_⟩
  · intro l' hl'
    rwa [List.mem_singleton.1 hl']
  · have hother : l' ≠ l := by
      rintro rfl
      rw [hl] at hkind
      cases hkind
    rwa [find?_put tree hne, if_neg hother]

/-- A file where no directory is. -/
theorem growsTo_put_file (hl : tree.find? l ≠ some .directory) (content : ByteArray) :
    tree.GrowsTo (tree.put l (.file content)) := by
  cases hfind : tree.find? l with
  | none => exact growsTo_put hfind _
  | some node =>
    cases node with
    | directory => exact absurd hfind hl
    | file content => exact (sameShape_put hfind _).growsTo

theorem growsTo_prepared (tree : Tree) (target : Path) : tree.GrowsTo (tree.prepared target) :=
  prepared_induction (P := fun t => tree.GrowsTo t) target
    (fun _ _ h hnone => h.trans (growsTo_put hnone _)) (growsTo_refl tree)

/-! ### What is found again -/

theorem GrowsTo.resolveFrom (h : tree.GrowsTo tree') {node node' next : Node}
    (hnode : node'.isDirectory = node.isDirectory) {parts : List (List Char)}
    (hresolve : tree.resolveFrom location node parts = .ok (l, next)) :
    ∃ next', tree'.resolveFrom location node' parts = .ok (l, next') ∧
      next'.isDirectory = next.isDirectory := by
  induction parts generalizing location node node' with
  | nil =>
    cases hresolve
    exact ⟨node', rfl, hnode⟩
  | cons part parts ih =>
    cases node with
    | file content => cases hresolve
    | directory =>
      obtain rfl := Node.eq_directory hnode
      rw [Tree.resolveFrom] at hresolve
      rw [Tree.resolveFrom]
      split at hresolve
      · cases hresolve
      · next node hfind =>
        have hkind := h.kinds (Path.step location part) node.isDirectory (by rw [hfind]; rfl)
        obtain ⟨node', hfind', hsame⟩ := Option.map_eq_some_iff.1 hkind
        rw [hfind']
        exact ih hsame hresolve

/-- A path leads where it led. -/
theorem GrowsTo.resolve (h : tree.GrowsTo tree') {path : Path}
    (hresolve : tree.resolve path = .ok (l, node)) :
    ∃ node', tree'.resolve path = .ok (l, node') ∧ node'.isDirectory = node.isDirectory := by
  obtain ⟨hne, hresolve⟩ := of_resolve_eq_ok hresolve
  rw [Tree.resolve, if_neg hne, start_congr h.workingDirectory]
  exact h.resolveFrom rfl hresolve

/-- Among the entries of a directory the old ones stand in their old order. -/
theorem GrowsTo.filter_names (h : tree.GrowsTo tree') (location : Location) :
    (tree'.names location).filter (fun name => (tree.find? (location ++ [name])).isSome) =
      tree.names location := by
  obtain ⟨further, heq, hfurther⟩ := h.locations
  have hnew : (further.filterMap (nameIn? location)).filter
      (fun name => (tree.find? (location ++ [name])).isSome) = [] := by
    refine List.filter_eq_nil_iff.2 fun name hname => ?_
    obtain ⟨l, hl, hsome⟩ := List.mem_filterMap.1 hname
    rw [← of_nameIn? hsome, hfurther l hl]
    exact Bool.false_ne_true
  have hold : ((tree.entries.map Prod.fst).filterMap (nameIn? location)).filter
      (fun name => (tree.find? (location ++ [name])).isSome) =
        (tree.entries.map Prod.fst).filterMap (nameIn? location) := by
    refine List.filter_eq_self.2 fun name hname => ?_
    obtain ⟨l, hl, hsome⟩ := List.mem_filterMap.1 hname
    rw [← of_nameIn? hsome]
    exact isSome_find?_of_mem hl
  rw [names_eq, Path.filter_mergeSort, heq, List.filterMap_append, List.filter_append, hnew, hold,
    List.append_nil, ← names_eq]

end Tree

/-! ### Runs -/

namespace Job

variable {job : Job} {tree : Tree}

theorem Makes.growsTo {s : Step} (h : job.Makes s) : s.before.GrowsTo s.after := by
  cases h with
  | nothing hafter _ =>
    rw [hafter]
    exact Tree.growsTo_refl s.before
  | prepare hafter _ _ =>
    rw [hafter]
    exact Tree.growsTo_prepared _ _
  | write css _ hdirectory hafter _ _ =>
    rw [hafter]
    exact (Tree.growsTo_prepared _ _).trans (Tree.growsTo_put_file hdirectory _)

theorem Runs.isProper {steps : List Step} (h : job.Runs tree steps) (hproper : tree.IsProper) :
    (treeAfter tree steps).IsProper :=
  h.invariant (fun _ _ hs => hs.isProper) hproper

/-- Steps let the tree grow. -/
theorem Runs.growsTo {steps : List Step} (h : job.Runs tree steps) :
    tree.GrowsTo (treeAfter tree steps) :=
  h.invariant (P := fun t => tree.GrowsTo t) (fun _ _ hs ht => ht.trans hs.growsTo)
    (Tree.growsTo_refl tree)

end Job

end Files

end CssTransform
