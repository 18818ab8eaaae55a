import CssTransform.Files.Path
import Mathlib.Data.List.Basic

/-!
# Names along a path

A path is followed name by name. The path of a directory may be written in more than one way, with
or without a slash at its end; an entry of it is one name further in any case. Names that lead down
are added to a location, and no other names ever stand in one.

The order of names is a total order, so sorted names are told by which of them there are.

## Main definitions

* `Path.IsNormal` — a name that leads to an entry

## Main results

* `Path.names_child`, `Path.names_below` — the names along the path of an entry, or of what is below
* `Path.follow_names` — what stays where it is does not matter
* `Path.follow_eq_append` — names that lead down
* `Path.isNormal_of_mem_follow` — locations are made of names that lead down
* `Path.filter_mergeSort` — some of the names, sorted
-/

namespace CssTransform

namespace Path

/-- A name that leads from a directory to one of its entries. -/
def IsNormal (name : List Char) : Prop := '/' ∉ name ∧ isIdle name = false ∧ name ≠ up

instance : DecidablePred IsNormal := fun _ => inferInstanceAs (Decidable (_ ∧ _))

variable {path directory root name : List Char} {location : Location}

/-! ### Names -/

theorem not_mem_of_mem_splitOn {text : List Char} (h : name ∈ text.splitOn '/') : '/' ∉ name := by
  induction text generalizing name with
  | nil =>
    rw [List.splitOn_nil, List.mem_singleton] at h
    simp [h]
  | cons c text ih =>
    obtain ⟨first, rest, hsplit⟩ := List.exists_cons_of_ne_nil (List.splitOn_ne_nil '/' text)
    rw [List.splitOn_cons_eq_if_modifyHead, hsplit] at h
    rw [hsplit] at ih
    split at h
    · rcases List.mem_cons.1 h with rfl | h
      · simp
      · exact ih h
    · next hc =>
      rw [List.modifyHead_cons, List.mem_cons] at h
      rcases h with rfl | h
      · rw [List.mem_cons, not_or]
        exact ⟨fun h => hc (beq_iff_eq.2 h.symm), ih List.mem_cons_self⟩
      · exact ih (List.mem_cons_of_mem first h)

theorem parts_append_slash (front back : List Char) :
    parts (front ++ '/' :: back) = parts front ++ parts back :=
  List.splitOn_append_cons_self front back

theorem parts_of_not_mem (h : '/' ∉ name) : parts name = [name] := List.splitOn_eq_singleton h

@[simp] theorem names_nil : names [] = [] := rfl

theorem names_of_isNormal (h : IsNormal name) : names name = [name] := by
  rw [names, parts_of_not_mem h.1, List.filter_singleton, h.2.1]
  rfl

theorem not_mem_of_mem_names (h : name ∈ names path) : '/' ∉ name :=
  not_mem_of_mem_splitOn (List.mem_filter.1 h).1

/-- The parts of the path of an entry, for a directory with or without a slash at its end. -/
theorem parts_child (hne : directory ≠ []) (hname : '/' ∉ name) :
    ∃ front, parts (child directory name) = front ++ [name] ∧
      (parts directory = front ∨ parts directory = front ++ [[]]) := by
  rw [child]
  split
  · next hnone => exact absurd (List.getLast?_eq_none_iff.1 hnone) hne
  · next hlast =>
    obtain ⟨front, rfl⟩ := List.getLast?_eq_some_iff.1 hlast
    refine ⟨parts front, ?_, .inr (parts_append_slash front [])⟩
    rw [List.append_assoc, List.singleton_append, parts_append_slash, parts_of_not_mem hname]
  · exact ⟨parts directory, by rw [parts_append_slash, parts_of_not_mem hname], .inl rfl⟩

theorem names_child (hname : IsNormal name) :
    names (child directory name) = names directory ++ [name] := by
  by_cases hne : directory = []
  · subst hne
    exact names_of_isNormal hname
  · obtain ⟨front, hchild, hdirectory⟩ := parts_child hne hname.1
    have hfront : names directory = front.filter fun part => !isIdle part := by
      rcases hdirectory with h | h
      · rw [names, h]
      · rw [names, h, List.filter_append]
        exact List.append_nil _
    rw [hfront, names, hchild, List.filter_append, List.filter_singleton, hname.2.1]
    rfl

theorem isAbsolute_append (hne : directory ≠ []) (back : List Char) :
    isAbsolute (directory ++ back) = isAbsolute directory := by
  obtain ⟨c, rest, rfl⟩ := List.exists_cons_of_ne_nil hne
  by_cases hc : c = '/'
  · subst hc
    rfl
  · have hrelative : ∀ text : List Char, isAbsolute (c :: text) = false := by
      intro text
      rw [isAbsolute]
      rintro text' heq
      exact hc (List.cons.inj heq).1
    rw [List.cons_append, hrelative, hrelative]

theorem isAbsolute_child (hname : '/' ∉ name) :
    isAbsolute (child directory name) = isAbsolute directory := by
  rw [child]
  split
  · next hnone =>
    rw [List.getLast?_eq_none_iff.1 hnone]
    cases name with
    | nil => rfl
    | cons c name =>
      rw [isAbsolute]
      · rfl
      · rintro rest heq
        exact hname (by rw [(List.cons.inj heq).1]; exact List.mem_cons_self)
  · next hlast => exact isAbsolute_append (by rintro rfl; cases hlast) name
  · next hlast => exact isAbsolute_append (by rintro rfl; cases hlast) _

/-- The path of what is below a directory has the names of both, and starts where it starts. -/
theorem names_below {names' : List (List Char)} (h : ∀ name ∈ names', IsNormal name) :
    names (below directory names') = names directory ++ names' ∧
      isAbsolute (below directory names') = isAbsolute directory := by
  induction names' generalizing directory with
  | nil => exact ⟨(List.append_nil _).symm, rfl⟩
  | cons name names' ih =>
    obtain ⟨hname, hnames⟩ := List.forall_mem_cons.1 h
    obtain ⟨heq, habsolute⟩ := @ih (child directory name) hnames
    rw [below, List.foldl_cons]
    refine ⟨heq.trans ?_, habsolute.trans (isAbsolute_child hname.1)⟩
    rw [names_child hname, List.append_assoc, List.singleton_append]

/-! ### The end of a path -/

theorem isNormal_of_fileName? (h : fileName? path = some name) : IsNormal name := by
  obtain ⟨hlast, hup⟩ := Option.filter_eq_some_iff.1 h
  have hmem : name ∈ names path := List.mem_of_getLast? hlast
  refine ⟨not_mem_of_mem_names hmem, ?_, bne_iff_ne.1 hup⟩
  simpa using (List.mem_filter.1 hmem).2

theorem fileName?_of_parts {front : List (List Char)} (hparts : parts path = front ++ [name])
    (hidle : isIdle name = false) (hup : name ≠ up) : fileName? path = some name := by
  have hlast : (names path).getLast? = some name := by
    rw [names, hparts, List.filter_append, List.filter_singleton, hidle]
    exact List.getLast?_concat
  rw [fileName?, hlast]
  exact Option.filter_eq_some_iff.2 ⟨rfl, bne_iff_ne.2 hup⟩

theorem stripPrefix?_of_names {names' : List (List Char)}
    (habsolute : isAbsolute path = isAbsolute root) (hnames : names path = names root ++ names') :
    stripPrefix? path root = some names' := by
  rw [stripPrefix?, if_pos ⟨habsolute, names', hnames.symm⟩, hnames, List.drop_left]

/-! ### Where names lead to -/

theorem follow_append (location : Location) (front back : List (List Char)) :
    follow location (front ++ back) = follow (follow location front) back := List.foldl_append

theorem step_of_isIdle (h : isIdle name = true) : step location name = location := if_pos h

@[simp] theorem step_up : step location up = location.dropLast := rfl

theorem step_of_isNormal (h : IsNormal name) : step location name = location ++ [name] := by
  rw [step, h.2.1, if_neg Bool.false_ne_true, if_neg h.2.2]

/-- What stays where it is does not matter. -/
theorem follow_filter (location : Location) (parts : List (List Char)) :
    follow location (parts.filter fun part => !isIdle part) = follow location parts := by
  rw [follow, List.foldl_filter]
  refine congrArg (fun f => parts.foldl f location) (funext fun l => funext fun part => ?_)
  cases hidle : isIdle part with
  | true => exact (step_of_isIdle hidle).symm
  | false => rfl

theorem follow_names (location : Location) (path : Path) :
    follow location (names path) = follow location (parts path) := follow_filter location _

/-- Names that lead down are added. -/
theorem follow_eq_append {names' : List (List Char)} (h : ∀ name ∈ names', IsNormal name) :
    follow location names' = location ++ names' := by
  induction names' generalizing location with
  | nil => exact (List.append_nil location).symm
  | cons name names' ih =>
    obtain ⟨hname, hnames⟩ := List.forall_mem_cons.1 h
    rw [follow, List.foldl_cons, step_of_isNormal hname]
    exact (ih hnames).trans (List.append_assoc _ _ _)

theorem isNormal_of_mem_step (hlocation : ∀ name ∈ location, IsNormal name) (hname : '/' ∉ name) :
    ∀ n ∈ step location name, IsNormal n := by
  rw [step]
  cases hidle : isIdle name with
  | true => exact hlocation
  | false =>
    by_cases hup : name = up
    · subst hup
      exact fun n hn => hlocation n ((List.dropLast_sublist location).subset hn)
    · rw [if_neg Bool.false_ne_true, if_neg hup]
      exact List.forall_mem_append.2 ⟨hlocation, List.forall_mem_singleton.2 ⟨hname, hidle, hup⟩⟩

/-- Locations are made of names that lead down. -/
theorem isNormal_of_mem_follow {names' : List (List Char)}
    (hlocation : ∀ name ∈ location, IsNormal name) (hnames : ∀ name ∈ names', '/' ∉ name) :
    ∀ n ∈ follow location names', IsNormal n := by
  induction names' generalizing location with
  | nil => exact hlocation
  | cons name names' ih =>
    obtain ⟨hname, hnames⟩ := List.forall_mem_cons.1 hnames
    exact ih (isNormal_of_mem_step hlocation hname) hnames

/-! ### The order of names -/

theorem precedes_cons {a b : Char} {s t : List Char} :
    precedes (a :: s) (b :: t) = true ↔ a < b ∨ a = b ∧ precedes s t = true := by
  rw [precedes, Bool.or_eq_true, Bool.and_eq_true, decide_eq_true_iff, beq_iff_eq]

theorem precedes_trans {r s t : List Char} (hrs : precedes r s = true)
    (hst : precedes s t = true) : precedes r t = true := by
  induction r generalizing s t with
  | nil => rfl
  | cons a r ih =>
    cases s with
    | nil => cases hrs
    | cons b s =>
      cases t with
      | nil => cases hst
      | cons c t =>
        rw [precedes_cons] at hrs hst ⊢
        rcases hrs with hab | ⟨rfl, hrs⟩
        · rcases hst with hbc | ⟨rfl, -⟩
          · exact .inl (Char.lt_trans hab hbc)
          · exact .inl hab
        · exact hst.imp_right fun hcs => ⟨hcs.1, ih hrs hcs.2⟩

theorem precedes_total (s t : List Char) : precedes s t = true ∨ precedes t s = true := by
  induction s generalizing t with
  | nil => exact .inl rfl
  | cons a s ih =>
    cases t with
    | nil => exact .inr rfl
    | cons b t =>
      rw [precedes_cons, precedes_cons]
      by_cases hab : a < b
      · exact .inl (.inl hab)
      · by_cases hba : b < a
        · exact .inr (.inl hba)
        · obtain rfl := Char.le_antisymm (Char.not_lt.1 hba) (Char.not_lt.1 hab)
          exact (ih t).imp (fun h => .inr ⟨rfl, h⟩) fun h => .inr ⟨rfl, h⟩

theorem precedes_antisymm {s t : List Char} (hst : precedes s t = true)
    (hts : precedes t s = true) : s = t := by
  induction s generalizing t with
  | nil =>
    cases t with
    | nil => rfl
    | cons b t => cases hts
  | cons a s ih =>
    cases t with
    | nil => cases hst
    | cons b t =>
      rw [precedes_cons] at hst hts
      rcases hst with hab | ⟨rfl, hst⟩
      · rcases hts with hba | ⟨rfl, -⟩
        · exact absurd hba (Char.lt_asymm hab)
        · exact absurd hab (Char.lt_irrefl b)
      · rcases hts with haa | ⟨-, hts⟩
        · exact absurd haa (Char.lt_irrefl a)
        · rw [ih hst hts]

theorem pairwise_mergeSort (names : List (List Char)) :
    (names.mergeSort precedes).Pairwise fun s t => precedes s t = true := by
  have htotal : ∀ s t, (precedes s t || precedes t s) = true := by
    intro s t
    rw [Bool.or_eq_true]
    exact precedes_total s t
  have htrans : ∀ r s t, precedes r s = true → precedes s t = true → precedes r t = true :=
    fun r s t => precedes_trans
  exact List.pairwise_mergeSort htrans htotal names

/-- Some of the names are sorted where all of them are. -/
theorem filter_mergeSort (p : List Char → Bool) (names : List (List Char)) :
    (names.mergeSort precedes).filter p = (names.filter p).mergeSort precedes := by
  have hperm : ((names.mergeSort precedes).filter p).Perm ((names.filter p).mergeSort precedes) :=
    ((List.mergeSort_perm names precedes).filter p).trans (List.mergeSort_perm _ _).symm
  exact hperm.eq_of_pairwise (fun s t _ _ hst hts => precedes_antisymm hst hts)
    ((pairwise_mergeSort names).filter p) (pairwise_mergeSort _)

end Path

end CssTransform
