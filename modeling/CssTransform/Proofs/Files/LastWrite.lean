import CssTransform.Proofs.Files.History

/-!
# What is found at a target after a run

Different files of a run can have the same target: files of the same name under two roots, where
there is an output directory, or one file that is gone through twice, by one path or by two. Nothing
keeps a later one from writing over an earlier one. So what a target holds after the run is the text
of the last file that was written there, and that text is exactly the compiled one.

## Which choice is load-bearing

A file is read when its step comes, and may by then have been written by an earlier step. The
compiled text is that of the text that was read, not of the one at the beginning.

## Main results

* `Job.Makes.find?_file` — a file stays through a step with another target
* `Job.run_lastWrite` — what a target holds after a run
* `Job.run_overwrites` — a run that loses a compiled text
-/

namespace CssTransform

namespace Files

namespace Job

variable {job : Job} {s : Step} {tree : Tree} {l : Location} {content : ByteArray}

/-- A file stays as it is through a step that does not write it. -/
theorem Makes.find?_file (h : job.Makes s) (hl : s.before.find? l = some (.file content))
    (hother : s.report.isChanged = true → s.target job ≠ l) :
    s.after.find? l = some (.file content) := by
  rcases h.find?_cases l with hsame | ⟨hnone, -⟩ | ⟨hchanged, htarget, -⟩
  · rwa [hsame]
  · rw [hl] at hnone
    cases hnone
  · exact absurd htarget (hother hchanged)

/-- **The last write stays.** After a run that does more than to report, take any of its steps that
changed a file, and that no later one with the same target follows. The file was read from the tree
that the earlier steps had left, and after the run the target holds exactly the compiled text of
what was read. -/
theorem run_lastWrite (job : Job) (hdry : job.dryRun = false) (roots : List Path)
    (hproper : tree.IsProper) :
    (job.run roots tree).2 = (job.history roots tree).map Step.report ∧
      ∀ earlier s later, job.history roots tree = earlier ++ s :: later →
        s.report.isChanged = true →
        (∀ t ∈ later, t.report.isChanged = true → t.target job ≠ s.target job) →
        ∃ css, s.before = treeAfter tree earlier ∧ s.before.read s.location = .ok css ∧
          (job.run roots tree).1.find? (s.target job) =
            some (.file (Tree.bytesOf (Stylesheet.compile job.settings css).css)) := by
  rw [run_eq_history]
  refine ⟨rfl, fun earlier s later hhistory hchanged hlast => ?_⟩
  have hruns := runs_history job roots hproper
  rw [hhistory] at hruns
  obtain ⟨hbefore, hmakes, hlater⟩ := hruns.of_append_cons
  obtain ⟨css, hread, hwritten⟩ := hmakes.of_isChanged hdry hchanged
  refine ⟨css, hbefore, hread, ?_⟩
  rw [hhistory, treeAfter_append, treeAfter_cons]
  exact hlater.invariant
    (P := fun tree => tree.find? (s.target job) = some (.file (Tree.bytesOf _)))
    (fun t ht hmakes htree => hmakes.find?_file htree (hlast t ht)) hwritten

section TwoSheets

/-- Two files of the same name under two roots. -/
def twoSheets : Tree where
  entries := [
    (["a".toList], .directory),
    (["a".toList, "x.css".toList], .file (Tree.bytesOf "p{transform:scale(2)}".toList)),
    (["b".toList], .directory),
    (["b".toList, "x.css".toList], .file (Tree.bytesOf "p{transform:scale(3)}".toList))]

/-- Both roots are compiled into one directory. -/
def collecting : Job where
  settings := default
  filter := .sequence [.literal ".css".toList, .condition .textEnd]
  outDir := some "out".toList
  dryRun := false

/-- The two steps have the same target. -/
theorem history_twoSheets :
    ∃ s t, collecting.history ["a".toList, "b".toList] twoSheets = [s, t] ∧
      (s.report.isChanged = true ∧ s.target collecting = ["out".toList, "x.css".toList] ∧
        s.before.read s.location = .ok "p{transform:scale(2)}".toList) ∧
      t.report.isChanged = true ∧ t.target collecting = ["out".toList, "x.css".toList] ∧
        t.before.read t.location = .ok "p{transform:scale(3)}".toList := by
  have hsteps : (collecting.history ["a".toList, "b".toList] twoSheets).map (fun s =>
      (s.report.isChanged, s.target collecting, s.before.read s.location)) =
      [(true, ["out".toList, "x.css".toList], .ok "p{transform:scale(2)}".toList),
        (true, ["out".toList, "x.css".toList], .ok "p{transform:scale(3)}".toList)] := by
    decide +kernel
  obtain ⟨s, rest, hhistory, hs, hrest⟩ := List.map_eq_cons_iff.1 hsteps
  obtain ⟨t, rest', rfl, ht, hnil⟩ := List.map_eq_cons_iff.1 hrest
  obtain rfl := List.map_eq_nil_iff.1 hnil
  simp only [Prod.mk.injEq] at hs ht
  exact ⟨s, t, hhistory, hs, ht⟩

/-- The second of two files with one target is what the target holds. -/
theorem run_lastWrite_twoSheets :
    collecting.dryRun = false ∧ twoSheets.IsProper ∧
      (collecting.run ["a".toList, "b".toList] twoSheets).1.find? ["out".toList, "x.css".toList] =
        some (.file (Tree.bytesOf
          (Stylesheet.compile default "p{transform:scale(3)}".toList).css)) := by
  have hproper : twoSheets.IsProper := by decide
  obtain ⟨s, t, hhistory, -, hchanged, htarget, hread⟩ := history_twoSheets
  obtain ⟨-, hall⟩ := run_lastWrite collecting rfl ["a".toList, "b".toList] hproper
  obtain ⟨css, -, hread', hfind⟩ := hall [s] t [] hhistory hchanged
    fun _ hu => absurd hu List.not_mem_nil
  obtain rfl := Except.ok.inj (hread.symm.trans hread')
  rw [htarget] at hfind
  exact ⟨rfl, hproper, hfind⟩

/-- The compiled text of the first of them is lost. -/
theorem run_overwrites :
    ¬∀ s ∈ collecting.history ["a".toList, "b".toList] twoSheets, s.report.isChanged = true →
      ∃ css, s.before.read s.location = .ok css ∧
        (collecting.run ["a".toList, "b".toList] twoSheets).1.find? (s.target collecting) =
          some (.file (Tree.bytesOf (Stylesheet.compile collecting.settings css).css)) := by
  intro hall
  obtain ⟨s, t, hhistory, ⟨hchanged, htarget, hread⟩, -⟩ := history_twoSheets
  obtain ⟨css, hread', hfind⟩ := hall s (hhistory ▸ List.mem_cons_self) hchanged
  obtain rfl := Except.ok.inj (hread.symm.trans hread')
  have hcontent : (collecting.run ["a".toList, "b".toList] twoSheets).1.read
      (s.target collecting) =
        .ok (Stylesheet.compile collecting.settings "p{transform:scale(2)}".toList).css := by
    rw [Tree.read, hfind]
    exact Tree.textOf_bytesOf _
  rw [htarget] at hcontent
  exact absurd hcontent (by decide +kernel)

/-- One file that three paths lead to is the target of three steps. -/
example :
    (history { collecting with outDir := none }
        ["a/x.css".toList, "a/../b/../a/x.css".toList, "/a/x.css".toList] twoSheets).map
      (fun s => (s.report.isFailure, s.target { collecting with outDir := none })) =
        List.replicate 3 (false, ["a".toList, "x.css".toList]) := by
  decide +kernel

end TwoSheets

end Job

end Files

end CssTransform
