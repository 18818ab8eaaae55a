import CssTransform.Proofs.Stylesheet.Stop

/-!
# Lengths in front of a stop

The lengths that the scanners of tokens find. No number goes over a stop. A string, a comment or an
address may hold one, and its length *settles*: once it ends in front of something, it is the same
whatever follows.

## Which choice is load-bearing

To end within a text is not enough for a length where nothing follows: an open string ends with the
text that it is in, and would go on. Whether it is open is told by one more closing character, which
an open string takes and a closed one does not.

## Main definitions

* `Settles` — a length that is the same whatever follows, once it ends in front of something

## Main results

* `Token.settles_stringLength`, `Token.settles_commentLength`, `Token.settles_urlLength` — strings,
  comments and addresses
* `Settles.append` — exchanging what follows such a length
* `Token.numberLength_append` — numbers
-/

namespace CssTransform

namespace Stylesheet

open Text (takeWhile_append_of_head dropWhile_append_of_head length_takeWhile_le)

variable {r z z' : List Char}

/-! ### Lengths that settle -/

/-- A length that is the same whatever follows, once it ends in front of something. -/
def Settles (length : List Char → Nat) : Prop :=
  ∀ ⦃z z'⦄, Bounded z → Bounded z' → ∀ r, length (r ++ z) ≤ r.length →
    length (r ++ z) < r.length + z.length → length (r ++ z') = length (r ++ z)

/-- If nothing follows, a length may also end in front of something that would close it. -/
theorem Settles.append {length : List Char → Nat} (hlength : Settles length) {e : Char}
    (he : IsBound e) (hz : Bounded z) (hz' : Bounded z') (h : length (r ++ z) ≤ r.length)
    (hnil : z = [] → length r < r.length ∨ length (r ++ [e]) ≤ r.length) :
    length (r ++ z') = length (r ++ z) := by
  by_cases hempty : z = []
  · subst hempty
    rcases hnil rfl with hlt | hclosed
    · exact hlength hz hz' r h (by simpa using hlt)
    · have hlt : length (r ++ [e]) < r.length + [e].length := Nat.lt_succ_of_le hclosed
      have hfollow := hlength (bounded_cons.2 he) hz r hclosed hlt
      rw [hlength (bounded_cons.2 he) hz' r hclosed hlt, hfollow]
  · have hpos := List.length_pos_iff.2 hempty
    exact hlength hz hz' r h (by omega)

namespace Token

/-! ### Comments -/

theorem commentLength_cons_cons (c d : Char) (rest : List Char) :
    commentLength (c :: d :: rest) =
      if c = '*' ∧ d = '/' then 2 else commentLength (d :: rest) + 1 := by
  by_cases h : c = '*' ∧ d = '/'
  · rw [if_pos h, h.1, h.2]
    rfl
  · rw [if_neg h, commentLength]
    rintro rest' rfl hd
    exact h ⟨rfl, (List.cons.inj hd).1⟩

/-- A comment goes on over any character that is not the slash of its end. -/
theorem commentLength_pos {y : List Char} (hy : y ≠ []) : 0 < commentLength y := by
  unfold commentLength
  split
  · exact absurd rfl hy
  · decide
  · exact Nat.succ_pos _

theorem commentLength_le (s : List Char) : commentLength s ≤ s.length := by
  fun_induction commentLength s with
  | case1 => exact Nat.le_refl _
  | case2 => simp
  | case3 c s _ ih => exact Nat.succ_le_succ ih

/-- A comment that ends in front of something is closed, and nothing behind it matters. -/
theorem commentLength_append (h : commentLength (r ++ z) ≤ r.length)
    (hlt : commentLength (r ++ z) < r.length + z.length) (z' : List Char) :
    commentLength (r ++ z') = commentLength (r ++ z) := by
  induction r with
  | nil =>
    have hne : z ≠ [] := by
      rintro rfl
      cases hlt
    exact absurd h (Nat.not_le_of_gt (commentLength_pos hne))
  | cons c r ih =>
    cases r with
    | nil =>
      cases z with
      | nil => simp [commentLength] at hlt
      | cons d y =>
        have hpos := commentLength_pos (List.cons_ne_nil d y)
        rw [List.singleton_append, commentLength_cons_cons, List.length_singleton] at h
        split at h <;> omega
    | cons d r =>
      simp only [List.cons_append, commentLength_cons_cons, List.length_cons] at h hlt ih ⊢
      split
      · rfl
      · next hend =>
        rw [if_neg hend] at h hlt
        rw [ih (by omega) (by omega)]

theorem settles_commentLength : Settles commentLength :=
  fun _ z' _ _ _ h hlt => commentLength_append h hlt z'

/-! ### Strings -/

theorem lineEndLength_cons_cons (c d : Char) (rest : List Char) :
    lineEndLength (c :: d :: rest) =
      if c = '\r' ∧ d = '\n' then 2 else if isLineEnd c then 1 else 0 := by
  by_cases h : c = '\r' ∧ d = '\n'
  · rw [if_pos h, h.1, h.2]
    rfl
  · rw [if_neg h, lineEndLength]
    rintro rest' rfl hd
    exact h ⟨rfl, (List.cons.inj hd).1⟩

theorem lineEndLength_append (hz : Bounded z) (r : List Char) :
    lineEndLength (r ++ z) = lineEndLength r := by
  cases z with
  | nil => rw [List.append_nil]
  | cons e y =>
    have he := bounded_cons.1 hz
    obtain ⟨hreturn, hnewline⟩ := he.ne_lineEnd
    match r with
    | [] => simp [hreturn, he.isLineEnd, lineEndLength]
    | [c] => simp [hnewline, lineEndLength]
    | c :: d :: r => simp only [List.cons_append, lineEndLength_cons_cons]

theorem stringLength_le (quote : Char) (skipped : Nat) (s : List Char) :
    stringLength quote skipped s ≤ s.length := by
  induction s generalizing skipped with
  | nil => simp [stringLength]
  | cons c s ih =>
    cases skipped with
    | succ skipped => exact Nat.succ_le_succ (ih skipped)
    | zero =>
      have hnext := fun n => Nat.succ_le_succ (ih n)
      simp only [stringLength, List.length_cons]
      split
      · exact Nat.succ_pos _
      · split
        · exact Nat.zero_le _
        · split <;> exact hnext _

/-- A string takes a bound. -/
theorem stringLength_pos {e : Char} (he : IsBound e) (quote : Char) (skipped : Nat)
    (y : List Char) : 0 < stringLength quote skipped (e :: y) := by
  cases skipped with
  | succ skipped => exact Nat.succ_pos _
  | zero =>
    simp only [stringLength, he.isLineEnd]
    split
    · exact Nat.succ_pos _
    · simp [he.ne_backslash]

theorem settles_stringLength (quote : Char) (skipped : Nat) :
    Settles (stringLength quote skipped) := by
  intro z z' hz hz' r h hlt
  have hpos : z ≠ [] → ∀ skipped, 0 < stringLength quote skipped z := by
    intro hne skipped
    obtain ⟨e, y, rfl⟩ := List.exists_cons_of_ne_nil hne
    exact stringLength_pos (bounded_cons.1 hz) quote skipped y
  induction r generalizing skipped with
  | nil =>
    have hne : z ≠ [] := by
      rintro rfl
      simp at hlt
    exact absurd h (Nat.not_le_of_gt (hpos hne skipped))
  | cons c r ih =>
    cases skipped with
    | succ skipped =>
      simp only [List.cons_append, stringLength, List.length_cons] at h hlt ⊢
      rw [ih skipped (by omega) (by omega)]
    | zero =>
      simp only [List.cons_append, stringLength, List.length_cons] at h hlt ⊢
      by_cases hend : c = quote
      · rw [if_pos hend, if_pos hend]
      by_cases hline : isLineEnd c = true
      · rw [if_neg hend, if_pos hline, if_neg hend, if_pos hline]
      simp only [if_neg hend, if_neg hline] at h hlt ⊢
      by_cases hescape : c = '\\'
      · simp only [if_pos hescape] at h hlt ⊢
        have hr : r ≠ [] := by
          rintro rfl
          simp only [List.nil_append, List.length_nil] at h hlt
          have hne : z ≠ [] := by
            rintro rfl
            simp [stringLength] at hlt
          have := hpos hne (if startsLineEnd z then lineEndLength z else escapeLength z)
          omega
        simp only [startsLineEnd_append hz, startsLineEnd_append hz', lineEndLength_append hz,
          lineEndLength_append hz', escapeLength_append hz hr, escapeLength_append hz' hr]
          at h hlt ⊢
        rw [ih _ (by omega) (by omega)]
      · simp only [if_neg hescape] at h hlt ⊢
        rw [ih 0 (by omega) (by omega)]

/-! ### Addresses -/

theorem badUrlLength_cons_cons (c d : Char) (rest : List Char) :
    badUrlLength (c :: d :: rest) =
      if c = ')' then 1
      else if c = '\\' ∧ (d = ')' ∨ d = '\\') then badUrlLength rest + 2
      else badUrlLength (d :: rest) + 1 := by
  by_cases hclose : c = ')'
  · subst hclose
    rfl
  · rw [if_neg hclose]
    by_cases hescape : c = '\\' ∧ (d = ')' ∨ d = '\\')
    · rw [if_pos hescape]
      obtain ⟨rfl, rfl | rfl⟩ := hescape <;> rfl
    · rw [if_neg hescape, badUrlLength]
      · exact hclose
      · rintro rest' rfl hd
        exact hescape ⟨rfl, .inl (List.cons.inj hd).1⟩
      · rintro rest' rfl hd
        exact hescape ⟨rfl, .inr (List.cons.inj hd).1⟩

theorem badUrlLength_pos {y : List Char} (hy : y ≠ []) : 0 < badUrlLength y := by
  unfold badUrlLength
  split
  · exact absurd rfl hy
  all_goals exact Nat.succ_pos _

theorem badUrlLength_le (s : List Char) : badUrlLength s ≤ s.length := by
  fun_induction badUrlLength s with
  | case1 => exact Nat.le_refl _
  | case2 => simp
  | case3 rest ih => exact Nat.add_le_add_right ih 2
  | case4 rest ih => exact Nat.add_le_add_right ih 2
  | case5 c rest _ _ _ ih => exact Nat.succ_le_succ ih

theorem badUrlLength_append (h : badUrlLength (r ++ z) ≤ r.length)
    (hlt : badUrlLength (r ++ z) < r.length + z.length) (z' : List Char) :
    badUrlLength (r ++ z') = badUrlLength (r ++ z) := by
  induction hn : r.length using Nat.strongRecOn generalizing r with
  | ind n ih =>
    subst hn
    match r with
    | [] =>
      have hne : z ≠ [] := by
        rintro rfl
        cases hlt
      exact absurd h (Nat.not_le_of_gt (badUrlLength_pos hne))
    | [c] =>
      by_cases hclose : c = ')'
      · subst hclose
        rfl
      cases z with
      | nil =>
        have hpos := badUrlLength_pos (List.cons_ne_nil c [])
        rw [List.append_nil, List.length_singleton, List.length_nil] at hlt
        omega
      | cons d y =>
        have hpos := badUrlLength_pos (List.cons_ne_nil d y)
        rw [List.singleton_append, badUrlLength_cons_cons, if_neg hclose,
          List.length_singleton] at h
        split at h <;> omega
    | c :: d :: r =>
      simp only [List.cons_append, badUrlLength_cons_cons, List.length_cons] at h hlt ih ⊢
      by_cases hclose : c = ')'
      · rw [if_pos hclose, if_pos hclose]
      simp only [if_neg hclose] at h hlt ⊢
      split
      · next hescape =>
        rw [if_pos hescape] at h hlt
        rw [ih r.length (by omega) (by omega) (by omega) rfl]
      · next hescape =>
        rw [if_neg hescape] at h hlt
        have hrest := @ih (r.length + 1) (by omega) (d :: r)
        simp only [List.cons_append, List.length_cons] at hrest
        rw [hrest (by omega) (by omega) trivial]

theorem urlEndLength_cons (c : Char) (rest : List Char) :
    urlEndLength (c :: rest) =
      if c = ')' then 1
      else if isBlank c then urlEndLength rest + 1 else badUrlLength rest + 1 := by
  by_cases hclose : c = ')'
  · subst hclose
    rfl
  · rw [if_neg hclose, urlEndLength]
    exact hclose

theorem urlEndLength_pos {y : List Char} (hy : y ≠ []) : 0 < urlEndLength y := by
  obtain ⟨c, y, rfl⟩ := List.exists_cons_of_ne_nil hy
  rw [urlEndLength_cons]
  split
  · exact Nat.succ_pos _
  · split <;> exact Nat.succ_pos _

theorem urlEndLength_le (s : List Char) : urlEndLength s ≤ s.length := by
  fun_induction urlEndLength s with
  | case1 => exact Nat.le_refl _
  | case2 => simp
  | case3 c rest _ _ ih => exact Nat.succ_le_succ ih
  | case4 c rest _ _ => exact Nat.succ_le_succ (badUrlLength_le rest)

theorem urlEndLength_append (h : urlEndLength (r ++ z) ≤ r.length)
    (hlt : urlEndLength (r ++ z) < r.length + z.length) (z' : List Char) :
    urlEndLength (r ++ z') = urlEndLength (r ++ z) := by
  induction r with
  | nil =>
    have hne : z ≠ [] := by
      rintro rfl
      cases hlt
    exact absurd h (Nat.not_le_of_gt (urlEndLength_pos hne))
  | cons c r ih =>
    simp only [List.cons_append, urlEndLength_cons, List.length_cons] at h hlt ⊢
    by_cases hclose : c = ')'
    · rw [if_pos hclose, if_pos hclose]
    simp only [if_neg hclose] at h hlt ⊢
    by_cases hblank : isBlank c = true
    · simp only [if_pos hblank] at h hlt ⊢
      rw [ih (by omega) (by omega)]
    · simp only [if_neg hblank] at h hlt ⊢
      rw [badUrlLength_append (r := r) (z := z) (by omega) (by omega) z']

theorem urlLengthAfter_le (skipped : Nat) (s : List Char) :
    urlLengthAfter skipped s ≤ s.length := by
  induction s generalizing skipped with
  | nil => simp [urlLengthAfter]
  | cons c s ih =>
    cases skipped with
    | succ skipped => exact Nat.succ_le_succ (ih skipped)
    | zero =>
      have hnext := fun n => Nat.succ_le_succ (ih n)
      have hend := Nat.succ_le_succ (urlEndLength_le s)
      have hbad := Nat.succ_le_succ (badUrlLength_le s)
      simp only [urlLengthAfter, List.length_cons]
      split
      · exact Nat.succ_pos _
      · split
        · exact hend
        · split
          · exact hbad
          · split
            · split
              · exact hnext _
              · exact hbad
            · exact hnext _

theorem urlLengthAfter_pos (skipped : Nat) {y : List Char} (hy : y ≠ []) :
    0 < urlLengthAfter skipped y := by
  obtain ⟨c, y, rfl⟩ := List.exists_cons_of_ne_nil hy
  cases skipped with
  | succ skipped => exact Nat.succ_pos _
  | zero =>
    simp only [urlLengthAfter]
    repeat' split
    all_goals exact Nat.succ_pos _

theorem settles_urlLengthAfter (skipped : Nat) : Settles (urlLengthAfter skipped) := by
  intro z z' hz hz' r h hlt
  induction r generalizing skipped with
  | nil =>
    have hne : z ≠ [] := by
      rintro rfl
      simp at hlt
    exact absurd h (Nat.not_le_of_gt (urlLengthAfter_pos skipped hne))
  | cons c r ih =>
    cases skipped with
    | succ skipped =>
      simp only [List.cons_append, urlLengthAfter, List.length_cons] at h hlt ⊢
      rw [ih skipped (by omega) (by omega)]
    | zero =>
      simp only [List.cons_append, urlLengthAfter, List.length_cons, startsEscape_append hz,
        startsEscape_append hz'] at h hlt ⊢
      by_cases hclose : c = ')'
      · rw [if_pos hclose, if_pos hclose]
      simp only [if_neg hclose] at h hlt ⊢
      by_cases hblank : isBlank c = true
      · simp only [if_pos hblank] at h hlt ⊢
        rw [urlEndLength_append (r := r) (z := z) (by omega) (by omega) z']
      simp only [if_neg hblank] at h hlt ⊢
      by_cases hbarred : isBarredFromUrl c = true
      · simp only [if_pos hbarred] at h hlt ⊢
        rw [badUrlLength_append (r := r) (z := z) (by omega) (by omega) z']
      simp only [if_neg hbarred] at h hlt ⊢
      by_cases hescape : c = '\\'
      · simp only [if_pos hescape] at h hlt ⊢
        by_cases hstarts : startsEscape r = true
        · simp only [if_pos hstarts] at h hlt ⊢
          have hr : r ≠ [] := by
            rintro rfl
            simp only [List.nil_append, List.length_nil] at h hlt
            have hne : z ≠ [] := by
              rintro rfl
              simp [urlLengthAfter] at hlt
            have := urlLengthAfter_pos (escapeLength z) hne
            omega
          rw [escapeLength_append hz hr] at h hlt ⊢
          rw [escapeLength_append hz' hr, ih _ (by omega) (by omega)]
        · simp only [if_neg hstarts] at h hlt ⊢
          rw [badUrlLength_append (r := r) (z := z) (by omega) (by omega) z']
      · simp only [if_neg hescape] at h hlt ⊢
        rw [ih 0 (by omega) (by omega)]

theorem urlLength_le (s : List Char) : urlLength s ≤ s.length := by
  have hblanks := length_takeWhile_le isBlank s
  have hafter := urlLengthAfter_le 0 (s.drop (s.takeWhile isBlank).length)
  rw [List.length_drop] at hafter
  simp only [urlLength]
  omega

theorem settles_urlLength : Settles urlLength := by
  intro z z' hz hz' r h hlt
  have hle := length_takeWhile_le isBlank r
  have hlength := List.length_drop (i := (r.takeWhile isBlank).length) (l := r)
  simp only [urlLength, takeWhile_append_of_head hz.isBlank, takeWhile_append_of_head hz'.isBlank,
    List.drop_append_of_le_length hle] at h hlt ⊢
  rw [settles_urlLengthAfter 0 hz hz' _ (by omega) (by omega)]

theorem startsQuoted_append
    (hz : ∀ e ∈ z.head?, isBlank e = false ∧ (e == '"' || e == '\'') = false) (r : List Char) :
    startsQuoted (r ++ z) = startsQuoted r := by
  simp only [startsQuoted]
  rw [dropWhile_append_of_head fun e he => (hz e he).1]
  cases r.dropWhile isBlank with
  | cons c r => rfl
  | nil =>
    cases z with
    | nil => rfl
    | cons e y => exact (hz e rfl).2

/-! ### Numbers -/

theorem startsDigit_append (hz : Stopped z) (r : List Char) :
    startsDigit (r ++ z) = startsDigit r := by
  cases r with
  | cons c r => rfl
  | nil =>
    cases z with
    | nil => rfl
    | cons d y => exact (stopped_cons.1 hz).isDigit

theorem startsFraction_cons (c : Char) (rest : List Char) :
    startsFraction (c :: rest) = if c = '.' then startsDigit rest else false := by
  by_cases h : c = '.'
  · subst h
    rfl
  · rw [if_neg h]
    simp only [startsFraction]
    split
    · next heq => exact absurd (List.cons.inj heq).1 h
    · rfl

theorem startsFraction_append (hz : Stopped z) (r : List Char) :
    startsFraction (r ++ z) = startsFraction r := by
  cases r with
  | cons c r => simp only [List.cons_append, startsFraction_cons, startsDigit_append hz]
  | nil =>
    cases z with
    | nil => rfl
    | cons d y => rcases stopped_cons.1 hz with rfl | rfl | rfl | rfl <;> rfl

theorem startsNumber_append (hz : Stopped z) (r : List Char) :
    startsNumber (r ++ z) = startsNumber r := by
  cases r with
  | cons c r =>
    have hdigit := startsDigit_append hz (c :: r)
    have hfraction := startsFraction_append hz (c :: r)
    simp only [List.cons_append] at hdigit hfraction
    simp only [List.cons_append, startsNumber, startsDigit_append hz, startsFraction_append hz,
      hdigit, hfraction]
  | nil =>
    cases z with
    | nil => rfl
    | cons d y => rcases stopped_cons.1 hz with rfl | rfl | rfl | rfl <;> rfl

theorem digitsLength_append (hz : Stopped z) (r : List Char) :
    digitsLength (r ++ z) = digitsLength r :=
  congrArg List.length (takeWhile_append_of_head (fun d hd => (hz d hd).isDigit) r)

theorem digitsLength_le (r : List Char) : digitsLength r ≤ r.length := length_takeWhile_le _ r

theorem signLength_append (hz : Stopped z) (r : List Char) :
    signLength (r ++ z) = signLength r := by
  cases r with
  | cons c r => rfl
  | nil =>
    cases z with
    | nil => rfl
    | cons d y => rcases stopped_cons.1 hz with rfl | rfl | rfl | rfl <;> rfl

theorem signLength_le (r : List Char) : signLength r ≤ r.length := by
  cases r with
  | nil => exact Nat.le_refl _
  | cons c r =>
    rw [signLength, List.length_cons]
    split <;> omega

theorem fractionLength_append (hz : Stopped z) (r : List Char) :
    fractionLength (r ++ z) = fractionLength r := by
  rw [fractionLength, startsFraction_append hz]
  cases r with
  | nil => rfl
  | cons c r =>
    rw [List.cons_append, List.drop_one, List.tail_cons, digitsLength_append hz]
    rfl

theorem fractionLength_le (r : List Char) : fractionLength r ≤ r.length := by
  rw [fractionLength]
  split
  · next hstarts =>
    cases r with
    | nil => cases hstarts
    | cons c r =>
      have hle := digitsLength_le r
      rw [List.drop_one, List.tail_cons, List.length_cons]
      omega
  · exact Nat.zero_le _

theorem exponentLength_append (hz : Stopped z) (r : List Char) :
    exponentLength (r ++ z) = exponentLength r := by
  cases r with
  | cons c r =>
    have hle := signLength_le r
    simp only [List.cons_append, exponentLength, signLength_append hz,
      List.drop_append_of_le_length hle, digitsLength_append hz]
  | nil =>
    cases z with
    | nil => rfl
    | cons d y => rcases stopped_cons.1 hz with rfl | rfl | rfl | rfl <;> simp [exponentLength]

theorem exponentLength_le (r : List Char) : exponentLength r ≤ r.length := by
  cases r with
  | nil => exact Nat.le_refl _
  | cons c r =>
    have hsign := signLength_le r
    have hdigits := digitsLength_le (r.drop (signLength r))
    rw [List.length_drop] at hdigits
    simp only [exponentLength, List.length_cons]
    split <;> omega

theorem unitLength_cons (c : Char) (rest : List Char) :
    unitLength (c :: rest) =
      if c = '%' then 1 else if startsName (c :: rest) then nameLength (c :: rest) else 0 := by
  by_cases h : c = '%'
  · subst h
    rfl
  · rw [if_neg h]
    simp only [unitLength]
    split
    · next heq => exact absurd (List.cons.inj heq).1 h
    · rfl

theorem unitLength_le (s : List Char) : unitLength s ≤ s.length := by
  cases s with
  | nil => exact Nat.le_refl _
  | cons c s =>
    rw [unitLength_cons]
    split
    · simp
    · split
      · exact nameLength_le _
      · exact Nat.zero_le _

theorem unitLength_eq_zero (hz : Stopped z) : unitLength z = 0 := by
  cases z with
  | nil => rfl
  | cons d y => rcases stopped_cons.1 hz with rfl | rfl | rfl | rfl <;> rfl

theorem unitLength_append (hz : Stopped z) (hz' : Stopped z') (h : unitLength (r ++ z) ≤ r.length)
    (hlast : z = [] → r.getLast? ≠ some '\\') : unitLength (r ++ z') = unitLength (r ++ z) := by
  cases r with
  | nil => exact (unitLength_eq_zero hz').trans (unitLength_eq_zero hz).symm
  | cons c r =>
    have hname := nameLength_append (r := c :: r) hz.bounded hz'.bounded
    have hstarts := fun w hw => startsName_append (z := w) hw (c :: r)
    simp only [List.cons_append] at hname hstarts
    simp only [List.cons_append, unitLength_cons, hstarts z hz.bounded, hstarts z' hz'.bounded]
      at h ⊢
    refine ite_eq_ite_of_le id h (fun _ _ => rfl) fun _ h => ?_
    exact ite_eq_ite_of_le id h (fun _ h => hname h hlast) fun _ _ => rfl

/-- The length of the number in front of its unit. -/
def scaledLength (text : List Char) : Nat :=
  let whole := signLength text + digitsLength (text.drop (signLength text))
  let decimal := whole + fractionLength (text.drop whole)
  decimal + exponentLength (text.drop decimal)

theorem numberLength_eq (text : List Char) :
    numberLength text = scaledLength text + unitLength (text.drop (scaledLength text)) := rfl

theorem scaledLength_append (hz : Stopped z) (r : List Char) :
    scaledLength (r ++ z) = scaledLength r ∧ scaledLength r ≤ r.length := by
  have hsign := signLength_le r
  have hdigits := digitsLength_le (r.drop (signLength r))
  rw [List.length_drop] at hdigits
  simp only [scaledLength]
  simp only [signLength_append hz, List.drop_append_of_le_length hsign, digitsLength_append hz]
  generalize hwhole : signLength r + digitsLength (r.drop (signLength r)) = whole
  have hle : whole ≤ r.length := by omega
  have hfraction := fractionLength_le (r.drop whole)
  rw [List.length_drop] at hfraction
  simp only [List.drop_append_of_le_length hle, fractionLength_append hz]
  generalize hdecimal : whole + fractionLength (r.drop whole) = decimal
  have hle' : decimal ≤ r.length := by omega
  have hexponent := exponentLength_le (r.drop decimal)
  rw [List.length_drop] at hexponent
  simp only [List.drop_append_of_le_length hle', exponentLength_append hz]
  exact ⟨trivial, by omega⟩

theorem scaledLength_le (s : List Char) : scaledLength s ≤ s.length :=
  (scaledLength_append stopped_nil s).2

theorem numberLength_le (s : List Char) : numberLength s ≤ s.length := by
  have hscaled := scaledLength_le s
  have hunit := unitLength_le (s.drop (scaledLength s))
  rw [List.length_drop] at hunit
  rw [numberLength_eq]
  omega

theorem numberLength_append (hz : Stopped z) (hz' : Stopped z')
    (h : numberLength (r ++ z) ≤ r.length) (hlast : z = [] → r.getLast? ≠ some '\\') :
    numberLength (r ++ z') = numberLength (r ++ z) := by
  have hle := scaledLength_le r
  have hunit := unitLength_append (r := r.drop (scaledLength r)) hz hz'
  have hlength := List.length_drop (i := scaledLength r) (l := r)
  simp only [numberLength_eq, (scaledLength_append hz r).1, (scaledLength_append hz' r).1,
    List.drop_append_of_le_length hle] at h ⊢
  rw [hunit (by omega) fun hnil => getLast?_drop_ne _ (hlast hnil)]

end Token

end Stylesheet

end CssTransform
