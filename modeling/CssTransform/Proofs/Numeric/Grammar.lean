import CssTransform.Numeric.Decimal.Numeral
import Mathlib.Data.List.Induction
import Mathlib.Data.List.Infix
import Mathlib.Data.List.TakeWhile
import Mathlib.Tactic.SplitIfs

/-!
# The grammar of numerals

A numeral is told here by the texts that spell it, with no word on how one is found: an optional
sign, digits with an optional point among them, and an optional exponent. `Numeral.leading?` cuts
the parts off from left to right and never gives one back, and still what it finds is the longest
beginning of a text that spells a numeral. `Numeral.ofText?` reads a text from end to end, and the
texts it accepts are these and no others.

## Which choice is load-bearing

A part that is cut off greedily could take what a longer numeral needs for its next part. What rules
this out is told by single characters: where the digits can be carried on, a digit or the point
follows them, and no exponent begins so. Hence the parts before an exponent end exactly where they
are cut off.

A numeral does not tell its text: `1` and `1.` spell the same one. So the longest beginning is not
recovered from the numeral that is found. It exists because a text has an end, and every numeral at
the front of a text is carried on to the one that is found.

## Main definitions

* `IsLongest` — the longest beginning of a text with a property
* `Numeral.Spells` — the texts of a numeral
* `Numeral.ofText?` — the numeral that a text is from end to end

## Main results

* `Numeral.leading?_append` — what is found carries every numeral at the front on
* `Numeral.leading?_eq_some_iff` — what is found is the longest
* `Numeral.ofText?_eq_some_iff` — the texts that are read from end to end
-/

namespace CssTransform

/-! ### The longest beginning -/

/-- The longest of the beginnings of a text that have a property. -/
structure IsLongest (p : List Char → Prop) (text word : List Char) : Prop where
  begins : text <+: word
  holds : p text
  longest {other : List Char} : other <+: word → p other → other.length ≤ text.length

instance {p : List Char → Prop} [DecidablePred p] (text word : List Char) :
    Decidable (IsLongest p text word) :=
  decidable_of_iff
    (text <+: word ∧ p text ∧ ∀ other ∈ word.inits, p other → other.length ≤ text.length)
    ⟨fun ⟨hbegins, hp, hall⟩ => ⟨hbegins, hp, fun h => hall _ ((List.mem_inits ..).2 h)⟩,
      fun h => ⟨h.begins, h.holds, fun _ hother => h.longest ((List.mem_inits ..).1 hother)⟩⟩

theorem exists_isLongest {p : List Char → Prop} {word : List Char}
    (h : ∃ text, text <+: word ∧ p text) : ∃ text, IsLongest p text word := by
  induction word using List.reverseRecOn with
  | nil =>
    obtain ⟨text, hbegins, hp⟩ := h
    exact ⟨text, hbegins, hp, fun hother _ => by simp [List.prefix_nil.1 hother]⟩
  | append_singleton word c ih =>
    by_cases hword : p (word ++ [c])
    · exact ⟨word ++ [c], List.prefix_rfl, hword, fun hother _ => hother.length_le⟩
    · have hshorter : ∀ text, text <+: word ++ [c] → p text → text <+: word := by
        intro text hbegins hp
        rcases List.prefix_concat_iff.1 hbegins with rfl | hbegins
        · exact absurd hp hword
        · exact hbegins
      obtain ⟨text, hbegins, hp⟩ := h
      obtain ⟨best, hbest⟩ := ih ⟨text, hshorter text hbegins hp, hp⟩
      exact ⟨best, hbest.begins.trans (List.prefix_append ..), hbest.holds,
        fun hother hp => hbest.longest (hshorter _ hother hp) hp⟩

namespace Numeral

/-! ### Digits -/

/-- Digits, and nothing else. -/
def IsDigits (text : List Char) : Prop := ∀ c ∈ text, c.isDigit = true

instance (text : List Char) : Decidable (IsDigits text) :=
  decidable_of_iff (text.all Char.isDigit = true) List.all_eq_true

theorem isDigits_nil : IsDigits [] := fun _ hc => nomatch hc

theorem IsDigits.append {s t : List Char} (hs : IsDigits s) (ht : IsDigits t) :
    IsDigits (s ++ t) := fun c hc => (List.mem_append.1 hc).elim (hs c) (ht c)

theorem isDigits_takeDigits (text : List Char) : IsDigits (takeDigits text).1 :=
  fun _ hc => isDigit_of_mem_takeDigits hc

/-- Digits are cut off together with those that follow them. -/
theorem takeDigits_append_left {digits : List Char} (h : IsDigits digits) (rest : List Char) :
    takeDigits (digits ++ rest) = (digits ++ (takeDigits rest).1, (takeDigits rest).2) := by
  rw [takeDigits, List.takeWhile_append_of_pos h, List.dropWhile_append_of_pos h, takeDigits]

theorem takeDigits_of_isDigits {digits : List Char} (h : IsDigits digits) :
    takeDigits digits = (digits, []) := by
  rw [takeDigits, List.takeWhile_eq_self_iff.2 h, List.dropWhile_eq_nil_iff.2 h]

theorem takeDigits_append_point {digits : List Char} (h : IsDigits digits) (rest : List Char) :
    takeDigits (digits ++ '.' :: rest) = (digits, '.' :: rest) := by
  rw [takeDigits_append_left h]
  simp [takeDigits]

/-! ### The texts of a numeral -/

/-- A text is a sign, `true` for minus, or nothing. -/
inductive SpellsSign : List Char → Bool → Prop
  | none : SpellsSign [] false
  | plus : SpellsSign ['+'] false
  | minus : SpellsSign ['-'] true

/-- A text is the digits before and after a point. The point needs a digit before or behind it, and
without digits behind it it may be missing. -/
inductive SpellsDecimals : List Char → List Char → List Char → Prop
  | whole {whole : List Char} (hw : IsDigits whole) (hne : whole ≠ []) :
      SpellsDecimals whole whole []
  | point {whole fraction : List Char} (hw : IsDigits whole) (hne : whole ≠ [])
      (hf : IsDigits fraction) : SpellsDecimals (whole ++ '.' :: fraction) whole fraction
  | fraction {fraction : List Char} (hf : IsDigits fraction) (hne : fraction ≠ []) :
      SpellsDecimals ('.' :: fraction) [] fraction

/-- A text is an exponent, or nothing. -/
inductive SpellsExponent : List Char → ℤ → Prop
  | none : SpellsExponent [] 0
  | mark {mark : Char} {sign size : List Char} {negative : Bool} (hm : mark = 'e' ∨ mark = 'E')
      (hs : SpellsSign sign negative) (hd : IsDigits size) (hne : size ≠ []) :
      SpellsExponent (mark :: (sign ++ size))
        (if negative then -(valueOfDigits size : ℤ) else valueOfDigits size)

/-- A text is a numeral: a sign, the digits and an exponent. -/
inductive Spells : List Char → Numeral → Prop
  | mk {sign decimals exponent : List Char} {n : Numeral} (hs : SpellsSign sign n.negative)
      (hd : SpellsDecimals decimals n.whole n.fraction) (he : SpellsExponent exponent n.exponent) :
      Spells (sign ++ (decimals ++ exponent)) n

/-- A text is some numeral. -/
def IsText (text : List Char) : Prop := ∃ n, Spells text n

/-! ### Signs -/

theorem takeSign_cons (c : Char) (rest : List Char) :
    takeSign (c :: rest) =
      if c = '-' then (true, rest) else if c = '+' then (false, rest) else (false, c :: rest) := by
  unfold takeSign
  split <;> simp_all

theorem exists_spellsSign (text : List Char) :
    ∃ sign, text = sign ++ (takeSign text).2 ∧ SpellsSign sign (takeSign text).1 := by
  cases text with
  | nil => exact ⟨[], rfl, .none⟩
  | cons c rest =>
    rw [takeSign_cons]
    split_ifs with hminus hplus
    · exact ⟨['-'], by rw [hminus]; rfl, .minus⟩
    · exact ⟨['+'], by rw [hplus]; rfl, .plus⟩
    · exact ⟨[], rfl, .none⟩

/-- A character that stands between the sign of a numeral and its exponent. -/
def isDecimalChar (c : Char) : Bool := c.isDigit || c == '.'

/-- A sign is cut off where digits or a point follow it. -/
theorem takeSign_append {sign rest : List Char} {negative : Bool} (h : SpellsSign sign negative)
    (hrest : ∃ c ∈ rest.head?, isDecimalChar c = true) :
    takeSign (sign ++ rest) = (negative, rest) := by
  cases h with
  | plus => rfl
  | minus => rfl
  | none =>
    obtain ⟨c, hc, hdecimal⟩ := hrest
    cases rest with
    | nil => cases hc
    | cons d rest =>
      obtain rfl : d = c := Option.some.inj hc
      have hminus : d ≠ '-' := by
        rintro rfl
        exact absurd hdecimal (by decide)
      have hplus : d ≠ '+' := by
        rintro rfl
        exact absurd hdecimal (by decide)
      rw [List.nil_append, takeSign_cons, if_neg hminus, if_neg hplus]

theorem IsDigits.head {text : List Char} (h : IsDigits text) (hne : text ≠ []) (rest : List Char) :
    ∃ c ∈ (text ++ rest).head?, isDecimalChar c = true := by
  cases text with
  | nil => exact absurd rfl hne
  | cons c text => exact ⟨c, rfl, by simp [isDecimalChar, h c (by simp)]⟩

/-! ### Digits and the point -/

/-- The digits behind a point at the front of a text, and what follows them. -/
def takeFraction : List Char → List Char × List Char
  | '.' :: rest => takeDigits rest
  | rest => ([], rest)

theorem takeFraction_cons (c : Char) (rest : List Char) :
    takeFraction (c :: rest) = if c = '.' then takeDigits rest else ([], c :: rest) := by
  unfold takeFraction
  split <;> simp_all

theorem takeFraction_cases (text : List Char) :
    takeFraction text = ([], text) ∨
      ∃ rest, text = '.' :: rest ∧ takeFraction text = takeDigits rest := by
  cases text with
  | nil => exact .inl rfl
  | cons c rest =>
    rw [takeFraction_cons]
    split_ifs with hpoint
    · exact .inr ⟨rest, by rw [hpoint], rfl⟩
    · exact .inl rfl

theorem takeFraction_suffix (text : List Char) : (takeFraction text).2 <:+ text := by
  obtain hnone | ⟨rest, rfl, htake⟩ := takeFraction_cases text
  · rw [hnone]
  · rw [htake]
    exact List.IsSuffix.trans ⟨_, takeDigits_append rest⟩ (List.suffix_cons '.' rest)

/-- The digits before and after the point are missing only together. -/
theorem takeDecimals_eq (text : List Char) :
    takeDecimals text =
      if (takeDigits text).1 = [] ∧ (takeFraction (takeDigits text).2).1 = [] then none
      else some (((takeDigits text).1, (takeFraction (takeDigits text).2).1),
        (takeFraction (takeDigits text).2).2) := by
  rw [takeDecimals]
  obtain ⟨whole, rest⟩ := takeDigits text
  cases rest with
  | nil => cases whole <;> simp [takeFraction]
  | cons c rest =>
    by_cases hc : c = '.'
    · subst hc
      cases whole with
      | nil =>
        cases htake : takeDigits rest with
        | mk fraction behind => cases fraction <;> simp [takeFraction, htake]
      | cons d whole => simp [takeFraction]
    · cases whole <;> simp [takeFraction_cons, hc]

theorem SpellsDecimals.head {decimals whole fraction : List Char}
    (h : SpellsDecimals decimals whole fraction) (rest : List Char) :
    ∃ c ∈ (decimals ++ rest).head?, isDecimalChar c = true := by
  cases h with
  | whole hw hne => exact hw.head hne rest
  | point hw hne hf =>
    rw [List.append_assoc]
    exact hw.head hne _
  | fraction hf hne => exact ⟨'.', rfl, by decide⟩

/-- The point with a digit before or behind it. -/
theorem SpellsDecimals.of_point {whole fraction : List Char} (hw : IsDigits whole)
    (hf : IsDigits fraction) (hne : ¬(whole = [] ∧ fraction = [])) :
    SpellsDecimals (whole ++ '.' :: fraction) whole fraction := by
  by_cases hnil : whole = []
  · subst hnil
    exact .fraction hf fun hfraction => hne ⟨rfl, hfraction⟩
  · exact .point hw hnil hf

theorem spellsDecimals_of_takeDecimals {text whole fraction rest : List Char}
    (h : takeDecimals text = some ((whole, fraction), rest)) :
    ∃ decimals, text = decimals ++ rest ∧ SpellsDecimals decimals whole fraction := by
  have htext := takeDigits_append text
  have hdigits := isDigits_takeDigits text
  rw [takeDecimals_eq] at h
  split_ifs at h with hne
  cases h
  obtain hnone | ⟨behind, hbehind, hpoint⟩ := takeFraction_cases (takeDigits text).2
  · rw [hnone] at hne ⊢
    exact ⟨_, htext.symm, .whole hdigits fun hnil => hne ⟨hnil, rfl⟩⟩
  · rw [hpoint] at hne ⊢
    refine ⟨(takeDigits text).1 ++ '.' :: (takeDigits behind).1, ?_,
      .of_point hdigits (isDigits_takeDigits behind) hne⟩
    rw [List.append_assoc, List.cons_append, takeDigits_append, ← hbehind, htext]

theorem SpellsDecimals.isDecimalChar {decimals whole fraction : List Char}
    (h : SpellsDecimals decimals whole fraction) : ∀ c ∈ decimals, isDecimalChar c = true := by
  have hdigits : ∀ {digits : List Char}, IsDigits digits → ∀ c ∈ digits,
      Numeral.isDecimalChar c = true := by
    intro digits hd c hc
    rw [Numeral.isDecimalChar, hd c hc, Bool.true_or]
  have hpoint : Numeral.isDecimalChar '.' = true := by decide
  cases h with
  | whole hw hne => exact hdigits hw
  | point hw hne hf =>
    exact List.forall_mem_append.2 ⟨hdigits hw, List.forall_mem_cons.2 ⟨hpoint, hdigits hf⟩⟩
  | fraction hf hne => exact List.forall_mem_cons.2 ⟨hpoint, hdigits hf⟩

theorem takeDecimals_point_append {whole fraction : List Char} (hw : IsDigits whole)
    (hf : IsDigits fraction) (hne : ¬(whole = [] ∧ fraction = [])) (rest : List Char) :
    takeDecimals (whole ++ '.' :: fraction ++ rest) =
      some ((whole, fraction ++ (takeDigits rest).1), (takeDigits rest).2) := by
  have hne' : ¬(whole = [] ∧ fraction ++ (takeDigits rest).1 = []) :=
    fun h => hne ⟨h.1, (List.append_eq_nil_iff.1 h.2).1⟩
  rw [List.append_assoc, List.cons_append, takeDecimals_eq, takeDigits_append_point hw,
    takeFraction_cons, if_pos rfl, takeDigits_append_left hf, if_neg hne']

/-- Decimals at the front of a text are cut off, and perhaps more is. -/
theorem takeDecimals_append {decimals whole fraction : List Char}
    (h : SpellsDecimals decimals whole fraction) (rest : List Char) :
    ∃ parts rest', takeDecimals (decimals ++ rest) = some (parts, rest') ∧ rest' <:+ rest := by
  have hsuffix : (takeDigits rest).2 <:+ rest := ⟨_, takeDigits_append rest⟩
  cases h with
  | whole hw hne =>
    rw [takeDecimals_eq, takeDigits_append_left hw]
    exact ⟨_, _, if_neg fun hnil => hne (List.append_eq_nil_iff.1 hnil.1).1,
      (takeFraction_suffix _).trans hsuffix⟩
  | point hw hne hf =>
    exact ⟨_, _, takeDecimals_point_append hw hf (fun hnil => hne hnil.1) rest, hsuffix⟩
  | fraction hf hne =>
    exact ⟨_, _, takeDecimals_point_append isDigits_nil hf (fun hnil => hne hnil.2) rest, hsuffix⟩

theorem takeDecimals_whole {whole : List Char} (h : IsDigits whole) (hne : whole ≠ []) :
    takeDecimals whole = some ((whole, []), []) := by
  rw [takeDecimals_eq, takeDigits_of_isDigits h]
  exact if_neg fun hnil => hne hnil.1

theorem takeDecimals_point {whole fraction : List Char} (hw : IsDigits whole)
    (hf : IsDigits fraction) (hne : ¬(whole = [] ∧ fraction = [])) :
    takeDecimals (whole ++ '.' :: fraction) = some ((whole, fraction), []) := by
  simpa [takeDigits] using takeDecimals_point_append hw hf hne []

theorem SpellsDecimals.takeDecimals_eq {decimals whole fraction : List Char}
    (h : SpellsDecimals decimals whole fraction) :
    takeDecimals decimals = some ((whole, fraction), []) := by
  cases h with
  | whole hw hne => exact takeDecimals_whole hw hne
  | point hw hne hf => exact takeDecimals_point hw hf fun hnil => hne hnil.1
  | fraction hf hne => exact takeDecimals_point isDigits_nil hf fun hnil => hne hnil.2

/-- Decimals at the front of a text, and what is cut off there. -/
theorem exists_spellsDecimals_append {decimals whole fraction : List Char}
    (h : SpellsDecimals decimals whole fraction) (rest : List Char) :
    ∃ more whole' fraction' rest', rest = more ++ rest' ∧
      takeDecimals (decimals ++ rest) = some ((whole', fraction'), rest') ∧
      SpellsDecimals (decimals ++ more) whole' fraction' := by
  obtain ⟨⟨whole', fraction'⟩, rest', htake, more, rfl⟩ := takeDecimals_append h rest
  obtain ⟨longer, htext, hlonger⟩ := spellsDecimals_of_takeDecimals htake
  rw [← List.append_assoc] at htext
  exact ⟨more, whole', fraction', rest', rfl, htake, List.append_cancel_right htext ▸ hlonger⟩

/-! ### Exponents -/

theorem leadingExponent_mark {mark : Char} (hm : mark = 'e' ∨ mark = 'E') {sign : List Char}
    {negative : Bool} (hs : SpellsSign sign negative) {size : List Char} (hd : IsDigits size)
    (hne : size ≠ []) (rest : List Char) :
    leadingExponent (mark :: (sign ++ size) ++ rest) =
      if negative then -(valueOfDigits (size ++ (takeDigits rest).1) : ℤ)
      else valueOfDigits (size ++ (takeDigits rest).1) := by
  rw [List.cons_append, leadingExponent, if_pos hm, List.append_assoc,
    takeSign_append hs (hd.head hne rest)]
  dsimp only
  rw [takeDigits_append_left hd]

theorem SpellsExponent.leadingExponent_eq {exponent : List Char} {k : ℤ}
    (h : SpellsExponent exponent k) : leadingExponent exponent = k := by
  cases h with
  | none => rfl
  | mark hm hs hd hne => simpa [takeDigits] using leadingExponent_mark hm hs hd hne []

/-- The exponent that is read stands at the front. -/
theorem exists_spellsExponent (text : List Char) :
    ∃ exponent rest, text = exponent ++ rest ∧ SpellsExponent exponent (leadingExponent text) := by
  cases text with
  | nil => exact ⟨[], [], rfl, .none⟩
  | cons mark rest =>
    by_cases hm : mark = 'e' ∨ mark = 'E'
    · obtain ⟨sign, hrest, hs⟩ := exists_spellsSign rest
      have hdigits := isDigits_takeDigits (takeSign rest).2
      have hsplit := takeDigits_append (takeSign rest).2
      have hread : leadingExponent (mark :: rest) =
          if (takeSign rest).1 then -(valueOfDigits (takeDigits (takeSign rest).2).1 : ℤ)
          else valueOfDigits (takeDigits (takeSign rest).2).1 := by
        rw [leadingExponent, if_pos hm]
      by_cases hne : (takeDigits (takeSign rest).2).1 = []
      · -- a mark without digits is no exponent, and it is read as zero
        have hzero : leadingExponent (mark :: rest) = 0 := by
          rw [hread, hne]
          split_ifs <;> rfl
        exact ⟨[], _, rfl, hzero ▸ .none⟩
      · rw [hread]
        refine ⟨_, (takeDigits (takeSign rest).2).2, ?_, .mark hm hs hdigits hne⟩
        rw [List.cons_append, List.append_assoc, hsplit, ← hrest]
    · have hzero : leadingExponent (mark :: rest) = 0 := by rw [leadingExponent, if_neg hm]
      exact ⟨[], _, rfl, hzero ▸ .none⟩

/-- What is read carries an exponent at the front on. -/
theorem exists_spellsExponent_append {exponent : List Char} {k : ℤ}
    (h : SpellsExponent exponent k) (rest : List Char) :
    ∃ more rest', rest = more ++ rest' ∧
      SpellsExponent (exponent ++ more) (leadingExponent (exponent ++ rest)) := by
  cases h with
  | none => exact exists_spellsExponent rest
  | mark hm hs hd hne =>
    refine ⟨(takeDigits rest).1, (takeDigits rest).2, (takeDigits_append rest).symm, ?_⟩
    rw [leadingExponent_mark hm hs hd hne, List.cons_append, List.append_assoc]
    exact .mark hm hs (hd.append (isDigits_takeDigits rest))
      fun hnil => hne (List.append_eq_nil_iff.1 hnil).1

/-! ### The numeral at the front -/

/-- The parts of the numeral that is found. -/
theorem leading?_eq (text : List Char) :
    leading? text = (takeDecimals (takeSign text).2).map fun parts =>
      ⟨(takeSign text).1, parts.1.1, parts.1.2, leadingExponent parts.2⟩ := rfl

/-- The numeral that is found stands at the front. -/
theorem exists_spells_of_leading? {word : List Char} {n : Numeral} (h : leading? word = some n) :
    ∃ text, text <+: word ∧ Spells text n := by
  rw [leading?_eq] at h
  obtain ⟨⟨⟨whole, fraction⟩, rest⟩, htake, rfl⟩ := Option.map_eq_some_iff.1 h
  obtain ⟨sign, hword, hs⟩ := exists_spellsSign word
  obtain ⟨decimals, hunsigned, hd⟩ := spellsDecimals_of_takeDecimals htake
  obtain ⟨exponent, behind, hrest, he⟩ := exists_spellsExponent rest
  refine ⟨sign ++ (decimals ++ exponent), ⟨behind, ?_⟩, .mk hs hd he⟩
  rw [List.append_assoc, List.append_assoc, ← hrest, ← hunsigned, ← hword]

/-- No exponent begins as the digits of a numeral may go on. -/
theorem SpellsExponent.eq_nil_or {exponent : List Char} {k : ℤ} (h : SpellsExponent exponent k)
    {rest more rest' : List Char} (hsplit : exponent ++ rest = more ++ rest')
    (hmore : ∀ c ∈ more, isDecimalChar c = true) : exponent = [] ∨ more = [] := by
  cases h with
  | none => exact .inl rfl
  | mark hm hs hd hne =>
    cases more with
    | nil => exact .inr rfl
    | cons c more =>
      obtain rfl := (List.cons.inj hsplit).1
      have hdecimal := hmore _ List.mem_cons_self
      rcases hm with rfl | rfl <;> exact absurd hdecimal (by decide)

theorem takeDecimals_append_exponent {decimals whole fraction : List Char}
    (hd : SpellsDecimals decimals whole fraction) {exponent : List Char} {k : ℤ}
    (he : SpellsExponent exponent k) :
    takeDecimals (decimals ++ exponent) = some ((whole, fraction), exponent) := by
  obtain ⟨more, whole', fraction', rest, hrest, htake, hd'⟩ :=
    exists_spellsDecimals_append hd exponent
  have hsplit : exponent ++ [] = more ++ rest := by rwa [List.append_nil]
  have hnil : more = [] := by
    rcases he.eq_nil_or hsplit (List.forall_mem_append.1 hd'.isDecimalChar).2 with hnil | hnil
    · exact (List.append_eq_nil_iff.1 (hrest.symm.trans hnil)).1
    · exact hnil
  subst hnil
  rw [List.append_nil] at hd'
  have hparts := Option.some.inj (hd'.takeDecimals_eq.symm.trans hd.takeDecimals_eq)
  rw [htake, hrest, (Prod.mk.inj hparts).1, List.nil_append]

/-- A text that spells a numeral is found to be it. -/
theorem Spells.leading?_eq {text : List Char} {n : Numeral} (h : Spells text n) :
    leading? text = some n := by
  obtain ⟨hs, hd, he⟩ := h
  rw [Numeral.leading?_eq, takeSign_append hs (hd.head _), takeDecimals_append_exponent hd he,
    Option.map_some, he.leadingExponent_eq]

/-- A text spells one numeral. -/
theorem Spells.unique {text : List Char} {m n : Numeral} (hm : Spells text m) (hn : Spells text n) :
    m = n :=
  Option.some.inj (hm.leading?_eq.symm.trans hn.leading?_eq)

/-- **What is found carries every numeral at the front on.** -/
theorem leading?_append {text : List Char} {n : Numeral} (h : Spells text n) (rest : List Char) :
    ∃ more rest' n', rest = more ++ rest' ∧ leading? (text ++ rest) = some n' ∧
      Spells (text ++ more) n' := by
  obtain @⟨sign, decimals, exponent, n, hs, hd, he⟩ := h
  obtain ⟨more, whole, fraction, behind, hrest, htake, hd'⟩ :=
    exists_spellsDecimals_append hd (exponent ++ rest)
  have hread : leading? (sign ++ (decimals ++ exponent) ++ rest) =
      some ⟨n.negative, whole, fraction, leadingExponent behind⟩ := by
    rw [leading?_eq, List.append_assoc, List.append_assoc,
      takeSign_append hs (hd.head (exponent ++ rest)), htake, Option.map_some]
  have hfound {decimals exponent : List Char} (hd : SpellsDecimals decimals whole fraction)
      (he : SpellsExponent exponent (leadingExponent behind)) :
      Spells (sign ++ (decimals ++ exponent))
        ⟨n.negative, whole, fraction, leadingExponent behind⟩ := .mk hs hd he
  have hmore := (List.forall_mem_append.1 hd'.isDecimalChar).2
  rcases he.eq_nil_or hrest hmore with hnil | hnil
  · -- the digits may go on, and then an exponent may follow them
    obtain ⟨exponent', rest', hbehind, he'⟩ := exists_spellsExponent behind
    refine ⟨more ++ exponent', rest', _, ?_, hread, ?_⟩
    · rw [List.append_assoc, ← hbehind, ← hrest, hnil, List.nil_append]
    · rw [hnil]
      simpa only [List.append_assoc, List.append_nil] using hfound hd' he'
  · -- the digits end where the exponent begins, and only its own may go on
    rw [hnil, List.nil_append] at hrest
    rw [hnil, List.append_nil] at hd'
    obtain ⟨more', rest', hrest', he'⟩ := exists_spellsExponent_append he rest
    rw [hrest] at he'
    refine ⟨more', rest', _, hrest', hread, ?_⟩
    simpa only [List.append_assoc] using hfound hd' he'

theorem leading?_of_isLongest {text word : List Char} {n : Numeral}
    (h : IsLongest IsText text word) (hn : Spells text n) : leading? word = some n := by
  obtain ⟨rest, rfl⟩ := h.begins
  obtain ⟨more, rest', n', rfl, hread, hn'⟩ := leading?_append hn rest
  have hle := h.longest ⟨rest', List.append_assoc ..⟩ ⟨n', hn'⟩
  have hnil : more = [] := by
    rw [List.length_append] at hle
    exact List.eq_nil_of_length_eq_zero (by omega)
  rw [hnil, List.append_nil] at hn'
  rw [hread, hn'.unique hn]

/-- **What is found is the longest numeral at the front.** -/
theorem leading?_eq_some_iff {word : List Char} {n : Numeral} :
    leading? word = some n ↔ ∃ text, IsLongest IsText text word ∧ Spells text n := by
  constructor
  · intro h
    obtain ⟨text, hbegins, hn⟩ := exists_spells_of_leading? h
    obtain ⟨longest, hlongest⟩ := exists_isLongest (p := IsText) ⟨text, hbegins, n, hn⟩
    obtain ⟨n', hn'⟩ := hlongest.holds
    have hread := leading?_of_isLongest hlongest hn'
    exact ⟨longest, hlongest, Option.some.inj (hread.symm.trans h) ▸ hn'⟩
  · rintro ⟨text, hlongest, hn⟩
    exact leading?_of_isLongest hlongest hn

theorem isSome_leading?_iff {word : List Char} :
    (leading? word).isSome = true ↔ ∃ text, text <+: word ∧ IsText text := by
  rw [Option.isSome_iff_exists]
  constructor
  · rintro ⟨n, hread⟩
    obtain ⟨text, hbegins, hn⟩ := exists_spells_of_leading? hread
    exact ⟨text, hbegins, n, hn⟩
  · rintro ⟨text, ⟨rest, rfl⟩, n, hn⟩
    obtain ⟨more, rest', n', hrest, hread, hn'⟩ := leading?_append hn rest
    exact ⟨n', hread⟩

/-! ### A text from end to end -/

/-- The exponent that a text is from end to end, zero for none. -/
def exponentOfText? : List Char → Option ℤ
  | [] => some 0
  | mark :: rest =>
    let (negative, size) := takeSign rest
    if (mark = 'e' ∨ mark = 'E') ∧ size ≠ [] ∧ IsDigits size then
      some (if negative then -(valueOfDigits size : ℤ) else valueOfDigits size)
    else none

/-- The numeral that a text is from end to end. -/
def ofText? (text : List Char) : Option Numeral :=
  let (negative, unsigned) := takeSign text
  let (whole, rest) := takeDigits unsigned
  let (fraction, rest) := takeFraction rest
  if whole = [] ∧ fraction = [] then none
  else (exponentOfText? rest).map fun exponent => { negative, whole, fraction, exponent }

theorem exponentOfText?_eq_some_iff {text : List Char} {k : ℤ} :
    exponentOfText? text = some k ↔ SpellsExponent text k := by
  constructor
  · intro h
    cases text with
    | nil =>
      cases h
      exact .none
    | cons mark rest =>
      obtain ⟨sign, hrest, hs⟩ := exists_spellsSign rest
      rw [exponentOfText?] at h
      dsimp only at h
      split at h
      · next hmark =>
        obtain ⟨hm, hne, hd⟩ := hmark
        have hspells := SpellsExponent.mark hm hs hd hne
        rw [← hrest] at hspells
        exact Option.some.inj h ▸ hspells
      · cases h
  · intro h
    cases h with
    | none => rfl
    | mark hm hs hd hne =>
      have hhead := hd.head hne []
      rw [List.append_nil] at hhead
      rw [exponentOfText?, takeSign_append hs hhead]
      exact if_pos ⟨hm, hne, hd⟩

theorem ofText?_eq (text : List Char) :
    ofText? text = (takeDecimals (takeSign text).2).bind fun parts =>
      (exponentOfText? parts.2).map fun exponent =>
        ⟨(takeSign text).1, parts.1.1, parts.1.2, exponent⟩ := by
  rw [ofText?, takeDecimals_eq]
  dsimp only
  split_ifs <;> rfl

/-- **The texts that are read from end to end** are those of the numerals. -/
theorem ofText?_eq_some_iff {text : List Char} {n : Numeral} :
    ofText? text = some n ↔ Spells text n := by
  constructor
  · intro h
    rw [ofText?_eq] at h
    obtain ⟨⟨⟨whole, fraction⟩, rest⟩, htake, h⟩ := Option.bind_eq_some_iff.1 h
    obtain ⟨exponent, hexponent, rfl⟩ := Option.map_eq_some_iff.1 h
    obtain ⟨sign, htext, hs⟩ := exists_spellsSign text
    obtain ⟨decimals, hunsigned, hd⟩ := spellsDecimals_of_takeDecimals htake
    have hspells := Spells.mk (n := ⟨(takeSign text).1, whole, fraction, exponent⟩) hs hd
      (exponentOfText?_eq_some_iff.1 hexponent)
    rwa [← hunsigned, ← htext] at hspells
  · intro h
    obtain ⟨hs, hd, he⟩ := h
    rw [ofText?_eq, takeSign_append hs (hd.head _), takeDecimals_append_exponent hd he,
      Option.bind_some, exponentOfText?_eq_some_iff.2 he, Option.map_some]

instance (text : List Char) : Decidable (IsText text) :=
  decidable_of_iff ((ofText? text).isSome = true) <| by
    rw [Option.isSome_iff_exists]
    exact exists_congr fun _ => ofText?_eq_some_iff

end Numeral

end CssTransform
