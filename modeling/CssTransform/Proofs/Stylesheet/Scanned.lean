import CssTransform.Proofs.Stylesheet.Block
import CssTransform.Proofs.Stylesheet.Scan

/-!
# Tokens in front of a text

The tokens of a text are found one after another, each from what the ones before it leave. So it can
be said of tokens alone that they are what a text begins with when another text follows, and such
tokens can be put together. What follows can be exchanged as long as no scanner sees it: behind a
stop, and behind a space or a closed comment. The end of a sheet can be exchanged for a stop if
nothing is open there: no string, no comment, no address, and no escape of which only the backslash
is there.

## Which choice is load-bearing

Only the last token can be open at the end. Every other token ends in front of something.

## Main definitions

* `Token.Begins` — a token that a text begins with, by what follows it
* `Token.IsClosed` — a string, comment or address that is closed, or another token
* `Scanned` — tokens that a text begins with, by what follows them
* `SameToStop` — texts that are the same, or the same up to some stop

## Main results

* `scanned_tokens`, `Scanned.tokens_textOf` — the tokens of a text
* `Scanned.of_sameToStop` — exchanging what follows behind a stop
* `Scanned.of_stopped` — exchanging the end for a stop
* `Scanned.of_trivia` — exchanging what follows behind space and comments
-/

namespace CssTransform

namespace Stylesheet

open Text (drop_length_takeWhile of_mem_takeWhile)

namespace Token

/-- A text that begins with a token and goes on with another text. -/
inductive Begins : Token → List Char → Prop
  | mk {kind : Kind} {c : Char} {r after : List Char}
      (hkind : (scan c (r ++ after)).1 = kind)
      (hdrop : (r ++ after).drop ((scan c (r ++ after)).2 - 1) = after) :
      Begins ⟨kind, c :: r⟩ after

/-- The length of a token is known. -/
theorem scan_length {c : Char} {r after : List Char}
    (h : (r ++ after).drop ((scan c (r ++ after)).2 - 1) = after) :
    (scan c (r ++ after)).2 - 1 = r.length := by
  have hle := scan_le c (r ++ after)
  have hlength := congrArg List.length h
  rw [List.length_drop] at hlength
  rw [List.length_append] at hle hlength
  omega

theorem take_of_drop {r after : List Char} {n : Nat} (h : (r ++ after).drop n = after) :
    (r ++ after).take n = r := by
  have hall := List.take_append_drop n (r ++ after)
  rw [h] at hall
  exact List.append_cancel_right hall

/-! ### Marks -/

variable {t : Token} {y y' : List Char}

theorem Begins.text_ne_nil (h : t.Begins y) : t.text ≠ [] := by
  cases h with
  | mk hkind hdrop => exact List.cons_ne_nil _ _

theorem begins_mark {kind : Kind} {d : Char} (h : kind.mark? = some d) (y : List Char) :
    Begins ⟨kind, [d]⟩ y := by
  constructor <;> rw [scan_of_mark h]
  rfl

theorem Begins.mark_text {d : Char} (h : t.Begins y) (ht : t.kind.mark? = some d) :
    t.text = [d] := by
  cases h with
  | @mk kind c r _ hkind hdrop =>
    rw [← hkind] at ht
    obtain rfl : c = d := (scan_kind c (r ++ y)).2.2 d ht
    rw [hkind] at ht
    rw [scan_of_mark ht] at hdrop
    have hnil : r = [] := List.append_cancel_right hdrop
    rw [hnil]

/-- A mark is the same whatever follows it. -/
theorem Begins.of_mark {d : Char} (h : t.Begins y) (ht : t.kind.mark? = some d)
    (y' : List Char) : t.Begins y' := by
  have hbegins := begins_mark ht y'
  rwa [← h.mark_text ht] at hbegins

/-- The token that a semicolon is. -/
def semicolon : Token := ⟨.semicolon, [';']⟩

theorem begins_semicolon (y : List Char) : semicolon.Begins y := begins_mark rfl y

/-! ### Space and comments -/

/-- A token that is no space begins with no blank. -/
theorem Begins.isBlank_head (h : t.Begins y) (ht : t.kind ≠ .space) (z : List Char) :
    ∀ d ∈ (t.text ++ z).head?, isBlank d = false := by
  cases h with
  | @mk kind c r _ hkind hdrop =>
    intro d hd
    obtain rfl : c = d := Option.some.inj hd
    cases hblank : isBlank c with
    | false => rfl
    | true =>
      rw [scan_blank hblank] at hkind
      exact absurd hkind.symm ht

/-- Space is made of blanks, and no blank follows it. -/
theorem Begins.blanks (h : t.Begins y) (ht : t.kind = .space) :
    ∃ c r, t.text = c :: r ∧ isBlank c = true ∧ (∀ d ∈ r, isBlank d = true) ∧
      ∀ d ∈ y.head?, isBlank d = false := by
  cases h with
  | @mk kind c r _ hkind hdrop =>
    have hc := (scan_kind c (r ++ y)).1 (hkind.trans ht)
    rw [scan_blank hc, Nat.add_sub_cancel, drop_length_takeWhile] at hdrop
    refine ⟨c, r, rfl, hc, ?_, ?_⟩
    · have hall := List.takeWhile_append_dropWhile (p := isBlank) (l := r ++ y)
      rw [hdrop] at hall
      have htake := List.append_cancel_right hall
      intro d hd
      rw [← htake] at hd
      exact of_mem_takeWhile hd
    · intro d hd
      have hhead := List.head?_dropWhile_not isBlank (r ++ y)
      rw [hdrop, Option.mem_def.1 hd] at hhead
      simpa using hhead

/-- Space is the same whatever follows it, if that begins with no blank. -/
theorem Begins.of_space (h : t.Begins y) (ht : t.kind = .space)
    (hy' : ∀ d ∈ y'.head?, isBlank d = false) : t.Begins y' := by
  obtain ⟨c, r, htext, hc, hr, -⟩ := h.blanks ht
  obtain ⟨kind, text⟩ := t
  dsimp only at ht htext
  subst ht htext
  have hstop : y'.takeWhile isBlank = [] := by
    cases y' with
    | nil => rfl
    | cons d y' => exact List.takeWhile_cons_of_neg (by simp [hy' d rfl])
  have htake : (r ++ y').takeWhile isBlank = r := by
    rw [List.takeWhile_append_of_pos hr, hstop, List.append_nil]
  constructor
  · rw [scan_blank hc]
  · rw [scan_blank hc, htake, Nat.add_sub_cancel, List.drop_left]

/-- A comment is the same whatever follows it, if something followed it at first. -/
theorem Begins.of_comment (h : t.Begins y) (ht : t.kind = .comment) (hy : y ≠ [])
    (y' : List Char) : t.Begins y' := by
  cases h with
  | @mk kind c r _ hkind hdrop =>
    have hlength := scan_length hdrop
    obtain ⟨rfl, hstar⟩ := (scan_kind c (r ++ y)).2.1 (hkind.trans ht)
    obtain rfl : kind = .comment := ht
    cases r with
    | nil =>
      rw [List.nil_append] at hstar hlength
      obtain ⟨rest, rfl⟩ := List.head?_eq_some_iff.1 hstar
      rw [scan_comment] at hlength
      simp at hlength
    | cons d r =>
      obtain rfl : d = '*' := Option.some.inj hstar
      rw [List.cons_append, scan_comment, List.length_cons] at hlength
      have hle : commentLength (r ++ y) = r.length := by
        dsimp only at hlength
        omega
      have hpos := List.length_pos_iff.2 hy
      have hcomment := commentLength_append (z := y) hle.le (by omega) y'
      constructor
      · rw [List.cons_append, scan_comment]
      · rw [List.cons_append, scan_comment, hcomment, hle]
        simp

end Token

/-! ### What is seen of a following text -/

/-- Texts that are the same, or the same up to some stop. -/
def SameToStop (y y' : List Char) : Prop :=
  y = y' ∨ ∃ r d z z', IsStop d ∧ y = r ++ d :: z ∧ y' = r ++ d :: z'

theorem SameToStop.append {y y' : List Char} (h : SameToStop y y') (s : List Char) :
    SameToStop (s ++ y) (s ++ y') := by
  rcases h with rfl | ⟨r, d, z, z', hd, rfl, rfl⟩
  · exact .inl rfl
  · exact .inr ⟨s ++ r, d, z, z', hd, by simp, by simp⟩

namespace Token

/-- A string, comment or address is closed if one more closing character behind it belongs to it no
longer. Other tokens need not be closed. -/
def IsClosed (t : Token) : Prop := ∀ c ∈ t.closer?, t.Begins [c]

variable {t : Token} {y y' : List Char}

/-- **A token is the same whatever follows** from a stop on. If nothing follows, no backslash may
stand at the end, and a token that is the last one has to be closed. -/
theorem Begins.of_stopped {s z z' : List Char} (h : t.Begins (s ++ z)) (hz : Stopped z)
    (hz' : Stopped z') (hlast : z = [] → (t.text ++ s).getLast? ≠ some '\\')
    (hclosed : z = [] → s = [] → t.IsClosed) : t.Begins (s ++ z') := by
  cases h with
  | @mk kind c r _ hkind hdrop =>
    have hlength := scan_length hdrop
    have hscan : scan c (r ++ (s ++ z')) = scan c (r ++ (s ++ z)) := by
      rw [← List.append_assoc] at hlength
      rw [← List.append_assoc, ← List.append_assoc]
      refine scan_append hz hz' c (by rw [List.length_append]; omega) hlast fun hnil => ?_
      subst hnil
      rw [List.append_nil] at hkind hlength
      cases s with
      | cons b s =>
        refine .inl ?_
        rw [List.length_append, List.length_cons]
        omega
      | nil =>
        rw [List.append_nil] at hlength ⊢
        refine .inr fun e he => ?_
        rw [List.append_nil] at hkind
        rw [hkind] at he ⊢
        cases hclosed rfl rfl e he with
        | mk hkind' hdrop' =>
          have hlength' := scan_length hdrop'
          exact ⟨hkind', by omega⟩
    constructor
    · rw [hscan, hkind]
    · rw [hscan, hlength, List.drop_left]

/-- A token is the same whatever stands behind a stop that follows it. -/
theorem Begins.of_sameToStop (h : t.Begins y) (hy : SameToStop y y') : t.Begins y' := by
  rcases hy with rfl | ⟨s, d, z, z', hd, rfl, rfl⟩
  · exact h
  · exact h.of_stopped (stopped_cons.2 hd) (stopped_cons.2 hd) (fun h => nomatch h)
      fun h => nomatch h

end Token

/-! ### Tokens in front of a text -/

/-- Tokens that a text begins with, by what follows them. -/
inductive Scanned : List Token → List Char → Prop
  | nil {after : List Char} : Scanned [] after
  | cons {t : Token} {ts : List Token} {after : List Char} (ht : t.Begins (textOf ts ++ after))
      (hts : Scanned ts after) : Scanned (t :: ts) after

namespace Scanned

variable {t : Token} {ts us : List Token} {y y' : List Char}

theorem append (h : Scanned ts (textOf us ++ y)) (hus : Scanned us y) : Scanned (ts ++ us) y := by
  induction ts with
  | nil => exact hus
  | cons t ts ih =>
    cases h with
    | cons ht hts =>
      rw [List.cons_append]
      refine .cons ?_ (ih hts)
      rwa [textOf_append, List.append_assoc]

theorem of_append (h : Scanned (ts ++ us) y) : Scanned ts (textOf us ++ y) ∧ Scanned us y := by
  induction ts with
  | nil => exact ⟨.nil, h⟩
  | cons t ts ih =>
    rw [List.cons_append] at h
    cases h with
    | cons ht hts =>
      obtain ⟨hts', hus⟩ := ih hts
      rw [textOf_append, List.append_assoc] at ht
      exact ⟨.cons ht hts', hus⟩

theorem of_cons (h : Scanned (t :: ts) y) : t.Begins (textOf ts ++ y) ∧ Scanned ts y := by
  cases h with
  | cons ht hts => exact ⟨ht, hts⟩

/-- Tokens that begin with no space begin with no blank. -/
theorem isBlank_head (h : Scanned (t :: ts) y) (ht : t.kind ≠ .space) :
    ∀ d ∈ (textOf (t :: ts) ++ y).head?, isBlank d = false := by
  rw [textOf_cons, List.append_assoc]
  exact h.of_cons.1.isBlank_head ht _

/-- Tokens in front of a text are the same whatever stands behind a stop in it. -/
theorem of_sameToStop (h : Scanned ts y) (hy : SameToStop y y') : Scanned ts y' := by
  induction h with
  | nil => exact .nil
  | @cons t ts y ht hts ih => exact .cons (ht.of_sameToStop (hy.append (textOf ts))) (ih hy)

/-- **The tokens of a sheet are the same in front of a stop**, if the last of them is closed and no
backslash ends the sheet. -/
theorem of_stopped (h : Scanned ts []) (hy : Stopped y)
    (hlast : (textOf ts).getLast? ≠ some '\\') (hclosed : ∀ t ∈ ts.getLast?, t.IsClosed) :
    Scanned ts y := by
  induction ts with
  | nil => exact .nil
  | cons t ts ih =>
    obtain ⟨ht, hts⟩ := h.of_cons
    rw [textOf_cons] at hlast
    refine .cons (ht.of_stopped stopped_nil hy (fun _ => hlast) fun _ hnil => ?_) (ih hts ?_ ?_)
    · cases hts with
      | nil => exact hclosed t rfl
      | cons hu _ =>
        rw [textOf_cons, List.append_eq_nil_iff] at hnil
        exact absurd hnil.1 hu.text_ne_nil
    · intro hts
      rw [List.getLast?_append, hts] at hlast
      exact hlast rfl
    · intro u hu
      refine hclosed u ?_
      rw [List.getLast?_cons, Option.mem_def.1 hu]
      rfl

/-- Space and comments are the same whatever follows them, if it begins with no blank. -/
theorem of_trivia (h : Scanned ts y) (hts : ∀ t ∈ ts, Declaration.isTrivia t.kind = true)
    (hy : y ≠ []) (hy' : ∀ d ∈ y'.head?, isBlank d = false) : Scanned ts y' := by
  induction h with
  | nil => exact .nil
  | @cons t ts y ht hrest ih =>
    have hkind := hts t List.mem_cons_self
    refine .cons ?_ (ih (fun u hu => hts u (List.mem_cons_of_mem t hu)) hy)
    have hne : textOf ts ++ y ≠ [] := by simp [hy]
    simp only [Declaration.isTrivia] at hkind
    split at hkind
    · next hspace =>
      refine ht.of_space hspace ?_
      obtain ⟨-, -, -, -, -, hhead⟩ := ht.blanks hspace
      cases hrest with
      | nil => exact hy'
      | @cons u us _ hu hus =>
        obtain ⟨c, r, hc⟩ := List.exists_cons_of_ne_nil hu.text_ne_nil
        rw [textOf_cons, hc] at hhead ⊢
        exact hhead
    · next hcomment => exact ht.of_comment hcomment hne _
    · cases hkind

/-! ### The tokens of a text -/

theorem tokensAfter_eq (h : Scanned ts y) (found : List Token) :
    tokensAfter found (textOf ts ++ y) = tokensAfter (ts.reverse ++ found) y := by
  induction h generalizing found with
  | nil => rfl
  | @cons t ts y ht hts ih =>
    cases ht with
    | @mk kind c r _ hkind hdrop =>
      rw [textOf_cons, List.append_assoc, List.cons_append, tokensAfter, hkind, hdrop,
        Token.take_of_drop hdrop, ih]
      simp

theorem tokens_textOf (h : Scanned ts []) : tokens (textOf ts) = ts := by
  have htokens := h.tokensAfter_eq []
  rw [List.append_nil, List.append_nil, tokensAfter, List.reverse_reverse] at htokens
  exact htokens

end Scanned

theorem exists_tokensAfter_eq (found : List Token) (text : List Char) :
    ∃ ts, tokensAfter found text = found.reverse ++ ts ∧ textOf ts = text ∧ Scanned ts [] := by
  fun_induction tokensAfter found text with
  | case1 found => exact ⟨[], by simp, rfl, .nil⟩
  | case2 found c rest kind further ih =>
    obtain ⟨ts, htokens, htext, hscanned⟩ := ih
    have hall := List.take_append_drop further rest
    refine ⟨⟨kind, c :: rest.take further⟩ :: ts, ?_, ?_, .cons ?_ hscanned⟩
    · rw [htokens]
      simp
    · rw [textOf_cons, htext, List.cons_append, hall]
    · rw [htext, List.append_nil]
      constructor
      · rw [hall]
      · rw [hall]

theorem textOf_tokens (css : List Char) : textOf (tokens css) = css := flatMap_text_tokens css

/-- The tokens of a text are what it begins with when nothing follows. -/
theorem scanned_tokens (text : List Char) : Scanned (tokens text) [] := by
  obtain ⟨ts, htokens, -, hscanned⟩ := exists_tokensAfter_eq [] text
  rw [List.reverse_nil, List.nil_append] at htokens
  rwa [tokens, htokens]

end Stylesheet

end CssTransform
