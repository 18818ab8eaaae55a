import CssTransform.Proofs.Stylesheet.Length

/-!
# The token in front of a stop

The first token of a text is found by one of several scanners. Here it is told which of them has its
turn, and that the token is the same whatever follows the text, if it ends in front of a stop or is
closed where nothing follows.

## Main definitions

* `Token.Kind.mark?` — the character of a token that is always the same
* `Token.closer?` — the character that closes a string, a comment or an address

## Main results

* `Token.scan_cases` — one case for each scanner
* `Token.scan_kind`, `Token.scan_of_mark` — what a kind tells about the text
* `Token.scan_le` — no token is longer than the text
* `Token.scan_append` — exchanging what follows
-/

namespace CssTransform

namespace Stylesheet

namespace Token

open Text (takeWhile_append_of_head length_takeWhile_le)

variable {r z z' : List Char}

/-! ### The scanners -/

/-- The kind and length of a name that some text follows. -/
theorem scanNamed_eq (text : List Char) :
    scanNamed text =
      match text.drop (nameLength text) with
      | '(' :: inside =>
        if (nameText text).map Char.toLower = urlName ∧ startsQuoted inside = false then
          (.url, nameLength text + 1 + urlLength inside)
        else (.function (nameText text), nameLength text + 1)
      | _ => (.ident (nameText text), nameLength text) := rfl

/-- **Which scanner finds a token.** What is said of the outcome of each of them, where it has its
turn, holds of the token. -/
theorem scan_cases {motive : Kind × Nat → Prop} (c : Char) (rest : List Char)
    (space : isBlank c = true → motive (.space, (rest.takeWhile isBlank).length + 1))
    (string : c = '"' ∨ c = '\'' → motive (.string, stringLength c 0 rest + 1))
    (number : startsNumber (c :: rest) = true → motive (.number, numberLength (c :: rest)))
    (wrapEnd : startsWrapEnd (c :: rest) = true → motive (.sign, 3))
    (named : startsName (c :: rest) = true → motive (scanNamed (c :: rest)))
    (comment : c = '/' ∧ rest.head? = some '*' →
      motive (.comment, commentLength (rest.drop 1) + 2))
    (hash : motive (.hash, nameLength rest + 1))
    (atKeyword : motive (.atKeyword, nameLength rest + 1))
    (fixed : motive (scanFixed c rest)) : motive (scan c rest) := by
  rw [scan]
  split
  · next h => exact space h
  split
  · next h => exact string h
  split
  · next h => exact number h
  split
  · next h => exact wrapEnd h
  split
  · next h => exact named h
  split
  · next h => exact comment h
  split
  · exact hash
  split
  · exact atKeyword
  · exact fixed

/-! ### Kinds -/

/-- The character of a mark: of a colon, a semicolon or a curly bracket. -/
def Kind.mark? : Kind → Option Char
  | .colon => some ':'
  | .semicolon => some ';'
  | .opening .curly => some '\x7b'
  | .closing .curly => some '\x7d'
  | _ => none

theorem scanNamed_kind (text : List Char) :
    (scanNamed text).1 ≠ .space ∧ (scanNamed text).1 ≠ .comment ∧
      (scanNamed text).1.mark? = none := by
  rw [scanNamed_eq]
  split
  · split <;> simp [Kind.mark?]
  · simp [Kind.mark?]

theorem scanFixed_kind (c : Char) (rest : List Char) :
    (scanFixed c rest).1 ≠ .space ∧ (scanFixed c rest).1 ≠ .comment ∧
      ∀ d, (scanFixed c rest).1.mark? = some d → c = d := by
  simp only [scanFixed]
  split <;> simp [Kind.mark?]

/-- What kinds that matter here tell about the text of a token. -/
theorem scan_kind (c : Char) (rest : List Char) :
    ((scan c rest).1 = .space → isBlank c = true) ∧
    ((scan c rest).1 = .comment → c = '/' ∧ rest.head? = some '*') ∧
    ∀ d, (scan c rest).1.mark? = some d → c = d := by
  have hnamed := scanNamed_kind (c :: rest)
  have hfixed := scanFixed_kind c rest
  refine scan_cases (motive := fun found => (found.1 = .space → isBlank c = true) ∧
    (found.1 = .comment → c = '/' ∧ rest.head? = some '*') ∧ ∀ d, found.1.mark? = some d → c = d)
    c rest ?space ?_ ?_ ?_ ?named ?comment ?_ ?_ ?fixed
  case space => exact fun hblank => by simp [hblank, Kind.mark?]
  case named => exact fun _ => by simp [hnamed]
  case comment => exact fun hcomment => by simp [hcomment, Kind.mark?]
  case fixed => exact ⟨fun h => absurd h hfixed.1, fun h => absurd h hfixed.2.1, hfixed.2.2⟩
  all_goals simp [Kind.mark?]

/-- An address is a name with a bracket and what is in it. -/
theorem scan_url {c : Char} {rest : List Char} (h : (scan c rest).1 = .url) :
    scan c rest = scanNamed (c :: rest) := by
  have hfixed : (scanFixed c rest).1 ≠ .url := by
    simp only [scanFixed]
    split <;> simp
  revert h
  refine scan_cases (motive := fun found => found.1 = .url → found = scanNamed (c :: rest)) c rest
    ?_ ?_ ?_ ?_ ?named ?_ ?_ ?_ ?fixed
  case named => exact fun _ _ => rfl
  case fixed => exact fun h => absurd h hfixed
  all_goals simp

/-- A mark is a token of its own. -/
theorem scan_of_mark {kind : Kind} {d : Char} (h : kind.mark? = some d) (rest : List Char) :
    scan d rest = (kind, 1) := by
  unfold Kind.mark? at h
  split at h
  all_goals cases h
  all_goals rfl

theorem scan_blank {c : Char} (hc : isBlank c = true) (rest : List Char) :
    scan c rest = (.space, (rest.takeWhile isBlank).length + 1) := by
  rw [scan, if_pos hc]

theorem scan_quote {c : Char} (hc : c = '"' ∨ c = '\'') (rest : List Char) :
    scan c rest = (.string, stringLength c 0 rest + 1) := by
  have hblank : isBlank c = false := by rcases hc with rfl | rfl <;> decide
  rw [scan, hblank, if_neg Bool.false_ne_true, if_pos hc]

theorem scan_comment (rest : List Char) :
    scan '/' ('*' :: rest) = (.comment, commentLength rest + 2) := rfl

/-! ### Lengths -/

theorem scanNamed_le (text : List Char) : (scanNamed text).2 ≤ text.length := by
  have hname := nameLength_le text
  rw [scanNamed_eq]
  split
  · next inside hdrop =>
    have hlength := congrArg List.length hdrop
    have hurl := urlLength_le inside
    rw [List.length_drop, List.length_cons] at hlength
    split <;> (dsimp only; omega)
  · exact hname

theorem scanFixed_le (c : Char) (rest : List Char) : (scanFixed c rest).2 ≤ rest.length + 1 := by
  simp only [scanFixed]
  split <;> simp

/-- No token is longer than the text that it is the first token of. -/
theorem scan_le (c : Char) (rest : List Char) : (scan c rest).2 ≤ rest.length + 1 := by
  refine scan_cases (motive := fun found => found.2 ≤ rest.length + 1) c rest
    ?space ?string ?number ?wrapEnd ?named ?comment ?hash ?atKeyword ?fixed
  case space => exact fun _ => Nat.succ_le_succ (length_takeWhile_le isBlank rest)
  case string => exact fun _ => Nat.succ_le_succ (stringLength_le c 0 rest)
  case number => exact fun _ => numberLength_le (c :: rest)
  case wrapEnd =>
    intro hwrap
    match rest with
    | [] | [a] | a :: b :: rest => simp [startsWrapEnd] at hwrap ⊢
  case named => exact fun _ => scanNamed_le (c :: rest)
  case comment =>
    rintro ⟨-, hstar⟩
    obtain ⟨inner, rfl⟩ := List.head?_eq_some_iff.1 hstar
    exact Nat.succ_le_succ (Nat.succ_le_succ (commentLength_le inner))
  case hash => exact Nat.succ_le_succ (nameLength_le rest)
  case atKeyword => exact Nat.succ_le_succ (nameLength_le rest)
  case fixed => exact scanFixed_le c rest

/-! ### What follows a token -/

theorem startsWrapEnd_append (hz : Stopped z) (r : List Char) :
    startsWrapEnd (r ++ z) = startsWrapEnd r := by
  cases z with
  | nil => rw [List.append_nil]
  | cons d y =>
    have hhyphen : d ≠ '-' := (stopped_cons.1 hz).ne (by decide)
    have hend : d ≠ '>' := (stopped_cons.1 hz).ne (by decide)
    match r with
    | [] | [a] | [a, b] | a :: b :: d :: r =>
      simp only [List.cons_append, List.nil_append]
      simp only [startsWrapEnd]
      split
      all_goals first | rfl | (split <;> simp_all) | simp_all

/-- No fixed token is longer than four characters, and none of more than one holds a stop. -/
theorem scanFixed_append (hz : Stopped z) (c : Char) (r : List Char) :
    scanFixed c (r ++ z) = scanFixed c r := by
  cases z with
  | nil => rw [List.append_nil]
  | cons d y =>
    have hhyphen : d ≠ '-' := (stopped_cons.1 hz).ne (by decide)
    have hbang : d ≠ '!' := (stopped_cons.1 hz).ne (by decide)
    have hequals : d ≠ '=' := (stopped_cons.1 hz).ne (by decide)
    match r with
    | [] | [a] | [a, b] | a :: b :: d :: r =>
      simp only [List.cons_append, List.nil_append]
      simp only [scanFixed]
      split
      all_goals first | rfl | (split <;> simp_all)

/-- A character that is no stop is not the first one behind a text. -/
theorem head?_append (hz : Stopped z) {e : Char} (he : ¬IsStop e) (r : List Char) :
    (r ++ z).head? = some e ↔ r.head? = some e := by
  cases r with
  | cons c r => rfl
  | nil =>
    refine ⟨fun h => absurd (hz e h) he, fun h => ?_⟩
    cases h

theorem isBound_closing : IsBound ')' := by constructor <;> decide

/-- No stop is a blank or a quote. -/
theorem startsQuoted_append_stopped (hz : Stopped z) (r : List Char) :
    startsQuoted (r ++ z) = startsQuoted r := by
  refine startsQuoted_append (fun d hd => ⟨hz.bounded.isBlank d hd, ?_⟩) r
  rcases hz d hd with rfl | rfl | rfl | rfl <;> decide

theorem scanNamed_append (hz : Stopped z) (hz' : Stopped z')
    (h : (scanNamed (r ++ z)).2 ≤ r.length) (hlast : z = [] → r.getLast? ≠ some '\\')
    (hnil : z = [] → (scanNamed r).2 < r.length ∨
      ((scanNamed r).1 = .url → (scanNamed (r ++ [')'])).2 ≤ r.length)) :
    scanNamed (r ++ z') = scanNamed (r ++ z) := by
  have hname : nameLength (r ++ z) ≤ r.length := by
    rw [scanNamed_eq] at h
    split at h
    · split at h <;> (dsimp only at h; omega)
    · exact h
  have hfound : ∀ w, Bounded w → scanNamed (r ++ w) =
      match r.drop (nameLength (r ++ z)) ++ w with
      | '(' :: inside =>
        if (nameText (r ++ z)).map Char.toLower = urlName ∧ startsQuoted inside = false then
          (.url, nameLength (r ++ z) + 1 + urlLength inside)
        else (.function (nameText (r ++ z)), nameLength (r ++ z) + 1)
      | _ => (.ident (nameText (r ++ z)), nameLength (r ++ z)) := by
    intro w hw
    rw [scanNamed_eq, nameLength_append hz.bounded hw hname hlast,
      nameText_append hz.bounded hw hname hlast, List.drop_append_of_le_length hname]
  generalize nameLength (r ++ z) = n at hname hfound
  generalize nameText (r ++ z) = name at hfound
  by_cases hopen : ∃ inside, r.drop n = '(' :: inside
  · obtain ⟨inside, hdrop⟩ := hopen
    have hlength := congrArg List.length hdrop
    rw [List.length_drop, List.length_cons] at hlength
    have hopened : ∀ w, Bounded w → startsQuoted (inside ++ w) = startsQuoted inside →
        scanNamed (r ++ w) =
          if name.map Char.toLower = urlName ∧ startsQuoted inside = false then
            (.url, n + 1 + urlLength (inside ++ w))
          else (.function name, n + 1) := by
      intro w hw hquoted
      rw [hfound w hw, hdrop, List.cons_append]
      simp only [hquoted]
    have hz₁ := hopened z hz.bounded (startsQuoted_append_stopped hz inside)
    rw [hz₁] at h
    rw [hz₁, hopened z' hz'.bounded (startsQuoted_append_stopped hz' inside)]
    by_cases hurl : name.map Char.toLower = urlName ∧ startsQuoted inside = false
    · rw [if_pos hurl] at h
      rw [if_pos hurl, if_pos hurl]
      dsimp only at h
      rw [settles_urlLength.append isBound_closing hz.bounded hz'.bounded (by omega)]
      rintro rfl
      have hnil := hnil rfl
      have hr := hopened [] hz.bounded (by rw [List.append_nil])
      rw [List.append_nil, List.append_nil, if_pos hurl] at hr
      rw [hr, hopened [')'] (bounded_cons.2 isBound_closing)
        (startsQuoted_append (by simp; decide) inside), if_pos hurl] at hnil
      exact hnil.imp (fun h => by omega) fun h => by have := h rfl; omega
    · rw [if_neg hurl, if_neg hurl]
  · have hident : ∀ w, Stopped w → scanNamed (r ++ w) = (.ident name, n) := by
      intro w hw
      rw [hfound w hw.bounded]
      split
      · next inside heq =>
        cases hdrop : r.drop n with
        | nil =>
          rw [hdrop, List.nil_append] at heq
          rw [heq] at hw
          exact absurd (stopped_cons.1 hw) (by decide)
        | cons c tail =>
          rw [hdrop] at heq
          exact absurd ⟨tail, by rw [hdrop, (List.cons.inj heq).1]⟩ hopen
      · rfl
    rw [hident z hz, hident z' hz']

/-- The character that closes a string, a comment or an address. -/
def closer? (t : Token) : Option Char :=
  match t.kind, t.text with
  | .string, quote :: _ => some quote
  | .comment, _ => some '/'
  | .url, _ => some ')'
  | _, _ => none

/-- **A token that ends with a text** is the same whatever follows the text from a stop on. If
nothing follows, no backslash may stand at its end, and a token that goes up to there may not go on
over a character that closes it. -/
theorem scan_append (hz : Stopped z) (hz' : Stopped z') (c : Char)
    (h : (scan c (r ++ z)).2 ≤ r.length + 1)
    (hlast : z = [] → (c :: r).getLast? ≠ some '\\')
    (hclosed : z = [] → (scan c r).2 ≤ r.length ∨
      ∀ e ∈ closer? ⟨(scan c r).1, c :: r⟩, (scan c (r ++ [e])).1 = (scan c r).1 ∧
        (scan c (r ++ [e])).2 ≤ r.length + 1) :
    scan c (r ++ z') = scan c (r ++ z) := by
  have hlast' := fun hnil => getLast?_ne_of_cons (hlast hnil)
  have hnumber := fun w hw => startsNumber_append (z := w) hw (c :: r)
  have hwrap := fun w hw => startsWrapEnd_append (z := w) hw (c :: r)
  have hname := fun w hw => startsName_append (z := w) hw (c :: r)
  simp only [List.cons_append] at hnumber hwrap hname
  have hstar := fun w hw => head?_append (z := w) hw (e := '*') (by decide) r
  have hhyphen := fun w hw => head?_append (z := w) hw (e := '-') (by decide) r
  simp only [scan, hnumber z hz, hnumber z' hz', hwrap z hz, hwrap z' hz', hname z hz.bounded,
    hname z' hz'.bounded, hstar z hz, hstar z' hz', hhyphen z hz, hhyphen z' hz',
    startsName_append hz.bounded, startsName_append hz'.bounded, startsDigit_append hz,
    startsDigit_append hz', takeWhile_append_of_head hz.bounded.isBlank,
    takeWhile_append_of_head hz'.bounded.isBlank, scanFixed_append hz, scanFixed_append hz'] at h ⊢
  refine ite_eq_ite_of_le Prod.snd h (fun _ _ => rfl) fun hblank h => ?_
  refine ite_eq_ite_of_le Prod.snd h (fun hquote (h : _ + 1 ≤ _) => ?string) fun hquote h => ?_
  case string =>
    have hbound : IsBound c := by rcases hquote with rfl | rfl <;> constructor <;> decide
    simp only [scan_quote hquote] at hclosed
    rw [(settles_stringLength c 0).append hbound hz.bounded hz'.bounded (by omega)]
    exact fun hnil => (hclosed hnil).imp (fun h => h) fun h => Nat.le_of_succ_le_succ (h c rfl).2
  refine ite_eq_ite_of_le Prod.snd h (fun _ h => ?number) fun hnumber h => ?_
  case number =>
    have hlength := numberLength_append (r := c :: r) hz hz' h hlast
    simp only [List.cons_append] at hlength
    rw [hlength]
  refine ite_eq_ite_of_le Prod.snd h (fun _ _ => rfl) fun hwrap h => ?_
  refine ite_eq_ite_of_le Prod.snd h (fun hname h => ?name) fun _ h => ?_
  case name =>
    have hnamed : scan c r = scanNamed (c :: r) := by
      rw [scan, if_neg hblank, if_neg hquote, if_neg hnumber, if_neg hwrap, if_pos hname]
    refine scanNamed_append (r := c :: r) hz hz' h hlast fun hnil => ?_
    rw [← hnamed]
    refine (hclosed hnil).imp Nat.lt_succ_of_le fun h hurl => ?_
    obtain ⟨hkind, hle⟩ := h ')' (by rw [hurl]; rfl)
    rw [scan_url (hkind.trans hurl)] at hle
    exact hle
  refine ite_eq_ite_of_le Prod.snd h (fun hcomment (hle : _ + 2 ≤ _) => ?comment) fun _ h => ?_
  case comment =>
    obtain ⟨rfl, hhead⟩ := hcomment
    obtain ⟨r, rfl⟩ := List.head?_eq_some_iff.1 hhead
    have hslash : IsBound '/' := IsStop.isBound (by decide)
    simp only [List.cons_append, List.drop_one, List.tail_cons, List.length_cons, scan_comment]
      at hle hclosed ⊢
    rw [settles_commentLength.append hslash hz.bounded hz'.bounded (by omega)]
    intro hnil
    refine (hclosed hnil).imp (fun h => by omega) fun h => ?_
    exact Nat.le_of_succ_le_succ (Nat.le_of_succ_le_succ (h '/' rfl).2)
  refine ite_eq_ite_of_le Prod.snd h (fun _ (h : _ + 1 ≤ _) => ?hash) fun _ h => ?_
  case hash => rw [nameLength_append hz.bounded hz'.bounded (by omega) hlast']
  refine ite_eq_ite_of_le Prod.snd h (fun _ (h : _ + 1 ≤ _) => ?atWord) fun _ _ => rfl
  case atWord => rw [nameLength_append hz.bounded hz'.bounded (by omega) hlast']

end Token

end Stylesheet

end CssTransform
