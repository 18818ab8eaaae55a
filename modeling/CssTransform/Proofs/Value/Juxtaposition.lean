import CssTransform.Proofs.Value.Balance

/-!
# Values side by side

Two values that can be read, with separators between them, can be read as one, and every call of the
one value is a call of either, with the same arguments and in the same order. The names are the same
as well, up to the first call behind the seam. A character beyond ASCII may separate and may also
stand in a name. Where the seam is made of such characters only, a name that begins in front of it
is not ended by it and goes on to the parenthesis of that call.

## Which choice is load-bearing

Whether a name goes over the seam is told by one pass over the characters, without a word about
items: from some place on where an item can begin, everything up to the parenthesis is made of
characters of a name. Inside of a group there is no such place, because a parenthesis closes the
group in front of the seam.

## Main definitions

* `IsClosed` — a text that can be read outside of every group, by its first item
* `runsOn` — whether a name goes over the separators between two texts

## Main results

* `balanceAfter_append_of_ok` — the parentheses of a text that has been read are done with
* `itemsOf_append_of_not_runsOn` — without such a name the items are found apart
* `callsIn_append_of_runsOn` — with one, a call gets a longer name
* `calls_append_separators` — the calls of two values with separators between them
-/

namespace CssTransform

namespace Value

open Text (of_mem_takeWhile takeWhile_append_of_head dropWhile_append_of_head
  eq_false_of_dropWhile_eq_cons)

/-! ### Parentheses -/

/-- A text whose parentheses are in order has no effect on those behind it. The text that is kept
for a message is of no account, since none is given. -/
theorem balanceAfter_append_of_ok {count : Nat} {outermost front : List Char}
    (h : balanceAfter count outermost front = .ok ()) (outermost' rest : List Char) :
    balanceAfter count outermost' (front ++ rest) = balance rest := by
  induction front generalizing count outermost outermost' with
  | nil =>
    rw [balanceAfter] at h
    split at h
    · next hcount =>
      subst hcount
      exact balanceAfter_zero outermost' [] rest
    · cases h
  | cons c front ih =>
    rw [List.cons_append, balanceAfter]
    rw [balanceAfter] at h
    split at h
    · next hopen =>
      split at h
      · cases h
      · next hroom => rw [if_pos hopen, if_neg hroom, ih h]
    · next hopen =>
      rw [if_neg hopen]
      split at h
      · next hclose =>
        split at h
        · cases h
        · next hcount => rw [if_pos hclose, if_neg hcount, ih h]
      · next hclose => rw [if_neg hclose, ih h]

theorem balance_append_separators {front seam rest : List Char}
    (hfront : balance front = .ok ()) (hseam : ∀ c ∈ seam, isSeparator c = true)
    (hrest : balance rest = .ok ()) : balance (front ++ seam ++ rest) = .ok () := by
  have hplain : balance (seam ++ rest) = balance rest :=
    balanceAfter_append (fun c hc => isPlain_of_isSeparator (hseam c hc)) 0 [] rest
  rw [List.append_assoc, balance, balanceAfter_append_of_ok hfront, hplain, hrest]

/-! ### Texts that can be read, by their first item -/

/-- Everything that a text opens is closed in it, and it closes nothing else. -/
inductive IsClosed : List Char → Prop
  | blank {text : List Char} (h : Lexeme.next? text = none) : IsClosed text
  | word {text letters rest : List Char} (h : Lexeme.next? text = some (.word letters, rest))
      (hrest : IsClosed rest) : IsClosed text
  | group {text name opened rest inside behind : List Char}
      (h : Lexeme.next? text = some (.opening name opened, rest))
      (hmatch : upToMatch? 0 rest = some (inside, behind)) (hbehind : IsClosed behind) :
      IsClosed text

theorem isClosed_of_scanAfter {found items : List Item} {text : List Char}
    (h : scanAfter [] found (Lexeme.all text) = .ok items) : IsClosed text := by
  generalize hn : text.length = n
  induction n using Nat.strongRecOn generalizing found text with
  | ind n ih =>
    cases hnext : Lexeme.next? text with
    | none => exact .blank hnext
    | some next =>
      obtain ⟨l, rest⟩ := next
      have hlt : rest.length < n := hn ▸ Lexeme.length_of_next? hnext
      rw [Lexeme.all_of_next? hnext] at h
      cases l with
      | closing => cases h
      | word letters => exact .word hnext (ih _ hlt h rfl)
      | opening name opened =>
        rw [scanAfter] at h
        split at h
        case isFalse => cases h
        obtain ⟨inside, behind, hmatch, hgo⟩ := of_scanAfter_cons_eq_ok h
        have hrest := congrArg List.length (of_upToMatch? hmatch).1
        rw [List.length_append, List.length_cons] at hrest
        exact .group hnext hmatch (ih _ (by omega) hgo rfl)

/-- The calls among the items of a text. -/
def callsIn (text : List Char) : List (Call Binary64) := (itemsOf text).filterMap Item.call?

/-- A value that can be read is closed, and its calls are those among its items. -/
theorem of_calls_eq_ok {text : List Char} {list : List (Call Binary64)}
    (h : calls text = .ok list) : IsClosed text ∧ balance text = .ok () ∧ list = callsIn text := by
  have hread := read_eq_itemsOf text
  rw [calls, hread] at h
  cases hbalance : balance text with
  | error cause =>
    rw [hbalance] at h
    cases h
  | ok =>
    rw [hbalance] at h hread
    cases h
    rw [read_eq_scan] at hread
    exact ⟨isClosed_of_scanAfter hread, rfl, rfl⟩

section Calls

variable {text rest inside behind : List Char}

theorem itemsOf_of_blank (h : Lexeme.next? text = none) : itemsOf text = [] := by
  rw [itemsOf_eq, h]

theorem callsIn_of_blank (h : Lexeme.next? text = none) : callsIn text = [] := by
  rw [callsIn, itemsOf_of_blank h]
  rfl

theorem callsIn_of_word {letters : List Char} (h : Lexeme.next? text = some (.word letters, rest)) :
    callsIn text = callsIn rest := by
  rw [callsIn, itemsOf_of_word h]
  rfl

theorem callsIn_of_opening {name opened : List Char}
    (h : Lexeme.next? text = some (.opening name opened, rest))
    (hmatch : upToMatch? 0 rest = some (inside, behind)) :
    callsIn text = ⟨name, (itemsOf inside).map Item.argument⟩ :: callsIn behind := by
  rw [callsIn, itemsOf_of_opening h hmatch]
  rfl

theorem callsIn_of_isPlain (h : ∀ c ∈ text, IsPlain c) : callsIn text = [] := by
  generalize hn : text.length = n
  induction n using Nat.strongRecOn generalizing text with
  | ind n ih =>
    cases hnext : Lexeme.next? text with
    | none => exact callsIn_of_blank hnext
    | some next =>
      obtain ⟨l, rest⟩ := next
      have hlt : rest.length < n := hn ▸ Lexeme.length_of_next? hnext
      obtain ⟨front, -, hform⟩ := Lexeme.next?_cases hnext
      cases l with
      | opening name opened =>
        obtain ⟨rfl, rfl⟩ := hform
        exact absurd rfl (h '(' (by simp)).1
      | closing =>
        dsimp only at hform
        subst hform
        exact absurd rfl (h ')' (by simp)).2
      | word letters =>
        dsimp only at hform
        subst hform
        rw [callsIn_of_word hnext]
        exact ih _ hlt (fun c hc => h c (List.mem_append_right front hc)) rfl

end Calls

theorem itemsOf_append_of_separators {seam : List Char}
    (h : ∀ c ∈ seam, isSeparator c = true) (rest : List Char) :
    itemsOf (seam ++ rest) = itemsOf rest := by
  rw [itemsOf_eq, Lexeme.next?_append_of_separators h, ← itemsOf_eq]

/-! ### Names that go over the seam -/

/-- Whether a name may go on at the end of a text: from some place on where an item can begin, it
has only characters of a name. `fresh` tells whether its front is such a place. -/
def endsInName (fresh : Bool) : List Char → Bool
  | [] => false
  | c :: rest =>
    (fresh && isNameStart c && !isSeparator c && rest.all isNameChar) ||
      endsInName (isSeparator c || c == ')') rest

/-- Whether a text begins with a parenthesis that opens, or with characters of a name and one. -/
def beginsInGroup (text : List Char) : Bool :=
  match text.dropWhile isNameChar with
  | '(' :: _ => true
  | _ => false

/-- Whether a name goes over the separators between two texts. -/
def runsOn (front seam rest : List Char) : Bool :=
  endsInName true front && seam.all isNameChar && beginsInGroup rest

section EndsInName

variable {text rest : List Char} {c : Char}

theorem endsInName_append_of_separators {seam : List Char}
    (h : ∀ c ∈ seam, isSeparator c = true) :
    endsInName true (seam ++ text) = endsInName true text := by
  induction seam with
  | nil => rfl
  | cons c seam ih =>
    rw [List.cons_append, endsInName, h c List.mem_cons_self,
      ← ih fun d hd => h d (List.mem_cons_of_mem c hd)]
    simp

theorem endsInName_append_of_wordChars {letters : List Char}
    (h : ∀ c ∈ letters, isWordChar c = true) :
    endsInName false (letters ++ text) = endsInName false text := by
  induction letters with
  | nil => rfl
  | cons c letters ih =>
    have hc := h c List.mem_cons_self
    simp only [isWordChar, Bool.and_eq_true, Bool.not_eq_true', bne_iff_ne, ne_eq] at hc
    have hflag : (isSeparator c || c == ')') = false := by simp [hc.1.1, hc.2]
    rw [List.cons_append, endsInName, hflag, ih fun d hd => h d (List.mem_cons_of_mem c hd)]
    simp

theorem endsInName_of_head (h : ∀ c ∈ text.head?, isWordChar c = false) (fresh fresh' : Bool) :
    endsInName fresh text = endsInName fresh' text := by
  cases text with
  | nil => rfl
  | cons c rest =>
    have hno : (isNameStart c && !isSeparator c) = false := by
      rw [Bool.eq_false_iff]
      intro hboth
      rw [Bool.and_eq_true, Bool.not_eq_true'] at hboth
      obtain ⟨hopen, hclose⟩ := isPlain_of_isNameStart hboth.1
      have hword := h c rfl
      simp [isWordChar, hboth.2, hopen, hclose] at hword
    simp only [endsInName, Bool.and_assoc]
    simp only [← Bool.and_assoc (isNameStart c), hno]
    simp

/-- In front of a parenthesis no name begins that goes on behind it. -/
theorem endsInName_append_closing (fresh : Bool) (front : List Char) :
    endsInName fresh (front ++ ')' :: rest) = endsInName true rest := by
  induction front generalizing fresh with
  | nil =>
    have hstart : isNameStart ')' = false := by decide
    simp [endsInName, hstart]
  | cons c front ih =>
    have hclose : isNameChar ')' = false := by decide
    rw [List.cons_append, endsInName, ih]
    simp [hclose]

end EndsInName

theorem beginsInGroup_of_letters {letters opened : List Char}
    (h : ∀ c ∈ letters, isNameChar c = true) :
    beginsInGroup (letters ++ '(' :: opened) = true := by
  have hopen : isNameChar '(' = false := by decide
  rw [beginsInGroup, List.dropWhile_append_of_pos h, List.dropWhile_cons_of_neg (by simp [hopen])]
  rfl

/-- What a text is that begins in a group. -/
theorem of_beginsInGroup {text : List Char} (h : beginsInGroup text = true) :
    ∃ letters opened, text = letters ++ '(' :: opened ∧ ∀ c ∈ letters, isNameChar c = true := by
  rw [beginsInGroup] at h
  split at h
  next opened hdrop =>
    refine ⟨text.takeWhile isNameChar, opened, ?_, fun c hc => of_mem_takeWhile hc⟩
    rw [← hdrop, List.takeWhile_append_dropWhile]
  · cases h

theorem takeName_of_letters {c : Char} {letters : List Char} (hc : isNameStart c = true)
    (h : ∀ d ∈ letters, isNameChar d = true) (opened : List Char) :
    takeName (c :: (letters ++ '(' :: opened)) = (c :: letters, '(' :: opened) := by
  have hopen : ¬isNameChar '(' = true := by decide
  rw [takeName, if_pos hc, List.takeWhile_append_of_pos h, List.dropWhile_append_of_pos h,
    List.takeWhile_cons_of_neg hopen, List.dropWhile_cons_of_neg hopen, List.append_nil]

/-- What a name that comes before a parenthesis is made of, if there is anything of it. -/
theorem of_takeName_cons {c : Char} {tail name opened : List Char}
    (h : takeName (c :: tail) = (name, '(' :: opened)) (hc : c ≠ '(') :
    isNameStart c = true ∧ ∃ letters, name = c :: letters ∧ tail = letters ++ '(' :: opened ∧
      ∀ d ∈ letters, isNameChar d = true := by
  rw [takeName] at h
  split at h
  next hstart =>
    obtain ⟨hname, hrest⟩ := Prod.mk.inj h
    refine ⟨hstart, _, hname.symm, ?_, fun d hd => of_mem_takeWhile hd⟩
    rw [← hrest, List.takeWhile_append_dropWhile]
  next => exact absurd (List.cons.inj (Prod.mk.inj h).2).1 hc

/-- A parenthesis that opens stands in the front part of a text or behind it. -/
theorem append_eq_append_opening {front rest letters opened : List Char}
    (h : front ++ rest = letters ++ '(' :: opened) :
    (∃ more, front = letters ++ '(' :: more) ∨
      ∃ more, letters = front ++ more ∧ rest = more ++ '(' :: opened := by
  rcases List.append_eq_append_iff.1 h with hbehind | ⟨more, hfront, hmore⟩
  · exact .inr hbehind
  · cases more with
    | nil => exact .inr ⟨[], by simpa using hfront.symm, hmore.symm⟩
    | cons d more =>
      obtain ⟨rfl, -⟩ := List.cons.inj hmore
      exact .inl ⟨more, hfront⟩

/-- A name that reaches its parenthesis only over the seam has everything up to it. -/
theorem of_takeName_append {c : Char} {tail seam rest name opened : List Char} (hc : c ≠ '(')
    (hnone : ∀ name opened, takeName (c :: tail) ≠ (name, '(' :: opened))
    (hseam : ∀ d ∈ seam, isSeparator d = true)
    (h : takeName (c :: (tail ++ (seam ++ rest))) = (name, '(' :: opened)) :
    isNameStart c = true ∧ (∀ d ∈ tail, isNameChar d = true) ∧
      (∀ d ∈ seam, isNameChar d = true) ∧ ∃ letters, rest = letters ++ '(' :: opened ∧
        name = c :: (tail ++ (seam ++ letters)) ∧ ∀ d ∈ letters, isNameChar d = true := by
  obtain ⟨hstart, word, rfl, hword, hall⟩ := of_takeName_cons h hc
  rcases append_eq_append_opening hword with ⟨more, htail⟩ | ⟨beyond, rfl, hbeyond⟩
  · -- the parenthesis would be in front of the seam
    rw [htail] at hnone
    exact absurd (takeName_of_letters hstart hall more) (hnone _ _)
  rcases append_eq_append_opening hbeyond with ⟨more, rfl⟩ | ⟨letters, rfl, hrest⟩
  · exact absurd rfl (isPlain_of_isSeparator (hseam '(' (by simp))).1
  simp only [List.mem_append] at hall
  exact ⟨hstart, fun d hd => hall d (.inl hd), fun d hd => hall d (.inr (.inl hd)),
    letters, hrest, rfl, fun d hd => hall d (.inr (.inr hd))⟩

/-- A name goes on at the end of a text if it begins with the first word, or after it. -/
theorem endsInName_of_dropWhile {text tail : List Char} {c : Char}
    (h : text.dropWhile isSeparator = c :: tail) (hc : isWordChar c = true) :
    endsInName true text =
      ((isNameStart c && tail.all isNameChar) || endsInName true (tail.dropWhile isWordChar)) := by
  have htext : text = text.takeWhile isSeparator ++ c :: tail := by
    rw [← h, List.takeWhile_append_dropWhile]
  have hsep := eq_false_of_dropWhile_eq_cons h
  have hrest : endsInName false tail = endsInName true (tail.dropWhile isWordChar) := by
    have hletters := @endsInName_append_of_wordChars (tail.dropWhile isWordChar)
      (tail.takeWhile isWordChar) fun d hd => of_mem_takeWhile hd
    rw [List.takeWhile_append_dropWhile] at hletters
    have hhead : ∀ d ∈ (tail.dropWhile isWordChar).head?, isWordChar d = false := by
      intro d hd
      obtain ⟨more, hmore⟩ := List.head?_eq_some_iff.1 hd
      exact eq_false_of_dropWhile_eq_cons hmore
    rw [hletters, endsInName_of_head hhead false true]
  have hclose : (c == ')') = false := beq_eq_false_iff_ne.2 (isPlain_of_isWordChar hc).2
  rw [htext, endsInName_append_of_separators fun d hd => of_mem_takeWhile hd, endsInName, hsep,
    hclose, Bool.or_self, hrest]
  simp

/-! ### Items on both sides of the seam -/

/-- A closed group in front of the seam has no part in it. -/
theorem runsOn_of_opening {front name opened inside behind front' : List Char}
    (h : Lexeme.next? front = some (.opening name opened, front'))
    (hmatch : upToMatch? 0 front' = some (inside, behind)) (seam rest : List Char) :
    runsOn front seam rest = runsOn behind seam rest := by
  obtain ⟨before, -, rfl, rfl⟩ := Lexeme.next?_cases h
  obtain ⟨rfl, -⟩ := of_upToMatch? hmatch
  have hfront : before ++ '(' :: (inside ++ ')' :: behind) =
      (before ++ '(' :: inside) ++ ')' :: behind := by simp
  rw [runsOn, runsOn, hfront, endsInName_append_closing]

/-- The first call of a text that begins with plain characters and a parenthesis is that of the
parenthesis. Its name is among these characters. -/
theorem callsIn_of_letters {letters opened : List Char} (h : IsClosed (letters ++ '(' :: opened))
    (hletters : ∀ c ∈ letters, IsPlain c) :
    ∃ name inside behind, name.length ≤ letters.length ∧
      upToMatch? 0 opened = some (inside, behind) ∧
      callsIn (letters ++ '(' :: opened) =
        ⟨name, (itemsOf inside).map Item.argument⟩ :: callsIn behind := by
  generalize htext : letters ++ '(' :: opened = text at h
  induction h generalizing letters with
  | blank h =>
    subst htext
    exact absurd rfl (Lexeme.next?_eq_none h '(' (by simp)).1
  | @word text word rest h hrest ih =>
    obtain ⟨before, hbefore, hform⟩ := Lexeme.next?_cases h
    dsimp only at hform
    rw [hform] at htext
    rcases append_eq_append_opening htext.symm with ⟨more, rfl⟩ | ⟨more, rfl, hrest'⟩
    · exact absurd rfl (hbefore '(' (by simp)).1
    obtain ⟨name, inside, behind, hle, hmatch, hcalls⟩ :=
      ih (fun c hc => hletters c (List.mem_append_right before hc)) hrest'.symm
    refine ⟨name, inside, behind, ?_, hmatch, by rw [callsIn_of_word h, hcalls]⟩
    rw [List.length_append]
    omega
  | @group text name opened' rest inside behind h hmatch hbehind ih =>
    obtain ⟨skipped, hskipped, rfl⟩ := Lexeme.eq_append_of_next?_opening h
    rcases append_eq_append_opening htext.symm with ⟨more, hmore⟩ | ⟨more, rfl, hrest⟩
    · exact absurd rfl (hskipped '(' (by simp [hmore])).1
    cases more with
    | nil =>
      obtain ⟨-, rfl⟩ := List.cons.inj hrest
      refine ⟨name, inside, behind, ?_, hmatch, callsIn_of_opening h hmatch⟩
      simp
    | cons d more =>
      obtain ⟨rfl, -⟩ := List.cons.inj hrest
      exact absurd rfl (hletters '(' (by simp)).1

section Seam

variable {front seam rest : List Char} (hseam : ∀ c ∈ seam, isSeparator c = true)

include hseam

theorem isWordChar_of_mem_head {c : Char} (hne : seam ≠ []) (h : c ∈ (seam ++ rest).head?) :
    isWordChar c = false := by
  cases seam with
  | nil => exact absurd rfl hne
  | cons d seam =>
    obtain rfl : d = c := Option.some.inj h
    simp [isWordChar, hseam d List.mem_cons_self]

/-- A word in front of the seam stays the same word, unless it begins a name that goes over the
seam. Then all that is left in front of the seam becomes a part of this name. -/
theorem next?_append_of_word {letters front' : List Char} (hne : seam ≠ [])
    (h : Lexeme.next? front = some (.word letters, front')) :
    (Lexeme.next? (front ++ (seam ++ rest)) = some (.word letters, front' ++ (seam ++ rest)) ∧
        runsOn front seam rest = runsOn front' seam rest) ∨
      (runsOn front seam rest = true ∧ (∀ c ∈ front, IsPlain c) ∧ ∃ name letters' opened,
        Lexeme.next? (front ++ (seam ++ rest)) = some (.opening name ('(' :: opened), opened) ∧
          rest = letters' ++ '(' :: opened ∧ (∀ c ∈ letters', IsPlain c) ∧
          letters'.length < name.length) := by
  obtain ⟨c, tail, hdrop, hfirst⟩ := Lexeme.exists_of_next? h
  obtain ⟨⟨hopen, hclose⟩, hnone, rfl, rfl⟩ := Lexeme.of_first_word hfirst
  have hword : isWordChar c = true := by
    simp [isWordChar, eq_false_of_dropWhile_eq_cons hdrop, hopen, hclose]
  have hends := endsInName_of_dropWhile hdrop hword
  rw [Lexeme.next?_of_dropWhile (Lexeme.dropWhile_append_of_cons hdrop (seam ++ rest))]
  by_cases hname : ∃ name opened, takeName (c :: (tail ++ (seam ++ rest))) = (name, '(' :: opened)
  · right
    obtain ⟨name, opened, hname⟩ := hname
    obtain ⟨hstart, htail, hall, letters, rfl, rfl, hletters⟩ :=
      of_takeName_append hopen hnone hseam hname
    refine ⟨?_, fun d hd => ?_, _, letters, opened,
      congrArg some (Lexeme.first_of_opening hclose hname), rfl,
      fun d hd => isPlain_of_isNameChar (hletters d hd), ?_⟩
    · rw [runsOn, hends, hstart, List.all_eq_true.2 htail, List.all_eq_true.2 hall,
        beginsInGroup_of_letters hletters]
      rfl
    · rw [← List.takeWhile_append_dropWhile (p := isSeparator) (l := front), hdrop] at hd
      rcases List.mem_append.1 hd with hd | hd
      · exact isPlain_of_isSeparator (of_mem_takeWhile hd)
      · rcases List.mem_cons.1 hd with rfl | hd
        · exact isPlain_of_isNameStart hstart
        · exact isPlain_of_isNameChar (htail d hd)
    · simp only [List.length_cons, List.length_append]
      omega
  · left
    have hnone' : ∀ name opened, takeName (c :: (tail ++ (seam ++ rest))) ≠ (name, '(' :: opened) :=
      fun name opened heq => hname ⟨name, opened, heq⟩
    have hhead : ∀ d ∈ (seam ++ rest).head?, isWordChar d = false :=
      fun d hd => isWordChar_of_mem_head hseam hne hd
    refine ⟨?_, ?_⟩
    · rw [Lexeme.first_of_word hclose hnone', takeWhile_append_of_head hhead,
        dropWhile_append_of_head hhead]
    · have hhere : ((isNameStart c && tail.all isNameChar) && seam.all isNameChar &&
          beginsInGroup rest) = false := by
        rw [Bool.eq_false_iff]
        intro hboth
        simp only [Bool.and_eq_true, List.all_eq_true] at hboth
        obtain ⟨⟨⟨hstart, htail⟩, hall⟩, hgroup⟩ := hboth
        obtain ⟨letters, opened, rfl, hletters⟩ := of_beginsInGroup hgroup
        have htake := @takeName_of_letters c (tail ++ (seam ++ letters)) hstart
          (by simpa [or_imp, forall_and] using ⟨htail, hall, hletters⟩) opened
        exact hnone' _ _ (by simpa using htake)
      rw [runsOn, runsOn, hends, Bool.and_or_distrib_right, Bool.and_or_distrib_right, hhere,
        Bool.false_or]

/-- The items of two texts with separators between them, where no name goes over these. -/
theorem itemsOf_append_of_not_runsOn (hne : seam ≠ []) (h : IsClosed front)
    (hruns : runsOn front seam rest = false) :
    itemsOf (front ++ (seam ++ rest)) = itemsOf front ++ itemsOf rest := by
  induction h with
  | blank h =>
    have hblank := List.dropWhile_eq_nil_iff.1 (Lexeme.dropWhile_eq_nil_of_next? h)
    rw [itemsOf_append_of_separators hblank, itemsOf_append_of_separators hseam,
      itemsOf_of_blank h, List.nil_append]
  | word h hfront' ih =>
    rcases next?_append_of_word hseam hne h with ⟨hnext, hsame⟩ | ⟨hover, -⟩
    · rw [itemsOf_of_word hnext, itemsOf_of_word h, ih (hsame ▸ hruns), List.cons_append]
    · rw [hover] at hruns
      cases hruns
  | group h hmatch hbehind ih =>
    obtain ⟨rfl, hall⟩ := of_upToMatch? hmatch
    have hnext := Lexeme.next?_append_of_opening h (seam ++ rest)
    rw [List.append_assoc, List.cons_append] at hnext
    rw [itemsOf_of_opening hnext (hall _), itemsOf_of_opening h hmatch,
      ih (runsOn_of_opening h hmatch seam rest ▸ hruns), List.cons_append]

/-- Where a name goes over the separators between two texts, the first call behind them has this
longer name, and all other calls are those of the two texts. -/
theorem callsIn_append_of_runsOn (hne : seam ≠ []) (h : IsClosed front) (hrest : IsClosed rest)
    (hruns : runsOn front seam rest = true) :
    ∃ name name' args later, name.length < name'.length ∧ callsIn rest = ⟨name, args⟩ :: later ∧
      callsIn (front ++ (seam ++ rest)) = callsIn front ++ ⟨name', args⟩ :: later := by
  induction h with
  | blank h =>
    have hblank := List.dropWhile_eq_nil_iff.1 (Lexeme.dropWhile_eq_nil_of_next? h)
    have hends := @endsInName_append_of_separators [] _ hblank
    rw [List.append_nil] at hends
    rw [runsOn, hends] at hruns
    cases hruns
  | @word text letters front' h hfront' ih =>
    rcases @next?_append_of_word _ seam rest hseam _ _ hne h with
      ⟨hnext, hsame⟩ | ⟨-, hplain, name', letters', opened, hnext, rfl, hletters, hlength⟩
    · obtain ⟨name, name', args, later, hlength, hfirst, hcalls⟩ := ih (hsame ▸ hruns)
      exact ⟨name, name', args, later, hlength, hfirst,
        by rw [callsIn_of_word hnext, callsIn_of_word h, hcalls]⟩
    · obtain ⟨name, inside, behind, hle, hmatch, hfirst⟩ := callsIn_of_letters hrest hletters
      refine ⟨name, name', _, callsIn behind, by omega, hfirst, ?_⟩
      rw [callsIn_of_opening hnext hmatch, callsIn_of_isPlain hplain, List.nil_append]
  | group h hmatch hbehind ih =>
    obtain ⟨name, name', args, later, hlength, hfirst, hcalls⟩ :=
      ih (runsOn_of_opening h hmatch seam rest ▸ hruns)
    have hnext := Lexeme.next?_append_of_opening h (seam ++ rest)
    obtain ⟨rfl, hall⟩ := of_upToMatch? hmatch
    rw [List.append_assoc, List.cons_append] at hnext
    refine ⟨name, name', args, later, hlength, hfirst, ?_⟩
    rw [callsIn_of_opening hnext (hall _), callsIn_of_opening h hmatch, hcalls, List.cons_append]

end Seam

/-- **The calls of two values with separators between them** are those of the one and those of the
other, with the same arguments. They are the same altogether exactly where no name goes over the
separators. -/
theorem calls_append_separators {front seam rest : List Char}
    {frontCalls restCalls : List (Call Binary64)} (hfront : calls front = .ok frontCalls)
    (hrest : calls rest = .ok restCalls) (hne : seam ≠ [])
    (hseam : ∀ c ∈ seam, isSeparator c = true) :
    ∃ list, calls (front ++ seam ++ rest) = .ok list ∧
      list.map Call.args = frontCalls.map Call.args ++ restCalls.map Call.args ∧
      (list = frontCalls ++ restCalls ↔ runsOn front seam rest = false) := by
  obtain ⟨hclosed, hbalance, rfl⟩ := of_calls_eq_ok hfront
  obtain ⟨hclosed', hbalance', rfl⟩ := of_calls_eq_ok hrest
  obtain ⟨list, hlist⟩ := calls_eq_ok (balance_append_separators hbalance hseam hbalance')
  have hcalls := (of_calls_eq_ok hlist).2.2
  rw [List.append_assoc] at hcalls
  refine ⟨list, hlist, ?_⟩
  cases hruns : runsOn front seam rest with
  | false =>
    rw [callsIn, itemsOf_append_of_not_runsOn hseam hne hclosed hruns, List.filterMap_append]
      at hcalls
    rw [hcalls]
    exact ⟨List.map_append, iff_of_true rfl rfl⟩
  | true =>
    obtain ⟨name, name', args, later, hlength, hfirst, hover⟩ :=
      callsIn_append_of_runsOn hseam hne hclosed hclosed' hruns
    rw [hcalls, hover, hfirst]
    refine ⟨by simp, iff_of_false (fun heq => ?_) (by simp)⟩
    obtain rfl : name' = name := by simpa using heq
    exact absurd hlength (Nat.lt_irrefl _)

/-- A no-break space behind a group ends nothing, because there is nothing to end. -/
theorem calls_append_separators_group :
    let front := "x scale(2)".toList
    let seam := ['\u00a0']
    let rest := "y\u00a0scale(3, 4)".toList
    let call : Call Binary64 := ⟨"scale".toList, [some (.ofNat false 2)]⟩
    let call' : Call Binary64 :=
      ⟨"y\u00a0scale".toList, [some (.ofNat false 3), some (.ofNat false 4)]⟩
    (calls front = .ok [call] ∧ calls rest = .ok [call'] ∧ seam ≠ [] ∧
      (∀ c ∈ seam, isSeparator c = true)) ∧ calls (front ++ seam ++ rest) = .ok [call, call'] := by
  intro front seam rest call call'
  have hfront : calls front = .ok [call] := by decide +kernel
  have hrest : calls rest = .ok [call'] := by decide +kernel
  have hseam : ∀ c ∈ seam, isSeparator c = true := List.all_eq_true.1 (by decide)
  obtain ⟨list, hlist, -, hiff⟩ := calls_append_separators hfront hrest (by simp [seam]) hseam
  refine ⟨⟨hfront, hrest, by simp [seam], hseam⟩, ?_⟩
  rw [hlist, hiff.2 (by decide)]
  rfl

/-- A no-break space between a word and a call separates nothing: the word, the space and the name
of the call are one name, of no function. -/
theorem not_calls_append_separators :
    ¬∀ (front seam rest : List Char) (frontCalls restCalls : List (Call Binary64)),
      calls front = .ok frontCalls → calls rest = .ok restCalls → seam ≠ [] →
      (∀ c ∈ seam, isSeparator c = true) →
      calls (front ++ seam ++ rest) = .ok (frontCalls ++ restCalls) := by
  intro h
  have hcalls := h ['x'] ['\u00a0'] "scale(2)".toList [] [⟨"scale".toList, [some (.ofNat false 2)]⟩]
    (by decide +kernel) (by decide +kernel) (by simp) (List.all_eq_true.1 (by decide))
  revert hcalls
  decide +kernel

end Value

end CssTransform
