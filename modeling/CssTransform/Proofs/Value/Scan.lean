import CssTransform.Proofs.Value.Lexeme
import CssTransform.Value
import Mathlib.Data.List.Basic

/-!
# Reading in one pass

What the grammar reads with alternatives, a single pass over the lexemes reads without ever going
back: it keeps the groups that are open and the items already found in each of them. The two differ
in what they do with a group that is never closed. The grammar gives the group up and reads its name
again as words, once for every group around it; the pass goes on to the end. They agree in what they
make of a whole value.

## Which choice is load-bearing

The two are compared at every place where the grammar begins a sequence, with the groups that the
pass has open around it. Where the sequence ends without a closing parenthesis, nothing that it
found is kept, and only the text that it ends at counts: it is the text from the parenthesis of the
outermost group that is open.

## Main definitions

* `scanAfter`, `scan` — the pass over the lexemes
* `resume` — how the pass goes on where a sequence has ended

## Main results

* `many_unclosed` — where items end before a group that is never closed
* `scanAfter_eq_resume` — the pass and the grammar agree on every sequence
* `read_eq_scan` — they agree on values
-/

namespace CssTransform

namespace Value

open Text (of_mem_takeWhile length_dropWhile_le dropWhile_append_cons_of_neg
  eq_false_of_dropWhile_eq_cons)

/-! ### The pass -/

/-- A group that is still open. -/
structure OpenGroup where
  name : List Char
  /-- The text from its parenthesis on. -/
  opened : List Char
  /-- The items before it in the sequence that it belongs to, last first. -/
  before : List Item

/-- The text from the parenthesis of the outermost open group on, or the given text if no group is
open. -/
def outermost (text : List Char) : List OpenGroup → List Char
  | [] => text
  | group :: groups => outermost group.opened groups

/-- The items of a sequence of lexemes, given the open groups, the innermost first, and the items
already found in the innermost one, last first. -/
def scanAfter : List OpenGroup → List Item → List Lexeme → Except ReadError (List Item)
  | [], found, [] => .ok found.reverse
  | group :: groups, _, [] => .error (.unclosed (outermost group.opened groups))
  | groups, found, .word text :: rest => scanAfter groups (.word text :: found) rest
  | groups, found, .opening name text :: rest =>
    if groups.length < maxNesting then scanAfter (⟨name, text, found⟩ :: groups) [] rest
    else .error .tooDeep
  | [], _, .closing :: _ => .error .unbalanced
  | group :: groups, found, .closing :: rest =>
    scanAfter groups (.group group.name found.reverse :: group.before) rest

/-- The items of a value, read in one pass. -/
def scan (text : List Char) : Except ReadError (List Item) := scanAfter [] [] (Lexeme.all text)

/-! ### Parsers that make progress -/

section Parsers

variable {α : Type} {parser first second : List Char → Attempt α} {found : List α}
  {text rest : List Char} {value : α}

/-- A parser that never leaves as much text as it was given. -/
def Progresses (parser : List Char → Attempt α) : Prop :=
  ∀ text value rest, parser text = .taken value rest → rest.length < text.length

theorem many_of_mismatch (h : parser text = .mismatch) :
    many parser found text = .taken found.reverse text := by
  rw [many, h]

theorem many_of_tooDeep (h : parser text = .tooDeep) : many parser found text = .tooDeep := by
  rw [many, h]

theorem many_of_taken (h : parser text = .taken value rest) (hlt : rest.length < text.length) :
    many parser found text = many parser (value :: found) rest := by
  rw [many, h]
  exact if_pos hlt

theorem many_of_progresses (h : Progresses parser) (found : List α) (text : List Char) :
    many parser found text = .tooDeep ∨
      ∃ values rest, many parser found text = .taken values rest ∧ rest.length ≤ text.length := by
  generalize hn : text.length = n
  induction n using Nat.strongRecOn generalizing found text with
  | ind n ih =>
    cases hparser : parser text with
    | mismatch => exact .inr ⟨_, _, many_of_mismatch hparser, Nat.le_of_eq hn⟩
    | tooDeep => exact .inl (many_of_tooDeep hparser)
    | taken value rest =>
      have hlt := h _ _ _ hparser
      rw [many_of_taken hparser hlt]
      rcases ih rest.length (hn ▸ hlt) (value :: found) rest rfl with
        hdeep | ⟨values, rest', h, hle⟩
      · exact .inl hdeep
      · exact .inr ⟨values, rest', h, by omega⟩

theorem Progresses.spaced (h : Progresses parser) : Progresses (Value.spaced parser) :=
  fun text value rest htaken =>
    Nat.lt_of_lt_of_le (h _ value rest htaken) (length_dropWhile_le isSeparator text)

/-- A sequence of what makes progress ends somewhere, unless it is too deep. -/
theorem sequence_of_progresses (h : Progresses parser) (text : List Char) :
    sequence parser text = .tooDeep ∨
      ∃ values rest, sequence parser text = .taken values rest ∧ rest.length ≤ text.length := by
  rcases many_of_progresses h.spaced [] text with hdeep | ⟨values, rest, htaken, hle⟩
  · exact .inl (by rw [sequence, hdeep]; rfl)
  · refine .inr ⟨values, rest.dropWhile isSeparator, by rw [sequence, htaken]; rfl, ?_⟩
    exact Nat.le_trans (length_dropWhile_le isSeparator rest) hle

theorem either_of_mismatch (h : first text = .mismatch) :
    either first second text = second text := by
  rw [either, h]

theorem either_of_taken (h : first text = .taken value rest) :
    either first second text = .taken value rest := by
  rw [either, h]

theorem either_of_tooDeep (h : first text = .tooDeep) : either first second text = .tooDeep := by
  rw [either, h]

theorem Progresses.either (hfirst : Progresses first) (hsecond : Progresses second) :
    Progresses (Value.either first second) := by
  intro text value rest htaken
  cases h : first text with
  | mismatch =>
    rw [either_of_mismatch h] at htaken
    exact hsecond _ _ _ htaken
  | tooDeep =>
    rw [either_of_tooDeep h] at htaken
    cases htaken
  | taken value' rest' =>
    rw [either_of_taken h] at htaken
    cases htaken
    exact hfirst _ _ _ h

end Parsers

/-! ### Words and groups -/

section Items

variable {inside : List Char → Attempt (List Item)} {name opened rest : List Char}

theorem word_cons {c : Char} (h : isWordChar c = true) (text : List Char) :
    word (c :: text) =
      .taken (.word (c :: text.takeWhile isWordChar)) (text.dropWhile isWordChar) := by
  rw [word, List.takeWhile_cons_of_pos h, List.dropWhile_cons_of_pos h]

theorem word_of_not_isWordChar {text : List Char} (h : ∀ c ∈ text.head?, isWordChar c = false) :
    word text = .mismatch := by
  cases text with
  | nil => rfl
  | cons c text => rw [word, List.takeWhile_cons_of_neg (by simp [h c rfl])]

theorem progresses_word : Progresses word := by
  intro text value rest h
  cases text with
  | nil => cases h
  | cons c text =>
    cases hc : isWordChar c with
    | false =>
      rw [word_of_not_isWordChar (fun d hd => by rw [← Option.some.inj hd]; exact hc)] at h
      cases h
    | true =>
      rw [word_cons hc] at h
      cases h
      exact Nat.lt_succ_of_le (length_dropWhile_le isWordChar text)

/-- A group is tried where a parenthesis follows a name. -/
theorem group_of_opening {text : List Char} (h : takeName text = (name, '(' :: opened)) :
    group inside text =
      match inside opened with
      | .taken items (')' :: rest) => .taken (.group name items) rest
      | .tooDeep => .tooDeep
      | _ => .mismatch := by
  rw [group, h]
  rfl

theorem group_of_not_opening {text : List Char}
    (h : ∀ name opened, takeName text ≠ (name, '(' :: opened)) : group inside text = .mismatch := by
  rw [group]
  split
  · next name opened heq => exact absurd heq (h name opened)
  · rfl

theorem progresses_group
    (h : ∀ text items rest, inside text = .taken items rest → rest.length ≤ text.length) :
    Progresses (group inside) := by
  intro text value rest htaken
  have hlength := congrArg List.length (takeName_append text)
  rw [group] at htaken
  split at htaken
  · next name opened hname =>
    rw [hname, List.length_append, List.length_cons] at hlength
    split at htaken
    · next items rest' hinside =>
      cases htaken
      have hle := h _ _ _ hinside
      rw [List.length_cons] at hle
      omega
    · cases htaken
    · cases htaken
  · cases htaken

theorem progresses_node (room : Nat) : Progresses (node room) := by
  induction room with
  | zero => exact (progresses_group fun _ _ _ h => by cases h).either progresses_word
  | succ room ih =>
    refine (progresses_group fun text items rest h => ?_).either progresses_word
    rcases sequence_of_progresses ih text with hdeep | ⟨items', rest', htaken, hle⟩
    · rw [hdeep] at h
      cases h
    · rw [htaken] at h
      cases h
      exact hle

/-! ### Groups that are never closed -/

/-- Whether a group is given up has nothing to do with its name. -/
theorem group_mismatch_of_opening {text : List Char}
    (h : group inside ('(' :: opened) = .mismatch) (htext : takeName text = (name, '(' :: opened)) :
    group inside text = .mismatch := by
  have hempty : takeName ('(' :: opened) = ([], '(' :: opened) := rfl
  rw [group_of_opening hempty] at h
  rw [group_of_opening htext]
  split at h
  · cases h
  · cases h
  · rfl

theorem group_of_not_closed {items : List Item} (h : inside opened = .taken items rest)
    (hrest : ∀ rest', rest ≠ ')' :: rest') : group inside ('(' :: opened) = .mismatch := by
  have hempty : takeName ('(' :: opened) = ([], '(' :: opened) := rfl
  rw [group_of_opening hempty, h]
  split
  · next rest' heq =>
    cases heq
    exact absurd rfl (hrest rest')
  · next heq => cases heq
  · rfl

/-- A name that begins in front of a group that is given up makes no difference to it. -/
theorem group_mismatch_append {front : List Char} (hfront : ∀ c ∈ front, IsPlain c)
    (h : group inside ('(' :: opened) = .mismatch) :
    group inside (front ++ '(' :: opened) = .mismatch := by
  by_cases hname : ∃ name opened', takeName (front ++ '(' :: opened) = (name, '(' :: opened')
  · obtain ⟨name, opened', hname⟩ := hname
    have happend := takeName_append (front ++ '(' :: opened)
    have hplain : ∀ c ∈ name, IsPlain c := fun c hc => by
      have hmem : c ∈ (takeName (front ++ '(' :: opened)).1 := by rw [hname]; exact hc
      exact isPlain_of_mem_takeName hmem
    rw [hname] at happend
    -- both sides are cut at their first opening parenthesis
    have hdrop := congrArg (List.dropWhile (· != '(')) happend
    rw [List.dropWhile_append_of_pos (by simpa using fun c hc => (hplain c hc).1),
      List.dropWhile_append_of_pos (by simpa using fun c hc => (hfront c hc).1)] at hdrop
    obtain rfl : opened' = opened := by simpa using hdrop
    exact group_mismatch_of_opening h hname
  · exact group_of_not_opening fun name opened' heq => hname ⟨name, opened', heq⟩

/-- Where no group can be read, a word is one more item. -/
theorem many_of_word {text tail : List Char} {c : Char}
    (hdrop : text.dropWhile isSeparator = c :: tail) (hc : isWordChar c = true)
    (h : group inside (c :: tail) = .mismatch) (found : List Item) :
    many (spaced (either (group inside) word)) found text =
      many (spaced (either (group inside) word)) (.word (c :: tail.takeWhile isWordChar) :: found)
        (tail.dropWhile isWordChar) := by
  have hseparators := length_dropWhile_le isSeparator text
  have hletters := length_dropWhile_le isWordChar tail
  rw [hdrop, List.length_cons] at hseparators
  have hparser : spaced (either (group inside) word) text =
      .taken (.word (c :: tail.takeWhile isWordChar)) (tail.dropWhile isWordChar) := by
    rw [spaced, hdrop, either_of_mismatch h, word_cons hc]
  rw [many_of_taken hparser (by omega)]

/-- Items end at the parenthesis of a group that is given up, whatever stands between. -/
theorem many_unclosed (h : group inside ('(' :: opened) = .mismatch) {front : List Char}
    (hfront : ∀ c ∈ front, IsPlain c) (found : List Item) :
    ∃ items,
      (many (spaced (either (group inside) word)) found
        (front ++ '(' :: opened)).skipSeparators = .taken items ('(' :: opened) := by
  generalize hn : front.length = n
  induction n using Nat.strongRecOn generalizing front found with
  | ind n ih =>
    have hskip : (front ++ '(' :: opened).dropWhile isSeparator =
        front.dropWhile isSeparator ++ '(' :: opened :=
      dropWhile_append_cons_of_neg (by decide) front opened
    have hplain : ∀ c ∈ front.dropWhile isSeparator, IsPlain c := fun c hc =>
      hfront c ((List.dropWhile_sublist _).subset hc)
    cases hdrop : front.dropWhile isSeparator with
    | nil =>
      rw [hdrop, List.nil_append] at hskip
      have hword : word ('(' :: opened) = .mismatch := rfl
      refine ⟨found.reverse, ?_⟩
      rw [many_of_mismatch (by rw [spaced, hskip, either_of_mismatch h, hword]),
        Attempt.skipSeparators, hskip]
    | cons c tail =>
      rw [hdrop] at hskip hplain
      rw [List.cons_append] at hskip
      have hc : isWordChar c = true := by
        obtain ⟨hopen, hclose⟩ := hplain c List.mem_cons_self
        simp [isWordChar, eq_false_of_dropWhile_eq_cons hdrop, hopen, hclose]
      have hlength := length_dropWhile_le isSeparator front
      have hlength' := length_dropWhile_le isWordChar tail
      rw [hdrop, List.length_cons] at hlength
      obtain ⟨items, hitems⟩ := @ih (tail.dropWhile isWordChar).length (by omega)
        (tail.dropWhile isWordChar)
        (fun d hd => hplain d (List.mem_cons_of_mem c ((List.dropWhile_sublist _).subset hd)))
        (.word (c :: (tail ++ '(' :: opened).takeWhile isWordChar) :: found) rfl
      have hrest : (tail ++ '(' :: opened).dropWhile isWordChar =
          tail.dropWhile isWordChar ++ '(' :: opened :=
        dropWhile_append_cons_of_neg (by decide) tail opened
      refine ⟨items, ?_⟩
      rw [many_of_word hskip hc (group_mismatch_append hplain h), hrest, hitems]

/-- The same where such a group comes next. -/
theorem many_of_unclosed_opening {text tail : List Char} {c : Char}
    (hdrop : text.dropWhile isSeparator = c :: tail)
    (hname : takeName (c :: tail) = (name, '(' :: opened))
    (h : group inside ('(' :: opened) = .mismatch) (found : List Item) :
    ∃ items, (many (spaced (either (group inside) word)) found text).skipSeparators =
      .taken items ('(' :: opened) := by
  have happend := takeName_append (c :: tail)
  rw [hname] at happend
  have htext : text = (text.takeWhile isSeparator ++ name) ++ '(' :: opened := by
    rw [List.append_assoc, happend, ← hdrop, List.takeWhile_append_dropWhile]
  have hplain : ∀ d ∈ text.takeWhile isSeparator ++ name, IsPlain d := by
    intro d hd
    rcases List.mem_append.1 hd with hd | hd
    · exact isPlain_of_isSeparator (of_mem_takeWhile hd)
    · exact @isPlain_of_mem_takeName (c :: tail) d (by rw [hname]; exact hd)
  rw [htext]
  exact many_unclosed h hplain found

end Items

/-! ### The pass and the grammar -/

/-- How the pass goes on where a sequence has ended. -/
def resume (groups : List OpenGroup) : Attempt (List Item) → Except ReadError (List Item)
  | .taken items [] => scanAfter groups items.reverse []
  | .taken items (')' :: rest) => scanAfter groups items.reverse (.closing :: Lexeme.all rest)
  | .taken _ rest => .error (.unclosed (outermost rest groups))
  | .mismatch => .error .unbalanced
  | .tooDeep => .error .tooDeep

/-- A sequence in a group that ends without a closing parenthesis: only the groups that are open
count. -/
theorem resume_of_not_closed {g : OpenGroup} {groups : List OpenGroup} {items : List Item}
    {rest : List Char} (h : ∀ rest', rest ≠ ')' :: rest') :
    resume (g :: groups) (.taken items rest) = .error (.unclosed (outermost g.opened groups)) := by
  simp only [resume]
  split
  · next heq =>
    cases heq
    rfl
  · next rest' heq =>
    cases heq
    exact absurd rfl (h rest')
  · next heq =>
    cases heq
    rfl
  · next heq => cases heq
  · next heq => cases heq

/-- The pass and the grammar agree on a sequence if they do on the insides of the groups in it. -/
theorem scanAfter_eq_resume_of_inside {inside : List Char → Attempt (List Item)}
    {groups : List OpenGroup}
    (hinside : ∀ text, inside text = .tooDeep ∨
      ∃ items rest, inside text = .taken items rest ∧ rest.length ≤ text.length)
    (hopening : ∀ found name opened,
      scanAfter groups found (.opening name ('(' :: opened) :: Lexeme.all opened) =
        resume (⟨name, '(' :: opened, found⟩ :: groups) (inside opened))
    (found : List Item) (text : List Char) :
    scanAfter groups found (Lexeme.all text) =
      resume groups (many (spaced (either (group inside) word)) found text).skipSeparators := by
  generalize hn : text.length = n
  induction n using Nat.strongRecOn generalizing found text with
  | ind n ih =>
    have hlength := length_dropWhile_le isSeparator text
    cases hdrop : text.dropWhile isSeparator with
    | nil =>
      have hnext : Lexeme.next? text = none := by rw [Lexeme.next?, hdrop]
      rw [Lexeme.all_eq, hnext, many_of_mismatch (by rw [spaced, hdrop]; rfl),
        Attempt.skipSeparators, hdrop, resume, List.reverse_reverse]
    | cons c tail =>
      rw [hdrop, List.length_cons] at hlength
      by_cases hc : c = ')'
      · rw [hc] at hdrop
        rw [Lexeme.all_of_closing hdrop, many_of_mismatch (by rw [spaced, hdrop]; rfl),
          Attempt.skipSeparators, hdrop, resume, List.reverse_reverse]
      by_cases hname : ∃ name opened, takeName (c :: tail) = (name, '(' :: opened)
      · obtain ⟨name, opened, hname⟩ := hname
        have happend := takeName_append (c :: tail)
        rw [hname] at happend
        have hopened := congrArg List.length happend
        rw [List.length_append, List.length_cons, List.length_cons] at hopened
        rw [Lexeme.all_of_opening hdrop hc hname, hopening]
        have hgroup := @group_of_opening inside name opened _ hname
        rcases hinside opened with hdeep | ⟨items, rest, htaken, hle⟩
        · rw [hdeep] at hgroup ⊢
          rw [many_of_tooDeep (by rw [spaced, hdrop, either_of_tooDeep hgroup])]
          rfl
        by_cases hclosed : ∃ rest', rest = ')' :: rest'
        · obtain ⟨rest', rfl⟩ := hclosed
          rw [List.length_cons] at hle
          rw [htaken] at hgroup ⊢
          rw [many_of_taken (by rw [spaced, hdrop, either_of_taken hgroup]) (by omega), resume,
            scanAfter, List.reverse_reverse, ih rest'.length (by omega) _ rest' rfl]
        · -- the group is given up, and the sequence ends at its parenthesis
          have hopen : ∀ rest', rest ≠ ')' :: rest' := fun rest' heq => hclosed ⟨rest', heq⟩
          obtain ⟨items', hitems⟩ :=
            many_of_unclosed_opening hdrop hname (group_of_not_closed htaken hopen) found
          rw [htaken, resume_of_not_closed hopen, hitems]
          rfl
      · have hnone : ∀ name opened, takeName (c :: tail) ≠ (name, '(' :: opened) :=
          fun name opened heq => hname ⟨name, opened, heq⟩
        have hchar : isWordChar c = true := by
          have hopen : c ≠ '(' := by
            rintro rfl
            exact hnone [] tail rfl
          simp [isWordChar, eq_false_of_dropWhile_eq_cons hdrop, hopen, hc]
        have hword := length_dropWhile_le isWordChar tail
        rw [Lexeme.all_of_word hdrop hc hnone,
          many_of_word hdrop hchar (group_of_not_opening hnone)]
        cases groups with
        | nil => exact ih _ (by omega) _ _ rfl
        | cons g groups => exact ih _ (by omega) _ _ rfl

/-- **The pass and the grammar agree on every sequence**, with as many groups open around it as
leave room for those that the grammar may still open. -/
theorem scanAfter_eq_resume (room : Nat) (groups : List OpenGroup) (found : List Item)
    (text : List Char) (hroom : groups.length + room = maxNesting) :
    scanAfter groups found (Lexeme.all text) =
      resume groups (many (spaced (node room)) found text).skipSeparators := by
  induction room generalizing groups found text with
  | zero =>
    refine scanAfter_eq_resume_of_inside (fun text => .inl rfl) (fun found name opened => ?_) found
      text
    rw [scanAfter, if_neg (by omega)]
    rfl
  | succ room ih =>
    refine scanAfter_eq_resume_of_inside (sequence_of_progresses (progresses_node room))
      (fun found name opened => ?_) found text
    rw [scanAfter, if_pos (by omega), ih _ [] opened (by rw [List.length_cons]; omega)]
    rfl

/-- **A value is read as by the pass.** -/
theorem read_eq_scan (text : List Char) : read text = scan text := by
  have hscan : scan text = resume [] (sequence (node maxNesting) text) :=
    scanAfter_eq_resume maxNesting [] [] text rfl
  rw [hscan, read]
  rcases sequence_of_progresses (progresses_node maxNesting) text with
    hdeep | ⟨items, rest, htaken, -⟩
  · rw [hdeep]
    rfl
  · rw [htaken]
    match rest with
    | [] => rw [resume, scanAfter, List.reverse_reverse]
    | c :: rest =>
      by_cases hc : c = ')'
      · rw [hc]
        rfl
      · have hopen : ∀ rest', c :: rest ≠ ')' :: rest' := fun rest' heq => hc (List.cons.inj heq).1
        have hrest : ReadError.ofRest (c :: rest) = .unclosed (c :: rest) := by
          rw [ReadError.ofRest]
          exact hopen
        rw [resume]
        · exact congrArg Except.error hrest
        · exact List.cons_ne_nil c rest
        · exact hopen

end Value

end CssTransform
