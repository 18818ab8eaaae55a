import CssTransform.Proofs.Conversion
import CssTransform.Proofs.Value.Balance

/-!
# Comments in a transform value

The reader of values knows no comments. A comment is text to it like any other: its two slashes
separate, and what stands between them is read. Without parentheses that is words, and where the
words stand decides whether they count. Outside of every group and inside of a group in a group they
do not. Directly inside of a call each of them is an argument.

## Which choice is load-bearing

Two values that differ in such a text are passed over side by side, and what is compared of the
items found so far depends on how many groups are open around them. Of lexemes the text that an
opening keeps is left out, because it reaches to the end of the value.

## Main definitions

* `Value.arguments` — the arguments of a call with that text between its parentheses
* `Value.SameItems`, `Value.SameGroups` — items and open groups that come to the same calls

## Main results

* `Value.Lexeme.map_bare_all_append` — a slash cuts a text in two for lexemes
* `Value.toOption_calls_append` — the calls of a value, with plain text between two slashes
* `convert_eq_of_toOption_calls` — values with the same calls have the same conversion
-/

namespace CssTransform

namespace Value

open Text (takeWhile_append_cons_of_neg dropWhile_append_cons_of_neg
  length_dropWhile_le)

/-! ### Lexemes up to a slash -/

namespace Lexeme

/-- A lexeme without the text that it keeps for a message. -/
def bare : Lexeme → Lexeme
  | opening name _ => opening name []
  | closing => closing
  | word text => word text

/-- A slash separates, so the lexemes on both sides of it are found apart. -/
theorem map_bare_all_append (front rest : List Char) :
    (all (front ++ '/' :: rest)).map bare = (all front).map bare ++ (all rest).map bare := by
  generalize hn : front.length = n
  induction n using Nat.strongRecOn generalizing front with
  | ind n ih =>
    have hlength := length_dropWhile_le isSeparator front
    cases hdrop : front.dropWhile isSeparator with
    | nil =>
      have hnone : all front = [] := by rw [all_eq, next?, hdrop]
      have hskip : next? (front ++ '/' :: rest) = next? rest := by
        have hall := List.dropWhile_eq_nil_iff.1 hdrop
        rw [next?, List.dropWhile_append_of_pos hall, List.dropWhile_cons_of_pos (by decide)]
        rfl
      rw [hnone, all_eq, hskip, ← all_eq]
      rfl
    | cons c tail =>
      have hskip : (front ++ '/' :: rest).dropWhile isSeparator = c :: (tail ++ '/' :: rest) := by
        rw [List.dropWhile_append, hdrop]
        rfl
      rw [hdrop, List.length_cons] at hlength
      by_cases hc : c = ')'
      · subst hc
        rw [all_of_closing hdrop, all_of_closing hskip, List.map_cons, List.map_cons,
          ih _ (by omega) tail rfl, List.cons_append]
      have htake := takeName_append_cons_of_neg (d := '/') (by decide) (c :: tail) rest
      rw [List.cons_append] at htake
      by_cases hname : ∃ name opened, takeName (c :: tail) = (name, '(' :: opened)
      · obtain ⟨name, opened, hname⟩ := hname
        have hopened := congrArg List.length (takeName_append (c :: tail))
        rw [hname, List.length_append, List.length_cons, List.length_cons] at hopened
        rw [hname, List.cons_append] at htake
        rw [all_of_opening hdrop hc hname, all_of_opening hskip hc htake, List.map_cons,
          List.map_cons, ih _ (by dsimp only at hopened; omega) opened rfl, List.cons_append]
        rfl
      · have hnone : ∀ name opened, takeName (c :: tail) ≠ (name, '(' :: opened) :=
          fun name opened h => hname ⟨name, opened, h⟩
        have hnone' := takeName_append_ne_opening (d := '/') (by decide) (by decide) hnone rest
        have hslash : isWordChar '/' = false := by decide
        have hword := length_dropWhile_le isWordChar tail
        rw [all_of_word hdrop hc hnone, all_of_word hskip hc hnone',
          takeWhile_append_cons_of_neg hslash, dropWhile_append_cons_of_neg hslash, List.map_cons,
          List.map_cons, ih _ (by omega) _ rfl, List.cons_append]

/-- A text without parentheses is made of words. -/
theorem exists_all_eq_map_word {text : List Char} (h : ∀ c ∈ text, IsPlain c) :
    ∃ words : List (List Char), all text = words.map word := by
  generalize hn : text.length = n
  induction n using Nat.strongRecOn generalizing text with
  | ind n ih =>
    cases hnext : next? text with
    | none => exact ⟨[], by rw [all_eq, hnext]; rfl⟩
    | some next =>
      obtain ⟨l, rest⟩ := next
      have hlt : rest.length < n := hn ▸ length_of_next? hnext
      obtain ⟨front, -, hform⟩ := next?_cases hnext
      cases l with
      | opening name opened =>
        obtain ⟨rfl, rfl⟩ := hform
        exact absurd rfl (h '(' (by simp)).1
      | closing =>
        dsimp only at hform
        subst hform
        exact absurd rfl (h ')' (by simp)).2
      | word text' =>
        dsimp only at hform
        subst hform
        obtain ⟨words, hwords⟩ :=
          ih _ hlt (fun c hc => h c (List.mem_append_right front hc)) rfl
        exact ⟨text' :: words, by rw [all_of_next? hnext, hwords]; rfl⟩

/-- Whether a lexeme opens a group. -/
def isOpening : Lexeme → Bool
  | opening _ _ => true
  | _ => false

/-- Whether a lexeme closes a group. -/
def isClosing : Lexeme → Bool
  | closing => true
  | _ => false

theorem count_of_isPlain {front : List Char} (h : ∀ c ∈ front, IsPlain c) :
    front.count '(' = 0 ∧ front.count ')' = 0 :=
  ⟨List.count_eq_zero.2 fun hmem => (h _ hmem).1 rfl,
    List.count_eq_zero.2 fun hmem => (h _ hmem).2 rfl⟩

/-- Every parenthesis of a text is in a lexeme of its own. -/
theorem countP_all (text : List Char) :
    (all text).countP isOpening = text.count '(' ∧
      (all text).countP isClosing = text.count ')' := by
  generalize hn : text.length = n
  induction n using Nat.strongRecOn generalizing text with
  | ind n ih =>
    cases hnext : next? text with
    | none =>
      obtain ⟨hopen, hclose⟩ := count_of_isPlain (next?_eq_none hnext)
      rw [all_eq, hnext, hopen, hclose]
      exact ⟨rfl, rfl⟩
    | some next =>
      obtain ⟨l, rest⟩ := next
      obtain ⟨front, hfront, hform⟩ := next?_cases hnext
      obtain ⟨hopen, hclose⟩ := count_of_isPlain hfront
      obtain ⟨ihopen, ihclose⟩ := ih _ (hn ▸ length_of_next? hnext) rest rfl
      rw [all_of_next? hnext, List.countP_cons, List.countP_cons, ihopen, ihclose]
      cases l with
      | opening name opened =>
        obtain ⟨rfl, rfl⟩ := hform
        simp [hopen, hclose, isOpening, isClosing]
      | closing =>
        dsimp only at hform
        subst hform
        simp [hopen, hclose, isOpening, isClosing]
      | word text' =>
        dsimp only at hform
        subst hform
        simp [hopen, hclose, isOpening, isClosing]

end Lexeme

/-! ### Passes side by side -/

/-- Items with so many groups open around them that come to the same calls: outside of every group
only calls count, directly inside of one only arguments, and further in nothing does. -/
def SameItems : Nat → List Item → List Item → Prop
  | 0, items, items' => items.filterMap Item.call? = items'.filterMap Item.call?
  | 1, items, items' => items.map Item.argument = items'.map Item.argument
  | _ + 2, _, _ => True

namespace SameItems

variable {depth : Nat} {items items' found found' : List Item}

theorem refl (depth : Nat) (items : List Item) : SameItems depth items items := by
  match depth with
  | 0 => exact Eq.refl (items.filterMap Item.call?)
  | 1 => exact Eq.refl (items.map Item.argument)
  | depth + 2 => trivial

theorem cons (h : SameItems depth items items') (item : Item) :
    SameItems depth (item :: items) (item :: items') := by
  match depth with
  | 0 =>
    change items.filterMap Item.call? = items'.filterMap Item.call? at h
    change (item :: items).filterMap Item.call? = (item :: items').filterMap Item.call?
    rw [List.filterMap_cons, List.filterMap_cons, h]
  | 1 => exact congrArg (item.argument :: ·) h
  | depth + 2 => trivial

/-- A group that closes is an item of the group around it. -/
theorem group (name : List Char) (hfound : SameItems (depth + 1) found found')
    (h : SameItems depth items items') :
    SameItems depth (.group name found.reverse :: items)
      (.group name found'.reverse :: items') := by
  match depth with
  | 0 =>
    have hargs : found.reverse.map Item.argument = found'.reverse.map Item.argument := by
      rw [List.map_reverse, List.map_reverse]
      exact congrArg List.reverse hfound
    have hcons : ∀ inside items : List Item,
        (Item.group name inside :: items).filterMap Item.call? =
          ⟨name, inside.map Item.argument⟩ :: items.filterMap Item.call? := fun _ _ => rfl
    change items.filterMap Item.call? = items'.filterMap Item.call? at h
    change List.filterMap Item.call? _ = List.filterMap Item.call? _
    rw [hcons, hcons, hargs, h]
  | 1 => exact congrArg (none :: ·) h
  | depth + 2 => trivial

end SameItems

/-- Open groups whose items so far come to the same calls. -/
inductive SameGroups : List OpenGroup → List OpenGroup → Prop
  | nil : SameGroups [] []
  | cons {g g' : OpenGroup} {gs gs' : List OpenGroup} (hname : g.name = g'.name)
      (hbefore : SameItems gs.length g.before g'.before) (h : SameGroups gs gs') :
      SameGroups (g :: gs) (g' :: gs')

theorem SameGroups.refl (gs : List OpenGroup) : SameGroups gs gs := by
  induction gs with
  | nil => exact .nil
  | cons g gs ih => exact .cons rfl (.refl _ _) ih

theorem SameGroups.length_eq {gs gs' : List OpenGroup} (h : SameGroups gs gs') :
    gs.length = gs'.length := by
  induction h with
  | nil => rfl
  | cons hname hbefore h ih => rw [List.length_cons, List.length_cons, ih]

/-- The calls that a pass comes to, if it comes to its end. -/
def callsAfter (groups : List OpenGroup) (found : List Item) (lexemes : List Lexeme) :
    Option (List (Call Binary64)) :=
  (scanAfter groups found lexemes).toOption.map (List.filterMap Item.call?)

/-- Passes over the same lexemes come to the same calls if what they have found so far does. -/
theorem callsAfter_congr {groups groups' : List OpenGroup} {found found' : List Item}
    {lexemes lexemes' : List Lexeme} (hgroups : SameGroups groups groups')
    (hfound : SameItems groups.length found found')
    (hlexemes : lexemes.map Lexeme.bare = lexemes'.map Lexeme.bare) :
    callsAfter groups found lexemes = callsAfter groups' found' lexemes' := by
  induction lexemes generalizing groups groups' found found' lexemes' with
  | nil =>
    obtain rfl := List.map_eq_nil_iff.1 hlexemes.symm
    cases hgroups with
    | nil =>
      have hcalls : found.filterMap Item.call? = found'.filterMap Item.call? := hfound
      change some (found.reverse.filterMap Item.call?) = some (found'.reverse.filterMap Item.call?)
      rw [List.filterMap_reverse, List.filterMap_reverse, hcalls]
    | cons hname hbefore h => rfl
  | cons l rest ih =>
    obtain ⟨l', rest', rfl⟩ : ∃ l' rest', lexemes' = l' :: rest' := by
      cases lexemes' with
      | nil => cases hlexemes
      | cons l' rest' => exact ⟨l', rest', rfl⟩
    obtain ⟨hl, hrest⟩ := List.cons.inj hlexemes
    cases l with
    | word text =>
      cases l' with
      | word text' =>
        obtain rfl : text = text' := Lexeme.word.inj hl
        have hsame := ih hgroups (hfound.cons (.word text)) hrest
        rw [callsAfter, callsAfter, scanAfter, scanAfter]
        exact hsame
      | opening name' text' => cases hl
      | closing => cases hl
    | opening name text =>
      cases l' with
      | opening name' text' =>
        obtain rfl : name = name' := (Lexeme.opening.inj hl).1
        rw [callsAfter, callsAfter, scanAfter, scanAfter, ← hgroups.length_eq]
        split
        · exact ih (.cons rfl hfound hgroups) (.refl _ []) hrest
        · rfl
      | word text' => cases hl
      | closing => cases hl
    | closing =>
      cases l' with
      | closing =>
        cases hgroups with
        | nil => rfl
        | @cons g g' gs gs' hname hbefore h =>
          rw [callsAfter, callsAfter, scanAfter, scanAfter, ← hname]
          exact ih h (.group g.name hfound hbefore) hrest
      | word text' => cases hl
      | opening name' text' => cases hl

theorem sameItems_words (depth : Nat) {words words' : List (List Char)} (found : List Item)
    (h : depth ≠ 1 ∨ words.map leadingNumber = words'.map leadingNumber) :
    SameItems depth ((words.map .word).reverse ++ found) ((words'.map .word).reverse ++ found) := by
  match depth with
  | 0 =>
    have hnone : ∀ words : List (List Char),
        (words.map Item.word).reverse.filterMap Item.call? = [] := by
      refine fun words => List.filterMap_eq_nil_iff.2 fun item hitem => ?_
      obtain ⟨word, -, rfl⟩ := List.mem_map.1 (List.mem_reverse.1 hitem)
      rfl
    change List.filterMap Item.call? _ = List.filterMap Item.call? _
    rw [List.filterMap_append, List.filterMap_append, hnone, hnone]
  | 1 =>
    have hargs := h.resolve_left fun hne => hne rfl
    change List.map Item.argument _ = List.map Item.argument _
    rw [List.map_append, List.map_append, List.map_reverse, List.map_reverse, List.map_map,
      List.map_map]
    exact congrArg (·.reverse ++ found.map Item.argument) hargs
  | depth + 2 => trivial

/-- Words that come after some lexemes count only if exactly one group is open there. -/
theorem callsAfter_words (groups : List OpenGroup) (found : List Item) (front : List Lexeme)
    {words words' : List (List Char)} {rest rest' : List Lexeme}
    (hrest : rest.map Lexeme.bare = rest'.map Lexeme.bare)
    (h : groups.length + front.countP Lexeme.isOpening ≠ front.countP Lexeme.isClosing + 1 ∨
      words.map leadingNumber = words'.map leadingNumber) :
    callsAfter groups found (front ++ (words.map .word ++ rest)) =
      callsAfter groups found (front ++ (words'.map .word ++ rest')) := by
  induction front generalizing groups found with
  | nil =>
    rw [List.nil_append, List.nil_append, callsAfter, callsAfter, scanAfter_words,
      scanAfter_words]
    exact callsAfter_congr (.refl groups) (sameItems_words _ found (by simpa using h)) hrest
  | cons l front ih =>
    rw [List.countP_cons, List.countP_cons] at h
    rw [List.cons_append, List.cons_append, callsAfter, callsAfter]
    cases l with
    | word text =>
      rw [scanAfter, scanAfter]
      exact ih groups _ h
    | opening name text =>
      rw [scanAfter, scanAfter]
      split
      · refine ih _ [] ?_
        simp only [Lexeme.isOpening, Lexeme.isClosing, if_true, List.length_cons] at h ⊢
        simpa [Nat.add_comm, Nat.add_left_comm, Nat.add_assoc] using h
      · rfl
    | closing =>
      cases groups with
      | nil => rfl
      | cons g groups =>
        rw [scanAfter, scanAfter]
        refine ih groups _ ?_
        simp only [Lexeme.isOpening, Lexeme.isClosing, if_true, List.length_cons] at h ⊢
        refine h.imp_left fun hne heq => hne ?_
        simp
        omega

/-! ### Values -/

/-- The arguments of a call with that text between its parentheses. -/
def arguments (text : List Char) : Except ReadError (List (Option Binary64)) :=
  (read text).map (List.map Item.argument)

theorem arguments_of_all {text : List Char} {words : List (List Char)}
    (h : Lexeme.all text = words.map .word) : arguments text = .ok (words.map leadingNumber) := by
  have hwords := scanAfter_words [] [] words []
  rw [List.append_nil, List.append_nil] at hwords
  rw [arguments, read_eq_scan, scan, h, hwords, scanAfter, List.reverse_reverse]
  exact congrArg Except.ok (List.map_map ..)

theorem toOption_calls (text : List Char) :
    (calls text).toOption = callsAfter [] [] (Lexeme.all text) := by
  rw [calls, read_eq_scan, scan, callsAfter]
  cases scanAfter [] [] (Lexeme.all text) <;> rfl

/-- **The calls of a value with plain text between two slashes** are the same for any other plain
text there, if not exactly one parenthesis is open in front of it, or both texts have the same
arguments. -/
theorem toOption_calls_append {front middle middle' rest : List Char}
    (hmiddle : ∀ c ∈ middle, IsPlain c) (hmiddle' : ∀ c ∈ middle', IsPlain c)
    (h : front.count '(' ≠ front.count ')' + 1 ∨ arguments middle = arguments middle') :
    (calls (front ++ '/' :: (middle ++ '/' :: rest))).toOption =
      (calls (front ++ '/' :: (middle' ++ '/' :: rest))).toOption := by
  obtain ⟨words, hwords⟩ := Lexeme.exists_all_eq_map_word hmiddle
  obtain ⟨words', hwords'⟩ := Lexeme.exists_all_eq_map_word hmiddle'
  rw [arguments_of_all hwords, arguments_of_all hwords', Except.ok.injEq,
    ← (Lexeme.countP_all front).1, ← (Lexeme.countP_all front).2] at h
  have hlexemes : ∀ (middle : List Char) (words : List (List Char)),
      Lexeme.all middle = words.map .word →
        callsAfter [] [] (Lexeme.all (front ++ '/' :: (middle ++ '/' :: rest))) =
          callsAfter [] [] (Lexeme.all front ++ (words.map .word ++ Lexeme.all rest)) := by
    intro middle words hwords
    refine callsAfter_congr .nil (.refl 0 []) ?_
    rw [Lexeme.map_bare_all_append, Lexeme.map_bare_all_append, hwords, List.map_append,
      List.map_append]
  rw [toOption_calls, toOption_calls, hlexemes middle words hwords, hlexemes middle' words' hwords']
  exact callsAfter_words [] [] (Lexeme.all front) rfl (by simpa using h)

end Value

/-- A conversion sees only the calls of a value. -/
theorem convert_eq_of_toOption_calls {value value' : List Char} (policy : InvalidCallPolicy)
    (h : (Value.calls value).toOption = (Value.calls value').toOption) :
    convert policy value = convert policy value' := by
  rw [convert, convert]
  cases hcalls : Value.calls value with
  | error e =>
    cases hcalls' : Value.calls value' with
    | error e' => rw [convert?_of_calls_error hcalls, convert?_of_calls_error hcalls']
    | ok calls' =>
      rw [hcalls, hcalls'] at h
      cases h
  | ok calls =>
    cases hcalls' : Value.calls value' with
    | error e' =>
      rw [hcalls, hcalls'] at h
      cases h
    | ok calls' =>
      rw [hcalls, hcalls'] at h
      obtain rfl : calls = calls' := Option.some.inj h
      rw [convert?_of_calls hcalls, convert?_of_calls hcalls']

end CssTransform
