import CssTransform.Proofs.Value.Scan

/-!
# The items of a value

What a value that can be read is read as is told here character by character, without alternatives
and without a way back. Separators are skipped. A name with a parenthesis right behind it opens a
group, which goes on to the parenthesis that matches; anything else is a word, up to the next
separator or parenthesis. Inside of a group the same is done again.

## Which choice is load-bearing

The matching parenthesis is found by counting, with no regard to names, words or how deep groups may
be. That a group that is read ends at this parenthesis and no other is what the induction shows: the
one pass over the lexemes, which knows nothing of matches, closes a group exactly there.

## Main definitions

* `upToMatch?` — a text cut at the parenthesis that closes it
* `itemsOf` — the items of a text

## Main results

* `Lexeme.next?_append_closing` — lexemes in front of a parenthesis that closes
* `of_scanAfter_cons_eq_ok` — where the pass closes the innermost group, and with which items
* `calls_eq_itemsOf` — the calls of a value are the groups among its items
-/

namespace CssTransform

namespace Value

open Text (dropWhile_append_cons_of_neg takeWhile_append_cons_of_neg length_dropWhile_le
  of_mem_takeWhile)

/-! ### Matching parentheses -/

/-- What stands before the parenthesis that closes a text, with so many more to be closed before it,
and what stands behind. -/
def upToMatch? : Nat → List Char → Option (List Char × List Char)
  | _, [] => none
  | 0, ')' :: rest => some ([], rest)
  | count, c :: rest =>
    let further := if c = '(' then count + 1 else if c = ')' then count - 1 else count
    (upToMatch? further rest).map fun (inside, behind) => (c :: inside, behind)

section Match

variable {count : Nat} {text inside behind : List Char}

theorem upToMatch?_closing (rest : List Char) : upToMatch? 0 (')' :: rest) = some ([], rest) := rfl

theorem upToMatch?_cons {c : Char} (h : count = 0 → c ≠ ')') (rest : List Char) :
    upToMatch? count (c :: rest) =
      (upToMatch? (if c = '(' then count + 1 else if c = ')' then count - 1 else count) rest).map
        fun (inside, behind) => (c :: inside, behind) := by
  rw [upToMatch?]
  rintro rfl rfl
  exact h rfl rfl

/-- Plain characters in front change nothing. -/
theorem upToMatch?_append {front : List Char} (h : ∀ c ∈ front, IsPlain c) (count : Nat)
    (text : List Char) :
    upToMatch? count (front ++ text) =
      (upToMatch? count text).map fun (inside, behind) => (front ++ inside, behind) := by
  induction front with
  | nil => simp
  | cons c front ih =>
    obtain ⟨hopen, hclose⟩ := h c List.mem_cons_self
    rw [List.cons_append, upToMatch?_cons fun _ => hclose, if_neg hopen, if_neg hclose,
      ih fun d hd => h d (List.mem_cons_of_mem c hd), Option.map_map]
    rfl

/-- A text is cut at a parenthesis, whatever stands behind it. -/
theorem of_upToMatch? (h : upToMatch? count text = some (inside, behind)) :
    text = inside ++ ')' :: behind ∧
      ∀ rest, upToMatch? count (inside ++ ')' :: rest) = some (inside, rest) := by
  induction text generalizing count inside with
  | nil => cases h
  | cons c text ih =>
    by_cases hend : count = 0 ∧ c = ')'
    · obtain ⟨rfl, rfl⟩ := hend
      cases h
      exact ⟨rfl, fun rest => rfl⟩
    · have hne : count = 0 → c ≠ ')' := fun hcount hc => hend ⟨hcount, hc⟩
      rw [upToMatch?_cons hne] at h
      obtain ⟨⟨inside', behind'⟩, hcut, heq⟩ := Option.map_eq_some_iff.1 h
      cases heq
      obtain ⟨htext, hall⟩ := ih hcut
      refine ⟨by rw [htext]; rfl, fun rest => ?_⟩
      rw [List.cons_append, upToMatch?_cons hne, hall]
      rfl

/-- Where more is to be closed, the search goes on behind the first match. -/
theorem upToMatch?_of_upToMatch? (h : upToMatch? count text = some (inside, behind))
    (further : Nat) :
    upToMatch? (count + further + 1) text =
      (upToMatch? further behind).map fun (inside', behind') =>
        (inside ++ ')' :: inside', behind') := by
  induction text generalizing count inside with
  | nil => cases h
  | cons c text ih =>
    rw [upToMatch?_cons fun hzero => absurd hzero (Nat.succ_ne_zero _)]
    by_cases hend : count = 0 ∧ c = ')'
    · obtain ⟨rfl, rfl⟩ := hend
      cases h
      rw [if_neg (by decide), if_pos rfl, Nat.zero_add]
      rfl
    · have hne : count = 0 → c ≠ ')' := fun hcount hc => hend ⟨hcount, hc⟩
      rw [upToMatch?_cons hne] at h
      obtain ⟨⟨inside', behind'⟩, hcut, heq⟩ := Option.map_eq_some_iff.1 h
      cases heq
      have hcount : (if c = '(' then count + further + 1 + 1
            else if c = ')' then count + further + 1 - 1 else count + further + 1) =
          (if c = '(' then count + 1 else if c = ')' then count - 1 else count) + further + 1 := by
        split
        · omega
        · split
          · next hclose =>
            have hpos : count ≠ 0 := fun hzero => hne hzero hclose
            omega
          · rfl
      rw [hcount, ih hcut, Option.map_map]
      rfl

/-- A group takes what is inside of it and two parentheses. -/
theorem length_of_group {name opened : List Char} (hname : takeName text = (name, '(' :: opened))
    (hmatch : upToMatch? 0 opened = some (inside, behind)) :
    inside.length + behind.length + 2 ≤ text.length := by
  have htext := congrArg List.length (takeName_append text)
  have hopened := congrArg List.length (of_upToMatch? hmatch).1
  rw [hname] at htext
  simp only [List.length_append, List.length_cons] at htext hopened
  omega

end Match

/-! ### Items -/

/-- The items of a text, from left to right. A parenthesis that closes nothing ends them, and so
does one that is never closed. -/
def itemsOf (text : List Char) : List Item :=
  match _htext : text.dropWhile isSeparator with
  | [] => []
  | ')' :: _ => []
  | c :: rest =>
    match _hname : takeName (c :: rest) with
    | (name, '(' :: opened) =>
      match _hmatch : upToMatch? 0 opened with
      | none => []
      | some (inside, behind) => .group name (itemsOf inside) :: itemsOf behind
    | _ => .word (c :: rest.takeWhile isWordChar) :: itemsOf (rest.dropWhile isWordChar)
termination_by text.length
decreasing_by
  all_goals
    have hlength := length_dropWhile_le isSeparator text
    rw [_htext, List.length_cons] at hlength
  · have hgroup := length_of_group _hname _hmatch
    rw [List.length_cons] at hgroup
    omega
  · have hgroup := length_of_group _hname _hmatch
    rw [List.length_cons] at hgroup
    omega
  · have hword := length_dropWhile_le isWordChar rest
    omega

/-- The first lexeme in front of a parenthesis that closes is that of the text without it. -/
theorem Lexeme.next?_append_closing (text behind : List Char) :
    next? (text ++ ')' :: behind) =
      match next? text with
      | none => some (closing, behind)
      | some (opening name opened, rest) =>
        some (opening name (opened ++ ')' :: behind), rest ++ ')' :: behind)
      | some (l, rest) => some (l, rest ++ ')' :: behind) := by
  have hdrop := dropWhile_append_cons_of_neg (p := isSeparator) (d := ')') (by decide) text behind
  cases htext : text.dropWhile isSeparator with
  | nil =>
    rw [htext] at hdrop
    rw [next?_of_dropWhile hdrop, next?, htext]
    rfl
  | cons c tail =>
    rw [htext, List.cons_append] at hdrop
    rw [next?_of_dropWhile hdrop, next?_of_dropWhile htext]
    by_cases hc : c = ')'
    · rw [hc]
      rfl
    have htake := takeName_append_cons_of_neg (d := ')') (by decide) (c :: tail) behind
    rw [List.cons_append] at htake
    by_cases hname : ∃ name opened, takeName (c :: tail) = (name, '(' :: opened)
    · obtain ⟨name, opened, hname⟩ := hname
      rw [hname, List.cons_append] at htake
      rw [first_of_opening hc hname, first_of_opening hc htake]
      rfl
    · have hnone : ∀ name opened, takeName (c :: tail) ≠ (name, '(' :: opened) :=
        fun name opened h => hname ⟨name, opened, h⟩
      have hnone' := takeName_append_ne_opening (d := ')') (by decide) (by decide) hnone behind
      rw [List.cons_append] at hnone'
      have hword : isWordChar ')' = false := by decide
      rw [first_of_word hc hnone, first_of_word hc hnone', takeWhile_append_cons_of_neg hword,
        dropWhile_append_cons_of_neg hword]

/-- So a word or an opening there is one of the text without it. -/
theorem Lexeme.next?_of_append_closing {text inside behind : List Char} {l : Lexeme}
    (h : next? (text ++ ')' :: behind) = some (l, inside ++ ')' :: behind)) (hl : l ≠ closing) :
    next? text = some (l, inside) ∨
      ∃ name opened opened', l = opening name opened ∧
        next? text = some (opening name opened', inside) := by
  rw [next?_append_closing] at h
  cases hnext : next? text with
  | none =>
    rw [hnext] at h
    exact absurd (Prod.mk.inj (Option.some.inj h)).1.symm hl
  | some next =>
    obtain ⟨l', rest⟩ := next
    rw [hnext] at h
    cases l' with
    | opening name opened' =>
      obtain ⟨hkind, hrest⟩ := Prod.mk.inj (Option.some.inj h)
      obtain rfl := List.append_cancel_right hrest
      exact .inr ⟨name, _, opened', hkind.symm, rfl⟩
    | closing => exact absurd (Prod.mk.inj (Option.some.inj h)).1.symm hl
    | word letters =>
      obtain ⟨hkind, hrest⟩ := Prod.mk.inj (Option.some.inj h)
      obtain rfl := List.append_cancel_right hrest
      exact .inl (by rw [hkind])

/-- The items of a text, by its first lexeme. -/
theorem itemsOf_eq (text : List Char) :
    itemsOf text = match Lexeme.next? text with
      | none => []
      | some (.closing, _) => []
      | some (.word letters, rest) => .word letters :: itemsOf rest
      | some (.opening name _, opened) =>
        match upToMatch? 0 opened with
        | none => []
        | some (inside, behind) => .group name (itemsOf inside) :: itemsOf behind := by
  rw [itemsOf]
  split
  · next h => rw [Lexeme.next?, h]
  · next h =>
    rw [Lexeme.next?_of_dropWhile h]
    rfl
  · next c rest hc h =>
    rw [Lexeme.next?_of_dropWhile h]
    split
    · next name opened hname =>
      rw [Lexeme.first_of_opening hc hname]
      dsimp only
      split
      · next hmatch => rw [hmatch]
      · next inside behind hmatch => rw [hmatch]
    · next hname => rw [Lexeme.first_of_word hc fun name opened => hname name opened]

section Front

variable {text rest inside behind : List Char}

theorem itemsOf_of_word {letters : List Char}
    (h : Lexeme.next? text = some (.word letters, rest)) :
    itemsOf text = .word letters :: itemsOf rest := by
  rw [itemsOf_eq, h]

theorem itemsOf_of_opening {name opened : List Char}
    (h : Lexeme.next? text = some (.opening name opened, rest))
    (hmatch : upToMatch? 0 rest = some (inside, behind)) :
    itemsOf text = .group name (itemsOf inside) :: itemsOf behind := by
  rw [itemsOf_eq, h]
  dsimp only
  rw [hmatch]

/-- The items in front of a parenthesis that closes, where a word comes first. -/
theorem itemsOf_append_of_word {front letters : List Char}
    (h : Lexeme.next? (front ++ (inside ++ ')' :: behind)) =
      some (.word letters, inside ++ ')' :: behind)) :
    itemsOf (front ++ inside) = .word letters :: itemsOf inside := by
  rw [← List.append_assoc] at h
  rcases Lexeme.next?_of_append_closing h (by simp) with hnext | ⟨_, _, _, heq, -⟩
  · exact itemsOf_of_word hnext
  · cases heq

/-- The items in front of a parenthesis that closes, where a group comes first. -/
theorem itemsOf_append_of_opening {front name opened inside' : List Char}
    (h : Lexeme.next? (front ++ '(' :: (inside' ++ ')' :: (inside ++ ')' :: behind))) =
      some (.opening name opened, inside' ++ ')' :: (inside ++ ')' :: behind)))
    (hmatch : upToMatch? 0 (inside' ++ ')' :: inside) = some (inside', inside)) :
    itemsOf (front ++ '(' :: (inside' ++ ')' :: inside)) =
      .group name (itemsOf inside') :: itemsOf inside := by
  have htext : front ++ '(' :: (inside' ++ ')' :: (inside ++ ')' :: behind)) =
      (front ++ '(' :: (inside' ++ ')' :: inside)) ++ ')' :: behind := by simp
  have hrest : inside' ++ ')' :: (inside ++ ')' :: behind) =
      (inside' ++ ')' :: inside) ++ ')' :: behind := by simp
  rw [htext, hrest] at h
  rcases Lexeme.next?_of_append_closing h (by simp) with hnext | ⟨_, _, _, heq, hnext⟩
  · exact itemsOf_of_opening hnext hmatch
  · cases heq
    exact itemsOf_of_opening hnext hmatch

end Front

/-! ### The pass closes groups where they match -/

/-- In front of a parenthesis that ends a text with nothing else to be read there is no lexeme. -/
theorem Lexeme.next?_front_of_closing {front rest : List Char}
    (h : next? (front ++ ')' :: rest) = some (closing, rest)) : next? front = none := by
  rw [next?_append_closing] at h
  cases hnext : next? front with
  | none => rfl
  | some next =>
    obtain ⟨l, rest'⟩ := next
    rw [hnext] at h
    cases l with
    | closing =>
      have hlength := congrArg List.length (Prod.mk.inj (Option.some.inj h)).2
      rw [List.length_append, List.length_cons] at hlength
      omega
    | opening name opened => cases (Prod.mk.inj (Option.some.inj h)).1
    | word letters => cases (Prod.mk.inj (Option.some.inj h)).1

/-- Where the pass over the lexemes of a text succeeds within a group, it closes that group at the
parenthesis that matches, and the items it has found by then are those of the text in front. -/
theorem of_scanAfter_cons_eq_ok {g : OpenGroup} {groups : List OpenGroup}
    {found items : List Item} {text : List Char}
    (h : scanAfter (g :: groups) found (Lexeme.all text) = .ok items) :
    ∃ inside behind, upToMatch? 0 text = some (inside, behind) ∧
      scanAfter groups (.group g.name (found.reverse ++ itemsOf inside) :: g.before)
        (Lexeme.all behind) = .ok items := by
  generalize hn : text.length = n
  induction n using Nat.strongRecOn generalizing g groups found text with
  | ind n ih =>
    cases hnext : Lexeme.next? text with
    | none =>
      rw [Lexeme.all_eq, hnext] at h
      cases h
    | some next =>
      obtain ⟨l, rest⟩ := next
      have hlt : rest.length < n := hn ▸ Lexeme.length_of_next? hnext
      obtain ⟨front, hfront, hform⟩ := Lexeme.next?_cases hnext
      rw [Lexeme.all_of_next? hnext] at h
      cases l with
      | closing =>
        replace hform : text = front ++ ')' :: rest := hform
        have hnone : Lexeme.next? front = none := by
          rw [hform] at hnext
          exact Lexeme.next?_front_of_closing hnext
        refine ⟨front, rest, ?_, ?_⟩
        · rw [hform, upToMatch?_append hfront, upToMatch?_closing]
          simp
        · rw [itemsOf_eq, hnone, List.append_nil]
          exact h
      | word letters =>
        replace hform : text = front ++ rest := hform
        obtain ⟨inside, behind, hmatch, hgo⟩ := ih _ hlt h rfl
        obtain ⟨rfl, -⟩ := of_upToMatch? hmatch
        refine ⟨front ++ inside, behind, ?_, ?_⟩
        · rw [hform, upToMatch?_append hfront, hmatch]
          rfl
        · rw [hform] at hnext
          rw [itemsOf_append_of_word hnext]
          simpa using hgo
      | opening name opened =>
        obtain ⟨rfl, htext⟩ := hform
        rw [scanAfter] at h
        split at h
        case isFalse => cases h
        -- the group inside is closed first, and then the same is said of what comes behind it
        obtain ⟨inside', behind', hmatch', hgo'⟩ := ih _ hlt h rfl
        obtain ⟨rfl, hall⟩ := of_upToMatch? hmatch'
        rw [List.length_append, List.length_cons] at hlt
        obtain ⟨inside, behind, hmatch, hgo⟩ := ih _ (by omega) hgo' rfl
        obtain ⟨rfl, -⟩ := of_upToMatch? hmatch
        refine ⟨front ++ '(' :: (inside' ++ ')' :: inside), behind, ?_, ?_⟩
        · rw [htext, upToMatch?_append hfront, upToMatch?_cons (by simp), if_pos rfl,
            upToMatch?_of_upToMatch? hmatch' 0, hmatch]
          simp
        · rw [htext] at hnext
          rw [itemsOf_append_of_opening hnext (hall inside)]
          simpa using hgo

/-- Where the pass over the lexemes of a text succeeds outside of every group, it has found the
items of the text. -/
theorem of_scanAfter_nil_eq_ok {found items : List Item} {text : List Char}
    (h : scanAfter [] found (Lexeme.all text) = .ok items) :
    items = found.reverse ++ itemsOf text := by
  generalize hn : text.length = n
  induction n using Nat.strongRecOn generalizing found text with
  | ind n ih =>
    cases hnext : Lexeme.next? text with
    | none =>
      rw [Lexeme.all_eq, hnext] at h
      rw [itemsOf_eq, hnext, List.append_nil]
      cases h
      rfl
    | some next =>
      obtain ⟨l, rest⟩ := next
      have hlt : rest.length < n := hn ▸ Lexeme.length_of_next? hnext
      rw [Lexeme.all_of_next? hnext] at h
      cases l with
      | closing => cases h
      | word letters =>
        rw [ih _ hlt h rfl, itemsOf_of_word hnext]
        simp
      | opening name opened =>
        rw [scanAfter] at h
        split at h
        case isFalse => cases h
        obtain ⟨inside, behind, hmatch, hgo⟩ := of_scanAfter_cons_eq_ok h
        have hrest := congrArg List.length (of_upToMatch? hmatch).1
        rw [List.length_append, List.length_cons] at hrest
        rw [ih _ (by omega) hgo rfl, itemsOf_of_opening hnext hmatch]
        simp

/-- **The calls of a value are the groups among its items.** A value that can be read is read as by
the pass that never goes back, its items are found from left to right with every group up to the
parenthesis that matches, and each group among them is a call with one argument for each item
directly inside: the number at the front of a word, and no number for a group. -/
theorem calls_eq_itemsOf {text : List Char} {list : List (Call Binary64)}
    (h : calls text = .ok list) :
    scan text = .ok (itemsOf text) ∧
      list = (itemsOf text).filterMap fun
        | .word _ => none
        | .group name items => some ⟨name, items.map fun
          | .word letters => leadingNumber letters
          | .group _ _ => none⟩ := by
  rw [calls, read_eq_scan] at h
  cases hscan : scan text with
  | error cause =>
    rw [hscan] at h
    cases h
  | ok items =>
    have hitems : items = itemsOf text := of_scanAfter_nil_eq_ok hscan
    rw [hscan] at h
    cases h
    rw [hitems]
    refine ⟨rfl, List.filterMap_congr fun item _ => ?_⟩
    cases item with
    | word letters => rfl
    | group name items =>
      refine congrArg some (congrArg (Call.mk name) (List.map_congr_left fun inner _ => ?_))
      cases inner <;> rfl

/-- Letters behind a digit are no name: the first group has none. A group in it is no number. -/
theorem calls_eq_itemsOf_glued :
    let text := "a 1b(c(d) -2e1px,/) b(1.)".toList
    let list : List (Call Binary64) :=
      [⟨[], [none, some (.ofNat true 20)]⟩, ⟨['b'], [some (.ofNat false 1)]⟩]
    calls text = .ok list ∧ scan text = .ok (itemsOf text) := by
  intro text list
  have hcalls : calls text = .ok list := by decide +kernel
  exact ⟨hcalls, (calls_eq_itemsOf hcalls).1⟩

end Value

end CssTransform
