import CssTransform.Proofs.Value.Items

/-!
# Reading and the balance of parentheses

Whether a value can be read is decided by its parentheses alone. One pass over the characters with
one number, the number of parentheses open, tells whether reading succeeds and, if not, how the
failure is worded. Names, words, separators and the alternatives of the grammar play no part in it.

## Which choice is load-bearing

The pass keeps one more thing than its number: the text from the outermost open parenthesis on,
set whenever the number leaves zero. Nothing of the open groups further in is kept, and none of
them ever shows in a message.

## Main definitions

* `Value.balanceAfter`, `Value.balance` — the pass over the characters

## Main results

* `Value.read_eq_balance` — reading fails exactly when the pass does, and for the same cause
* `Value.read_eq_itemsOf` — where it does not fail, it gives the items of the text
* `Value.calls_of_balance` — the calls of a value, or the wording of the failure, by the pass
-/

namespace CssTransform

namespace Value

/-! ### The pass -/

/-- What the rest of a text amounts to, given the number of parentheses open and the text from the
outermost of them on. -/
def balanceAfter : Nat → List Char → List Char → Except ReadError Unit
  | count, outermost, [] => if count = 0 then .ok () else .error (.unclosed outermost)
  | count, outermost, c :: rest =>
    if c = '(' then
      if count + 1 = 33 then .error .tooDeep
      else balanceAfter (count + 1) (if count = 0 then c :: rest else outermost) rest
    else if c = ')' then
      if count = 0 then .error .unbalanced else balanceAfter (count - 1) outermost rest
    else balanceAfter count outermost rest

/-- What the parentheses of a text amount to. -/
def balance (text : List Char) : Except ReadError Unit := balanceAfter 0 [] text

theorem balanceAfter_append {front : List Char} (h : ∀ c ∈ front, IsPlain c) (count : Nat)
    (outermost rest : List Char) :
    balanceAfter count outermost (front ++ rest) = balanceAfter count outermost rest := by
  induction front with
  | nil => rfl
  | cons c front ih =>
    obtain ⟨hopen, hclose⟩ := h c (by simp)
    rw [List.cons_append, balanceAfter, if_neg hopen, if_neg hclose]
    exact ih fun d hd => h d (by simp [hd])

theorem balanceAfter_of_isPlain {text : List Char} (h : ∀ c ∈ text, IsPlain c) (count : Nat)
    (outermost : List Char) :
    balanceAfter count outermost text = balanceAfter count outermost [] := by
  simpa using balanceAfter_append h count outermost []

/-! ### Reading follows the pass -/

/-- The text from the outermost parenthesis on matters only while one is open. -/
theorem balanceAfter_zero (s t text : List Char) :
    balanceAfter 0 s text = balanceAfter 0 t text := by
  induction text with
  | nil => rfl
  | cons c rest ih =>
    rw [balanceAfter, balanceAfter, ih]
    rfl

/-- The groups that reading has open are the parentheses that the pass has open. -/
theorem scanAfter_all (groups : List OpenGroup) (found : List Item) (text : List Char)
    (hdepth : groups.length ≤ maxNesting) :
    (scanAfter groups found (Lexeme.all text)).map (fun _ => ()) =
      balanceAfter groups.length (outermost [] groups) text := by
  generalize hn : text.length = n
  induction n using Nat.strongRecOn generalizing groups found text with
  | ind n ih =>
    cases hnext : Lexeme.next? text with
    | none =>
      rw [Lexeme.all_eq, hnext, balanceAfter_of_isPlain (Lexeme.next?_eq_none hnext)]
      cases groups with
      | nil => rfl
      | cons group groups => rfl
    | some next =>
      obtain ⟨l, rest⟩ := next
      have hlt : rest.length < n := hn ▸ Lexeme.length_of_next? hnext
      obtain ⟨front, hfront, hform⟩ := Lexeme.next?_cases hnext
      rw [Lexeme.all_of_next? hnext]
      cases l with
      | word word =>
        dsimp only at hform
        rw [hform, balanceAfter_append hfront,
          ← ih _ hlt groups (.word word :: found) rest hdepth rfl]
        cases groups <;> rfl
      | closing =>
        dsimp only at hform
        rw [hform, balanceAfter_append hfront]
        cases groups with
        | nil => rfl
        | cons group groups =>
          have hless : groups.length ≤ maxNesting := Nat.le_of_succ_le hdepth
          have hread :=
            ih _ hlt groups (.group group.name found.reverse :: group.before) rest hless rfl
          rw [scanAfter, hread, balanceAfter, if_neg (by decide), if_pos rfl, if_neg (by simp)]
          cases groups with
          | nil => exact balanceAfter_zero _ _ _
          | cons outer groups => rfl
      | opening name opened =>
        dsimp only at hform
        obtain ⟨hopened, htext⟩ := hform
        rw [htext, balanceAfter_append hfront, hopened, scanAfter, balanceAfter, if_pos rfl]
        split
        · next hroom =>
          have hread := ih _ hlt (⟨name, opened, found⟩ :: groups) [] rest hroom rfl
          rw [← hopened, hread, if_neg (by simp [maxNesting] at hroom; omega)]
          cases groups with
          | nil => rfl
          | cons group groups => rfl
        · next hfull =>
          rw [if_pos (by simp [maxNesting] at hfull hdepth; omega)]
          rfl

/-- Reading fails exactly when the pass over the parentheses does, and for the same cause. -/
theorem read_eq_balance (text : List Char) : (read text).map (fun _ => ()) = balance text := by
  rw [read_eq_scan]
  exact scanAfter_all [] [] text (Nat.zero_le _)

/-- What reading gives: the items of the text, if the pass finds nothing. -/
theorem read_eq_itemsOf (text : List Char) :
    read text = (balance text).map fun _ => itemsOf text := by
  rw [← read_eq_balance, read_eq_scan]
  cases hscan : scan text with
  | error cause => rfl
  | ok items =>
    have hitems : items = itemsOf text := of_scanAfter_nil_eq_ok hscan
    rw [hitems]
    rfl

theorem calls_eq_ok {text : List Char} (h : balance text = .ok ()) :
    ∃ list, calls text = .ok list := by
  rw [← read_eq_balance] at h
  cases hread : read text with
  | error cause => rw [hread] at h; cases h
  | ok items => exact ⟨items.filterMap Item.call?, by rw [calls, hread]; rfl⟩

theorem calls_eq_error {text : List Char} {cause : ReadError} (h : balance text = .error cause) :
    calls text = .error cause := by
  rw [← read_eq_balance] at h
  cases hread : read text with
  | error other =>
    rw [hread] at h
    cases h
    rw [calls, hread]
    rfl
  | ok items => rw [hread] at h; cases h

/-- **Parentheses decide.** A value is read into its calls exactly when the pass finds nothing, and
every failure is worded after what the pass found first. -/
theorem calls_of_balance (text : List Char) :
    match balance text with
    | .ok () => ∃ list, calls text = .ok list
    | .error cause =>
      calls text = .error cause ∧
        cause.message = match cause with
          | .tooDeep => "parentheses nested deeper than 32 levels".toList
          | .unbalanced => "unbalanced parentheses".toList
          | .unclosed opened => "unexpected input at ".toList ++ Text.quoted (opened.take 32) := by
  cases hbalance : balance text with
  | ok => exact calls_eq_ok hbalance
  | error cause =>
    refine ⟨calls_eq_error hbalance, ?_⟩
    cases cause with
    | tooDeep => decide
    | unbalanced => rfl
    | unclosed opened => rfl

example : balance "a b(c(d) e".toList = .error (.unclosed "(c(d) e".toList) := by decide

end Value

end CssTransform
