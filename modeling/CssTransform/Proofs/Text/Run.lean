import Mathlib.Data.List.TakeWhile

/-!
# Runs at the front of a text

A scanner takes the characters at the front of a text as long as they are of some kind. The lemmas
here tell what it takes and what it leaves, in particular where a character that ends every such run
stands further on in the text.
-/

namespace CssTransform

namespace Text

variable {p : Char → Bool} {c d : Char} {text tail : List Char}

theorem of_mem_takeWhile (h : c ∈ text.takeWhile p) : p c = true :=
  List.all_eq_true.1 (List.all_takeWhile ..) c h

theorem eq_false_of_dropWhile_eq_cons (h : text.dropWhile p = c :: tail) : p c = false := by
  have hhead := List.head?_dropWhile_not p text
  rw [h] at hhead
  simpa using hhead

theorem length_takeWhile_le (p : Char → Bool) (text : List Char) :
    (text.takeWhile p).length ≤ text.length := (List.takeWhile_sublist p).length_le

theorem length_dropWhile_le (p : Char → Bool) (text : List Char) :
    (text.dropWhile p).length ≤ text.length := (List.dropWhile_sublist p).length_le

theorem drop_length_takeWhile (p : Char → Bool) (text : List Char) :
    text.drop (text.takeWhile p).length = text.dropWhile p := by
  have hdrop := @List.drop_left _ (text.takeWhile p) (text.dropWhile p)
  rwa [List.takeWhile_append_dropWhile] at hdrop

section Append

variable {z : List Char} (hz : ∀ d ∈ z.head?, p d = false)
include hz

/-- No run goes over into a text that does not go on with it. -/
theorem takeWhile_append_of_head (front : List Char) :
    (front ++ z).takeWhile p = front.takeWhile p := by
  induction front with
  | cons c front ih => simp only [List.cons_append, List.takeWhile_cons, ih]
  | nil =>
    cases z with
    | nil => rfl
    | cons d z => simp [hz d rfl]

theorem dropWhile_append_of_head (front : List Char) :
    (front ++ z).dropWhile p = front.dropWhile p ++ z := by
  induction front with
  | cons c front ih =>
    simp only [List.cons_append, List.dropWhile_cons, ih]
    split <;> rfl
  | nil =>
    cases z with
    | nil => rfl
    | cons d z => simp [hz d rfl]

end Append

theorem takeWhile_append_cons_of_neg (hd : p d = false) (front rest : List Char) :
    (front ++ d :: rest).takeWhile p = front.takeWhile p :=
  takeWhile_append_of_head (by simpa using hd) front

theorem dropWhile_append_cons_of_neg (hd : p d = false) (front rest : List Char) :
    (front ++ d :: rest).dropWhile p = front.dropWhile p ++ d :: rest :=
  dropWhile_append_of_head (by simpa using hd) front

end Text

end CssTransform
