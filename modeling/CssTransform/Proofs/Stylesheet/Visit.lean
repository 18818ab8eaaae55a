import CssTransform.Proofs.Conversion
import CssTransform.Proofs.Matrix.Tokens
import CssTransform.Proofs.Stylesheet.Replacement

/-!
# What a compilation keeps

A compilation that replaces values leaves the structure of a sheet as it is: a walk over the
compiled sheet meets the same blocks with the same `transform` declarations in them, and of each
declaration only the value may be another, namely its conversion. So a second compilation has
nothing left to do once conversions are converted to themselves.

## Which choice is load-bearing

A visit is what is read off a sheet at the spans of a declaration, and all three spans are those
that the compiler itself works with. Nothing about segments enters the statements here.

## Main definitions

* `Visit` — what a `transform` declaration says
* `visits` — these declarations as a walk meets them, with the blocks around them
* `Written.compiled` — a declaration with the conversion in place of its value

## Main results

* `standsAlone_of_convert` — a conversion stands alone
* `Splits.visits_eq` — the visits of a sheet are those of its level
* `counts_compile` — the counts of a second compilation
* `visits_compile` — the visits of a compiled sheet, and what a second compilation gives
-/

namespace CssTransform

namespace Stylesheet

open Text (byteLength)

/-! ### Visits -/

/-- What a `transform` declaration says, as it is written. -/
structure Visit where
  property : List Char
  /-- The value without its importance mark. It may be empty. -/
  value : List Char
  /-- The importance mark with what stands between it and the value. Without a mark it is empty. -/
  mark : List Char
deriving DecidableEq

/-- What a declaration of a sheet says, if it is a `transform` declaration. -/
def Declaration.visit? (css : List Char) (d : Declaration) : Option Visit :=
  d.transform?.map fun value =>
    { property := Span.of css value.property
      value := (value.span.map (Span.of css)).getD []
      mark := Span.of css ⟨value.important.getD value.stop, value.stop⟩ }

/-- The `transform` declarations that a walk over a sheet meets, and the blocks that it enters and
leaves. -/
def visits (css : List Char) : List (Event Visit) :=
  (tour css).filterMap (Event.collect? (Declaration.visit? css))

/-- What a declaration says, by its parts. -/
def Written.visit (w : Written) : Visit := ⟨w.property.text, w.valueText, w.markText⟩

/-- What a declaration with a value says, read off a sheet at its spans. -/
def Declaration.Value.visit (css : List Char) (value : Value) : Visit where
  property := Span.of css value.property
  value := (value.span.map (Span.of css)).getD []
  mark := Span.of css ⟨value.important.getD value.stop, value.stop⟩

theorem Declaration.visit?_eq (css : List Char) (d : Declaration) :
    d.visit? css = d.transform?.map (Value.visit css) := rfl

section Of

variable {css before after : List Char} {place : Nat}

/-- The spans of a declaration are those of its parts. -/
theorem Written.IsReading.visit_ofParts {w : Written} (h : w.IsReading)
    (hcss : css = before ++ (partsText w.parts ++ after)) (hplace : place = byteLength before) :
    Declaration.Value.visit css (.ofParts w.property.head.text
        ⟨place + byteLength (partsText w.lead),
          place + byteLength (partsText w.lead) + byteLength w.property.text⟩
        (Segment.colonStop place w) (w.indent ++ (w.value ++ w.ending))) = w.visit := by
  have hproperty := w.of_property hcss hplace
  have hvalue := w.of_value hcss hplace
  rw [Declaration.Value.visit, Declaration.Value.span_ofParts h,
    Declaration.Value.important_ofParts h, Declaration.Value.stop_ofParts h, w.of_mark hcss hplace]
  by_cases hnil : w.valueText = []
  · rw [if_pos hnil, Written.visit, hnil]
    exact congrArg (fun property => Visit.mk property [] w.markText) hproperty
  · rw [if_neg hnil, Option.map_some, Option.getD_some, hvalue]
    exact congrArg (fun property => Visit.mk property w.valueText w.markText) hproperty

/-- What the declaration that a segment of a sheet is says. -/
theorem Segment.visit?_declaration {s : Segment}
    (hcss : css = before ++ (partsText s.parts ++ after)) (hplace : s.place = byteLength before) :
    s.declaration.visit? css = (transformOf? s.parts).map Written.visit := by
  obtain ⟨place, ps⟩ := s
  dsimp only at hcss hplace
  rw [Declaration.visit?_eq, transform?_declaration]
  cases hw : transformOf? ps with
  | none => rfl
  | some w =>
    obtain ⟨hreading, rfl⟩ := parts_of_transformOf? hw
    rw [Option.map_some, Option.map_some, Option.map_some, hreading.visit_ofParts hcss hplace]

end Of

section Events

variable {α β : Type}

theorem Event.filterMap_declared?_collect? (f : α → Option β) (events : List (Event α)) :
    (events.filterMap (Event.collect? f)).filterMap Event.declared? =
      (events.filterMap Event.declared?).filterMap f := by
  rw [List.filterMap_filterMap, List.filterMap_filterMap]
  refine List.filterMap_congr fun event _ => ?_
  cases event with
  | entered => rfl
  | left => rfl
  | declared a =>
    show ((f a).map Event.declared).bind Event.declared? = f a
    cases f a <;> rfl

end Events

variable {css : List Char} {l : Level}

/-- What is read off the declarations of a sheet is read off the segments of its level. -/
theorem Splits.map_tour_eq {α : Type} (h : Splits css l) (f : Declaration → α)
    (g : List Piece → α)
    (hfg : ∀ (s : Segment) (before after : List Char),
      css = before ++ (partsText s.parts ++ after) → s.place = byteLength before →
        f s.declaration = g s.parts) :
    (tour css).map (Event.map f) = l.events.map (Event.map g) := by
  have hall : css = [] ++ (l.render partsText ++ []) := by rw [h.render_eq]; simp
  rw [h.tour_eq, Level.tourFrom, ← l.map_parts_eventsFrom 0, List.map_map, List.map_map]
  refine List.map_congr_left fun event hevent => ?_
  cases event with
  | entered => rfl
  | left => rfl
  | declared s =>
    have hs : s ∈ l.placedFrom 0 := List.mem_filterMap.2 ⟨_, hevent, rfl⟩
    obtain ⟨before, after, hcss, hplace⟩ := l.exists_eq_append [] [] hall rfl s hs
    exact congrArg Event.declared (hfg s before after hcss hplace)

/-- **The visits of a sheet are those of its level.** -/
theorem Splits.visits_eq (h : Splits css l) :
    visits css =
      l.events.filterMap (Event.collect? fun ps => (transformOf? ps).map Written.visit) := by
  have htour := h.map_tour_eq (Declaration.visit? css)
    (fun ps => (transformOf? ps).map Written.visit)
    fun s _ _ hcss hplace => s.visit?_declaration hcss hplace
  have hcollect := congrArg (List.filterMap (Event.collect? id)) htour
  rw [List.filterMap_map, List.filterMap_map, Event.collect?_comp_map,
    Event.collect?_comp_map] at hcollect
  exact hcollect

/-- The declarations that are visited are the `transform` declarations of the level. -/
theorem Splits.declared_visits (h : Splits css l) :
    (visits css).filterMap Event.declared? = l.transforms.map Written.visit := by
  rw [h.visits_eq, Event.filterMap_declared?_collect?, l.filterMap_declared?_events,
    Level.transforms, List.map_filterMap]

/-! ### Conversions -/

theorem convert?_of_convert_eq {policy : InvalidCallPolicy} {value s : List Char}
    (h : CssTransform.convert policy value = some s) : convert? policy value = .ok (some s) := by
  rw [CssTransform.convert] at h
  split at h
  · next hok => rw [hok, h]
  · cases h

/-- A conversion stands alone: its text is the call of `matrix3d`, whatever follows. -/
theorem standsAlone_of_convert {policy : InvalidCallPolicy} {value s : List Char}
    (h : CssTransform.convert policy value = some s) : StandsAlone s := by
  obtain ⟨m, hm, rfl⟩ := exists_matrix_of_convert? (convert?_of_convert_eq h)
  obtain ⟨inside, htext, hinside, hscanned⟩ := Matrix4.exists_tokens hm
  exact .of_tokens htext rfl hinside rfl hscanned

/-- A conversion is converted again, if not to the same text. -/
theorem isSome_convert_of_convert {policy : InvalidCallPolicy} {value s : List Char}
    (h : CssTransform.convert policy value = some s) :
    (CssTransform.convert policy s).isSome = true := by
  obtain ⟨m, hm, rfl⟩ := exists_matrix_of_convert? (convert?_of_convert_eq h)
  rw [CssTransform.convert, convert?_text policy hm]
  rfl

/-- A value without a text has no conversion. -/
theorem convert_nil (policy : InvalidCallPolicy) : CssTransform.convert policy [] = none := by
  cases policy <;> decide +kernel

/-! ### Compiled declarations -/

section Compiled

variable {convert : List Char → Option (List Char)}

/-- A declaration with the conversion in place of its value, if the value has one. -/
def Written.compiled (convert : List Char → Option (List Char)) (w : Written) : Written :=
  if w.valueText = [] then w
  else
    match convert w.valueText with
    | none => w
    | some s => w.replace (pieceOf s)

/-- The declarations that replaced segments are. -/
theorem transformOf?_replaced_eq (hconvert : ∀ v s, convert v = some s → StandsAlone s)
    (ps : List Piece) :
    transformOf? (replaced convert ps) = (transformOf? ps).map (Written.compiled convert) := by
  cases hw : transformOf? ps with
  | none =>
    have hnone : conversion? convert ps = none := by
      rw [conversion?, hw]
      rfl
    rw [replaced, hnone]
    exact hw
  | some w =>
    have hconversion := @conversion?_of_transformOf? convert _ _ hw
    rw [Option.map_some, Written.compiled]
    by_cases hnil : w.valueText = []
    · rw [if_pos hnil] at hconversion ⊢
      rw [replaced, hconversion]
      exact hw
    · rw [if_neg hnil] at hconversion ⊢
      cases hs : convert w.valueText with
      | none =>
        rw [hs] at hconversion
        rw [replaced, hconversion]
        exact hw
      | some s =>
        rw [hs] at hconversion
        exact transformOf?_replaced hconvert hconversion

theorem Written.valueText_replace {s : List Char} (w : Written) (h : StandsAlone s) :
    (w.replace (pieceOf s)).valueText = s := by
  rw [valueText, replace, partsText_cons, h.text]
  exact List.append_nil s

/-- Of a compiled declaration only the value is another. -/
theorem Written.visit_compiled (hconvert : ∀ v s, convert v = some s → StandsAlone s)
    (hnil : convert [] = none) (w : Written) :
    (w.compiled convert).visit =
      { w.visit with value := (convert w.valueText).getD w.valueText } := by
  rw [compiled]
  by_cases hvalue : w.valueText = []
  · rw [if_pos hvalue, hvalue, hnil, Option.getD_none, ← hvalue]
    rfl
  · rw [if_neg hvalue]
    cases hs : convert w.valueText with
    | none => rfl
    | some s =>
      show Visit.mk _ (w.replace (pieceOf s)).valueText _ = _
      rw [w.valueText_replace (hconvert _ _ hs)]
      rfl

/-- A compiled declaration is converted again, if the conversion of its value is. -/
theorem Written.isConverted_compiled (hconvert : ∀ v s, convert v = some s → StandsAlone s)
    {w : Written} (hagain : ∀ s, convert w.valueText = some s → (convert s).isSome = true) :
    (w.compiled convert).isConverted convert = w.isConverted convert := by
  rw [compiled]
  by_cases hvalue : w.valueText = []
  · rw [if_pos hvalue]
  · rw [if_neg hvalue]
    cases hs : convert w.valueText with
    | none => rfl
    | some s =>
      have halone := hconvert _ _ hs
      dsimp only
      rw [isConverted, isConverted, w.valueText_replace halone, hs, hagain s hs,
        decide_eq_true hvalue, decide_eq_true halone.ne_nil]
      rfl

/-- Replaced values that are final are replaced by themselves. -/
theorem replaced_replaced (hconvert : ∀ v s, convert v = some s → StandsAlone s) {ps : List Piece}
    (hfinal : ∀ w, transformOf? ps = some w → ∀ s, convert w.valueText = some s →
      convert s = some s) :
    replaced convert (replaced convert ps) = replaced convert ps := by
  cases h : conversion? convert ps with
  | none =>
    have hsame : replaced convert ps = ps := by
      rw [replaced, h]
    rw [hsame, hsame]
  | some pair =>
    obtain ⟨w, s⟩ := pair
    obtain ⟨htransform, -, hs⟩ := transformOf?_of_conversion? h
    have halone := hconvert _ _ hs
    have hagain : conversion? convert (replaced convert ps) = some (w.replace (pieceOf s), s) := by
      rw [conversion?_of_transformOf? (transformOf?_replaced hconvert h),
        w.valueText_replace halone, if_neg halone.ne_nil, hfinal w htransform s hs]
      rfl
    have hfirst : replaced convert ps = (w.replace (pieceOf s)).parts := by
      rw [replaced, h]
    rw [replaced, hagain, hfirst]
    rfl

/-! ### Compiled sheets -/

theorem Splits.css_compileWith (h : Splits css l) :
    (compileWith convert false css).css = l.render (compiledText convert false) := by
  rw [h.compileWith_eq]

/-- The visits of a compiled sheet: of each declaration only the value may be another. -/
theorem Splits.visits_compileWith (hconvert : ∀ v s, convert v = some s → StandsAlone s)
    (hnil : convert [] = none) (h : Splits css l) :
    visits (compileWith convert false css).css = (visits css).map (Event.map fun v =>
      { v with value := (convert v.value).getD v.value }) := by
  rw [h.css_compileWith, (h.replaced hconvert).visits_eq, h.visits_eq, Level.events_mapSegments,
    List.filterMap_map, List.map_filterMap]
  refine List.filterMap_congr fun event _ => ?_
  cases event with
  | entered => rfl
  | left => rfl
  | declared ps =>
    show ((transformOf? (Stylesheet.replaced convert ps)).map Written.visit).map Event.declared =
      (((transformOf? ps).map Written.visit).map Event.declared).map _
    rw [transformOf?_replaced_eq hconvert]
    cases transformOf? ps with
    | none => rfl
    | some w => exact congrArg (some ∘ Event.declared) (w.visit_compiled hconvert hnil)

/-- A second compilation counts what the first one has counted, where conversions are converted
again. -/
theorem Splits.counts_compileWith (hconvert : ∀ v s, convert v = some s → StandsAlone s)
    (h : Splits css l)
    (hagain : ∀ w ∈ l.transforms, ∀ s, convert w.valueText = some s → (convert s).isSome = true) :
    (compileWith convert false (compileWith convert false css).css).converted =
        (compileWith convert false css).converted ∧
      (compileWith convert false (compileWith convert false css).css).unchanged =
        (compileWith convert false css).unchanged := by
  have htransforms : (l.mapSegments (Stylesheet.replaced convert)).transforms =
      l.transforms.map (Written.compiled convert) := by
    rw [Level.transforms, Level.segments_mapSegments, List.filterMap_map, Level.transforms,
      List.map_filterMap]
    exact congrArg (List.filterMap · _) (funext (transformOf?_replaced_eq hconvert))
  have hcount : (l.transforms.map (Written.compiled convert)).countP (Written.isConverted convert) =
      l.transforms.countP (Written.isConverted convert) := by
    rw [List.countP_map]
    refine List.countP_congr fun w hw => ?_
    rw [Function.comp_apply, Written.isConverted_compiled hconvert (hagain w hw)]
  rw [h.css_compileWith, (h.replaced hconvert).compileWith_eq, h.compileWith_eq, htransforms,
    hcount, List.length_map]
  exact ⟨rfl, rfl⟩

/-- A second compilation changes nothing where conversions are final. -/
theorem Splits.compileWith_compileWith (hconvert : ∀ v s, convert v = some s → StandsAlone s)
    (h : Splits css l)
    (hfinal : ∀ w ∈ l.transforms, ∀ s, convert w.valueText = some s → convert s = some s) :
    compileWith convert false (compileWith convert false css).css =
      compileWith convert false css := by
  have hagain : ∀ w ∈ l.transforms, ∀ s, convert w.valueText = some s →
      (convert s).isSome = true := by
    intro w hw s hs
    rw [hfinal w hw s hs]
    rfl
  obtain ⟨hconverted, hunchanged⟩ := h.counts_compileWith hconvert hagain
  have hcss : (compileWith convert false (compileWith convert false css).css).css =
      (compileWith convert false css).css := by
    rw [h.css_compileWith, (h.replaced hconvert).css_compileWith, Level.render_mapSegments]
    refine l.render_congr fun ps hps => ?_
    rw [← partsText_replaced hconvert, ← partsText_replaced hconvert]
    refine congrArg partsText (replaced_replaced hconvert fun w hw => hfinal w ?_)
    exact List.mem_filterMap.2 ⟨ps, hps, hw⟩
  exact Compiled.ext hcss hconverted hunchanged

end Compiled

/-- A second compilation that replaces values converts as many declarations as the first one, and
leaves as many. -/
theorem counts_compile (settings : Settings) (hreplace : settings.keepWritten = false)
    (css : List Char) :
    (compile settings (compile settings css).css).converted = (compile settings css).converted ∧
      (compile settings (compile settings css).css).unchanged =
        (compile settings css).unchanged := by
  rw [compile, compile, hreplace]
  split
  · obtain ⟨l, hl⟩ := exists_splits css
    refine hl.counts_compileWith (fun _ _ hs => standsAlone_of_convert hs) fun w _ s hs => ?_
    exact isSome_convert_of_convert hs
  · exact ⟨rfl, rfl⟩

/-- **A compilation keeps the declarations of a sheet.** A walk over the compiled sheet meets the
same blocks and in them the same `transform` declarations, in the same order. Each has the same
property and the same importance mark; its value is the conversion of the value that it had, if that
has one, and the very same value if not. So if every conversion in the sheet is converted to itself,
a second compilation gives the same sheet and the same counts. -/
theorem visits_compile (settings : Settings) (henabled : settings.enabled = true)
    (hreplace : settings.keepWritten = false) (css : List Char) :
    visits (compile settings css).css = (visits css).map (Event.map fun v =>
        { v with value := (CssTransform.convert settings.onInvalid v.value).getD v.value }) ∧
      ((∀ v ∈ (visits css).filterMap Event.declared?, ∀ s,
          CssTransform.convert settings.onInvalid v.value = some s →
            CssTransform.convert settings.onInvalid s = some s) →
        compile settings (compile settings css).css = compile settings css) := by
  have hcompile : ∀ css, compile settings css =
      compileWith (CssTransform.convert settings.onInvalid) false css := fun css => by
    rw [compile, if_pos henabled, hreplace]
  have hconvert : ∀ v s, CssTransform.convert settings.onInvalid v = some s → StandsAlone s :=
    fun v s hs => standsAlone_of_convert hs
  obtain ⟨l, hl⟩ := exists_splits css
  refine ⟨?_, fun hfinal => ?_⟩
  · rw [hcompile]
    exact hl.visits_compileWith hconvert (convert_nil _)
  · rw [hcompile, hcompile]
    refine hl.compileWith_compileWith hconvert fun w hw => hfinal w.visit ?_
    rw [hl.declared_visits]
    exact List.mem_map_of_mem hw

/-- A rule with one declaration that has a mark. -/
theorem visits_compile_scale :
    (default : Settings).enabled = true ∧ (default : Settings).keepWritten = false ∧
      visits (compile default "a{transform:scale(2)!important}".toList).css =
        [.entered,
          .declared
            { property := "transform".toList
              value := "matrix3d(2, 0, 0, 0, 0, 2, 0, 0, 0, 0, 1, 0, 0, 0, 0, 1)".toList
              mark := "!important".toList },
          .left] ∧
      compile default (compile default "a{transform:scale(2)!important}".toList).css =
        compile default "a{transform:scale(2)!important}".toList := by
  have hvisits : visits "a{transform:scale(2)!important}".toList =
      [.entered, .declared ⟨"transform".toList, "scale(2)".toList, "!important".toList⟩,
        .left] := by
    decide +kernel
  have hconvert : CssTransform.convert (default : Settings).onInvalid "scale(2)".toList =
      some "matrix3d(2, 0, 0, 0, 0, 2, 0, 0, 0, 0, 1, 0, 0, 0, 0, 1)".toList := by
    decide +kernel
  have hfinal : CssTransform.convert (default : Settings).onInvalid
      "matrix3d(2, 0, 0, 0, 0, 2, 0, 0, 0, 0, 1, 0, 0, 0, 0, 1)".toList =
        some "matrix3d(2, 0, 0, 0, 0, 2, 0, 0, 0, 0, 1, 0, 0, 0, 0, 1)".toList := by
    decide +kernel
  obtain ⟨hkept, hsecond⟩ :=
    visits_compile default rfl rfl "a{transform:scale(2)!important}".toList
  refine ⟨rfl, rfl, ?_, hsecond fun v hv s hs => ?_⟩
  · rw [hkept, hvisits]
    simp only [List.map_cons, List.map_nil, Event.map, hconvert, Option.getD_some]
  · rw [hvisits] at hv
    obtain rfl := List.mem_singleton.1 hv
    cases hconvert.symm.trans hs
    exact hfinal

end Stylesheet

end CssTransform
