import CssTransform.Settings
import CssTransform.Toml.Document

/-!
# Settings from a TOML document

Each setting is a key at the top of a document. A key that is missing leaves the default, keys that
are no settings are let pass, and a value of the wrong type spoils the document.

## Main definitions

* `Settings.ofToml?` — the settings of a document
-/

namespace CssTransform

namespace Settings

/-- The name of the settings file that is looked for. -/
def fileName : List Char := "m3d.toml".toList

/-- The truth value under a key, or a default. -/
def boolean? (entries : Toml.Entries) (key : String) (default : Bool) : Option Bool :=
  match entries.find? key.toList with
  | none => some default
  | some (.boolean value) => some value
  | some _ => none

/-- The text under a key, or a default. -/
def text? (entries : Toml.Entries) (key : String) (default : List Char) : Option (List Char) :=
  match entries.find? key.toList with
  | none => some default
  | some (.string text) => some text
  | some _ => none

/-- The policy with a name. -/
def policyOfName? (name : List Char) : Option InvalidCallPolicy :=
  if name = "skip".toList then some .skip
  else if name = "abort".toList then some .abort
  else none

/-- Whether an item is a table or an array without content. -/
def isEmptyItem : Toml.Item → Bool
  | .array items => items.isEmpty
  | .table _ entries => entries.isEmpty
  | .tables elements => elements.isEmpty
  | _ => false

/-- The policy under a key, or a default. A policy is its name, or a table with the name as its
only key and nothing under it. -/
def policy? (entries : Toml.Entries) (key : String) (default : InvalidCallPolicy) :
    Option InvalidCallPolicy :=
  match entries.find? key.toList with
  | none => some default
  | some (.string name) => policyOfName? name
  | some (.table _ [(name, content)]) => if isEmptyItem content then policyOfName? name else none
  | some _ => none

/-- The settings of a document. -/
def ofToml? (text : List Char) : Option Settings := do
  let entries ← Toml.read? text
  let defaults : Settings := default
  return {
    enabled := ← boolean? entries "enabled" defaults.enabled
    keepWritten := ← boolean? entries "keep_original" defaults.keepWritten
    test := ← text? entries "test" defaults.test
    onInvalid := ← policy? entries "on_invalid" defaults.onInvalid }

end Settings

end CssTransform
