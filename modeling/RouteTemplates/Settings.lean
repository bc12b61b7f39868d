import RouteTemplates.Catalog
import RouteTemplates.Text.Blank
import RouteTemplates.Toml.Document

/-!
# Settings

The delimiters and the ceilings of a catalog can be set in a TOML document.
Each setting has a standard value, so a blank document, one that says nothing of
them, and a file that is not there all mean the standard ones.

The settings are in two sections.  A section is a table of its settings, or an
array that holds them in their order and may end early.  What is not known, a key
of a table or an item behind the last setting, is passed over, and a setting with
a value of the wrong kind makes the whole document invalid.

The document is read by the reader of `RouteTemplates.Toml.Document`, which stands for code
from outside.
-/

namespace RouteTemplates

structure Settings where
  opening : Char
  closing : Char
  ceilings : Ceilings
  deriving DecidableEq, Repr

inductive SettingsError
  | invalid
  /-- The file is there and is no text. -/
  | unreadable (path : Text)
  | invalidFile (path : Text)
  deriving DecidableEq, Repr

namespace SettingsError

def invalidMessage : Text := "Invalid pattern configuration".toList

def message : SettingsError → Text
  | .invalid => invalidMessage
  | .unreadable path => "Failed to read config file: ".toList ++ path
  | .invalidFile path =>
    "Failed to parse config file: ".toList ++ path ++ ": ".toList ++ invalidMessage

end SettingsError

namespace Settings

def standard : Settings := ⟨'\x7b', '\x7d', .standard⟩

/-- What `read` makes of the value under a key, or `default` without one. -/
def field {α : Type} (key : Text) (read : Toml.Value → Option α) (default : α)
    (entries : Toml.Entries) : Option α :=
  match Toml.find? key entries with
  | some v => read v
  | none => some default

/-- The settings of a section by their keys, which an array gives in the order of
`keys`.  A date or a time counts as a table that says nothing of them. -/
def section? (keys : List Text) : Toml.Value → Option Toml.Entries
  | .table _ entries => some entries
  | .array items | .tables items => some (keys.zip items)
  | .dateTime => some []
  | .text _ | .integer _ | .float | .boolean _ => none

/-- A string of one character. -/
def delimiter? : Toml.Value → Option Char
  | .text [c] => some c
  | _ => none

def ceiling? : Toml.Value → Option Nat
  | .integer n => if 0 ≤ n then some n.toNat else none
  | _ => none

def openingKey : Text := "open".toList

def closingKey : Text := "close".toList

def stepsKey : Text := "max_tokens_capacity".toList

def valuesKey : Text := "max_params_capacity".toList

def ofEntries? (root : Toml.Entries) : Option Settings := do
  let delimiters ← field "syntax".toList (section? [openingKey, closingKey]) [] root
  let opening ← field openingKey delimiter? standard.opening delimiters
  let closing ← field closingKey delimiter? standard.closing delimiters
  let pools ← field "pools".toList (section? [stepsKey, valuesKey]) [] root
  let steps ← field stepsKey ceiling? standard.ceilings.steps pools
  let values ← field valuesKey ceiling? standard.ceilings.values pools
  return ⟨opening, closing, ⟨steps, values⟩⟩

def read (document : Text) : Except SettingsError Settings :=
  if document.all Text.isBlank then .ok standard
  else
    match (Toml.read? document).bind ofEntries? with
    | some settings => .ok settings
    | none => .error .invalid

end Settings

/-- What is found under the path of a file. -/
inductive FileContent
  | missing
  /-- Something is there that has no content, such as a folder. -/
  | unreadable
  | bytes (content : ByteArray)

namespace Settings

def load (path : Text) : FileContent → Except SettingsError Settings
  | .missing => .ok standard
  | .unreadable => .error (.unreadable path)
  | .bytes content =>
    match String.fromUTF8? content with
    | none => .error (.unreadable path)
    | some document => (read document.toList).mapError fun _ => .invalidFile path

end Settings

def Catalog.ofSettings (s : Settings) : Except Defect Catalog :=
  (Delimiters.ofChars s.opening s.closing).map fun delimiters => .new delimiters s.ceilings

end RouteTemplates
