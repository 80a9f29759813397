import ReceiptPrinter.Json.Syntax
import ReceiptPrinter.Profile

/-! # Settings — read from JSON

    Settings are an object of fields, each of which may be left out, or an array of
    their values in the order of the fields, of which the last ones may be left out.
    An object may have other fields, whose values do not matter; no field of the
    settings may stand there twice. -/

namespace ReceiptPrinter

open Json (Syntax)

/-- How a receipt is compiled. -/
structure Settings where
  /-- Whether the markup is checked first. -/
  validate : Bool := true
  /-- The name of the encoding of text that names no other. -/
  encoding : String := "ascii"
  /-- The greatest number of items that a loop may run over. -/
  maxLoopItems : Option Nat := none
  /-- The directory that image paths are seen from. -/
  baseDir : Option String := none
deriving DecidableEq, Repr

/-- How compiled receipts are shown. -/
structure PreviewSettings where
  /-- The characters of a line. -/
  lineWidth : Nat := Profile.tmT20.columns
deriving DecidableEq, Repr

/-- A named setting, and how its value is set from JSON. -/
structure SettingField (σ : Type) where
  name : String
  set? : σ → Syntax → Option σ

/-- The content of a JSON string. -/
def textSetting? : Syntax → Option String
  | .text content => content
  | _ => none

/-- The natural number that a JSON number is written as. -/
def naturalSetting? : Syntax → Option Nat
  | .number l => l.natural?
  | _ => none

/-- A setting that may be absent. -/
def absentOr {α : Type} (read? : Syntax → Option α) : Syntax → Option (Option α)
  | .null => some none
  | j => (read? j).map some

namespace SettingField

variable {σ : Type}

/-- Sets fields from the items of an array, one after the other. -/
def setItems? : List (SettingField σ) → σ → List Syntax → Option σ
  | _, s, [] => some s
  | [], _, _ :: _ => none
  | field :: fields, s, item :: items => (field.set? s item).bind (setItems? fields · items)

/-- Sets fields from those of an object, one after the other; `seen` are the names
    set before. -/
def setFields? (fields : List (SettingField σ)) (seen : List String) (s : σ) :
    List (Option String × Syntax) → Option σ
  | [] => some s
  | (none, _) :: _ => none
  | (some name, value) :: rest =>
    match fields.find? (·.name == name) with
    | none => setFields? fields seen s rest
    | some field =>
      if seen.contains name then none
      else (field.set? s value).bind (setFields? fields (name :: seen) · rest)

/-- Reads settings. -/
def read? (fields : List (SettingField σ)) (initial : σ) : Syntax → Option σ
  | .array items => setItems? fields initial items
  | .object members => setFields? fields [] initial members
  | _ => none

end SettingField

/-- The value of a JSON truth value. -/
def switchSetting? : Syntax → Option Bool
  | .bool b => some b
  | _ => none

/-- The fields of the settings for compiling. -/
def Settings.fields : List (SettingField Settings) := [
  ⟨"validate", fun s j => (switchSetting? j).map ({ s with validate := · })⟩,
  ⟨"encoding", fun s j => (textSetting? j).map ({ s with encoding := · })⟩,
  ⟨"max_loop_items",
    fun s j => (absentOr naturalSetting? j).map ({ s with maxLoopItems := · })⟩,
  ⟨"base_dir", fun s j => (absentOr textSetting? j).map ({ s with baseDir := · })⟩]

/-- Reads settings for compiling. -/
def Settings.read? (s : String) : Option Settings :=
  (Syntax.read? s).bind (SettingField.read? fields {})

/-- The fields of the settings for showing. -/
def PreviewSettings.fields : List (SettingField PreviewSettings) := [
  ⟨"line_width", fun s j => (naturalSetting? j).map ({ s with lineWidth := · })⟩]

/-- Reads settings for showing. -/
def PreviewSettings.read? (s : String) : Option PreviewSettings :=
  (Syntax.read? s).bind (SettingField.read? fields {})

end ReceiptPrinter
