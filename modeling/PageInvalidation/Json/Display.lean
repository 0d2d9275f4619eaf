import PageInvalidation.Binary64.Text
import PageInvalidation.Json.Basic
import PageInvalidation.Text.Quoted

/-! # Displayed values

Values as error messages and log lines show them: texts in quotes with escapes, the constants
capitalised, lists and dictionaries in brackets. -/

namespace PageInvalidation.Json

/-- Floating-point numbers in messages. -/
def displayStyle : Binary64.Style := ⟨-4, 16, 2, "nan", "inf", "-inf"⟩

/-- The word for the type of a value. -/
def typeName : Value → String
  | .null => "NoneType"
  | .bool _ => "bool"
  | .int _ => "int"
  | .float _ => "float"
  | .str _ => "str"
  | .arr _ => "list"
  | .obj _ => "dict"

mutual

/-- A value with its texts in quotes. -/
def displayed : Value → String
  | .null => "None"
  | .bool true => "True"
  | .bool false => "False"
  | .int n => toString n
  | .float x => String.ofList (displayStyle.render x)
  | .str s => Text.quoted s
  | .arr items => "[" ++ String.intercalate ", " (displayedItems items) ++ "]"
  | .obj members => "\x7b" ++ String.intercalate ", " (displayedMembers members) ++ "\x7d"

/-- Each item of a list. -/
def displayedItems : List Value → List String
  | [] => []
  | v :: rest => displayed v :: displayedItems rest

/-- Each member of an object. -/
def displayedMembers : Members → List String
  | [] => []
  | (k, v) :: rest => (Text.quoted k ++ ": " ++ displayed v) :: displayedMembers rest

end

/-- A value as running text: a text stands without quotes. -/
def shown : Value → Text.CodeText
  | .str s => s
  | v => displayed v

end PageInvalidation.Json
