import PageInvalidation.Text.CodeText

/-! # Issues of a wire message

What is wrong with a message, and where: a kind and the path from the top of the message to the place,
by member names and list positions. -/

namespace PageInvalidation.Wire

/-- What is wrong at a place. -/
inductive IssueKind where
  | jsonInvalid
  | missing
  | modelType
  | dictType
  | listType
  | stringType
  | intType
  | intParsing
  | intParsingSize
  | intFromFloat
  | finiteNumber
  | boolType
  | boolParsing
  | literalError
  | unionTagInvalid
  | unionTagNotFound
  | extraForbidden
  deriving DecidableEq, Repr

/-- The word for a kind. -/
def IssueKind.word : IssueKind → String
  | .jsonInvalid => "json_invalid"
  | .missing => "missing"
  | .modelType => "model_type"
  | .dictType => "dict_type"
  | .listType => "list_type"
  | .stringType => "string_type"
  | .intType => "int_type"
  | .intParsing => "int_parsing"
  | .intParsingSize => "int_parsing_size"
  | .intFromFloat => "int_from_float"
  | .finiteNumber => "finite_number"
  | .boolType => "bool_type"
  | .boolParsing => "bool_parsing"
  | .literalError => "literal_error"
  | .unionTagInvalid => "union_tag_invalid"
  | .unionTagNotFound => "union_tag_not_found"
  | .extraForbidden => "extra_forbidden"

/-- One step of a path. -/
inductive Place where
  | name (s : Text.CodeText)
  | index (n : Nat)
  deriving DecidableEq, Repr

/-- What is wrong, and where. -/
structure Issue where
  kind : IssueKind
  path : List Place
  deriving DecidableEq, Repr

/-- An issue here. -/
def Issue.here (kind : IssueKind) : Issue := ⟨kind, []⟩

/-- An issue of a part, seen from the whole. -/
def Issue.under (place : Place) (i : Issue) : Issue := ⟨i.kind, place :: i.path⟩

end PageInvalidation.Wire
