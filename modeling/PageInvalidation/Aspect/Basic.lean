import PageInvalidation.Text.CodeText

/-! # Aspects of an entity

A page does not use an entity as a whole but some aspects of it. Labels, descriptions and statements can
be told apart further by a modifier, a language or a property. -/

namespace PageInvalidation

/-- What of an entity a page uses. -/
inductive Aspect where
  | label
  | description
  | title
  | siteLink
  | statement
  | other
  /-- Every aspect, whatever it is. -/
  | all
  deriving DecidableEq, Repr

namespace Aspect

/-- All aspects. -/
def values : List Aspect := [label, description, title, siteLink, statement, other, all]

/-- The letter that stands for an aspect in a key. -/
def letter : Aspect → Char
  | label => 'L'
  | description => 'D'
  | title => 'T'
  | siteLink => 'S'
  | statement => 'C'
  | other => 'O'
  | all => 'X'

/-- The name of an aspect in messages. -/
def name : Aspect → String
  | label => "LABEL"
  | description => "DESCRIPTION"
  | title => "TITLE"
  | siteLink => "SITELINK"
  | statement => "STATEMENT"
  | other => "OTHER"
  | all => "ALL"

/-- Whether a modifier can tell the aspect apart further. -/
def acceptsModifier : Aspect → Bool
  | label | description | statement => true
  | title | siteLink | other | all => false

/-- The code of an aspect: its letter as a text. -/
def code (a : Aspect) : Text.CodeText := [.scalar a.letter]

/-- The aspect with a code. -/
def ofCode? (s : Text.CodeText) : Option Aspect := values.find? fun a => s = a.code

/-- The aspect with a name. -/
def ofName? (s : String) : Option Aspect := values.find? fun a => s = a.name

theorem letter_injective : ∀ {a b : Aspect}, a.letter = b.letter → a = b := by
  intro a b
  cases a <;> cases b <;> decide

theorem ofCode?_eq_some_iff {s : Text.CodeText} {a : Aspect} : ofCode? s = some a ↔ s = a.code := by
  constructor
  · intro h
    simpa using List.find?_some h
  · rintro rfl
    cases a <;> decide

end Aspect

end PageInvalidation
