import PageInvalidation.Aspect.Basic
import PageInvalidation.Json.Display

/-! # Aspect keys

An aspect, possibly with a modifier, and its text: the letter of the aspect, then a point and the
modifier. Only the aspects that accept a modifier have one, and it is never empty, so a key is known by
its text.

* `AspectKey.make` builds a key from its parts, `AspectKey.ofText` from its text. -/

namespace PageInvalidation

/-- An aspect, possibly told apart by a modifier. -/
structure AspectKey where
  aspect : Aspect
  modifier : Option Text.CodeText
  valid : ∀ m, modifier = some m → aspect.acceptsModifier = true ∧ m ≠ []
  deriving DecidableEq, Repr

namespace AspectKey

/-- Why there is no such key. -/
inductive Error where
  /-- A modifier for an aspect that accepts none. -/
  | modifierRefused (aspect : Aspect)
  /-- A modifier without a character. -/
  | emptyModifier
  /-- A value that is no text or an empty one. -/
  | malformed (value : Value)
  /-- A text that starts with no aspect. -/
  | unknownAspect (text : Text.CodeText)
  /-- A text with nothing behind the point. -/
  | emptyModifierIn (text : Text.CodeText)
  /-- A text with a modifier behind an aspect that accepts none. -/
  | modifierRefusedIn (aspect : Aspect) (text : Text.CodeText)

/-- The words for an error. -/
def Error.message : Error → String
  | .modifierRefused aspect => "aspect " ++ aspect.name ++ " does not take a modifier"
  | .emptyModifier => "modifier must be a non-empty string"
  | .malformed value => "malformed aspect key: " ++ value.displayed
  | .unknownAspect text => "unknown aspect in key: " ++ Text.quoted text
  | .emptyModifierIn text => "empty modifier in key: " ++ Text.quoted text
  | .modifierRefusedIn aspect text =>
    "aspect " ++ aspect.name ++ " does not take a modifier: " ++ Text.quoted text

/-- The key of an aspect without a modifier. -/
def bare (a : Aspect) : AspectKey := ⟨a, none, by simp⟩

/-- The key of an aspect with an optional modifier. -/
def make (a : Aspect) (modifier : Option Text.CodeText) : Except Error AspectKey :=
  match modifier with
  | none => .ok (bare a)
  | some m =>
    if ha : a.acceptsModifier = true then
      if hm : m = [] then .error .emptyModifier
      else .ok ⟨a, some m, by rintro _ ⟨⟩; exact ⟨ha, hm⟩⟩
    else .error (.modifierRefused a)

/-- Whether a key has a modifier. -/
def isModified (k : AspectKey) : Bool := k.modifier.isSome

/-- The text of a key. -/
def text (k : AspectKey) : Text.CodeText :=
  match k.modifier with
  | none => k.aspect.code
  | some m => k.aspect.code ++ .scalar '.' :: m

/-- A text up to its first point, and the rest behind the point if there is one. -/
def splitAtPoint : Text.CodeText → Text.CodeText × Option Text.CodeText
  | [] => ([], none)
  | c :: rest =>
    if c = .scalar '.' then ([], some rest)
    else let (before, after) := splitAtPoint rest; (c :: before, after)

/-- The key that a text writes. -/
def ofText (s : Text.CodeText) : Except Error AspectKey :=
  if s = [] then .error (.malformed (.str s))
  else
    let (token, modifier) := splitAtPoint s
    match Aspect.ofCode? token with
    | none => .error (.unknownAspect s)
    | some a =>
      match modifier with
      | none => .ok (bare a)
      | some m =>
        if hm : m = [] then .error (.emptyModifierIn s)
        else if ha : a.acceptsModifier = true then
          .ok ⟨a, some m, by rintro _ ⟨⟩; exact ⟨ha, hm⟩⟩
        else .error (.modifierRefusedIn a s)

/-- The key that a value writes. -/
def ofValue : Value → Except Error AspectKey
  | .str s => ofText s
  | v => .error (.malformed v)

/-- The key without its modifier. -/
def stripped (k : AspectKey) : AspectKey := bare k.aspect

end AspectKey

end PageInvalidation
