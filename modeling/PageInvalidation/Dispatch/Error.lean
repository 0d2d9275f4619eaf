import PageInvalidation.Text.Utf8

/-! # Errors of the dispatcher

What can go wrong around the handling of a single change. -/

namespace PageInvalidation.Dispatch

/-- Why a message, a batch or a run fails. -/
inductive Error where
  /-- Records that the broker did not take. -/
  | undelivered (count : Int)
  /-- A record that cannot be produced. -/
  | notProduced (message : String)
  /-- Messages that cannot be consumed. -/
  | notConsumed (message : String)
  /-- A body that is not well-formed. -/
  | undecodable (e : Text.Utf8.Error)
  /-- A text that cannot be written. -/
  | unwritable (u : Text.Utf8.Unwritable)
  /-- A body with too many values inside each other; the first one too deep is a list or an object. -/
  | tooDeep (list : Bool)
  /-- A counter that would fall. -/
  | negativeCount
  deriving DecidableEq, Repr

/-- The words for an error. -/
def Error.message : Error → String
  | .undelivered count =>
    toString count ++ " message(s) not delivered; offsets not committed"
  | .notProduced message => message
  | .notConsumed message => message
  | .undecodable e => e.message
  | .unwritable u => u.message
  | .tooDeep list =>
    "maximum recursion depth exceeded while decoding a JSON " ++ (if list then "array" else "object") ++
      " from a unicode string"
  | .negativeCount => "Counters can only be incremented by non-negative amounts."

end PageInvalidation.Dispatch
