import PageInvalidation.Journal
import PageInvalidation.Text.Blank

/-! # Sessions

One statement in one transaction on a connection of a pool. The connection, the transaction and the cursor
are each opened by one call and closed by another, whatever happens in between. -/

namespace PageInvalidation.Database

/-- A state that talks to a database through a driver. Each call gives a value or fails. -/
class Host (σ : Type) where
  /-- What a call comes to, and the state after it. -/
  call : Call → σ → Except Fault Value × σ

variable {σ α : Type} [Host σ]

/-- Makes a call. -/
def call (c : Call) : Act σ Value := do Act.ofExcept id (← Act.observe (Host.call c))

/-! ### What is open -/

/-- Does something between two calls. If the first fails nothing else is done. The second is made however
the rest ends, and its failure takes the place of what the rest came to. -/
def within (enter : Call) (leave : Bool → Call) (x : Act σ α) : Act σ α := do
  let _ ← call enter
  let result ← Act.outcome x
  let _ ← call (leave result.isOk)
  Act.ofExcept id result

/-- Does something on a connection of the pool. -/
def withConnection (x : Act σ α) : Act σ α := within .takeConnection (fun _ => .giveBack) x

/-- Does something in a transaction, which is undone if it fails. -/
def withTransaction (x : Act σ α) : Act σ α :=
  within .beginTransaction (fun succeeded => if succeeded then .commit else .rollback) x

/-- Does something with a cursor. -/
def withCursor (x : Act σ α) : Act σ α := within .openCursor (fun _ => .closeCursor) x

/-! ### Statements -/

/-- A statement as it is reported: its words with single spaces between them. -/
def statement (query : String) : String :=
  String.ofList (List.intercalate [' '] (Text.words Text.isBlank query.toList))

/-- Fetches the rows that are wanted. -/
def Fetch.rows : Fetch → Act σ Value
  | .nothing => return .null
  | .one => call .fetchOne
  | .all => call .fetchAll

/-- Executes a statement and fetches the rows that are wanted. -/
def executed (query : String) (params : Value) (fetch : Fetch) : Act σ Value := do
  let _ ← call (.execute (statement query) params)
  fetch.rows

/-- Executes a statement in a session of its own and gives the rows that are wanted. -/
def run (query : String) (params : Value) (fetch : Fetch) : Act σ Value :=
  withConnection (withTransaction (withCursor (executed query params fetch)))

/-- Closes all connections of the pool. -/
def close : Act σ Unit := do
  let _ ← call .closeAll

end PageInvalidation.Database
