import PageInvalidation.Usage.Set

/-! # Page records

The usages recorded for one page. Adding a usage twice changes nothing, and two records are equal if they
are for the same page and hold the same identities, in any order. -/

namespace PageInvalidation

/-- The usages of a page. -/
structure PageUsages where
  pageId : Nat
  usages : UsageSet

namespace PageUsages

/-- A page without usages. -/
def empty (pageId : Nat) : PageUsages := ⟨pageId, Keyed.empty⟩

/-- Adds a usage. -/
def add (p : PageUsages) (u : Usage) : PageUsages := ⟨p.pageId, p.usages.insert u⟩

/-- Adds usages one after the other. -/
def addAll (p : PageUsages) (us : List Usage) : PageUsages := ⟨p.pageId, p.usages.insertAll us⟩

/-- The record of a page with the given usages. -/
def ofList (pageId : Nat) (us : List Usage) : PageUsages := (empty pageId).addAll us

/-- The usages in order. -/
def toList (p : PageUsages) : List Usage := p.usages.toList

/-- Whether there is no usage. -/
def isEmpty (p : PageUsages) : Bool := p.usages.isEmpty

/-- Equality of records: the same page and the same identities. -/
def same (p q : PageUsages) : Bool := p.pageId == q.pageId && p.usages.sameIdentities q.usages

instance : BEq PageUsages := ⟨same⟩

/-! ### Records from values that may be unfit -/

/-- The page number that an integer gives. -/
def pageIdOfInt (n : Int) : Except Usage.Error Nat :=
  if 0 ≤ n then .ok n.toNat else .error (.badPageId (.int n))

/-- The page number that a value gives. -/
def pageIdOfValue : Value → Except Usage.Error Nat
  | .int n => pageIdOfInt n
  | v => .error (.badPageId v)

/-- Adds an entry. -/
def addEntry (p : PageUsages) : Entry → Except Usage.Error PageUsages
  | .usage u => .ok (p.add u)
  | .foreign v => .error (.notUsage v)

/-- Adds entries up to the first that is unfit; those before it stay. -/
def addEach (p : PageUsages) : List (Except Usage.Error Entry) → PageUsages × Except Usage.Error Unit
  | [] => (p, .ok ())
  | entry :: rest =>
    match entry.bind p.addEntry with
    | .ok p => p.addEach rest
    | .error e => (p, .error e)

/-- The record of a page with the given entries, all of which must be fit. -/
def ofEntries (pageId : Nat) (entries : List Entry) : Except Usage.Error PageUsages :=
  let (p, result) := (empty pageId).addEach (entries.map .ok)
  result.map fun _ => p

/-- The record for values of a page number and of entries. -/
def ofValues (pageId : Value) (entries : List Entry) : Except Usage.Error PageUsages := do
  ofEntries (← pageIdOfValue pageId) entries

/-! ### Views -/

/-- A page record as a value. -/
def toValue (p : PageUsages) : Value :=
  .obj [("page_id", .int p.pageId), ("usages", .arr (p.toList.map Usage.toValue))]

/-- A page record in messages: its identities in ascending order. -/
def displayed (p : PageUsages) : Text.CodeText :=
  Text.CodeText.ofString ("PageEntityUsages(page_id=" ++ toString p.pageId ++ ", usages=[") ++
    List.intercalate (Text.CodeText.ofString ", ") (p.usages.keys.mergeSort fun a b => a ≤ b) ++
    Text.CodeText.ofString "])"

end PageUsages

end PageInvalidation
