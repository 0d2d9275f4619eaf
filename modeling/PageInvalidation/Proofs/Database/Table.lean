import Mathlib.Data.List.Basic
import PageInvalidation.Database.Usages
import PageInvalidation.Proofs.Journal
import PageInvalidation.Proofs.Keyed

/-! # A table of usages behind a database

What the lookups of usages ask a database for, given a meaning: a statement selects the rows of a table that its
condition holds of (`Condition.holds`), and the texts of the two lookups are those of conditions
(`statement_usingQuery`, `usedQuery_eq`). A database *serves* a table if the calls of a session succeed and the two
statements are answered with what they select (`Serves`); one that keeps its table in memory does
(`TableHost.serves`). -/

namespace PageInvalidation.Database

/-! ### Tables -/

/-- A row of the table of usages. -/
structure Row where
  page : ℤ
  entity : Text.CodeText
  aspect : Text.CodeText
  deriving DecidableEq, Repr

namespace Row

/-- The row of a recorded usage. -/
def ofUsage (page : ℤ) (u : Usage) : Row := ⟨page, u.entity.serialization, u.key.text⟩

/-- A row as it is fetched. -/
def toValue (r : Row) : Value :=
  .obj ([("eu_page_id", .int r.page), ("eu_entity_id", .str r.entity), ("eu_aspect", .str r.aspect)] : Members)

end Row

/-- A name in the column of entities, as it is fetched. -/
def entityRow (name : Text.CodeText) : Value := .obj ([("eu_entity_id", .str name)] : Members)

/-! ### Conditions -/

/-- A column of texts. -/
inductive Column where
  | entity
  | aspect

def Column.name : Column → String
  | .entity => "eu_entity_id"
  | .aspect => "eu_aspect"

def Column.of (r : Row) : Column → Text.CodeText
  | .entity => r.entity
  | .aspect => r.aspect

/-- Where a parameter goes, by its name or as the first one. -/
inductive Slot where
  | named (name : String)
  | first

def Slot.text : Slot → String
  | .named name => "%(" ++ name ++ ")s"
  | .first => "%s"

/-- The texts in a list of texts. -/
def textsOf : Value → List Text.CodeText
  | .arr items => items.filterMap fun v => match v with | .str s => some s | _ => none
  | _ => []

/-- The texts that parameters hold for a slot. -/
def Slot.texts (params : Value) : Slot → List Text.CodeText
  | .named name =>
    match params with
    | .obj members => ((Json.member? name members).map textsOf).getD []
    | _ => []
  | .first =>
    match params with
    | .arr (v :: _) => textsOf v
    | _ => []

/-- Whether a text is like a pattern: a percent sign stands for any characters, another character for itself. -/
def like : Text.CodeText → Text.CodeText → Bool
  | [], text => text.isEmpty
  | c :: pattern, text =>
    if c = .scalar '%' then text.tails.any fun rest => like pattern rest
    else
      match text with
      | [] => false
      | d :: rest => c == d && like pattern rest

/-- A condition on rows. -/
inductive Condition where
  | equalsAny (column : Column) (slot : Slot)
  | likeAny (column : Column) (slot : Slot)
  | both (c d : Condition)
  | either (c d : Condition)
  /-- The page is that of a row of which a condition holds. -/
  | pageAmong (c : Condition)

namespace Condition

/-- A condition as it is written. -/
def text : Condition → String
  | equalsAny column slot => column.name ++ " = ANY(" ++ slot.text ++ ")"
  | likeAny column slot => column.name ++ " LIKE ANY(" ++ slot.text ++ ")"
  | both c d => c.text ++ " AND " ++ d.text
  | either c d => "(" ++ c.text ++ " OR " ++ d.text ++ ")"
  | pageAmong c => "eu_page_id IN ( SELECT eu_page_id FROM entity_usage WHERE " ++ c.text ++ " )"

/-- Whether a condition holds of a row of a table. -/
def holds (table : List Row) (params : Value) : Condition → Row → Bool
  | equalsAny column slot, r => (slot.texts params).contains (column.of r)
  | likeAny column slot, r => (slot.texts params).any fun pattern => like pattern (column.of r)
  | both c d, r => c.holds table params r && d.holds table params r
  | either c d, r => c.holds table params r || d.holds table params r
  | pageAmong c, r => table.any fun other => other.page == r.page && c.holds table params other

end Condition

/-! ### Statements -/

/-- The statement that selects rows by ascending page number. -/
def rowsStatement (c : Condition) : String :=
  "SELECT eu_page_id, eu_entity_id, eu_aspect FROM entity_usage WHERE " ++ c.text ++ " ORDER BY eu_page_id ASC"

/-- The statement that selects the names of entities, each once. -/
def namesStatement (c : Condition) : String := "SELECT DISTINCT eu_entity_id FROM entity_usage WHERE " ++ c.text

/-- The entity is one of those asked for. -/
def entityCondition : Condition := .equalsAny .entity (.named "entities")

/-- The key is one of those asked for, or like one of the patterns. -/
def keyCondition : Condition :=
  .either (.equalsAny .aspect (.named "aspects")) (.likeAny .aspect (.named "patterns"))

/-- The condition of the lookup of pages, with a filter or without. -/
def usingCondition (filtered : Bool) : Condition :=
  .both entityCondition (.pageAmong (if filtered then .both entityCondition keyCondition else entityCondition))

/-- The condition of the lookup of entities. -/
def usedCondition : Condition := .equalsAny .entity .first

theorem text_usingCondition (filtered : Bool) : (usingCondition filtered).text =
    "eu_entity_id = ANY(%(entities)s) AND eu_page_id IN ( SELECT eu_page_id FROM entity_usage " ++
      "WHERE eu_entity_id = ANY(%(entities)s)" ++
      (if filtered then " AND (eu_aspect = ANY(%(aspects)s) OR eu_aspect LIKE ANY(%(patterns)s))" else "") ++
      " )" := by
  have hboth : ∀ c d : Condition, (Condition.both c d).text = c.text ++ " AND " ++ d.text := fun _ _ => rfl
  have heither : ∀ c d : Condition, (Condition.either c d).text = "(" ++ c.text ++ " OR " ++ d.text ++ ")" :=
    fun _ _ => rfl
  have hamong : ∀ c : Condition, (Condition.pageAmong c).text =
      "eu_page_id IN ( SELECT eu_page_id FROM entity_usage WHERE " ++ c.text ++ " )" := fun _ => rfl
  have hequals : ∀ column slot, (Condition.equalsAny column slot).text =
      column.name ++ " = ANY(" ++ slot.text ++ ")" := fun _ _ => rfl
  have hlike : ∀ column slot, (Condition.likeAny column slot).text =
      column.name ++ " LIKE ANY(" ++ slot.text ++ ")" := fun _ _ => rfl
  refine String.toList_inj.mp ?_
  simp only [usingCondition, entityCondition, keyCondition, hboth, hamong, hequals]
  -- texts are compared as the lists of characters that they are made of
  cases filtered with
  | true =>
    simp only [hboth, heither, hequals, hlike, Column.name, Slot.text, String.toList_append, if_true]
    repeat rw [String.toList_ofList]
    decide +kernel
  | false =>
    simp only [hequals, Column.name, Slot.text, String.toList_append, Bool.false_eq_true, if_false]
    repeat rw [String.toList_ofList]
    decide +kernel

/-- **What the lookup of pages asks for.** -/
theorem statement_usingQuery (filter : UsageFilter) : statement (Usages.usingQuery filter) =
    statement (rowsStatement (usingCondition (!filter.exact.isEmpty))) := by
  unfold statement rowsStatement Usages.usingQuery Usages.keyClause
  rw [text_usingCondition]
  refine congrArg String.ofList ?_
  cases filter.exact.isEmpty with
  | true =>
    simp only [String.toList_append, Bool.not_true, Bool.false_eq_true, if_true, if_false]
    repeat rw [String.toList_ofList]
    decide +kernel
  | false =>
    simp only [String.toList_append, Bool.not_false, Bool.false_eq_true, if_true, if_false]
    repeat rw [String.toList_ofList]
    decide +kernel

/-- **What the lookup of entities asks for.** -/
theorem usedQuery_eq : Usages.usedQuery = namesStatement usedCondition := by
  have hused : usedCondition.text = Column.entity.name ++ " = ANY(" ++ Slot.first.text ++ ")" := rfl
  unfold Usages.usedQuery namesStatement
  refine String.toList_inj.mp ?_
  rw [hused]
  simp only [Column.name, Slot.text, String.toList_append]
  repeat rw [String.toList_ofList]
  decide +kernel

theorem statement_using_ne : statement (rowsStatement (usingCondition false)) ≠
    statement (rowsStatement (usingCondition true)) := by
  unfold statement rowsStatement
  rw [ne_eq, String.ofList_inj, text_usingCondition, text_usingCondition]
  simp only [String.toList_append, Bool.false_eq_true, if_true, if_false]
  repeat rw [String.toList_ofList]
  decide +kernel

theorem statement_using_ne_used (filtered : Bool) : statement (rowsStatement (usingCondition filtered)) ≠
    statement (namesStatement usedCondition) := by
  rw [← usedQuery_eq]
  unfold statement rowsStatement Usages.usedQuery
  rw [ne_eq, String.ofList_inj, text_usingCondition]
  simp only [String.toList_append]
  repeat rw [String.toList_ofList]
  cases filtered with
  | true => decide +kernel
  | false => decide +kernel

/-! ### Databases that serve a table -/

/-- The state after calls. -/
def after {σ : Type} [Host σ] (cs : List Call) (s : σ) : σ := cs.foldl (fun s c => (Host.call c s).2) s

/-- What comes of a call after others. -/
def outcomeAfter {σ : Type} [Host σ] (cs : List Call) (c : Call) (s : σ) : Except Fault Value :=
  (Host.call c (after cs s)).1

/-- The calls that open a session up to the execution of a statement. -/
def opening (text : String) (params : Value) : List Call :=
  [.takeConnection, .beginTransaction, .openCursor, .execute (statement text) params]

/-- What comes of fetching all rows of a statement in a session of its own. -/
def fetched {σ : Type} [Host σ] (text : String) (params : Value) (s : σ) : Except Fault Value :=
  outcomeAfter (opening text params) .fetchAll s

/-- The calls of a session beside the fetch of rows succeed. -/
structure Serviceable (σ : Type) [Host σ] : Prop where
  take : ∀ s : σ, (Host.call .takeConnection s).1.isOk = true
  start : ∀ s : σ, (Host.call .beginTransaction s).1.isOk = true
  cursor : ∀ s : σ, (Host.call .openCursor s).1.isOk = true
  execute : ∀ (text : String) (params : Value) (s : σ), (Host.call (.execute text params) s).1.isOk = true
  close : ∀ s : σ, (Host.call .closeCursor s).1.isOk = true
  commit : ∀ s : σ, (Host.call .commit s).1.isOk = true
  giveBack : ∀ s : σ, (Host.call .giveBack s).1.isOk = true

/-- A database answers the statements of the two lookups with what they select from a table: rows by ascending page
number, in any order for a page, and names in any order. -/
structure Serves (σ : Type) [Host σ] (table : List Row) : Prop extends Serviceable σ where
  rows : ∀ (filtered : Bool) (params : Value) (s : σ), ∃ rows : List Row,
    fetched (rowsStatement (usingCondition filtered)) params s = .ok (.arr (rows.map Row.toValue)) ∧
    rows.Perm (table.filter ((usingCondition filtered).holds table params)) ∧
    rows.Pairwise fun r r' => r.page ≤ r'.page
  names : ∀ (params : Value) (s : σ), ∃ names : List Text.CodeText,
    fetched (namesStatement usedCondition) params s = .ok (.arr (names.map entityRow)) ∧ names.Nodup ∧
    ∀ name, name ∈ names ↔ ∃ r ∈ table, usedCondition.holds table params r = true ∧ r.entity = name

/-- A database that keeps a table in memory, and what it was asked last. -/
structure TableHost (table : List Row) where
  asked : String × Value
  notes : List Note

namespace TableHost

variable {table : List Row}

/-- The rows that a condition selects, by ascending page number. -/
def select (table : List Row) (c : Condition) (params : Value) : List Row :=
  (table.filter (c.holds table params)).mergeSort fun r r' => r.page ≤ r'.page

/-- The rows of the result of a statement. -/
def result (table : List Row) (text : String) (params : Value) : List Value :=
  if text = statement (namesStatement usedCondition) then
    (distinct ((select table usedCondition params).map Row.entity)).map entityRow
  else
    let filtered : Bool := text = statement (rowsStatement (usingCondition true))
    (select table (usingCondition filtered) params).map Row.toValue

instance : Journalled (TableHost table) := ⟨fun note s => { s with notes := s.notes ++ [note] }⟩

instance : Host (TableHost table) where
  call
    | .execute text params, s => (.ok .null, { s with asked := (text, params) })
    | .fetchOne, s => (.ok ((result table s.asked.1 s.asked.2).headD .null), s)
    | .fetchAll, s => (.ok (.arr (result table s.asked.1 s.asked.2)), s)
    | _, s => (.ok .null, s)

theorem serviceable (table : List Row) : Serviceable (TableHost table) :=
  ⟨fun _ => rfl, fun _ => rfl, fun _ => rfl, fun _ _ _ => rfl, fun _ => rfl, fun _ => rfl, fun _ => rfl⟩

theorem fetched_eq (text : String) (params : Value) (s : TableHost table) :
    fetched text params s = .ok (.arr (result table (statement text) params)) := rfl

theorem mem_select {c : Condition} {params : Value} {r : Row} :
    r ∈ select table c params ↔ r ∈ table ∧ c.holds table params r = true := by
  rw [select, List.mem_mergeSort, List.mem_filter]

/-- **Every table is served by some database.** -/
theorem serves (table : List Row) : Serves (TableHost table) table where
  toServiceable := serviceable table
  rows filtered params s := by
    refine ⟨select table (usingCondition filtered) params, ?_, List.mergeSort_perm _ _,
      pairwise_mergeSort_le Row.page _⟩
    have hfiltered : decide (statement (rowsStatement (usingCondition filtered)) =
        statement (rowsStatement (usingCondition true))) = filtered := by
      cases filtered with
      | true => simp
      | false => simp [statement_using_ne]
    rw [fetched_eq, result, if_neg (statement_using_ne_used filtered), hfiltered]
  names params s := by
    refine ⟨distinct ((select table usedCondition params).map Row.entity), ?_, nodup_distinct _, fun name => ?_⟩
    · rw [fetched_eq, result, if_pos rfl]
    · rw [mem_distinct, List.mem_map]
      simp only [mem_select, and_assoc]

end TableHost

end PageInvalidation.Database
