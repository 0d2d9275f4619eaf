import PageInvalidation.Proofs.Database.Effects
import PageInvalidation.Proofs.Database.Requests
import PageInvalidation.Proofs.Dispatch.Transparency
import PageInvalidation.Proofs.Title.Canonical

/-! # Pages by title and by number

The database form of a title has underscores for the spaces of its normal form, and a normal form has no underscore and
no blank but spaces: the form has no blank, it tells normal forms apart, and the title read off it is the normal form
(`ofColumn_toColumn`). So the page found by a title and the page found by a number are the same if both are answered
with the same row (`resolutions_agree`). -/

namespace PageInvalidation

/-! ### Database forms -/

namespace Database.Titles

variable {old new : Text.CodePoint} {text r r' : Text.CodeText}

theorem exchanged_exchanged (h : new ∉ text) : exchanged new old (exchanged old new text) = text := by
  have hback : ∀ p ∈ text, (if (if p = old then new else p) = new then old else if p = old then new else p) = p := by
    intro p hp
    have hne : p ≠ new := fun heq => h (heq ▸ hp)
    by_cases hold : p = old
    · rw [if_pos hold, if_pos rfl, hold]
    · rw [if_neg hold, if_neg hne]
  rw [exchanged, exchanged, List.map_map]
  exact (List.map_congr_left hback).trans (List.map_id' _)

/-- **The title read off a database form is the normal form it was made of.** -/
theorem ofColumn_toColumn (h : Title.normalize text = .ok r) : ofColumn (toColumn r) = r :=
  exchanged_exchanged fun hmem => ((Title.isSinglySpaced_of_normalize h).2 (.scalar '_') hmem).2.1 rfl

theorem isBlank_of_mem_toColumn (h : Title.normalize text = .ok r) {p : Text.CodePoint} (hp : p ∈ toColumn r) :
    p.satisfies Text.isBlank = false := by
  obtain ⟨q, hq, rfl⟩ := List.mem_map.mp hp
  split
  · decide
  · rename_i hspace
    exact Bool.eq_false_iff.mpr fun hblank => hspace (((Title.isSinglySpaced_of_normalize h).2 q hq).1 hblank)

theorem toColumn_inj {text' : Text.CodeText} (h : Title.normalize text = .ok r) (h' : Title.normalize text' = .ok r') :
    toColumn r' = toColumn r ↔ r' = r := by
  refine ⟨fun heq => ?_, congrArg toColumn⟩
  rw [← ofColumn_toColumn h', heq, ofColumn_toColumn h]

/-! ### Rows -/

variable {members : Members} {pageId nameSpace : ℤ}

/-- A row of the table of pages, whatever other columns it has. -/
structure IsPageRow (members : Members) (pageId nameSpace : ℤ) (column : Text.CodeText) : Prop where
  pageId : Json.member? "page_id" members = some (.int pageId)
  nameSpace : Json.member? "page_namespace" members = some (.int nameSpace)
  title : Json.member? "page_title" members = some (.str column)

theorem IsPageRow.isRow {column : Text.CodeText} (h : IsPageRow members pageId nameSpace column) :
    isRow (.obj members) = true := by
  cases members with
  | nil => cases h.pageId
  | cons m ms => rfl

theorem integerColumn_eq {name : String} {n : ℤ} (h : Json.member? name members = some (.int n)) :
    integerColumn name (.obj members) = .ok n := by
  rw [integerColumn, column, h]
  rfl

theorem IsPageRow.ofRowNamed_eq {column : Text.CodeText} (h : IsPageRow members pageId nameSpace column)
    (title : Text.CodeText) :
    ofRowNamed title (.obj members) = .ok ⟨pageId, nameSpace, title, true⟩ := by
  rw [ofRowNamed, integerColumn_eq h.pageId, integerColumn_eq h.nameSpace]
  rfl

theorem IsPageRow.ofRow_eq {column : Text.CodeText} (h : IsPageRow members pageId nameSpace column) :
    ofRow (.obj members) = .ok ⟨pageId, nameSpace, ofColumn column, true⟩ := by
  have htitle : titleColumn (.obj members) = .ok (ofColumn column) := by
    rw [titleColumn, Database.column, h.title]
    rfl
  rw [ofRow, integerColumn_eq h.pageId, integerColumn_eq h.nameSpace, htitle]
  rfl

end Database.Titles

namespace Dispatch

open Database (Made Reply Request Statement Watched)
open Database.Titles (IsPageRow isBlank_of_mem_toColumn ofColumn_toColumn toColumn toColumn_inj)

/-! ### What is sent -/

/-- The parameters that a call sends, if it executes a statement. -/
def paramsOf? (m : Made) : Option Value :=
  match m.call with
  | .execute _ params => some params
  | _ => none

/-- The parameters that a request sends, one after the other. -/
def sent (r : Request) (w : World) : List Value := (r.serve (⟨w, []⟩ : Watched World)).made.filterMap paramsOf?

variable {q : Statement} {t : List Made} {n : ℕ} {ok : Bool}

theorem params_of_isAttempt (h : q.IsAttempt ok t) : ∀ params ∈ t.filterMap paramsOf?, params = q.params := by
  cases h with
  | unconnected => exact List.forall_mem_nil _
  | unbegun returned => exact List.forall_mem_nil _
  | unopened undone returned => exact List.forall_mem_nil _
  | @complete ok t h closed ended returned =>
    have hended : paramsOf? ⟨if (ok && closed) = true then .commit else .rollback, ended⟩ = none := by
      split <;> rfl
    have hexecution : t.filterMap paramsOf? = [q.params] := by
      cases h with
      | refused => rfl
      | unfetched hfetch => rfl
      | fetched hfetch _ => rcases Database.Fetch.call?_eq_some hfetch with rfl | rfl <;> rfl
    have hclosed : [(⟨.closeCursor, closed⟩ : Made), ⟨if (ok && closed) = true then .commit else .rollback, ended⟩,
        ⟨.giveBack, returned⟩].filterMap paramsOf? = [] := by
      rw [List.filterMap_cons, List.filterMap_cons, hended]
      rfl
    rw [List.filterMap_append, List.filterMap_append, hexecution, hclosed]
    exact List.forall_mem_singleton.mpr rfl

theorem params_of_isExchange (h : q.IsExchange n t) : ∀ params ∈ t.filterMap paramsOf?, params = q.params := by
  induction h with
  | last h => exact params_of_isAttempt h
  | stopped h delay =>
    rw [List.filterMap_append]
    exact List.forall_mem_append.mpr ⟨params_of_isAttempt h, List.forall_mem_nil _⟩
  | again h delay _ ih =>
    rw [List.filterMap_append]
    exact List.forall_mem_append.mpr ⟨params_of_isAttempt h, ih⟩

/-- The calls that were made stay made. -/
instance : IsPreorder (Watched World) fun w w' => w.made <+: w'.made where
  refl _ := List.prefix_rfl
  trans _ _ _ := List.IsPrefix.trans

theorem talks_prefix : Database.Talks fun w w' : Watched World => w.made <+: w'.made :=
  ⟨fun _ _ => List.prefix_rfl, fun _ w => List.prefix_append w.made _⟩

/-- What is made between two calls is made if the first succeeds. -/
theorem mem_made_within {enter : Database.Call} {leave : Bool → Database.Call} {x : Act (Watched World) Value}
    {w w' : Watched World} {v : Value} {m : Made} (h : Database.Host.call enter w = (.ok v, w'))
    (hx : m ∈ (x.run.run w').2.made) : m ∈ ((Database.within enter leave x).run.run w).2.made := by
  rw [Database.run_within, h]
  dsimp only
  rcases hrun : x.run.run w' with ⟨r, w₁⟩
  rw [hrun] at hx
  dsimp only
  rcases hleave : Database.Host.call (leave r.isOk) w₁ with ⟨e | v, w₂⟩ <;>
    exact Database.made_of_call hleave ▸ List.mem_append_left _ hx

/-- A call succeeds in a world whose reply says so, and does not use up the reply unless it ends the attempt. -/
theorem exists_made_call {w : Watched World} {c : Database.Call} (hc : c.ends true = false)
    (h : (w.host.reply.outcome c).isOk = true) :
    ∃ v w', Database.Host.call c w = (.ok v, w') ∧ w'.host.reply = w.host.reply := by
  obtain ⟨w₁, hcall, hanswers⟩ := exists_call c w.host
  have hwatched : Database.Host.call c w = ((Database.Host.call c w.host).1, ⟨(Database.Host.call c w.host).2,
      w.made ++ [⟨c, (Database.Host.call c w.host).1.isOk⟩]⟩) := rfl
  rw [h, hc] at hanswers
  rw [hwatched, hcall]
  obtain ⟨v, hv⟩ := Outcome.isOk_iff.mp h
  exact ⟨v, _, congrArg (·, _) hv, reply_congr hanswers⟩

theorem mem_isExecution (h : q.IsExecution ok t) : ∃ ok', ⟨q.execution, ok'⟩ ∈ t := by
  cases h with
  | refused => exact ⟨_, List.mem_cons_self⟩
  | unfetched _ => exact ⟨_, List.mem_cons_self⟩
  | fetched _ _ => exact ⟨_, List.mem_cons_self⟩

/-- **A statement is sent** if the world lets an attempt get to its execution. -/
theorem exists_made_run {w : Watched World} (h : w.host.reply.Connects) (q : Statement) :
    ∃ ok, ⟨q.execution, ok⟩ ∈ ((Database.run q.text q.params q.fetch).run.run w).2.made := by
  obtain ⟨_, w₁, htake, hw₁⟩ := exists_made_call rfl h.take
  obtain ⟨_, w₂, hstart, hw₂⟩ := exists_made_call (w := w₁) rfl (hw₁ ▸ h.start)
  obtain ⟨_, w₃, hcursor, -⟩ := exists_made_call (w := w₂) rfl ((hw₂.trans hw₁) ▸ h.cursor)
  obtain ⟨t, hmade, ht⟩ := q.fits_executed w₃
  obtain ⟨ok, hmem⟩ := mem_isExecution ht
  unfold Database.run Database.withConnection Database.withTransaction Database.withCursor
  refine ⟨ok, mem_made_within htake (mem_made_within hstart (mem_made_within hcursor ?_))⟩
  rw [hmade]
  exact List.mem_append_right _ hmem

theorem made_retryFrom {base : Number} {operation : Act (Watched World) Value}
    (h : operation.Leads fun w w' => w.made <+: w'.made) (left done : ℕ) (w : Watched World) :
    (operation.run.run w).2.made <+: ((Database.retryFrom base operation (left + 1) done).run.run w).2.made := by
  rw [Database.retryFrom, Act.run_tryCatch]
  rcases operation.run.run w with ⟨e | v, w'⟩
  · dsimp only
    split
    · exact ((Database.pause_leads talks_prefix base done e).bind fun _ =>
        Database.retryFrom_leads talks_prefix base h left (done + 1)) w'
    · exact List.prefix_rfl
  · exact List.prefix_rfl

theorem mem_made_query {w : Watched World} {m : Made}
    (h : m ∈ ((Database.run q.text q.params q.fetch).run.run w).2.made) :
    m ∈ ((Database.query q.text q.params q.fetch).run.run w).2.made :=
  (made_retryFrom (Database.run_leads talks_prefix q.text q.params q.fetch) 3 0 w).subset h

/-- **The parameters that a request sends** are those of its statement. -/
theorem sent_of_statement? {r : Request} (hq : r.statement? = some q) (w : World) :
    ∀ params ∈ sent r w, params = q.params := by
  obtain ⟨t, hmade, ht⟩ := r.madeBy_serve (⟨w, []⟩ : Watched World)
  rw [Request.MadeBy, hq] at ht
  obtain ⟨n, -, hexchange⟩ := ht
  rw [sent, hmade]
  exact params_of_isExchange hexchange

variable {text title : Text.CodeText}

theorem sent_pageByText (h : Title.normalize text = .ok title) (nameSpace : ℤ) (w : World) :
    (∀ params ∈ sent (.pageByText nameSpace (.str text)) w,
      params = .arr [.int nameSpace, .str (toColumn title)]) ∧
    (w.reply.Connects → .arr [.int nameSpace, .str (toColumn title)] ∈ sent (.pageByText nameSpace (.str text)) w) := by
  have hstatement : (Request.pageByText nameSpace (.str text)).statement? =
      some ⟨Database.Titles.byTextQuery, .arr [.int nameSpace, .str (toColumn title)], .one⟩ := by
    rw [Request.statement?, Title.normalizeValue, h]
  refine ⟨sent_of_statement? hstatement w, fun hconnects => ?_⟩
  obtain ⟨ok, hmem⟩ := exists_made_run (w := ⟨w, []⟩) hconnects
    ⟨Database.Titles.byTextQuery, .arr [.int nameSpace, .str (toColumn title)], .one⟩
  have hserve : (Request.pageByText nameSpace (.str text)).serve (⟨w, []⟩ : Watched World) =
      ((Database.query Database.Titles.byTextQuery (.arr [.int nameSpace, .str (toColumn title)])
        .one).run.run (⟨w, []⟩ : Watched World)).2 := by
    rw [Request.serve, Database.Titles.pageByText, Title.normalizeValue, h, Act.run_ok_bind]
    refine Act.state_bind (fun row => ?_) _
    split
    · exact Act.leads_ofExcept _ _
    · exact Act.leads_pure _
  rw [sent, hserve]
  exact List.mem_filterMap.mpr ⟨_, mem_made_query (q := ⟨Database.Titles.byTextQuery,
    .arr [.int nameSpace, .str (toColumn title)], .one⟩) hmem, rfl⟩

/-! ### What is found -/

variable {members : Members} {pageId nameSpace : ℤ} {i : Interrupted} {more : List Value}
  {rest : List Reply} {w : World}

theorem run_pageByText (h : Title.normalize text = .ok title) {column : Text.CodeText}
    (hrow : IsPageRow members pageId nameSpace column) (hi : i.Passing)
    (hanswer : i.answer = .rows (some (.obj members :: more))) (hw : w.answers = i.replies ++ rest) (asked : ℤ) :
    ((Database.Titles.pageByText asked (.str text)).run.run w).1 = .ok ⟨pageId, nameSpace, title, true⟩ := by
  obtain ⟨w', -, hquery⟩ := run_query_of_replies
    ⟨Database.Titles.byTextQuery, .arr [.int asked, .str (toColumn title)], .one⟩ hi hw
  rw [hanswer] at hquery
  have hresult : (Database.Titles.pageByText asked (.str text)).run.run w =
      (Act.ofExcept id (Database.Titles.ofRowNamed title (.obj members)) : Act World PageRef).run.run w' := by
    rw [Database.Titles.pageByText, Title.normalizeValue, h, Act.run_ok_bind, Act.run_bind, hquery]
    exact congrArg (fun x : Act World PageRef => x.run.run w') (if_pos hrow.isRow)
  rw [hresult, hrow.ofRowNamed_eq]
  rfl

theorem run_pageById {column : Text.CodeText} (hrow : IsPageRow members pageId nameSpace column) (hi : i.Passing)
    (hanswer : i.answer = .rows (some (.obj members :: more))) (hw : w.answers = i.replies ++ rest) (asked : ℤ) :
    ((Database.Titles.pageById asked).run.run w).1 =
      .ok ⟨pageId, nameSpace, Database.Titles.ofColumn column, true⟩ := by
  obtain ⟨w', -, hquery⟩ := run_query_of_replies ⟨Database.Titles.byIdQuery, .arr [.int asked], .one⟩ hi hw
  rw [hanswer] at hquery
  have hresult : (Database.Titles.pageById asked).run.run w =
      (Act.ofExcept id (Database.Titles.ofRow (.obj members)) : Act World PageRef).run.run w' := by
    rw [Database.Titles.pageById, Act.run_bind, hquery]
    exact congrArg (fun x : Act World PageRef => x.run.run w') (if_pos hrow.isRow)
  rw [hresult, hrow.ofRow_eq]
  rfl

/-- **A page is the same by its title and by its number.** A title that can be normalized is sent in a form without a
blank, and in no other, which is that of another title if and only if both have the same normal form. Answered with a
row of that form, both lookups give the page of the row under the normal form. -/
theorem resolutions_agree (h : Title.normalize text = .ok title) (asked : ℤ) :
    ∃ column : Text.CodeText,
      (∀ w, (∀ params ∈ sent (.pageByText asked (.str text)) w, params = .arr [.int asked, .str column]) ∧
        (w.reply.Connects → .arr [.int asked, .str column] ∈ sent (.pageByText asked (.str text)) w)) ∧
      (∀ p ∈ column, p ≠ .scalar ' ' ∧ p.satisfies Text.isBlank = false) ∧
      (∀ text' title' column' w, Title.normalize text' = .ok title' →
        .arr [.int asked, .str column'] ∈ sent (.pageByText asked (.str text')) w →
        (column' = column ↔ title' = title)) ∧
      ∀ members pageId nameSpace number (i i' : Interrupted) more more' rest rest' (w w' : World),
        IsPageRow members pageId nameSpace column → i.Passing → i'.Passing →
        i.answer = .rows (some (.obj members :: more)) → i'.answer = .rows (some (.obj members :: more')) →
        w.answers = i.replies ++ rest → w'.answers = i'.replies ++ rest' →
          ((Database.Titles.pageByText asked (.str text)).run.run w).1 = .ok ⟨pageId, nameSpace, title, true⟩ ∧
          ((Database.Titles.pageById number).run.run w').1 = .ok ⟨pageId, nameSpace, title, true⟩ := by
  refine ⟨toColumn title, sent_pageByText h asked, fun c hc => ?_, ?_, ?_⟩
  · have hblank := isBlank_of_mem_toColumn h hc
    refine ⟨?_, hblank⟩
    rintro rfl
    cases hblank
  · intro text' title' column' w h' hsent
    have hcolumn := (sent_pageByText h' asked w).1 _ hsent
    simp only [Json.arr.injEq, List.cons.injEq, Json.str.injEq, and_true, true_and] at hcolumn
    rw [hcolumn]
    exact toColumn_inj h h'
  · intro members pageId nameSpace number i i' more more' rest rest' w w' hrow hi hi' hanswer hanswer' hw hw'
    refine ⟨run_pageByText h hrow hi hanswer hw asked, ?_⟩
    rw [run_pageById hrow hi' hanswer' hw' number, ofColumn_toColumn h]

/-- A title with an underscore and further spaces, and a row of its page. -/
theorem resolutions_agree_york :
    let w := { App.calmWorld with answers := [.rows (some [pageRow])] }
    Title.normalize " New_ York" = .ok "New York" ∧
      ((Database.Titles.pageByText 0 (.str " New_ York")).run.run w).1 = .ok ⟨7, 0, "New York", true⟩ ∧
      ((Database.Titles.pageById 7).run.run w).1 = .ok ⟨7, 0, "New York", true⟩ := by
  intro w
  have h : Title.normalize " New_ York" = .ok ("New York" : Text.CodeText) := by decide +kernel
  obtain ⟨column, hsent, -, -, hfound⟩ := resolutions_agree h 0
  have hcolumn : column = "New_York" := by
    have hparams := (sent_pageByText h 0 w).1 _ ((hsent w).2 (Reply.connects_rows _))
    have hform : toColumn "New York" = ("New_York" : Text.CodeText) := by decide +kernel
    simp only [Json.arr.injEq, List.cons.injEq, Json.str.injEq, and_true, true_and] at hparams
    exact hparams.trans hform
  have hrow : IsPageRow [("page_id", .int 7), ("page_namespace", .int 0), ("page_title", .str "New_York")] 7 0 column :=
    hcolumn ▸ ⟨rfl, rfl, rfl⟩
  have hi : (⟨[], .rows (some [pageRow])⟩ : Interrupted).Passing := ⟨Nat.zero_le 3, nofun, Reply.isSettled_rows _⟩
  exact ⟨h, hfound _ 7 0 7 _ _ [] [] [] [] w w hrow hi hi rfl rfl rfl rfl⟩

end Dispatch

end PageInvalidation
