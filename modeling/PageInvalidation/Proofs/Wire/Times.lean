import PageInvalidation.Proofs.Instant.Millis
import PageInvalidation.Proofs.Wire.Encoding

/-! # Times of changes

The time of a change does not decide whether a message is decoded, as long as it is an instant. A decoded change is
written again as a message (`exists_ofChange_of_toChange`), with the milliseconds that its time comes back as
(`time_of_decoded`). -/

namespace PageInvalidation

open Outcome

variable {P : Value → Prop} {N : Text.CodeText → Prop}

namespace Wire

/-! ### Diffs that are decoded can be written -/

mutual

theorem exists_ofOp : ∀ o : DiffOp, o.Carried P N → ∃ op, ofOp o = .ok op
  | .add new, _ => ⟨_, rfl⟩
  | .remove old, _ => ⟨_, rfl⟩
  | .change old new, _ => ⟨_, rfl⟩
  | .unspecified, h => h.elim
  | .nested form entries associative, ⟨_, _, hentries⟩ => by
    obtain ⟨operations, h⟩ := exists_ofEntries associative entries hentries
    exact ⟨_, ofOp_nested h⟩

theorem exists_ofEntries (associative : Bool) : ∀ entries : List (DiffKey × DiffOp),
    DiffOp.EntriesCarried P N associative entries → ∃ operations, ofEntries entries = .ok operations
  | [], _ => ⟨[], rfl⟩
  | (key, o) :: rest, ⟨_, ho, hrest⟩ => by
    obtain ⟨op, hop⟩ := exists_ofOp o ho
    obtain ⟨operations, h⟩ := exists_ofEntries associative rest hrest
    exact ⟨_, ofEntries_cons hop h⟩

end

theorem DiffMessage.exists_ofDiff_of_toDiff {form : DiffForm} {m : DiffMessage} {d : Diff}
    (h : m.toDiff form = .ok d) : ∃ m', DiffMessage.ofDiff d = .ok m' := by
  obtain ⟨entries, hentries, rfl⟩ := toDiff_eq_ok.mp h
  have hcarried := DiffOp.entriesCarried_iff.mp (carried_of_toEntries m.associative m.operations entries hentries)
  obtain ⟨operations, hoperations⟩ := exists_ofEntries _ (distinctBy Prod.fst entries)
    (DiffOp.entriesCarried_iff.mpr fun e he => hcarried e (mem_of_mem_distinctBy Prod.fst he))
  exact ⟨_, bind_eq_ok.mpr ⟨operations, hoperations, rfl⟩⟩

namespace ChangeMessage

variable {m : ChangeMessage} {c : EntityChange} {n : ℤ}

theorem exists_ofChange_of_toChange (id : ℤ) (h : m.toChange = .ok c) :
    ∃ m', ofChange id c = .ok m' ∧ m'.time = c.time.map Instant.toMillis := by
  obtain ⟨entity, time, d, -, -, hd, rfl⟩ := toChange_eq_ok.mp h
  obtain ⟨diff, hdiff⟩ := DiffMessage.exists_ofDiff_of_toDiff hd
  exact ⟨_, bind_eq_ok.mpr ⟨diff, hdiff, rfl⟩, rfl⟩

/-- **Times of changes on the wire.** Every number of milliseconds on a day of the years 1 to 9999 is read as an
instant, and the message is decoded if and only if it is without its time. The change is written with the time that it
was read with, except where that falls short: there it is one millisecond nearer to 1970. -/
theorem time_of_decoded {m : ChangeMessage} {n : ℤ} (hm : m.time = some n) (hn : Instant.InYears n) :
    (∃ t, Instant.ofMillis n = .ok t ∧ t.toMillis = Instant.returned n ∧
      (t.toMillis = n ↔ ¬Instant.FallsShort n.natAbs)) ∧
    ((∃ c, m.toChange = .ok c) ↔ ∃ c, ({ m with time := none } : ChangeMessage).toChange = .ok c) ∧
    ∀ c id, m.toChange = .ok c → ∃ m', ofChange id c = .ok m' ∧ m'.time = some (Instant.returned n) := by
  obtain ⟨t, ht, -, hmillis⟩ := Instant.toMillis_ofMillis hn
  have htime : toTime m.time = .ok (some t) := by rw [hm, toTime, ht, Except.map]
  refine ⟨⟨t, ht, hmillis, hmillis ▸ Instant.returned_eq_self_iff⟩, ⟨?_, ?_⟩, fun c id hc => ?_⟩
  · rintro ⟨c, hc⟩
    obtain ⟨entity, time, d, hentity, -, hd, -⟩ := toChange_eq_ok.mp hc
    exact ⟨_, toChange_eq_ok.mpr ⟨entity, none, d, hentity, rfl, hd, rfl⟩⟩
  · rintro ⟨c, hc⟩
    obtain ⟨entity, time, d, hentity, -, hd, -⟩ := toChange_eq_ok.mp hc
    exact ⟨_, toChange_eq_ok.mpr ⟨entity, some t, d, hentity, htime, hd, rfl⟩⟩
  · have hread : c.time = some t := by
      obtain ⟨entity, time, d, -, htime', -, rfl⟩ := toChange_eq_ok.mp hc
      exact Except.ok.inj (htime'.symm.trans htime)
    obtain ⟨m', hencoded, hwritten⟩ := exists_ofChange_of_toChange id hc
    refine ⟨m', hencoded, ?_⟩
    rw [hwritten, hread, Option.map_some, hmillis]

/-- A message with nothing but a time. -/
def atMillis (n : ℤ) : ChangeMessage := ⟨1, "Q42", .update, 7, some n, .empty, []⟩

/-- One second and one millisecond after the start of 1970 comes back as one second. -/
theorem time_of_decoded_second : (atMillis 1001).time = some 1001 ∧ Instant.InYears 1001 ∧
    ∃ c m', (atMillis 1001).toChange = .ok c ∧ ofChange 1 c = .ok m' ∧ m'.time = some 1000 := by
  have hyears : Instant.InYears 1001 := by decide +kernel
  obtain ⟨-, hdecoded, hencoded⟩ := time_of_decoded (m := atMillis 1001) rfl hyears
  obtain ⟨c, hc⟩ := hdecoded.mpr ⟨_, toChange_eq_ok.mpr ⟨⟨"Q42", by decide⟩, none, ⟨.item, [], true⟩,
    by decide +kernel, rfl, rfl, rfl⟩⟩
  obtain ⟨m', hm', htime⟩ := hencoded c 1 hc
  have hreturned : Instant.returned 1001 = 1000 := by decide +kernel
  exact ⟨rfl, hyears, c, m', hc, hm', hreturned ▸ htime⟩

/-- An instant is read from milliseconds that it is not written with. -/
theorem second_loses_millisecond :
    ∃ t, Instant.InYears 1001 ∧ Instant.ofMillis 1001 = .ok t ∧ t.toMillis = 1000 :=
  ⟨⟨1001000, some 0⟩, by decide +kernel, by decide +kernel, by decide +kernel⟩

end ChangeMessage

end Wire

end PageInvalidation
