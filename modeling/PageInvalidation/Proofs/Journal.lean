import PageInvalidation.Journal

/-! # Computations whose result is known

A computation over a state *gives* a result if that is its result in every state. What is looked up in
memory gives its result: the journal is only written. -/

namespace PageInvalidation.Act

variable {σ α β : Type}

/-- The journal alone as a state. -/
instance : Journalled (List Note) := ⟨fun note notes => notes ++ [note]⟩

/-! ### Running -/

theorem run_bind (x : Act σ α) (f : α → Act σ β) (s : σ) : (x >>= f).run.run s =
    match x.run.run s with
    | (.ok a, s') => (f a).run.run s'
    | (.error e, s') => (.error e, s') := by
  rw [ExceptT.run_bind, StateT.run_bind]
  rcases x.run.run s with ⟨r | r, s'⟩
  · rfl
  · rfl

theorem run_tryCatch (x : Act σ α) (h : Fault → Act σ α) (s : σ) : (tryCatch x h).run.run s =
    match x.run.run s with
    | (.ok a, s') => (.ok a, s')
    | (.error e, s') => (h e).run.run s' := by
  rw [ExceptT.run_tryCatch, StateT.run_bind]
  rcases x.run.run s with ⟨r | r, s'⟩
  · rfl
  · rfl

theorem run_outcome (x : Act σ α) (s : σ) : (outcome x).run.run s = (.ok (x.run.run s).1, (x.run.run s).2) := by
  rw [outcome, run_tryCatch, ExceptT.run_map, StateT.run_map]
  rcases x.run.run s with ⟨e | a, s'⟩
  · rfl
  · rfl

theorem run_forM_cons (f : α → Act σ Unit) (a : α) (l : List α) (s : σ) : ((a :: l).forM f).run.run s =
    match (f a).run.run s with
    | (.ok _, s') => (l.forM f).run.run s'
    | (.error e, s') => (.error e, s') := by
  have hcons : (a :: l).forM f = (f a >>= fun _ => l.forM f) := rfl
  rw [hcons, run_bind]
  rcases (f a).run.run s with ⟨e | _, s'⟩
  · rfl
  · rfl

theorem run_read_bind (f : σ → α) (k : α → Act σ β) (s : σ) :
    ((observe fun s => (f s, s)) >>= k).run.run s = (k (f s)).run.run s := rfl

theorem run_ok_bind {ε : Type} (fault : ε → Fault) (a : α) (k : α → Act σ β) (s : σ) :
    (ofExcept fault (.ok a) >>= k).run.run s = (k a).run.run s := rfl

theorem run_update_bind (f : σ → σ) (k : Unit → Act σ β) (s : σ) :
    (update f >>= k).run.run s = (k ()).run.run (f s) := rfl

theorem run_bind_eq_ok {x : Act σ α} {f : α → Act σ β} {s s'' : σ} {b : β} :
    (x >>= f).run.run s = (.ok b, s'') ↔
      ∃ a s', x.run.run s = (.ok a, s') ∧ (f a).run.run s' = (.ok b, s'') := by
  rw [run_bind]
  rcases x.run.run s with ⟨e | a, s'⟩
  · exact ⟨nofun, nofun⟩
  · constructor
    · exact fun h => ⟨a, s', rfl, h⟩
    · rintro ⟨a', s₁, h, h'⟩
      cases h
      exact h'

theorem run_ofExcept {ε : Type} (fault : ε → Fault) (r : Except ε α) (s : σ) :
    (ofExcept fault r : Act σ α).run.run s = (r.mapError fault, s) := by
  cases r <;> rfl

theorem run_ofExcept_eq_ok {ε : Type} {fault : ε → Fault} {r : Except ε α} {s s' : σ} {a : α} :
    (ofExcept fault r : Act σ α).run.run s = (.ok a, s') ↔ r = .ok a ∧ s' = s := by
  cases r with
  | error e => exact ⟨nofun, nofun⟩
  | ok b =>
    constructor
    · rintro ⟨⟩
      exact ⟨rfl, rfl⟩
    · rintro ⟨⟨⟩, rfl⟩
      rfl

theorem run_tryCatch_eq_ok {x : Act σ α} {h : Fault → Act σ α} {s s'' : σ} {a : α}
    (hrun : (tryCatch x h).run.run s = (.ok a, s'')) : x.run.run s = (.ok a, s'') ∨
      ∃ e s', x.run.run s = (.error e, s') ∧ (h e).run.run s' = (.ok a, s'') := by
  rw [run_tryCatch] at hrun
  rcases hx : x.run.run s with ⟨e | a', s'⟩
  · rw [hx] at hrun
    exact .inr ⟨e, s', rfl, hrun⟩
  · rw [hx] at hrun
    exact .inl hrun

/-! ### Results -/

/-- A computation has a result in every state. -/
def Gives (x : Act σ α) (r : Except Fault α) : Prop := ∀ s, (x.run.run s).1 = r

theorem gives_pure (a : α) : Gives (pure a : Act σ α) (.ok a) := fun _ => rfl

theorem gives_throw (e : Fault) : Gives (throw e : Act σ α) (.error e) := fun _ => rfl

theorem gives_ofExcept {ε : Type} (fault : ε → Fault) (r : Except ε α) :
    Gives (ofExcept fault r : Act σ α) (r.mapError fault) := by
  cases r with
  | ok a => exact gives_pure a
  | error e => exact gives_throw (fault e)

theorem gives_ofExcept_id (r : Except Fault α) : Gives (ofExcept id r : Act σ α) r := by
  cases r with
  | ok a => exact gives_pure a
  | error e => exact gives_throw e

theorem gives_note [Journalled σ] (level : Level) (source : String) (text : Text.CodeText) :
    Gives (note level source text : Act σ Unit) (.ok ()) := fun _ => rfl

theorem gives_noteIf [Journalled σ] (level : Level) (source : String) : ∀ text? : Option Text.CodeText,
    Gives (noteIf level source text? : Act σ Unit) (.ok ())
  | some text => gives_note level source text
  | none => gives_pure ()

theorem Gives.bind {x : Act σ α} {r : Except Fault α} (hx : x.Gives r) {f : α → Act σ β}
    {g : α → Except Fault β} (hf : ∀ a, r = .ok a → (f a).Gives (g a)) : (x >>= f).Gives (r >>= g) := by
  intro s
  have h := hx s
  rw [run_bind]
  rcases hxs : x.run.run s with ⟨e | a, s'⟩
  · rw [hxs] at h
    cases h
    rfl
  · rw [hxs] at h
    cases h
    exact hf a rfl s'

theorem Gives.map {x : Act σ α} {r : Except Fault α} (hx : x.Gives r) (f : α → β) :
    (f <$> x).Gives (r.map f) := by
  have h : (x >>= fun a => pure (f a)).Gives (r >>= fun a => .ok (f a)) :=
    hx.bind fun a _ => gives_pure (f a)
  rw [← bind_pure_comp]
  cases r with
  | error e => exact h
  | ok a => exact h

theorem Gives.foldlM {f : β → α → Act σ β} {g : β → α → Except Fault β}
    (h : ∀ b a, (f b a).Gives (g b a)) : ∀ (l : List α) (b : β), (l.foldlM f b).Gives (l.foldlM g b)
  | [], b => gives_pure b
  | a :: l, b => by
    rw [List.foldlM_cons, List.foldlM_cons]
    exact (h b a).bind fun b' _ => Gives.foldlM h l b'

theorem Gives.tryCatch_of_ok {x : Act σ α} {a : α} (hx : x.Gives (.ok a)) (h : Fault → Act σ α) :
    (tryCatch x h).Gives (.ok a) := by
  intro s
  have hr := hx s
  rw [run_tryCatch]
  rcases hxs : x.run.run s with ⟨r, s'⟩
  rw [hxs] at hr
  cases hr
  rfl

theorem Gives.tryCatch_of_error {x : Act σ α} {e : Fault} (hx : x.Gives (.error e)) {h : Fault → Act σ α}
    {r : Except Fault α} (hh : (h e).Gives r) : (tryCatch x h).Gives r := by
  intro s
  have hr := hx s
  rw [run_tryCatch]
  rcases hxs : x.run.run s with ⟨r', s'⟩
  rw [hxs] at hr
  cases hr
  exact hh s'

theorem Gives.tryCatch {x : Act σ α} {r : Except Fault α} (hx : x.Gives r) {h : Fault → Act σ α}
    {g : Fault → Except Fault α} (hh : ∀ e, (h e).Gives (g e)) : (tryCatch x h).Gives (tryCatch r g) := by
  cases r with
  | ok a => exact hx.tryCatch_of_ok h
  | error e => exact hx.tryCatch_of_error (hh e)

end PageInvalidation.Act
