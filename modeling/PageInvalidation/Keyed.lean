/-! # Lists with distinct keys

A `Keyed key` is a list of values no two of which have the same `key`. It serves as a map that keeps the
order in which keys came in. Two ways of adding a value differ in what a known key means: `insert`
keeps the value that is there, `put` replaces it and keeps its place. -/

namespace PageInvalidation

variable {α κ : Type}

/-! ### On plain lists -/

section Lists

variable [DecidableEq κ] (key : α → κ)

/-- The value with a key. -/
def findBy (k : κ) (l : List α) : Option α := l.find? fun a => key a = k

/-- Adds a value at the end, unless its key is known. -/
def insertBy (l : List α) (a : α) : List α :=
  if key a ∈ l.map key then l else l ++ [a]

/-- Puts a value in the place of the one with its key, or at the end. -/
def putBy : List α → α → List α
  | [], a => [a]
  | b :: rest, a => if key b = key a then a :: rest else b :: putBy rest a

/-- Removes the value with a key. -/
def eraseBy (k : κ) (l : List α) : List α := l.filter fun a => key a ≠ k

/-- The values with distinct keys: each key at its first place with its last value. -/
def distinctBy (l : List α) : List α := l.foldl (putBy key) []

theorem map_insertBy (l : List α) (a : α) :
    (insertBy key l a).map key = if key a ∈ l.map key then l.map key else l.map key ++ [key a] := by
  unfold insertBy
  split <;> simp

theorem mem_map_putBy (a : α) (k : κ) : ∀ l : List α,
    k ∈ (putBy key l a).map key ↔ k = key a ∨ k ∈ l.map key
  | [] => by simp [putBy]
  | b :: rest => by
    unfold putBy
    split
    · rename_i h
      simp only [List.map_cons, List.mem_cons, h]
      exact ⟨fun h => h.elim .inl fun h => .inr (.inr h), fun h => h.elim .inl id⟩
    · simp only [List.map_cons, List.mem_cons, mem_map_putBy a k rest]
      exact ⟨fun h => h.elim (fun h => .inr (.inl h)) fun h => h.elim .inl fun h => .inr (.inr h),
        fun h => h.elim (fun h => .inr (.inl h)) fun h => h.elim .inl fun h => .inr (.inr h)⟩

theorem nodup_insertBy {l : List α} (h : (l.map key).Nodup) (a : α) :
    ((insertBy key l a).map key).Nodup := by
  rw [map_insertBy]
  split
  · exact h
  · rename_i hk
    refine List.nodup_append.2 ⟨h, by simp, fun x hx y hy => ?_⟩
    simp only [List.mem_singleton] at hy
    subst hy
    exact fun e => hk (e ▸ hx)

theorem nodup_putBy (a : α) : ∀ {l : List α}, (l.map key).Nodup → ((putBy key l a).map key).Nodup
  | [], _ => by simp [putBy]
  | b :: rest, h => by
    rw [List.map_cons, List.nodup_cons] at h
    unfold putBy
    split
    · rename_i hk
      exact List.nodup_cons.2 ⟨hk ▸ h.1, h.2⟩
    · rename_i hk
      refine List.nodup_cons.2 ⟨fun hm => ?_, nodup_putBy a h.2⟩
      exact ((mem_map_putBy key a _ rest).1 hm).elim hk h.1

theorem nodup_eraseBy {l : List α} (h : (l.map key).Nodup) (k : κ) :
    ((eraseBy key k l).map key).Nodup :=
  h.sublist (List.filter_sublist.map key)

end Lists

/-! ### The type -/

/-- A list of values with distinct keys. -/
structure Keyed (key : α → κ) where
  toList : List α
  nodup : (toList.map key).Nodup

namespace Keyed

variable {key : α → κ}

/-- No values. -/
def empty : Keyed key := ⟨[], List.nodup_nil⟩

instance : Inhabited (Keyed key) := ⟨empty⟩

instance : EmptyCollection (Keyed key) := ⟨empty⟩

/-- Whether there is no value. -/
def isEmpty (m : Keyed key) : Bool := m.toList.isEmpty

/-- The number of values. -/
def size (m : Keyed key) : Nat := m.toList.length

/-- The keys in order. -/
def keys (m : Keyed key) : List κ := m.toList.map key

variable [DecidableEq κ]

/-- The value with a key. -/
def find? (m : Keyed key) (k : κ) : Option α := findBy key k m.toList

/-- Whether a key is known. -/
def contains (m : Keyed key) (k : κ) : Bool := k ∈ m.keys

/-- Adds a value at the end, unless its key is known. -/
def insert (m : Keyed key) (a : α) : Keyed key :=
  ⟨insertBy key m.toList a, nodup_insertBy key m.nodup a⟩

/-- Puts a value in the place of the one with its key, or at the end. -/
def put (m : Keyed key) (a : α) : Keyed key := ⟨putBy key m.toList a, nodup_putBy key a m.nodup⟩

/-- Removes the value with a key. -/
def erase (m : Keyed key) (k : κ) : Keyed key := ⟨eraseBy key k m.toList, nodup_eraseBy key m.nodup k⟩

/-- Adds values one after the other; the first of a key stays. -/
def insertAll (m : Keyed key) (l : List α) : Keyed key := l.foldl insert m

/-- The values of a list, the first of each key. -/
def ofList (l : List α) : Keyed key := empty.insertAll l

/-- The values of a list, each key at its first place with its last value. -/
def ofListLast (l : List α) : Keyed key := l.foldl put empty

end Keyed

/-- The elements of a list, each at its first place. -/
def distinct [DecidableEq α] (l : List α) : List α := l.foldl (insertBy id) []

end PageInvalidation
