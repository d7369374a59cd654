/-
  Throughput/Association.lean
  ===========================
  **Lists of values under keys.**  `List.lookup` reads the value under a key and
  `store` writes one; `lookup_store` says how the two fit together.
-/

namespace Throughput

variable {κ α : Type} [BEq κ]

/-- Writes a value under a key, in place of an earlier one. -/
def store (key : κ) (value : α) : List (κ × α) → List (κ × α)
  | [] => [(key, value)]
  | (other, old) :: rest =>
    if key == other then (key, value) :: rest else (other, old) :: store key value rest

theorem lookup_cons_eq (key other : κ) (value : α) (rest : List (κ × α)) :
    List.lookup key ((other, value) :: rest) =
      if key == other then some value else rest.lookup key := by
  cases h : key == other <;> simp [List.lookup_cons, h]

/-- A look-up after a write finds the value written under its key, and what was
    there before under every other. -/
theorem lookup_store [LawfulBEq κ] (written key : κ) (value : α) (entries : List (κ × α)) :
    (store written value entries).lookup key =
      if key == written then some value else entries.lookup key := by
  induction entries with
  | nil => simp [store, lookup_cons_eq]
  | cons e rest ih =>
    obtain ⟨other, old⟩ := e
    by_cases hn : written = other
    · subst hn
      by_cases hk : key = written <;> simp [store, lookup_cons_eq, hk]
    · by_cases hk : key = written
      · subst hk
        simp [store, hn, lookup_cons_eq, ih]
      · simp [store, hn, lookup_cons_eq, ih, hk]

/-- The last of two writes under a key is the one that counts. -/
theorem store_store [LawfulBEq κ] (key : κ) (first second : α) (entries : List (κ × α)) :
    store key second (store key first entries) = store key second entries := by
  induction entries with
  | nil => simp [store]
  | cons e rest ih =>
    obtain ⟨other, old⟩ := e
    by_cases hk : key = other
    · subst hk
      simp [store]
    · simp [store, hk, ih]

end Throughput
