/-!
# Values by key

A finite map kept as a list of pairs, the one put in last in front. No key is there twice, so the
number of pairs is the number of keys. What a map holds is told by `get?`: the lemmas say what each
operation does to it.
-/

namespace Mailroom

structure Keyed (κ α : Type) where
  entries : List (κ × α)
  distinct : (entries.map Prod.fst).Nodup
  deriving DecidableEq

namespace Keyed

variable {κ α : Type} [DecidableEq κ]

def empty : Keyed κ α := ⟨[], .nil⟩

def get? (m : Keyed κ α) (key : κ) : Option α :=
  (m.entries.find? fun (k, _) => k = key).map Prod.snd

def contains (m : Keyed κ α) (key : κ) : Bool := (m.get? key).isSome

def size (m : Keyed κ α) : Nat := m.entries.length

def erase (m : Keyed κ α) (key : κ) : Keyed κ α where
  entries := m.entries.filter fun (k, _) => k ≠ key
  distinct := m.distinct.sublist (List.filter_sublist.map _)

theorem key_notMem_erase (m : Keyed κ α) (key : κ) :
    key ∉ (m.erase key).entries.map Prod.fst := by
  simp [erase]

/-- Puts a value under a key, in place of the one that was there. -/
def insert (m : Keyed κ α) (key : κ) (value : α) : Keyed κ α where
  entries := (key, value) :: (m.erase key).entries
  distinct := List.nodup_cons.2 ⟨m.key_notMem_erase key, (m.erase key).distinct⟩

theorem mem_keys_iff (m : Keyed κ α) (key : κ) :
    key ∈ m.entries.map Prod.fst ↔ (m.get? key).isSome := by
  rw [get?, Option.isSome_map, List.find?_isSome]
  simp

@[simp]
theorem get?_erase_self (m : Keyed κ α) (key : κ) : (m.erase key).get? key = none := by
  simp [get?, erase, List.find?_filter]

theorem get?_erase_of_ne (m : Keyed κ α) {key other : κ} (h : other ≠ key) :
    (m.erase key).get? other = m.get? other := by
  rw [get?, get?, erase, List.find?_filter]
  congr 2
  funext e
  by_cases he : e.1 = other <;> simp [he, h]

@[simp]
theorem get?_insert_self (m : Keyed κ α) (key : κ) (value : α) :
    (m.insert key value).get? key = some value := by
  simp [get?, insert]

theorem get?_insert_of_ne (m : Keyed κ α) {key other : κ} (value : α) (h : other ≠ key) :
    (m.insert key value).get? other = m.get? other := by
  rw [← m.get?_erase_of_ne h]
  simp [get?, insert, h.symm]

theorem erase_erase_self (m : Keyed κ α) (key : κ) : (m.erase key).erase key = m.erase key := by
  simp [erase, List.filter_filter]

theorem erase_insert_self (m : Keyed κ α) (key : κ) (value : α) :
    (m.insert key value).erase key = m.erase key := by
  simp [insert, erase, List.filter_filter]

end Keyed

end Mailroom
