import Treewalk.Value.Equality

/-!
# Dictionaries

A dictionary is a list of keys and values in the order in which the keys came. Storing under a key that is present
keeps its place; a new key goes to the end.
-/

namespace Treewalk

/-- Keys and values in the order in which the keys came. -/
abbrev Dict : Type := List (Value × Value)

namespace Dict

/-- The value stored under a key. -/
def get? (key : Value) : Dict → Option Value
  | [] => none
  | (k, v) :: dict => if k == key then some v else get? key dict

/-- Whether something is stored under a key. -/
def contains (key : Value) (dict : Dict) : Bool :=
  dict.any (·.1 == key)

/-- Stores a value under a key. -/
def insert (key value : Value) : Dict → Dict
  | [] => [(key, value)]
  | (k, v) :: dict => if k == key then (key, value) :: dict else (k, v) :: insert key value dict

/-- Removes a key and what is stored under it. -/
def erase (key : Value) : Dict → Dict
  | [] => []
  | (k, v) :: dict => if k == key then dict else (k, v) :: erase key dict

/-- Whether the search for a key, which ends where the key is found, has to tell two functions apart. -/
def testsIdentity (key : Value) : Dict → Bool
  | [] => false
  | (k, _) :: dict => k.testsIdentity key || !(k == key) && testsIdentity key dict

theorem isSome_get? (key : Value) (dict : Dict) : (get? key dict).isSome = contains key dict := by
  induction dict with
  | nil => rfl
  | cons p dict ih =>
    obtain ⟨k, v⟩ := p
    by_cases h : k == key <;> simp_all [get?, contains]

end Dict

end Treewalk
