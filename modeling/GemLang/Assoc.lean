/-!
# Entries in the order of insertion

An association list that keeps its entries in the order in which their keys first came. Writing to a
key that is there changes its value and nothing else; a new key goes to the end. Keys are compared
with `==` only, so that keys need not be lawful: a key that differs from itself is never found.

Tables and the bindings of a scope are such lists.
-/

namespace GemLang

/-- Entries in the order of insertion. -/
abbrev Assoc (κ α : Type) := List (κ × α)

namespace Assoc

variable {κ α : Type} [BEq κ]

def get? (m : Assoc κ α) (key : κ) : Option α :=
  match m with
  | [] => none
  | (k, v) :: rest => if k == key then some v else get? rest key

def has (m : Assoc κ α) (key : κ) : Bool := (get? m key).isSome

/-- Changes the value under a key, or appends a new entry. -/
def insert (m : Assoc κ α) (key : κ) (value : α) : Assoc κ α :=
  match m with
  | [] => [(key, value)]
  | (k, v) :: rest => if k == key then (k, value) :: rest else (k, v) :: insert rest key value

/-- Changes the value under a key that is there. -/
def replace (m : Assoc κ α) (key : κ) (value : α) : Assoc κ α :=
  match m with
  | [] => []
  | (k, v) :: rest => if k == key then (k, value) :: rest else (k, v) :: replace rest key value

/-- Removes the entry under a key. -/
def erase (m : Assoc κ α) (key : κ) : Assoc κ α :=
  match m with
  | [] => []
  | (k, v) :: rest => if k == key then rest else (k, v) :: erase rest key

/-- The entries inserted one by one. -/
def ofList (entries : List (κ × α)) : Assoc κ α :=
  entries.foldl (fun m (k, v) ↦ insert m k v) []

theorem insert_of_get?_eq_none {m : Assoc κ α} {key : κ} (h : get? m key = none) (value : α) :
    insert m key value = m ++ [(key, value)] := by
  induction m with
  | nil => rfl
  | cons e m ih =>
    obtain ⟨k, v⟩ := e
    simp only [get?] at h
    split at h
    · cases h
    · next hk => simp [insert, hk, ih h]

theorem insert_of_get?_eq_some {m : Assoc κ α} {key : κ} {old : α} (h : get? m key = some old)
    (value : α) : insert m key value = replace m key value := by
  induction m with
  | nil => simp [get?] at h
  | cons e m ih =>
    obtain ⟨k, v⟩ := e
    simp only [get?] at h
    split at h
    · next hk => simp [insert, replace, hk]
    · next hk => simp [insert, replace, hk, ih h]

end Assoc

end GemLang
