import GemLang.Assoc
import Mathlib

/-!
# Laws of entries

What association lists are after each kind of change: which keys there are, what all values have in
common, and what is found under a key, which is one equation for each kind of change. Equality of
keys need only be symmetric and transitive for these.

Entries are *distinct* if no two of them have equal keys. Every change keeps that. It is what makes
removing an entry remove all there is under its key, and what makes every entry the one that is
found under its key, as long as the key equals itself.
-/

namespace GemLang.Assoc

variable {κ α : Type} [BEq κ] {m : Assoc κ α}

/-- No two entries have equal keys. -/
def Distinct (m : Assoc κ α) : Prop := m.Pairwise fun e f ↦ (e.1 == f.1) = false

theorem get?_eq_none_iff {key : κ} : get? m key = none ↔ ∀ e ∈ m, (e.1 == key) = false := by
  induction m with
  | nil => simp [get?]
  | cons e m ih =>
    rw [List.forall_mem_cons, ← ih, get?]
    by_cases hk : e.1 == key
    · simp [hk]
    · simp [hk]

/-! ## Keys -/

theorem map_fst_replace (m : Assoc κ α) (key : κ) (value : α) :
    (replace m key value).map (·.1) = m.map (·.1) := by
  induction m with
  | nil => rfl
  | cons e m ih =>
    rw [replace]
    split
    · rfl
    · rw [List.map_cons, List.map_cons, ih]

theorem erase_sublist (m : Assoc κ α) (key : κ) : (erase m key).Sublist m := by
  induction m with
  | nil => exact .slnil
  | cons e m ih =>
    rw [erase]
    split
    · exact List.sublist_cons_self _ _
    · exact ih.cons_cons _

theorem distinct_iff_map : Distinct m ↔ (m.map (·.1)).Pairwise fun k k' ↦ (k == k') = false := by
  rw [List.pairwise_map]
  rfl

theorem Distinct.replace (h : Distinct m) (key : κ) (value : α) :
    Distinct (replace m key value) := by
  rw [distinct_iff_map] at h ⊢
  rw [map_fst_replace]
  exact h

theorem Distinct.insert (h : Distinct m) (key : κ) (value : α) : Distinct (insert m key value) := by
  cases hget : get? m key with
  | none =>
    rw [insert_of_get?_eq_none hget]
    refine List.pairwise_append.mpr ⟨h, List.pairwise_singleton _ _, fun e he f hf ↦ ?_⟩
    rw [List.mem_singleton.mp hf]
    exact get?_eq_none_iff.mp hget e he
  | some old =>
    rw [insert_of_get?_eq_some hget]
    exact h.replace key value

/-- Inserting brings in no key but the one inserted. -/
theorem forall_fst_insert {A : κ → Prop} (h : ∀ e ∈ m, A e.1) {key : κ} (hkey : A key)
    (value : α) : ∀ e ∈ insert m key value, A e.1 := by
  induction m with
  | nil => exact List.forall_mem_singleton.mpr hkey
  | cons e m ih =>
    rw [List.forall_mem_cons] at h
    rw [insert]
    split
    · exact List.forall_mem_cons.mpr h
    · exact List.forall_mem_cons.mpr ⟨h.1, ih h.2⟩

theorem Distinct.erase (h : Distinct m) (key : κ) : Distinct (erase m key) :=
  h.sublist (erase_sublist m key)

theorem Distinct.ofList_eq (h : Distinct m) : ofList m = m := by
  have hfold (before rest : Assoc κ α) (h : Distinct (before ++ rest)) :
      rest.foldl (fun m e ↦ Assoc.insert m e.1 e.2) before = before ++ rest := by
    induction rest generalizing before with
    | nil => rw [List.foldl_nil, List.append_nil]
    | cons e rest ih =>
      obtain ⟨k, v⟩ := e
      have hget : get? before k = none := by
        rw [get?_eq_none_iff]
        intro f hf
        exact (List.pairwise_append.mp h).2.2 f hf (k, v) List.mem_cons_self
      rw [List.append_cons] at h ⊢
      rw [List.foldl_cons, ← ih _ h, ← insert_of_get?_eq_none hget]
  exact hfold [] m h

/-! ## All values -/

section

variable {P : α → Prop}

theorem forall_of_get? (h : ∀ e ∈ m, P e.2) {key : κ} {v : α} (hv : get? m key = some v) :
    P v := by
  induction m with
  | nil => simp [get?] at hv
  | cons e m ih =>
    rw [List.forall_mem_cons] at h
    simp only [get?] at hv
    split at hv
    · obtain rfl := Option.some.inj hv
      exact h.1
    · exact ih h.2 hv

theorem forall_insert (h : ∀ e ∈ m, P e.2) {key : κ} {v : α} (hv : P v) :
    ∀ e ∈ insert m key v, P e.2 := by
  induction m with
  | nil => simpa [insert] using hv
  | cons e m ih =>
    rw [List.forall_mem_cons] at h
    simp only [insert]
    split
    · exact List.forall_mem_cons.mpr ⟨hv, h.2⟩
    · exact List.forall_mem_cons.mpr ⟨h.1, ih h.2⟩

theorem forall_erase (h : ∀ e ∈ m, P e.2) (key : κ) : ∀ e ∈ erase m key, P e.2 :=
  fun e he ↦ h e ((erase_sublist m key).subset he)

theorem forall_ofList {entries : List (κ × α)} (h : ∀ e ∈ entries, P e.2) :
    ∀ e ∈ ofList entries, P e.2 := by
  have hfold (m : Assoc κ α) (hm : ∀ e ∈ m, P e.2) :
      ∀ e ∈ entries.foldl (fun m e ↦ insert m e.1 e.2) m, P e.2 := by
    induction entries generalizing m with
    | nil => exact hm
    | cons e entries ih =>
      rw [List.forall_mem_cons] at h
      exact ih h.2 _ (forall_insert hm h.1)
  exact hfold [] (by simp)

end

/-! ## What is found -/

theorem Distinct.get?_of_mem (h : Distinct m) {e : κ × α} (he : e ∈ m) (hself : e.1 == e.1) :
    get? m e.1 = some e.2 := by
  induction m with
  | nil => cases he
  | cons f m ih =>
    obtain ⟨hne, hm⟩ := List.pairwise_cons.mp h
    rw [get?]
    rcases List.mem_cons.mp he with rfl | he
    · simp only [hself, ↓reduceIte]
    · simp only [hne e he, Bool.false_eq_true, ↓reduceIte, ih hm he]

variable [PartialEquivBEq κ]

theorem get?_insert (m : Assoc κ α) (key : κ) (value : α) (k : κ) :
    get? (insert m key value) k = if key == k then some value else get? m k := by
  induction m with
  | nil => rfl
  | cons e m ih =>
    rw [insert]
    by_cases he : e.1 == key
    · simp only [he, ↓reduceIte, get?, BEq.congr_left he]
      split <;> rfl
    · simp only [he, Bool.false_eq_true, ↓reduceIte, get?, ih]
      by_cases hk : key == k
      · -- an entry with the key `k` would have the key that is written
        have hne : ¬(e.1 == k) = true := fun hek ↦ he (BEq.trans hek (BEq.symm hk))
        simp only [hk, hne, Bool.false_eq_true, ↓reduceIte]
      · simp only [hk, Bool.false_eq_true, ↓reduceIte]

theorem get?_replace (m : Assoc κ α) (key : κ) (value : α) (k : κ) :
    get? (replace m key value) k =
      if key == k then (get? m k).map fun _ ↦ value else get? m k := by
  induction m with
  | nil => simp [replace, get?]
  | cons e m ih =>
    rw [replace]
    by_cases he : e.1 == key
    · simp only [he, ↓reduceIte, get?, BEq.congr_left he]
      split <;> rfl
    · simp only [he, Bool.false_eq_true, ↓reduceIte, get?, ih]
      by_cases hk : key == k
      · have hne : ¬(e.1 == k) = true := fun hek ↦ he (BEq.trans hek (BEq.symm hk))
        simp only [hk, hne, Bool.false_eq_true, ↓reduceIte]
      · simp only [hk, Bool.false_eq_true, ↓reduceIte]

/-- The entries that are left when a key is removed have other keys. -/
theorem Distinct.forall_erase_ne (h : Distinct m) (key : κ) :
    ∀ e ∈ Assoc.erase m key, (e.1 == key) = false := by
  induction m with
  | nil => simp [Assoc.erase]
  | cons e m ih =>
    obtain ⟨hne, hm⟩ := List.pairwise_cons.mp h
    rw [Assoc.erase]
    by_cases he : e.1 == key
    · rw [if_pos he]
      intro f hf
      rw [← BEq.congr_right he, BEq.comm]
      exact hne f hf
    · rw [if_neg he, List.forall_mem_cons]
      exact ⟨Bool.eq_false_iff.mpr he, ih hm⟩

theorem Distinct.get?_erase (h : Distinct m) (key k : κ) :
    get? (Assoc.erase m key) k = if key == k then none else get? m k := by
  by_cases hk : key == k
  · simp only [hk, ↓reduceIte]
    rw [get?_eq_none_iff]
    intro e he
    rw [← BEq.congr_right hk]
    exact h.forall_erase_ne key e he
  · simp only [hk, Bool.false_eq_true, ↓reduceIte]
    clear h
    induction m with
    | nil => rfl
    | cons e m ih =>
      rw [Assoc.erase]
      by_cases he : e.1 == key
      · have hne : ¬(e.1 == k) = true := fun hek ↦ hk (BEq.trans (BEq.symm he) hek)
        simp only [he, ↓reduceIte, get?, hne, Bool.false_eq_true]
      · simp only [he, Bool.false_eq_true, ↓reduceIte, get?, ih]

end GemLang.Assoc
