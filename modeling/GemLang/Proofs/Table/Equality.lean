import GemLang.Proofs.Table.Path
import GemLang.Proofs.Table.Reported

/-!
# Equality of values

Two tables are compared from one side: they are equal if they have as many entries, and what stands
under each key of the one is equal to what is found under that key in the other. That this is the
same from both sides, and has nothing to do with the order of entries, is a matter of counting. It
holds if the keys of each table are pairwise different and equal to themselves, at every depth
(`Value.UniquelyKeyed`), which is so for all the values that programs bring about
(`Machine.Contains.uniquelyKeyed`).

A value still need not equal itself, since there may be a NaN in it.
-/

namespace GemLang

open Bytecode (Opcode)
open Exec

/-! ## Counting keys -/

namespace Assoc

variable {κ α β : Type} [BEq κ]

theorem exists_mem_of_get? {m : Assoc κ α} {key : κ} {v : α} (h : get? m key = some v) :
    ∃ e ∈ m, e.1 == key ∧ e.2 = v := by
  induction m with
  | nil => cases h
  | cons e m ih =>
    rw [get?] at h
    split at h
    · next hk => exact ⟨e, List.mem_cons_self, hk, Option.some.inj h⟩
    · obtain ⟨f, hf, hfound⟩ := ih h
      exact ⟨f, List.mem_cons_of_mem e hf, hfound⟩

theorem has_iff {m : Assoc κ α} {key : κ} : has m key ↔ ∃ e ∈ m, e.1 == key := by
  rw [has, ← Option.ne_none_iff_isSome, ne_eq, get?_eq_none_iff]
  simp

theorem has_iff_exists_get? {m : Assoc κ α} {key : κ} :
    has m key ↔ ∃ v, get? m key = some v :=
  Option.isSome_iff_exists

theorem length_erase {m : Assoc κ α} {key : κ} (h : has m key) :
    (erase m key).length + 1 = m.length := by
  induction m with
  | nil => cases h
  | cons e m ih =>
    rw [has, get?] at h
    rw [erase]
    split
    · rfl
    · next hk =>
      rw [if_neg hk] at h
      rw [List.length_cons, ih h, List.length_cons]

variable [PartialEquivBEq κ] {m : Assoc κ α} {n : Assoc κ β}

/-- Entries under different keys are no more than there are keys for them. -/
theorem Distinct.length_le (hm : Distinct m) (hn : Distinct n) (h : ∀ e ∈ m, has n e.1) :
    m.length ≤ n.length := by
  induction m generalizing n with
  | nil => exact Nat.zero_le _
  | cons e m ih =>
    obtain ⟨hne, hm⟩ := List.pairwise_cons.mp hm
    rw [List.forall_mem_cons] at h
    have hrest : ∀ f ∈ m, has (Assoc.erase n e.1) f.1 := by
      intro f hf
      rw [has, hn.get?_erase, hne f hf]
      exact h.2 f hf
    have hle := ih hm (hn.erase e.1) hrest
    have hone := length_erase h.1
    rw [List.length_cons]
    omega

/-- Of two lists of entries with as many different keys, one cannot have all the keys of the other
and more. -/
theorem Distinct.has_of_length_le (hm : Distinct m) (hn : Distinct n) (h : ∀ e ∈ m, has n e.1)
    (hlength : n.length ≤ m.length) {f : κ × β} (hf : f ∈ n) (hself : f.1 == f.1) :
    has m f.1 := by
  by_contra hnone
  have hothers : ∀ e ∈ m, has (Assoc.erase n f.1) e.1 := by
    intro e he
    have hne : (f.1 == e.1) = false := by
      rw [Bool.eq_false_iff]
      exact fun heq ↦ hnone (has_iff.mpr ⟨e, he, BEq.symm heq⟩)
    rw [has, hn.get?_erase, hne]
    exact h e he
  have hle := hm.length_le (hn.erase f.1) hothers
  have hone := length_erase (has_iff.mpr ⟨f, hf, hself⟩)
  omega

end Assoc

/-! ## Values -/

/-- The keys of every table in a value, at any depth, are pairwise different, and none of them is
NaN. -/
inductive Value.UniquelyKeyed : Value → Prop where
  | plain {v : Value} (hv : ∀ t, v ≠ .table t) : UniquelyKeyed v
  | table {t : Table} (hdistinct : Assoc.Distinct t) (hkeys : ∀ e ∈ t, e.1.isNaN = false)
      (hvalues : ∀ e ∈ t, UniquelyKeyed e.2) : UniquelyKeyed (.table t)

/-- No number in a value, at any depth, is NaN. -/
inductive Value.NaNFree : Value → Prop where
  | plain {v : Value} (hv : ∀ t, v ≠ .table t) (hnumber : ∀ x, v = .number x → x.isNaN = false) :
    NaNFree v
  | table {t : Table} (hvalues : ∀ e ∈ t, NaNFree e.2) : NaNFree (.table t)

mutual

/-- A value with the entries of its tables in another order, at any depth. -/
inductive Value.Rearranged : Value → Value → Prop where
  | same (v : Value) : Value.Rearranged v v
  | table {t u : Table} (h : Table.Rearranged t u) : Value.Rearranged (.table t) (.table u)

/-- A table with its entries in another order, and those of the tables in it. -/
inductive Table.Rearranged : Table → Table → Prop where
  | nil : Table.Rearranged [] []
  | cons (key : Key) {v w : Value} {t u : Table} (hvalue : Value.Rearranged v w)
      (hrest : Table.Rearranged t u) : Table.Rearranged ((key, v) :: t) ((key, w) :: u)
  | swap (e f : Key × Value) (t : Table) : Table.Rearranged (e :: f :: t) (f :: e :: t)
  | trans {t u w : Table} (h : Table.Rearranged t u) (h' : Table.Rearranged u w) :
    Table.Rearranged t w

end

namespace Value

theorem UniquelyKeyed.distinct {t : Table} (h : (Value.table t).UniquelyKeyed) :
    Assoc.Distinct t := by
  cases h with
  | plain hv => exact absurd rfl (hv t)
  | table hdistinct _ _ => exact hdistinct

theorem UniquelyKeyed.beq_self {t : Table} (h : (Value.table t).UniquelyKeyed) :
    ∀ e ∈ t, e.1 == e.1 := by
  cases h with
  | plain hv => exact absurd rfl (hv t)
  | table _ hkeys _ => exact fun e he ↦ Key.beq_self_iff.mpr (hkeys e he)

theorem UniquelyKeyed.entry {t : Table} (h : (Value.table t).UniquelyKeyed) :
    ∀ e ∈ t, e.2.UniquelyKeyed := by
  cases h with
  | plain hv => exact absurd rfl (hv t)
  | table _ _ hvalues => exact hvalues

theorem UniquelyKeyed.get?_of_mem {t : Table} (h : (Value.table t).UniquelyKeyed)
    {e : Key × Value} (he : e ∈ t) : Assoc.get? t e.1 = some e.2 :=
  h.distinct.get?_of_mem he (h.beq_self e he)

theorem NaNFree.entry {t : Table} (h : (Value.table t).NaNFree) : ∀ e ∈ t, e.2.NaNFree := by
  cases h with
  | plain hv => exact absurd rfl (hv t)
  | table hvalues => exact hvalues

theorem WellKeyed.uniquelyKeyed {v : Value} (h : v.WellKeyed) : v.UniquelyKeyed := by
  match v with
  | .number _ | .bool _ | .text _ | .script _ | .native _ | .foreign _ => exact .plain nofun
  | .table t =>
    obtain ⟨hdistinct, hkeys, hvalues⟩ := wellKeyed_table.mp h
    exact .table hdistinct (fun e he ↦ (hkeys e he).isNaN) fun e he ↦
      (hvalues e he).uniquelyKeyed
termination_by v
decreasing_by exact Value.sizeOf_entry_lt he

end Value

/-- All the values that programs bring about are uniquely keyed. -/
theorem Machine.Contains.uniquelyKeyed {m : Machine} (hm : m.Reached) {v : Value}
    (hv : m.Contains v) : v.UniquelyKeyed :=
  ((hm.holds Value.closed_wellKeyed).of_contains Value.closed_wellKeyed hv).uniquelyKeyed

namespace Value

/-! ## Tables from one side -/

theorem entriesBeq_iff {t u : Table} :
    entriesBeq t u = true ↔ ∀ e ∈ t, ∃ v, Assoc.get? u e.1 = some v ∧ e.2 == v := by
  induction t with
  | nil => simp [entriesBeq]
  | cons e t ih =>
    rw [entriesBeq, Bool.and_eq_true, ih, List.forall_mem_cons]
    cases Assoc.get? u e.1 with
    | none => simp
    | some v =>
      simp only [Option.some.injEq, exists_eq_left']
      rfl

theorem table_beq_table {t u : Table} :
    Value.table t == Value.table u ↔
      t.length = u.length ∧ ∀ e ∈ t, ∃ v, Assoc.get? u e.1 = some v ∧ e.2 == v := by
  change Value.beq _ _ = true ↔ _
  rw [Value.beq, Bool.and_eq_true, beq_iff_eq, entriesBeq_iff]

/-! ## Tables from both sides -/

/-- Of two tables that are equal from one side, the other one has no further keys. -/
theorem UniquelyKeyed.has_of_beq {t u : Table} (ht : (Value.table t).UniquelyKeyed)
    (hu : (Value.table u).UniquelyKeyed) (h : Value.table t == Value.table u) :
    ∀ f ∈ u, Assoc.has t f.1 := by
  obtain ⟨hlength, hentries⟩ := table_beq_table.mp h
  have hhas : ∀ e ∈ t, Assoc.has u e.1 := by
    intro e he
    obtain ⟨v, hv, -⟩ := hentries e he
    exact Assoc.has_iff_exists_get?.mpr ⟨v, hv⟩
  exact fun f hf ↦
    ht.distinct.has_of_length_le hu.distinct hhas hlength.ge hf (hu.beq_self f hf)

theorem beq_symm {v w : Value} (hv : v.UniquelyKeyed) (hw : w.UniquelyKeyed) (h : v == w) :
    w == v := by
  match v, w with
  | .number x, .number y =>
    change (y == x) = true
    exact BEq.symm h
  | .bool a, .bool b =>
    change (b == a) = true
    exact BEq.symm h
  | .text s, .text t =>
    change (t == s) = true
    exact BEq.symm h
  | .script f, .script g =>
    change (g.identity == f.identity) = true
    exact BEq.symm h
  | .native f, .native g =>
    change (g == f) = true
    exact BEq.symm h
  | .foreign f, .foreign g =>
    change (g.identity == f.identity) = true
    exact BEq.symm h
  | .table t, .table u =>
    obtain ⟨hlength, hentries⟩ := table_beq_table.mp h
    refine table_beq_table.mpr ⟨hlength.symm, fun f hf ↦ ?_⟩
    obtain ⟨e, he, hkey⟩ := Assoc.has_iff.mp (hv.has_of_beq hw h f hf)
    obtain ⟨v, hget, heq⟩ := hentries e he
    -- the entry under the key of `f` is `f` itself
    rw [Assoc.get?_congr hkey, hw.get?_of_mem hf] at hget
    obtain rfl := Option.some.inj hget
    refine ⟨e.2, ?_, beq_symm (hv.entry e he) (hw.entry f hf) heq⟩
    rw [← Assoc.get?_congr hkey, hv.get?_of_mem he]
termination_by v
decreasing_by exact Value.sizeOf_entry_lt he

theorem beq_comm {v w : Value} (hv : v.UniquelyKeyed) (hw : w.UniquelyKeyed) :
    (v == w) = (w == v) := by
  rw [Bool.eq_iff_iff]
  exact ⟨beq_symm hv hw, beq_symm hw hv⟩

theorem beq_trans {u v w : Value} (h : u == v) (h' : v == w) : u == w := by
  match u, v, w with
  | .number x, .number y, .number z =>
    change (x == z) = true
    exact BEq.trans (b := y) h h'
  | .bool a, .bool b, .bool c =>
    change (a == c) = true
    exact BEq.trans (b := b) h h'
  | .text s, .text t, .text r =>
    change (s == r) = true
    exact BEq.trans (b := t) h h'
  | .script f, .script g, .script k =>
    change (f.identity == k.identity) = true
    exact BEq.trans (b := g.identity) h h'
  | .native f, .native g, .native k =>
    change (f == k) = true
    exact BEq.trans (b := g) h h'
  | .foreign f, .foreign g, .foreign k =>
    change (f.identity == k.identity) = true
    exact BEq.trans (b := g.identity) h h'
  | .table r, .table s, .table t =>
    obtain ⟨hlength, hentries⟩ := table_beq_table.mp h
    obtain ⟨hlength', hentries'⟩ := table_beq_table.mp h'
    refine table_beq_table.mpr ⟨hlength.trans hlength', fun e he ↦ ?_⟩
    obtain ⟨v, hv, heq⟩ := hentries e he
    obtain ⟨f, hf, hkey, rfl⟩ := Assoc.exists_mem_of_get? hv
    obtain ⟨w, hw, heq'⟩ := hentries' f hf
    refine ⟨w, ?_, beq_trans heq heq'⟩
    rw [← Assoc.get?_congr hkey, hw]
termination_by u
decreasing_by exact Value.sizeOf_entry_lt he

/-- **A value equals itself** if there is no NaN in it. -/
theorem beq_self {v : Value} (hv : v.UniquelyKeyed) (hnumbers : v.NaNFree) : v == v := by
  match v with
  | .number x =>
    cases hnumbers with
    | plain _ hnumber =>
      change (x == x) = true
      have := hnumber x rfl
      simpa using this
  | .bool b => exact beq_self_eq_true b
  | .text s => exact beq_self_eq_true s
  | .script f => exact beq_self_eq_true f.identity
  | .native f => exact beq_self_eq_true f
  | .foreign f => exact beq_self_eq_true f.identity
  | .table t =>
    refine table_beq_table.mpr ⟨rfl, fun e he ↦ ?_⟩
    exact ⟨e.2, hv.get?_of_mem he, beq_self (hv.entry e he) (hnumbers.entry e he)⟩
termination_by v
decreasing_by exact Value.sizeOf_entry_lt he

/-- **Equal tables have the same keys, with equal values under each.** -/
theorem table_beq_table_iff {t u : Table} (ht : (Value.table t).UniquelyKeyed)
    (hu : (Value.table u).UniquelyKeyed) :
    Value.table t == Value.table u ↔
      (∀ k, Assoc.has t k = Assoc.has u k) ∧
        ∀ k v w, Assoc.get? t k = some v → Assoc.get? u k = some w → v == w := by
  constructor
  · intro h
    obtain ⟨-, hentries⟩ := table_beq_table.mp h
    constructor
    · intro k
      rw [Bool.eq_iff_iff, Assoc.has_iff, Assoc.has_iff]
      constructor
      · rintro ⟨e, he, hkey⟩
        obtain ⟨v, hv, -⟩ := hentries e he
        obtain ⟨f, hf, hkey', -⟩ := Assoc.exists_mem_of_get? hv
        exact ⟨f, hf, BEq.trans hkey' hkey⟩
      · rintro ⟨f, hf, hkey⟩
        obtain ⟨e, he, hkey'⟩ := Assoc.has_iff.mp (ht.has_of_beq hu h f hf)
        exact ⟨e, he, BEq.trans hkey' hkey⟩
    · intro k v w hv hw
      obtain ⟨e, he, hkey, rfl⟩ := Assoc.exists_mem_of_get? hv
      obtain ⟨w', hw', heq⟩ := hentries e he
      rw [Assoc.get?_congr hkey, hw] at hw'
      rwa [Option.some.inj hw']
  · rintro ⟨hkeys, hvalues⟩
    have hhas : ∀ e ∈ t, Assoc.has u e.1 := fun e he ↦
      hkeys e.1 ▸ Assoc.has_iff.mpr ⟨e, he, ht.beq_self e he⟩
    have hhas' : ∀ f ∈ u, Assoc.has t f.1 := fun f hf ↦
      hkeys f.1 ▸ Assoc.has_iff.mpr ⟨f, hf, hu.beq_self f hf⟩
    have hlength : t.length = u.length :=
      Nat.le_antisymm (ht.distinct.length_le hu.distinct hhas)
        (hu.distinct.length_le ht.distinct hhas')
    refine table_beq_table.mpr ⟨hlength, fun e he ↦ ?_⟩
    obtain ⟨w, hw⟩ := Assoc.has_iff_exists_get?.mp (hhas e he)
    exact ⟨w, hw, hvalues e.1 e.2 w (ht.get?_of_mem he) hw⟩

end Value

/-! ## The order of entries -/

mutual

/-- On the left of a comparison, the order of entries does not matter at all. -/
theorem Value.Rearranged.beq_eq {v v' : Value} (h : v.Rearranged v') (w : Value) :
    (v == w) = (v' == w) := by
  match h, w with
  | .same _, _ => rfl
  | .table ht, .table u =>
    rw [Bool.eq_iff_iff, Value.table_beq_table, Value.table_beq_table, ht.length_eq, ht.entries u]
  | .table _, .number _ | .table _, .bool _ | .table _, .text _ | .table _, .script _
  | .table _, .native _ | .table _, .foreign _ => rfl

theorem Table.Rearranged.length_eq {t t' : Table} (h : Table.Rearranged t t') :
    t.length = t'.length := by
  match h with
  | .nil => rfl
  | .cons _ _ hrest => exact congrArg (· + 1) hrest.length_eq
  | .swap _ _ _ => rfl
  | .trans h h' => exact h.length_eq.trans h'.length_eq

theorem Table.Rearranged.entries {t t' : Table} (h : Table.Rearranged t t') (u : Table) :
    (∀ e ∈ t, ∃ v, Assoc.get? u e.1 = some v ∧ e.2 == v) ↔
      ∀ e ∈ t', ∃ v, Assoc.get? u e.1 = some v ∧ e.2 == v := by
  match h with
  | .nil => rfl
  | .cons _ hvalue hrest =>
    simp only [List.forall_mem_cons, hvalue.beq_eq, hrest.entries u]
  | .swap _ _ _ =>
    simp only [List.forall_mem_cons]
    exact and_left_comm
  | .trans h h' => exact (h.entries u).trans (h'.entries u)

end

theorem Table.Rearranged.keys_perm {t t' : Table} (h : Table.Rearranged t t') :
    (t.map (·.1)).Perm (t'.map (·.1)) := by
  match h with
  | .nil => exact .nil
  | .cons key _ hrest => exact hrest.keys_perm.cons key
  | .swap e f t => exact .swap f.1 e.1 (t.map (·.1))
  | .trans h h' => exact h.keys_perm.trans h'.keys_perm

mutual

theorem Value.Rearranged.uniquelyKeyed {v v' : Value} (h : v.Rearranged v')
    (hv : v.UniquelyKeyed) : v'.UniquelyKeyed := by
  match h with
  | .same _ => exact hv
  | @Value.Rearranged.table t t' ht =>
    have hkeys (A : Key → Prop) (hA : ∀ e ∈ t, A e.1) : ∀ e ∈ t', A e.1 := by
      have := fun k hk ↦ List.forall_mem_map.mpr hA k (ht.keys_perm.mem_iff.mpr hk)
      exact List.forall_mem_map.mp this
    refine .table ?_ ?_ (ht.uniquelyKeyed hv.entry)
    · have hdistinct := hv.distinct
      rw [Assoc.distinct_iff_map] at hdistinct ⊢
      refine (ht.keys_perm.pairwise_iff fun {k k'} hne ↦ ?_).mp hdistinct
      rwa [BEq.comm]
    · refine hkeys (fun k ↦ k.isNaN = false) fun e he ↦ ?_
      exact Key.beq_self_iff.mp (hv.beq_self e he)

theorem Table.Rearranged.uniquelyKeyed {t t' : Table} (h : Table.Rearranged t t')
    (ht : ∀ e ∈ t, e.2.UniquelyKeyed) : ∀ e ∈ t', e.2.UniquelyKeyed := by
  match h with
  | .nil => exact ht
  | .cons _ hvalue hrest =>
    rw [List.forall_mem_cons] at ht ⊢
    exact ⟨hvalue.uniquelyKeyed ht.1, hrest.uniquelyKeyed ht.2⟩
  | .swap _ _ _ =>
    simp only [List.forall_mem_cons] at ht ⊢
    exact and_left_comm.mp ht
  | .trans h h' => exact h'.uniquelyKeyed (h.uniquelyKeyed ht)

end

/-- The order of entries does not matter in a comparison of uniquely keyed values. -/
theorem Value.Rearranged.beq_eq_beq {v v' w w' : Value} (hv : v.UniquelyKeyed)
    (hw : w.UniquelyKeyed) (h : v.Rearranged v') (h' : w.Rearranged w') :
    (v' == w') = (v == w) := by
  have hv' := h.uniquelyKeyed hv
  have hw' := h'.uniquelyKeyed hw
  calc (v' == w') = (v == w') := (h.beq_eq w').symm
    _ = (w' == v) := Value.beq_comm hv hw'
    _ = (w == v) := (h'.beq_eq v).symm
    _ = (v == w) := Value.beq_comm hw hv

/-! ## The laws of equality -/

/-- **Equality of values is a structural equality.** Among uniquely keyed values it is symmetric and
transitive, it does not depend on the order of entries in any table, and a value without NaN in it
equals itself. Tables are equal if and only if they have the same keys, with equal values under
each. This is what the machine compares by. -/
theorem equality_structural {u v : Value} (hu : u.UniquelyKeyed) (hv : v.UniquelyKeyed) :
    (u == v) = (v == u) ∧
    (∀ w, u == v → v == w → u == w) ∧
    (∀ u' v', u.Rearranged u' → v.Rearranged v' → (u' == v') = (u == v)) ∧
    (u.NaNFree → u == u) ∧
    (∀ s t, u = .table s → v = .table t →
      (u == v ↔ (∀ k, Assoc.has s k = Assoc.has t k) ∧
        ∀ k x y, Assoc.get? s k = some x → Assoc.get? t k = some y → x == y)) ∧
    ∀ (m : Machine) (s : ScopeId) (vs : List Value), s < m.heap.nextScope →
      vs.length < m.config.maxStack →
      perform s .eq [] (m.withStack s (v :: u :: vs)) =
          .ok () (m.withStack s (.bool (u == v) :: vs)) ∧
        perform s .notEq [] (m.withStack s (v :: u :: vs)) =
          .ok () (m.withStack s (.bool (!(u == v)) :: vs)) := by
  refine ⟨Value.beq_comm hu hv, fun w ↦ Value.beq_trans, fun u' v' ↦ ?_, Value.beq_self hu, ?_, ?_⟩
  · exact Value.Rearranged.beq_eq_beq hu hv
  · rintro s t rfl rfl
    exact Value.table_beq_table_iff hu hv
  · intro m s vs hs hroom
    have hpush (b : Bool) :
        push s (.bool b) (m.withStack s vs) = .ok () (m.withStack s (.bool b :: vs)) := by
      rw [push_withStack hs, if_pos hroom]
    constructor
    · exact (leaves_combine hs vs (fun a b ↦ .ok (.bool (a == b))) u v).trans (hpush _)
    · exact (leaves_combine hs vs (fun a b ↦ .ok (.bool (!(a == b)))) u v).trans (hpush _)

/-- A table with another table in it, and both of them turned around. -/
theorem equality_structural_turned :
    ∃ u v : Value, u.UniquelyKeyed ∧ v.UniquelyKeyed ∧ u.NaNFree ∧ u.Rearranged v ∧
      v == u ∧ u == v := by
  let inner : Table := [(.text "a", .bool true), (.double (Number.ofDecimal 5 (-1)), .number 2)]
  let turned : Table := [(.double (Number.ofDecimal 5 (-1)), .number 2), (.text "a", .bool true)]
  let u : Value := .table [(.int 1, .table inner), (.text "1", .null)]
  let v : Value := .table [(.text "1", .null), (.int 1, .table turned)]
  have hu : u.UniquelyKeyed := by
    refine .table (List.pairwise_pair.mpr (by decide)) (by decide) ?_
    refine List.forall_mem_cons.mpr
      ⟨.table (List.pairwise_pair.mpr (by decide)) (by decide +kernel) ?_, ?_⟩
    · exact List.forall_mem_cons.mpr
        ⟨.plain nofun, List.forall_mem_singleton.mpr (.plain nofun)⟩
    · exact List.forall_mem_singleton.mpr (.plain nofun)
  have hnumbers : u.NaNFree := by
    refine .table (List.forall_mem_cons.mpr ⟨.table ?_, ?_⟩)
    · refine List.forall_mem_cons.mpr
        ⟨.plain nofun nofun, List.forall_mem_singleton.mpr (.plain nofun ?_)⟩
      rintro x ⟨⟩
      decide +kernel
    · exact List.forall_mem_singleton.mpr (.plain nofun nofun)
  have hturn : u.Rearranged v :=
    .table (.trans (.swap _ _ []) (.cons _ (.same _) (.cons _ (.table (.swap _ _ [])) .nil)))
  have hv := hturn.uniquelyKeyed hu
  obtain ⟨-, -, horder, hself, -⟩ := equality_structural hu hu
  have hvu : v == u := by
    rw [horder v u hturn (.same u)]
    exact hself hnumbers
  obtain ⟨hcomm, -⟩ := equality_structural hu hv
  exact ⟨u, v, hu, hv, hnumbers, hturn, hvu, hcomm ▸ hvu⟩

end GemLang
