import GemLang.Proofs.Machine.Arguments
import GemLang.Proofs.Machine.Reached
import GemLang.Proofs.Table.History

/-!
# Reported keys

A program gets at the keys of a table by asking for a table of them, or by going through an
iterator. What it is given for a key is a value, and the natural use of it is to index the table
with it.

That works for all keys but integers past `2 ^ 53`. Values never index with such a key, but there is
one way to make one: a value that is inserted without a key goes under the integer after the largest
so far, whatever that is. Reported as a number it is rounded, and may be rounded to the key of
another entry.

The tables in question are all those that programs can bring about, by any code
(`Proofs/Machine/Reached.lean`). All their keys are distinct and `IsProper`, at every depth
(`Value.WellKeyed`).
-/

namespace GemLang

open Bytecode
open Exec

/-! ## Tables that programs bring about -/

mutual

/-- Every table inside a value has distinct keys, and they are such as tables come to have. -/
def Value.WellKeyed : Value → Prop
  | .table es => Assoc.Distinct es ∧ Value.WellKeyedEntries es
  | _ => True

/-- The keys of entries are such as tables come to have, and their values are well keyed. -/
def Value.WellKeyedEntries : List (Key × Value) → Prop
  | [] => True
  | (key, v) :: es => key.IsProper ∧ v.WellKeyed ∧ Value.WellKeyedEntries es

end

theorem Value.wellKeyedEntries_iff {es : List (Key × Value)} :
    WellKeyedEntries es ↔ (∀ e ∈ es, e.1.IsProper) ∧ ∀ e ∈ es, e.2.WellKeyed := by
  induction es with
  | nil => simp [WellKeyedEntries]
  | cons e es ih =>
    simp only [WellKeyedEntries, ih, List.forall_mem_cons]
    constructor
    · rintro ⟨hkey, hvalue, hkeys, hvalues⟩
      exact ⟨⟨hkey, hkeys⟩, hvalue, hvalues⟩
    · rintro ⟨⟨hkey, hkeys⟩, hvalue, hvalues⟩
      exact ⟨hkey, hvalue, hkeys, hvalues⟩

theorem Value.wellKeyed_table {t : Table} :
    (Value.table t).WellKeyed ↔
      Assoc.Distinct t ∧ (∀ e ∈ t, e.1.IsProper) ∧ ∀ e ∈ t, e.2.WellKeyed := by
  rw [WellKeyed, wellKeyedEntries_iff]

theorem Value.closed_wellKeyed : Value.Closed Value.WellKeyed where
  plain {v} hv := by
    match v with
    | .table t => exact absurd rfl (hv t)
    | .number _ | .bool _ | .text _ | .script _ | .native _ | .foreign _ => trivial
  empty := ⟨.nil, trivial⟩
  entry ht he := (wellKeyed_table.mp ht).2.2 _ he
  insert {t key v} ht hkey hv := by
    obtain ⟨hdistinct, hkeys, hvalues⟩ := wellKeyed_table.mp ht
    refine wellKeyed_table.mpr ⟨hdistinct.insert key v, ?_, ?_⟩
    · exact Assoc.forall_fst_insert hkeys hkey v
    · exact Assoc.forall_insert hvalues hv
  erase {t} ht key := by
    obtain ⟨hdistinct, hkeys, hvalues⟩ := wellKeyed_table.mp ht
    have hsubset := (Assoc.erase_sublist t key).subset
    refine wellKeyed_table.mpr ⟨hdistinct.erase key, ?_, ?_⟩
    · exact fun e he ↦ hkeys e (hsubset he)
    · exact fun e he ↦ hvalues e (hsubset he)

/-- The values that are in a machine: on stacks, in bindings, in what is left of iterators, and
inside tables that are in it. -/
inductive Machine.Contains (m : Machine) : Value → Prop where
  | stack (s : ScopeId) {v : Value} (hv : v ∈ m.heap.stack s) : m.Contains v
  | binding (s : ScopeId) {e : String × Value} (he : e ∈ (m.heap.scope s).bindings) :
    m.Contains e.2
  | iteratorKey (i : Nat) {p : Value × Value} (hp : p ∈ m.iterators.getD i []) : m.Contains p.1
  | iteratorValue (i : Nat) {p : Value × Value} (hp : p ∈ m.iterators.getD i []) : m.Contains p.2
  | entry {t : Table} (ht : m.Contains (.table t)) {e : Key × Value} (he : e ∈ t) : m.Contains e.2

theorem Machine.Holds.of_contains {P : Value → Prop} (h : Value.Closed P) {m : Machine}
    (hm : m.Holds P) {v : Value} (hv : m.Contains v) : P v := by
  induction hv with
  | stack s hv => exact hm.stack s _ hv
  | binding s he => exact hm.bindings s _ he
  | iteratorKey i hp => exact (hm.iterators i _ hp).1
  | iteratorValue i hp => exact (hm.iterators i _ hp).2
  | entry _ he ih => exact h.entry ih he

/-! ## Reading back -/

variable {t : Table}

theorem int64_ofNat_inj {i j : Nat} (hi : i < UInt64.size) (hj : j < UInt64.size)
    (h : Int64.ofNat i = Int64.ofNat j) : i = j := by
  have hbits := congrArg (fun n ↦ n.toBitVec.toNat) h
  simp only [Int64.toBitVec_ofNat', BitVec.toNat_ofNat] at hbits
  rwa [Nat.mod_eq_of_lt hi, Nat.mod_eq_of_lt hj] at hbits

/-- The table of keys of a table holds its reported keys by position. -/
theorem get?_keyTable (hlength : t.length ≤ UInt64.size) {n : Nat} (hn : n < t.length) :
    Assoc.get? (keyTable t) (.int (Int64.ofNat n)) = some (.ofKey t[n].1) := by
  have hdistinct : Assoc.Distinct (t.zipIdx.map fun e ↦
      ((.int (Int64.ofNat e.2), .ofKey e.1.1) : Key × Value)) := by
    rw [Assoc.Distinct, List.pairwise_map, List.pairwise_iff_getElem]
    intro i j hi hj hlt
    rw [List.length_zipIdx] at hi hj
    rw [List.getElem_zipIdx, List.getElem_zipIdx, Key.int_beq_int, beq_eq_false_iff_ne]
    intro heq
    have := int64_ofNat_inj (by omega) (by omega) heq
    omega
  rw [keyTable, hdistinct.ofList_eq]
  refine hdistinct.get?_of_mem (e := (.int (Int64.ofNat n), .ofKey t[n].1)) ?_ ?_
  · exact List.mem_map.mpr ⟨(t[n], n), List.mk_mem_zipIdx_iff_getElem?.mpr (by simp), rfl⟩
  · exact Key.beq_self_iff.mpr rfl

theorem loadKey_withStack {m : Machine} {s : ScopeId} (hs : s < m.heap.nextScope)
    {vs : List Value} (hroom : vs.length < m.config.maxStack) {keyValue v : Value} {key : Key}
    (hkey : keyValue.toKey = .ok key) (hget : Assoc.get? t key = some v) :
    loadKey s (m.withStack s (keyValue :: .table t :: vs)) = .ok () (m.withStack s (v :: vs)) := by
  rw [loadKey_eq_push hs hkey hget, push_withStack hs, if_pos hroom]

/-- **Reported keys read back**, in every table that programs can bring about, except for integers
past `2 ^ 53`: these and no others. Indexing the table with a reported key that reads back gives the
value of its entry, and reported keys that read back are different values. -/
theorem reported_keys {m : Machine} (hm : m.Reached) {t : Table} (ht : m.Contains (.table t)) :
    (t.length ≤ UInt64.size → ∀ n, (hn : n < t.length) →
      Assoc.get? (keyTable t) (.int (Int64.ofNat n)) = some (.ofKey t[n].1)) ∧
    (∀ e ∈ t, (Value.ofKey e.1).toKey = .ok e.1 ↔ ∀ i, e.1 = .int i → Key.IsExact i.toInt) ∧
    (∀ e ∈ t, (Value.ofKey e.1).toKey = .ok e.1 →
      ∀ (m' : Machine) (s : ScopeId) (vs : List Value), s < m'.heap.nextScope →
        vs.length < m'.config.maxStack →
        loadKey s (m'.withStack s (.ofKey e.1 :: .table t :: vs)) =
          .ok () (m'.withStack s (e.2 :: vs))) ∧
    t.Pairwise fun e f ↦ (Value.ofKey e.1).toKey = .ok e.1 → (Value.ofKey f.1).toKey = .ok f.1 →
      (Value.ofKey e.1 == Value.ofKey f.1) = false := by
  have hkeyed : (Value.table t).WellKeyed :=
    (hm.holds Value.closed_wellKeyed).of_contains Value.closed_wellKeyed ht
  obtain ⟨hdistinct, hkeys, -⟩ := Value.wellKeyed_table.mp hkeyed
  refine ⟨fun hlength n hn ↦ get?_keyTable hlength hn, fun e he ↦ ?_, fun e he hread ↦ ?_, ?_⟩
  · rw [Value.toKey_ofKey_iff]
    exact (hkeys e he).isNormal_iff
  · intro m' s vs hs hroom
    have hself : e.1 == e.1 := Key.beq_self_iff.mpr (hkeys e he).isNaN
    exact loadKey_withStack hs hroom hread (hdistinct.get?_of_mem he hself)
  · refine hdistinct.imp_of_mem fun {e f} he _ hne hread hread' ↦ ?_
    rw [Bool.eq_false_iff]
    intro heq
    have hsame : e.1 = f.1 :=
      Value.ofKey_inj (Value.toKey_ofKey_iff.mp hread) (Value.toKey_ofKey_iff.mp hread') heq
    rw [← hsame, Key.beq_self_iff.mpr (hkeys e he).isNaN] at hne
    cases hne

/-! ## Two programs -/

/-- A new machine after a compiled program, however that ended. -/
def Machine.afterProgram (fuel : Nat) (body : Program) : Machine :=
  (evaluate fuel (textOf (Lower.program true body))).stateAfter (.start (.standard false) .plain)

theorem reached_afterProgram (fuel : Nat) (body : Program) :
    (Machine.afterProgram fuel body).Reached :=
  .evaluate (.start _ _) fuel _

/-- The table that a name means in a scope. -/
def Machine.tableNamed? (m : Machine) (s : ScopeId) (name : String) : Option Table :=
  match m.heap.lookup s name with
  | some (.table t) => some t
  | _ => none

theorem Machine.contains_of_tableNamed? {m : Machine} {s : ScopeId} {name : String} {t : Table}
    (h : m.tableNamed? s name = some t) : m.Contains (.table t) := by
  rw [tableNamed?] at h
  split at h
  · next hlookup =>
    obtain rfl := Option.some.inj h
    obtain ⟨o, -, hget⟩ := Option.bind_eq_some_iff.mp hlookup
    exact Assoc.forall_of_get? (fun _ he ↦ Contains.binding o he) hget
  · cases h

theorem Machine.exists_contains {m : Machine} {s : ScopeId} {name : String} {p : Table → Bool}
    (h : (m.tableNamed? s name).any p = true) : ∃ t, m.Contains (.table t) ∧ p t = true := by
  cases hnamed : m.tableNamed? s name with
  | none =>
    rw [hnamed] at h
    cases h
  | some t =>
    rw [hnamed, Option.any_some] at h
    exact ⟨t, contains_of_tableNamed? hnamed, h⟩

/-- The keys of a table literal read back. -/
theorem reported_keys_literal :
    ∃ (m : Machine) (t : Table), m.Reached ∧ m.Contains (.table t) ∧ t.length = 3 ∧
      (∀ e ∈ t, (Value.ofKey e.1).toKey = .ok e.1) ∧
      t.Pairwise fun e f ↦ (Value.ofKey e.1 == Value.ofKey f.1) = false := by
  -- `var t = {7: 'a', 0.5: 'b', c: 'd'}`
  let body : Program := [.var "t" (.table [(.number (Number.ofDecimal 7 0), .text "a"),
    (.number (Number.ofDecimal 5 (-1)), .text "b"), (.text "c", .text "d")])]
  have hspelled : (Spelling.writable (· < UInt64.size)).stmts body := by
    have ht : IsName "t" := by decide
    simp [body, Spelling.stmts, Spelling.stmt, Spelling.expr, Spelling.entries, Spelling.writable,
      ht]
  have hrun : ((Machine.afterProgram 40 body).tableNamed? 1 "t").any fun t ↦
      t.length = 3 ∧ ∀ e ∈ t, e.1.IsNormal := by
    unfold Machine.afterProgram evaluate
    rw [Lower.decode_program_append true hspelled decode_callMain]
    decide +kernel
  obtain ⟨t, ht, hcheck⟩ := Machine.exists_contains hrun
  obtain ⟨hlength, hnormal⟩ := of_decide_eq_true hcheck
  obtain ⟨-, -, -, hdiffer⟩ := reported_keys (reached_afterProgram 40 body) ht
  have hread (e : Key × Value) (he : e ∈ t) : (Value.ofKey e.1).toKey = .ok e.1 :=
    Value.toKey_ofKey_iff.mpr (hnormal e he)
  refine ⟨_, t, reached_afterProgram 40 body, ht, hlength, hread, ?_⟩
  exact hdiffer.imp_of_mem fun he hf hne ↦ hne (hread _ he) (hread _ hf)

/-- The program that shows the exception. Its table gets the key `2 ^ 53 + 1`, which is reported as
the number `2 ^ 53`; that is the other key, so the first value is printed twice. -/
theorem reported_keys_collide :
    ∃ body : Program,
      (compileSource ⟨[], []⟩ ⟨""⟩ true
        "var t = table.insert(\x7b9007199254740992: 'a'\x7d, 'b')
var k = table.keys(t)
console.out(t[k[0]], t[k[1]])").toOption = some (textOf (Lower.program true body)) ∧
      (Machine.afterProgram 80 body).Reached ∧
      (Machine.afterProgram 80 body).output = "aa\n" ∧
      ∃ t, (Machine.afterProgram 80 body).Contains (.table t) ∧
        ∃ e ∈ t, (Value.ofKey e.1).toKey ≠ .ok e.1 := by
  let entry (position : Nat) : Expr :=
    .member (.name "t") (.member (.name "k") (.number (Number.ofDecimal position 0)) true) true
  let body : Program := [
    .var "t" (.call (.member (.name "table") (.text "insert") false)
      [.table [(.number (Number.ofDecimal 9007199254740992 0), .text "a")], .text "b"]),
    .var "k" (.call (.member (.name "table") (.text "keys") false) [.name "t"]),
    .expr (.call (.member (.name "console") (.text "out") false) [entry 0, entry 1])]
  have hspelled : (Spelling.writable (· < UInt64.size)).stmts body := by
    have ht : IsName "t" := by decide
    have hk : IsName "k" := by decide
    have htable : IsName "table" := by decide
    have hconsole : IsName "console" := by decide
    simp [body, entry, Spelling.stmts, Spelling.stmt, Spelling.expr, Spelling.arguments,
      Spelling.entries, Spelling.writable, ht, hk, htable, hconsole]
  have hrun : (Machine.afterProgram 80 body).output = "aa\n" ∧
      ((Machine.afterProgram 80 body).tableNamed? 1 "t").any fun t ↦
        ∃ e ∈ t, ¬e.1.IsNormal := by
    unfold Machine.afterProgram evaluate
    rw [Lower.decode_program_append true hspelled decode_callMain]
    decide +kernel
  obtain ⟨t, ht, hcheck⟩ := Machine.exists_contains hrun.2
  obtain ⟨e, he, hnormal⟩ := of_decide_eq_true hcheck
  refine ⟨body, by decide +kernel, reached_afterProgram 80 body, hrun.1, t, ht, e, he, ?_⟩
  rwa [ne_eq, Value.toKey_ofKey_iff]

end GemLang
