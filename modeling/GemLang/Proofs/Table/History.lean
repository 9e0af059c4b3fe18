import GemLang.Proofs.Machine.Evaluation
import GemLang.Proofs.Table.Entries
import GemLang.Proofs.Table.Keys

/-!
# Tables and their history

A table comes about by edits: values are inserted under keys, values that are there are written to,
and keys are removed. What a table should be after a list of edits is said here by looking at the
list, with no table in sight. The *life* of a key is the part of the list from the first insertion
of the key after its last removal. It is empty if there is no such insertion; otherwise the key is
in the table, its value is the last one written in its life, and its place among the other keys is
given by when its life began.

## The invariant

`Records` says that a table is what a list of edits makes it. One more edit keeps it
(`Records.step`), so it holds after all of them. Where the order of the keys is concerned, only the
list of keys matters (`Opened`): a change of values leaves that list alone, a removal shortens it,
and a new key goes to its end, where its life began last.

A key that is no number has no life. It is appended each time it is inserted and never found, so it
is left out of what is said about the order.
-/

namespace GemLang.Table

open Exec

/-! ## Edits -/

/-- A change of a table. -/
inductive Edit where
  | insert (key : Key) (value : Value)
  /-- Writes to the value under a key, if there is one. -/
  | assign (key : Key) (value : Value)
  | remove (key : Key)

namespace Edit

def key : Edit → Key
  | .insert key _ => key
  | .assign key _ => key
  | .remove key => key

def apply (t : Table) : Edit → Table
  | .insert key value => Assoc.insert t key value
  | .assign key value => Assoc.replace t key value
  | .remove key => Assoc.erase t key

def inserts (k : Key) : Edit → Bool
  | .insert key _ => key == k
  | _ => false

def removes (k : Key) : Edit → Bool
  | .remove key => key == k
  | _ => false

/-- The value that an edit writes to a key. -/
def written? (k : Key) : Edit → Option Value
  | .insert key value => if key == k then some value else none
  | .assign key value => if key == k then some value else none
  | .remove _ => none

end Edit

/-- The table after edits, made one after the other from the empty table. -/
def after (edits : List Edit) : Table := edits.foldl Edit.apply []

/-- The edits from the first insertion of a key after its last removal on. -/
def life (edits : List Edit) (key : Key) : List Edit :=
  (edits.rtakeWhile (!·.removes key)).dropWhile (!·.inserts key)

/-- The number of edits before the life of a key. -/
def bornAt (edits : List Edit) (key : Key) : Nat := edits.length - (life edits key).length

/-- The value that was written to a key last in its life. -/
def lastWritten (edits : List Edit) (key : Key) : Option Value :=
  ((life edits key).filterMap (Edit.written? key)).getLast?

variable {edits : List Edit} {edit : Edit} {t : Table} {key k : Key}

theorem after_concat (edits : List Edit) (edit : Edit) :
    after (edits ++ [edit]) = edit.apply (after edits) := by
  rw [after, List.foldl_concat, after]

/-! ## The life of a key -/

theorem life_suffix (edits : List Edit) (key : Key) : life edits key <:+ edits :=
  (List.dropWhile_suffix _).trans (List.rtakeWhile_suffix _ _)

theorem life_concat (edits : List Edit) (edit : Edit) (key : Key) :
    life (edits ++ [edit]) key =
      if edit.removes key then []
      else if life edits key = [] then if edit.inserts key then [edit] else []
      else life edits key ++ [edit] := by
  rw [life, List.rtakeWhile_concat]
  by_cases hremoves : edit.removes key
  · simp [hremoves]
  · simp only [hremoves, Bool.not_false, ↓reduceIte, Bool.false_eq_true, List.dropWhile_append,
      List.isEmpty_iff]
    by_cases hinserts : edit.inserts key
    · simp [life, hinserts]
    · simp [life, hinserts]

theorem life_concat_of_ne_nil (hlife : life edits key ≠ []) (hedit : edit.removes key = false) :
    life (edits ++ [edit]) key = life edits key ++ [edit] := by
  simp only [life_concat, hedit, Bool.false_eq_true, ↓reduceIte, hlife]

theorem bornAt_concat_of_ne_nil (hlife : life edits key ≠ []) (hedit : edit.removes key = false) :
    bornAt (edits ++ [edit]) key = bornAt edits key := by
  rw [bornAt, life_concat_of_ne_nil hlife hedit, List.length_append, List.length_append, bornAt]
  exact Nat.add_sub_add_right _ _ _

theorem bornAt_lt_length (hlife : life edits key ≠ []) : bornAt edits key < edits.length := by
  have hpos : 0 < (life edits key).length := List.length_pos_iff.mpr hlife
  have hle : (life edits key).length ≤ edits.length := (life_suffix edits key).length_le
  rw [bornAt]
  omega

theorem getElem?_bornAt (edits : List Edit) (key : Key) :
    edits[bornAt edits key]? = (life edits key).head? := by
  have hdrop := List.suffix_iff_eq_drop.mp (life_suffix edits key)
  rw [hdrop, List.head?_drop]
  rfl

theorem inserts_of_life_eq_cons {rest : List Edit} (h : life edits key = edit :: rest) :
    edit.inserts key = true := by
  have hhead := List.head?_dropWhile_not (!·.inserts key) (edits.rtakeWhile (!·.removes key))
  rw [← life, h] at hhead
  simpa using hhead

theorem lastWritten_eq_none_iff : lastWritten edits key = none ↔ life edits key = [] := by
  rw [lastWritten, List.getLast?_eq_none_iff]
  constructor
  · intro h
    by_contra hlife
    obtain ⟨edit, rest, heq⟩ := List.exists_cons_of_ne_nil hlife
    match edit, inserts_of_life_eq_cons heq with
    | .insert key' value, hinserts =>
      have hwritten : Edit.written? key (.insert key' value) = some value := if_pos hinserts
      rw [heq, List.filterMap_cons, hwritten] at h
      cases h
  · intro h
    rw [h, List.filterMap_nil]

theorem lastWritten_concat (edits : List Edit) (edit : Edit) (k : Key) :
    lastWritten (edits ++ [edit]) k =
      match edit with
      | .insert key value => if key == k then some value else lastWritten edits k
      | .assign key value =>
        if key == k then (lastWritten edits k).map fun _ ↦ value else lastWritten edits k
      | .remove key => if key == k then none else lastWritten edits k := by
  by_cases hlife : life edits k = []
  · -- only an insertion begins a life
    rw [lastWritten_eq_none_iff.mpr hlife, lastWritten, life_concat, if_pos hlife]
    cases edit with
    | insert key value =>
      by_cases hk : key == k <;> simp [Edit.removes, Edit.inserts, Edit.written?, hk]
    | assign key value => simp [Edit.removes, Edit.inserts]
    | remove key => simp [Edit.removes, Edit.inserts]
  · obtain ⟨old, hold⟩ := Option.ne_none_iff_exists'.mp (lastWritten_eq_none_iff.not.mpr hlife)
    have hlast := hold
    rw [lastWritten] at hlast
    rw [hold, lastWritten, life_concat, if_neg hlife]
    cases edit with
    | insert key value => by_cases hk : key == k <;> simp [Edit.removes, Edit.written?, hk, hlast]
    | assign key value => by_cases hk : key == k <;> simp [Edit.removes, Edit.written?, hk, hlast]
    | remove key => by_cases hk : key == k <;> simp [Edit.removes, Edit.written?, hk, hlast]

/-! ## The order of the keys -/

/-- Keys whose lives began with their insertion, one after the other. -/
structure Opened (edits : List Edit) (keys : List Key) : Prop where
  head : ∀ k ∈ keys, ∃ value, (life edits k).head? = some (.insert k value)
  ordered : keys.Pairwise (bornAt edits · < bornAt edits ·)

namespace Opened

variable {keys : List Key}

theorem life_ne_nil (h : Opened edits keys) (hk : k ∈ keys) : life edits k ≠ [] := by
  intro hnil
  obtain ⟨value, hvalue⟩ := h.head k hk
  rw [hnil] at hvalue
  cases hvalue

theorem keep (h : Opened edits keys) {keys' : List Key} (hsub : keys'.Sublist keys)
    (hedit : ∀ k ∈ keys', edit.removes k = false) : Opened (edits ++ [edit]) keys' := by
  have hlife {k : Key} (hk : k ∈ keys') : life edits k ≠ [] := h.life_ne_nil (hsub.subset hk)
  refine ⟨fun k hk ↦ ?_, ?_⟩
  · obtain ⟨value, hvalue⟩ := h.head k (hsub.subset hk)
    refine ⟨value, ?_⟩
    rw [life_concat_of_ne_nil (hlife hk) (hedit k hk), List.head?_append, hvalue]
    rfl
  · refine (h.ordered.sublist hsub).imp_of_mem fun {k k'} hk hk' hlt ↦ ?_
    rw [bornAt_concat_of_ne_nil (hlife hk) (hedit k hk),
      bornAt_concat_of_ne_nil (hlife hk') (hedit k' hk')]
    exact hlt

theorem concat (h : Opened edits keys) (hlife : life edits key = []) (hself : key == key)
    (value : Value) : Opened (edits ++ [Edit.insert key value]) (keys ++ [key]) := by
  have hborn : life (edits ++ [Edit.insert key value]) key = [.insert key value] := by
    simp [life_concat, Edit.removes, Edit.inserts, hlife, hself]
  have hkeep : Opened (edits ++ [Edit.insert key value]) keys := h.keep (.refl keys) fun _ _ ↦ rfl
  refine ⟨?_, ?_⟩
  · rw [List.forall_mem_append, List.forall_mem_singleton]
    exact ⟨hkeep.head, value, by rw [hborn, List.head?_cons]⟩
  · refine List.pairwise_append.mpr ⟨hkeep.ordered, List.pairwise_singleton _ _, ?_⟩
    intro k hk k' hk'
    obtain rfl := List.mem_singleton.mp hk'
    calc bornAt (edits ++ [Edit.insert k' value]) k
      _ = bornAt edits k := bornAt_concat_of_ne_nil (h.life_ne_nil hk) rfl
      _ < edits.length := bornAt_lt_length (h.life_ne_nil hk)
      _ = bornAt (edits ++ [Edit.insert k' value]) k' := by
        rw [bornAt, hborn, List.length_append]
        exact (Nat.add_sub_cancel _ _).symm

end Opened

/-! ## The invariant -/

structure Records (edits : List Edit) (t : Table) : Prop where
  distinct : Assoc.Distinct t
  get? (key : Key) : Assoc.get? t key = lastWritten edits key
  opened : Opened edits (t.map (·.1))

theorem records_nil : Records [] [] :=
  ⟨.nil, fun _ ↦ rfl, ⟨List.forall_mem_nil _, .nil⟩⟩

theorem Records.step (h : Records edits t) (hkey : edit.key.isNaN = false) :
    Records (edits ++ [edit]) (edit.apply t) := by
  cases edit with
  | insert key value =>
    refine ⟨h.distinct.insert key value, fun k ↦ ?_, ?_⟩
    · rw [lastWritten_concat, ← h.get?]
      exact Assoc.get?_insert t key value k
    · rw [Edit.apply]
      cases hget : Assoc.get? t key with
      | none =>
        rw [Assoc.insert_of_get?_eq_none hget, List.map_append]
        have hlife : life edits key = [] := by rw [← lastWritten_eq_none_iff, ← h.get?, hget]
        exact h.opened.concat hlife (Key.beq_self_iff.mpr hkey) value
      | some old =>
        rw [Assoc.insert_of_get?_eq_some hget, Assoc.map_fst_replace]
        exact h.opened.keep (.refl _) fun _ _ ↦ rfl
  | assign key value =>
    refine ⟨h.distinct.replace key value, fun k ↦ ?_, ?_⟩
    · rw [lastWritten_concat, ← h.get?]
      exact Assoc.get?_replace t key value k
    · rw [Edit.apply, Assoc.map_fst_replace]
      exact h.opened.keep (.refl _) fun _ _ ↦ rfl
  | remove key =>
    refine ⟨h.distinct.erase key, fun k ↦ ?_, ?_⟩
    · rw [lastWritten_concat, ← h.get?]
      exact h.distinct.get?_erase key k
    · refine h.opened.keep ((Assoc.erase_sublist t key).map _) fun k hk ↦ ?_
      obtain ⟨e, he, rfl⟩ := List.mem_map.mp hk
      rw [Edit.removes, BEq.comm]
      exact h.distinct.forall_erase_ne key e he

theorem records_after (hedits : ∀ edit ∈ edits, edit.key.isNaN = false) :
    Records edits (after edits) := by
  induction edits using List.reverseRecOn with
  | nil => exact records_nil
  | append_singleton edits edit ih =>
    rw [List.forall_mem_append, List.forall_mem_singleton] at hedits
    rw [after_concat]
    exact (ih hedits.1).step hedits.2

/-! ## The next index -/

theorem le_foldl_max {i j : Int64} {is : List Int64} (h : j ∈ i :: is) : j ≤ is.foldl max i := by
  induction is generalizing i j with
  | nil =>
    obtain rfl := List.mem_singleton.mp h
    exact Int64.le_refl _
  | cons i' is ih =>
    rw [List.foldl_cons]
    have hfold : max i i' ≤ is.foldl max (max i i') := ih List.mem_cons_self
    have hmax : max i i' = if i ≤ i' then i' else i := rfl
    rcases List.mem_cons.mp h with rfl | h
    · have hleft : j ≤ max j i' := by
        rw [hmax]
        split
        · assumption
        · exact Int64.le_refl j
      exact Int64.le_trans hleft hfold
    · rcases List.mem_cons.mp h with rfl | h
      · have hright : j ≤ max i j := by
          rw [hmax]
          split
          · exact Int64.le_refl j
          · next hlt => exact Int64.le_of_lt (Int64.not_le.mp hlt)
        exact Int64.le_trans hright hfold
      · exact ih (List.mem_cons_of_mem _ h)

/-- One past an integer key that is not negative. -/
def successor? : Key → Option Int64
  | .int i => if 0 ≤ i then some (i + 1) else none
  | _ => none

theorem nextIndex_eq (t : Table) :
    nextIndex t = (t.filterMap (successor? ·.1)).max?.getD 0 := by
  have hsuccessor {f : Key × Value → Option Int64} (hf : ∀ e, f e = successor? e.1)
      {is : List Int64} (h : t.filterMap f = is) : t.filterMap (successor? ·.1) = is := by
    rw [← h, funext hf]
  unfold nextIndex
  dsimp only
  split
  · next h => rw [hsuccessor (fun e ↦ by cases e.1 <;> rfl) h]; rfl
  · next h => rw [hsuccessor (fun e ↦ by cases e.1 <;> rfl) h]; rfl

/-- All integer keys are below the largest integer. -/
def HasRoom (t : Table) : Prop := ∀ e ∈ t, ∀ i, e.1 = .int i → i < Int64.maxValue

theorem toInt_succ {i : Int64} (h : i < Int64.maxValue) : (i + 1).toInt = i.toInt + 1 := by
  have hlower := i.le_toInt
  have hupper : i.toInt < 2 ^ 63 - 1 := Int64.lt_iff_toInt_lt.mp h
  rw [Int64.toInt_add]
  exact Int.bmod_eq_of_le (by change _ ≤ i.toInt + 1; omega) (by change i.toInt + 1 < _; omega)

theorem succ_le_nextIndex {e : Key × Value} (he : e ∈ t) {i : Int64} (hi : e.1 = .int i)
    (hnonneg : 0 ≤ i) : i + 1 ≤ nextIndex t := by
  have hmem : i + 1 ∈ t.filterMap (successor? ·.1) := by
    refine List.mem_filterMap.mpr ⟨e, he, ?_⟩
    rw [hi]
    exact if_pos hnonneg
  rw [nextIndex_eq]
  cases hlist : t.filterMap (successor? ·.1) with
  | nil =>
    rw [hlist] at hmem
    cases hmem
  | cons j js =>
    rw [hlist] at hmem
    exact le_foldl_max hmem

theorem nextIndex_nonneg (h : HasRoom t) : 0 ≤ nextIndex t := by
  by_cases hint : ∃ e ∈ t, ∃ i, e.1 = .int i ∧ 0 ≤ i
  · obtain ⟨e, he, i, hi, hnonneg⟩ := hint
    have hle := Int64.le_iff_toInt_le.mp (succ_le_nextIndex he hi hnonneg)
    rw [toInt_succ (h e he i hi)] at hle
    rw [Int64.le_iff_toInt_le] at hnonneg ⊢
    omega
  · have hnil : t.filterMap (successor? ·.1) = [] := by
      refine List.filterMap_eq_nil_iff.mpr fun e he ↦ ?_
      cases hkey : e.1 with
      | int i => exact if_neg fun hnonneg ↦ hint ⟨e, he, i, hkey, hnonneg⟩
      | double _ => rfl
      | text _ => rfl
    rw [nextIndex_eq, hnil]
    exact Int64.le_refl 0

/-- The next index is past all integer keys. -/
theorem lt_nextIndex (h : HasRoom t) {e : Key × Value} (he : e ∈ t) {i : Int64}
    (hi : e.1 = .int i) : i < nextIndex t := by
  have hzero := Int64.le_iff_toInt_le.mp (nextIndex_nonneg h)
  rw [Int64.lt_iff_toInt_lt]
  by_cases hnonneg : 0 ≤ i
  · have hle := Int64.le_iff_toInt_le.mp (succ_le_nextIndex he hi hnonneg)
    rw [toInt_succ (h e he i hi)] at hle
    omega
  · rw [Int64.le_iff_toInt_le] at hnonneg
    omega

theorem get?_nextIndex (h : HasRoom t) : Assoc.get? t (.int (nextIndex t)) = none := by
  rw [Assoc.get?_eq_none_iff]
  rintro ⟨key, value⟩ he
  match key with
  | .int i =>
    rw [Key.int_beq_int, beq_eq_false_iff_ne]
    rintro rfl
    exact Int64.lt_irrefl (lt_nextIndex h he rfl)
  | .double _ | .text _ => rfl

/-- Inserting without a key puts one entry at the end of a table. -/
theorem tableInsert_withStack {m : Machine} {s : ScopeId} (hs : s < m.heap.nextScope)
    {rest : List Value} (hroom : rest.length < m.config.maxStack) (ht : HasRoom t) (v : Value) :
    Native.tableInsert.call s (m.withStack s (.table t :: v :: rest)) =
      .ok () (m.withStack s (.table (t ++ [(.int (nextIndex t), v)]) :: rest)) := by
  rw [Native.call, bind_apply, popTable, bind_apply, pop_withStack hs]
  change (pop s >>= fun v ↦ push s (.table (Assoc.insert t (.int (nextIndex t)) v)))
    (m.withStack s (v :: rest)) = _
  rw [bind_apply, pop_withStack hs]
  change push s _ (m.withStack s rest) = _
  rw [push_withStack hs, if_pos hroom, Assoc.insert_of_get?_eq_none (get?_nextIndex ht)]

/-! ## Tables are maps in the order of insertion -/

/-- **A table is a map in the order of insertion**, whatever edits it came about by, if their keys
are not the number that is no number. No two entries have equal keys, and each is the one found
under its key. What is found under a key is the value written last in its life. The entries stand
in the order in which the lives of their keys began, and each life began with the insertion of the
very key that the entry has. As long as there is room, the next index is past all integer keys and
under it there is nothing, so that inserting a value without a key adds one entry at the end and
changes no other. -/
theorem insertion_ordered (edits : List Edit) (hedits : ∀ edit ∈ edits, edit.key.isNaN = false) :
    ((after edits).Pairwise (fun e f ↦ (e.1 == f.1) = false) ∧
      ∀ e ∈ after edits, Assoc.get? (after edits) e.1 = some e.2) ∧
    (∀ key, Assoc.get? (after edits) key = lastWritten edits key) ∧
    ((after edits).Pairwise (fun e f ↦ bornAt edits e.1 < bornAt edits f.1) ∧
      ∀ e ∈ after edits, ∃ value, edits[bornAt edits e.1]? = some (.insert e.1 value)) ∧
    (HasRoom (after edits) →
      (∀ e ∈ after edits, ∀ i, e.1 = .int i → i < nextIndex (after edits)) ∧
      Assoc.get? (after edits) (.int (nextIndex (after edits))) = none ∧
      ∀ (m : Machine) (s : ScopeId) (v : Value) (rest : List Value), s < m.heap.nextScope →
        rest.length < m.config.maxStack →
        Native.tableInsert.call s (m.withStack s (.table (after edits) :: v :: rest)) =
          .ok () (m.withStack s
            (.table (after edits ++ [(.int (nextIndex (after edits)), v)]) :: rest))) := by
  have hrecords := records_after hedits
  have hhead (e : Key × Value) (he : e ∈ after edits) :
      ∃ value, (life edits e.1).head? = some (.insert e.1 value) :=
    hrecords.opened.head e.1 (List.mem_map_of_mem he)
  refine ⟨⟨hrecords.distinct, fun e he ↦ ?_⟩, hrecords.get?, ⟨?_, fun e he ↦ ?_⟩, fun hroom ↦ ?_⟩
  · -- a key equals itself since its life began with it
    obtain ⟨value, hvalue⟩ := hhead e he
    obtain ⟨rest, hlife⟩ := List.head?_eq_some_iff.mp hvalue
    exact hrecords.distinct.get?_of_mem he (inserts_of_life_eq_cons hlife)
  · have hordered := hrecords.opened.ordered
    rw [List.pairwise_map] at hordered
    exact hordered
  · rw [getElem?_bornAt]
    exact hhead e he
  · refine ⟨fun e he i hi ↦ lt_nextIndex hroom he hi, get?_nextIndex hroom, ?_⟩
    intro m s v rest hs hdepth
    exact tableInsert_withStack hs hdepth hroom v

/-- The exception: what is no number takes a new entry every time. -/
example (v w : Value) :
    after [.insert (.double Number.notANumber) v, .insert (.double Number.notANumber) w] =
      [(.double Number.notANumber, v), (.double Number.notANumber, w)] := rfl

/-- A key that is removed and inserted again goes to the end, one that is written to stays, and the
two zeros are one key. -/
theorem insertion_ordered_reinserted :
    ∃ edits : List Edit, (∀ edit ∈ edits, edit.key.isNaN = false) ∧
      after edits = [(.double 0, .bool true), (.int 3, .bool false), (.text "a", .null)] ∧
      (∀ key, Assoc.get? (after edits) key = lastWritten edits key) ∧
      (after edits).Pairwise (fun e f ↦ bornAt edits e.1 < bornAt edits f.1) ∧
      Native.tableInsert.call 0
          ((Machine.start (.standard false) .plain).withStack 0 [.table (after edits), .null]) =
        .ok () ((Machine.start (.standard false) .plain).withStack 0
          [.table (after edits ++ [(.int 4, .null)])]) := by
  let edits : List Edit := [.insert (.text "a") .null, .insert (.double 0) .null,
    .remove (.text "a"), .insert (.int 3) (.bool false), .insert (.text "a") .null,
    .assign (.double (-0)) (.bool true)]
  have hedits : ∀ edit ∈ edits, edit.key.isNaN = false := by
    simp only [edits, List.forall_mem_cons, Edit.key, Key.isNaN]
    decide +kernel
  have hafter : after edits =
      [(.double 0, .bool true), (.int 3, .bool false), (.text "a", .null)] := rfl
  obtain ⟨-, hget, ⟨hordered, -⟩, hroom⟩ := insertion_ordered edits hedits
  have hspace : HasRoom (after edits) := by
    rw [hafter]
    rintro e he i hi
    obtain rfl | rfl | rfl : e = _ ∨ e = _ ∨ e = _ := by simpa using he
    · cases hi
    · obtain rfl := Key.int.inj hi
      decide
    · cases hi
  have hnext : nextIndex (after edits) = 4 := rfl
  obtain ⟨-, -, hinsert⟩ := hroom hspace
  have hcall := hinsert (.start (.standard false) .plain) 0 .null [] (by decide) (by decide)
  rw [hnext] at hcall
  exact ⟨edits, hedits, hafter, hget, hordered, hcall⟩

end GemLang.Table
