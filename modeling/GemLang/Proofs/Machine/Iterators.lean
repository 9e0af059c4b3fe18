import GemLang.Proofs.Machine.Passes
import GemLang.Proofs.Machine.Region
import GemLang.Proofs.Machine.Structured

/-!
# Iterators over tables

`table.iterator(x)` makes an iterator of the entries that the table has right then. Nothing leads to
the iterator but the value that the call leaves (`comes_iteratorOf`). Each call of it takes the next
entry, and past the end it gives `null` twice. No entry is mistaken for the end, as no key is
reported as `null` (`drawn_beq_null`).
-/

namespace GemLang

open Bytecode
open Behavior (code seq Comes)
open Exec

/-! ## Entries -/

/-- What an iterator gives next when these pairs are left. -/
def drawn (pairs : List (Value × Value)) : Value × Value := pairs.head?.getD (.null, .null)

theorem Value.ofKey_beq_null (key : Key) : (Value.ofKey key == .null) = false := by
  cases key with
  | int _ | double _ => rfl
  | text s =>
    have hne : Text.enquote s ≠ "null" := by
      intro heq
      have hlist := congrArg String.toList heq
      simp [Text.enquote] at hlist
    exact (beq_false_of_ne hne : (Text.enquote s == "null") = false)

/-- The end of a table is not mistaken for one of its entries. -/
theorem drawn_beq_null (t : Table) (k : Nat) :
    ((drawn ((entryPairs t).drop k)).1 == .null) = decide (t.length ≤ k) := by
  by_cases hk : k < t.length
  · have hnot : ¬t.length ≤ k := Nat.not_le.mpr hk
    simp [drawn, entryPairs, List.head?_drop, hk, hnot, Value.ofKey_beq_null]
  · have hle : t.length ≤ k := Nat.le_of_not_lt hk
    simp [drawn, entryPairs, hle]
    rfl

/-- An entry is drawn as its reported key and its value. -/
theorem drawn_of_lt {t : Table} {k : Nat} (hk : k < t.length) :
    ∃ e, t[k]? = some e ∧ drawn ((entryPairs t).drop k) = (.ofKey e.1, e.2) := by
  refine ⟨t[k], List.getElem?_eq_getElem hk, ?_⟩
  simp [drawn, entryPairs, List.head?_drop, hk]

/-! ## Drawing -/

section

variable {m : Machine} {s : ScopeId}

/-- An instruction that comes to pushing a value, where it is known what is on the stack. -/
theorem comes_withStack (hs : s < m.heap.nextScope) (op : Opcode) (operands : List String)
    (hrole : op.role = .plain) (hcount : operands.length = op.operandCount) {v : Value}
    {vs ws : List Value}
    (h : perform s op operands (m.withStack s ws) = push s v (m.withStack s vs)) (position : Nat) :
    Comes (code s ⟨position, .op op :: operands.map .operand⟩) (m.withStack s ws) fun left m' ↦
      left = none ∧ m' = m.withStack s (v :: vs) := by
  refine .plain op operands hrole hcount ?_
  rw [h, push_withStack hs]
  split
  · exact .ok ⟨rfl, rfl⟩
  · exact .error rfl

theorem comes_loadLocal_withStack (hs : s < m.heap.nextScope) {x : String} {v : Value}
    (hx : m.heap.lookup s x = some v) (vs : List Value) (position : Nat) :
    Comes (code s ⟨position, codeOf (unary .loadLocal x)⟩) (m.withStack s vs) fun left m' ↦
      left = none ∧ m' = m.withStack s (v :: vs) :=
  comes_withStack hs .loadLocal [x] rfl rfl
    (perform_loadLocal ((lookup_withStack m s vs x).trans hx)) position

theorem comes_member (hs : s < m.heap.nextScope) {x key : String} {t : Table} {v : Value}
    (hx : m.heap.lookup s x = some (.table t)) (hkey : Assoc.get? t (.text key) = some v)
    (vs : List Value) (position : Nat) :
    Comes (code s ⟨position, codeOf (unary .loadLocal x ++ unary .push (Text.quote key) ++
      bare .loadKey)⟩) (m.withStack s vs) fun left m' ↦
        left = none ∧ m' = m.withStack s (v :: vs) := by
  have hload := Structured.nested_unary .loadLocal x
  have hpush := Structured.nested_unary .push (Text.quote key)
  have hread : perform s .loadKey [] (m.withStack s (.quoted key :: .table t :: vs)) =
      push s v (m.withStack s vs) := by
    have hquoted : (Value.quoted key).toKey = .ok (.text key) := by
      simp only [Value.quoted, Value.toKey, Text.unquote_enquote]
    exact loadKey_eq_push hs hquoted hkey vs
  rw [Structured.code_lines_append (hload.append hpush) (Structured.nested_bare .loadKey),
    Structured.code_lines_append hload hpush]
  refine Comes.thenComes (P := fun q ↦ q = m.withStack s (.quoted key :: .table t :: vs)) ?_ ?_
  · refine (comes_loadLocal_withStack hs hx vs _).thenComes ?_
    rintro _ rfl
    refine comes_withStack hs .push [Text.quote key] rfl rfl ?_ _
    exact perform_push (literal_quote key) ▸ rfl
  · rintro _ rfl
    exact comes_withStack hs .loadKey [] rfl rfl hread _

theorem comes_nextOfTable {i : Nat} {pairs : List (Value × Value)} {vs : List Value}
    (hstack : m.heap.stack s = .native (.nextOfTable i) :: vs)
    (hmarks : ∀ mark ∈ m.marks, mark.1 ≠ s) (hrest : m.iterators[i]? = some pairs)
    (position : Nat) : Comes (code s ⟨position, codeOf (bare .call)⟩) m fun left m' ↦ left = none ∧
      m' = { m with
        iterators := m.iterators.setIfInBounds i pairs.tail
        heap := ((m.heap.setStack s vs).push s (drawn pairs).2).push s (drawn pairs).1 } := by
  have hcount : argumentCount s (m.withStack s vs) = .ok none (m.withStack s vs) :=
    argumentCount_of_unmarked hmarks
  have hcall : GemLang.call 1 s m = pushNextPair s i (m.withStack s vs) := by
    rw [GemLang.call, bind_apply, pop_of_stack hstack]
    change (argumentCount s >>= _) (m.withStack s vs) = _
    rw [bind_apply, hcount]
    rfl
  have hrest' : (m.withStack s vs).iterators[i]? = some pairs := hrest
  refine .call ?_
  rw [hcall, pushNextPair, bind_apply, nextPair_eq hrest']
  refine Ends.bind (Q := fun _ m' ↦ m' = _) (.push (fun _ ↦ rfl) rfl) ?_
  rintro _ m' rfl
  exact .push (fun _ ↦ ⟨rfl, rfl⟩) rfl

end

/-! ## Making an iterator -/

/-- The expression `table.iterator(x)`. -/
def iteratorOf (x : String) : Expr :=
  .call (.member (.name "table") (.text "iterator") false) [.name x]

/-- Everything but the iterator `i`. -/
def Region.without (i : Nat) : Region := ⟨fun _ ↦ True, (· ≠ i)⟩

/-- The scope `s` has a new iterator on its stack, over the entries of `t`. Nothing else leads
there, and names mean what they meant in the machine `m₀`. -/
structure Machine.Made (m₀ : Machine) (s : ScopeId) (i : Nat) (t : Table) (m : Machine) : Prop where
  top : (m.heap.stack s).head? = some (.native (.nextOfTable i))
  entries : m.iterators[i]? = some (entryPairs t)
  others : Machine.Holds (Value.Within (.without i)) (m.withStack s (m.heap.stack s).tail)
  lookup (x : String) : m.heap.lookup s x = m₀.heap.lookup s x

section

variable {m m₀ : Machine} {s : ScopeId} {t : Table} {vs : List Value}

theorem Machine.Made.push (hs : s < m.heap.nextScope) {i : Nat}
    (hentries : m.iterators[i]? = some (entryPairs t))
    (hm : m.Holds (Value.Within (.without i)))
    (hlookup : ∀ x, m.heap.lookup s x = m₀.heap.lookup s x) :
    m₀.Made s i t { m with heap := m.heap.push s (.native (.nextOfTable i)) } where
  top := by
    rw [Heap.stack_push_self hs]
    rfl
  entries := hentries
  others := by
    have heq : Machine.withStack { m with heap := m.heap.push s (.native (.nextOfTable i)) } s
        ((m.heap.push s (.native (.nextOfTable i))).stack s).tail = m := by
      rw [Heap.stack_push_self hs, List.tail_cons, Machine.withStack, Heap.push_eq_setStack,
        Heap.setStack_setStack, Heap.setStack_stack]
    exact heq.symm ▸ hm
  lookup x := (Heap.lookup_push ..).trans (hlookup x)

theorem Machine.Made.of_lookup {m' : Machine} {i : Nat} (h : m.Made s i t m')
    (hlookup : ∀ x, m.heap.lookup s x = m₀.heap.lookup s x) : m₀.Made s i t m' :=
  ⟨h.top, h.entries, h.others, fun x ↦ (h.lookup x).trans (hlookup x)⟩

theorem popOrNull_push (hs : s < m.heap.nextScope) (v : Value) :
    popOrNull s { m with heap := m.heap.push s v } = .ok v m := by
  simp only [popOrNull, Heap.stack_push_self hs]
  rw [Heap.push_eq_setStack, Heap.setStack_setStack, Heap.setStack_stack]

theorem ends_tableIterator {frame : ScopeId} (hs : s < m.heap.nextScope)
    (hframe : frame < m.heap.nextScope) (hstack : m.heap.stack frame = [.table t])
    (hm : m.Holds (Value.Within (.without m.iterators.size))) :
    Ends (fun _ m' ↦ m.Made s m.iterators.size t m') (fun e _ ↦ e = .error .stackOverflow)
      ((do
        Native.call .tableIterator frame
        push s (← popOrNull frame)) m) := by
  have hpairs := (Value.Within.sealed (.without m.iterators.size)).entryPairs
    (hm.stack frame _ (hstack ▸ List.mem_cons_self))
  have hpop : popTable frame m = .ok t (m.withStack frame []) := by
    rw [popTable, bind_apply, pop_of_stack hstack]
    rfl
  -- the machine with the new iterator gets a name, so that nothing below looks inside it
  obtain ⟨m', hm'⟩ : ∃ m', m' =
      { m.withStack frame [] with iterators := m.iterators.push (entryPairs t) } := ⟨_, rfl⟩
  have hcall : Native.call .tableIterator frame m =
      push frame (.native (.nextOfTable m.iterators.size)) m' := by
    change (popTable frame >>= _) m = _
    rw [bind_apply, hpop, hm']
    rfl
  have hholds : m'.Holds (Value.Within (.without m.iterators.size)) :=
    hm' ▸ (hm.setStack frame (List.forall_mem_nil _)).pushIterator hpairs
  have hentries : m'.iterators[m.iterators.size]? = some (entryPairs t) := by simp [hm']
  have hscopes : m'.heap.nextScope = m.heap.nextScope := by simp [hm', Machine.withStack]
  have hpushed : Ends (fun _ m'' ↦ m'' = { m' with
      heap := m'.heap.push frame (.native (.nextOfTable m.iterators.size)) })
      (fun e _ ↦ e = .error .stackOverflow) (Native.call .tableIterator frame m) :=
    hcall ▸ .push (fun _ ↦ rfl) rfl
  refine hpushed.bind ?_
  rintro _ _ rfl
  rw [bind_apply, popOrNull_push (hscopes ▸ hframe)]
  have hlookup (x : String) : m'.heap.lookup s x = m.heap.lookup s x :=
    hm' ▸ Heap.lookup_setStack ..
  exact .push (fun _ ↦ .push (hscopes ▸ hs) hentries hholds hlookup) rfl

theorem ends_callNative (hs : s < m.heap.nextScope) (hstack : m.heap.stack s = .table t :: vs)
    (hm : m.Holds (Value.Within (.without m.iterators.size))) :
    Ends (fun _ m' ↦ m.Made s m.iterators.size t m') (fun e _ ↦ e = .error .stackOverflow)
      (callNative .tableIterator s (some 1) m) := by
  have hne : s ≠ m.heap.nextScope := Nat.ne_of_lt hs
  have htop : (m.nest s).heap.stack s = .table t :: vs :=
    (Heap.stack_addChild_of_lt s hs).trans hstack
  obtain ⟨m', hm'⟩ : ∃ m', m' = (m.nest s).withStack s vs := ⟨_, rfl⟩
  have htake : takeTop s 1 (m.nest s) = .ok [.table t] m' := by
    simp [takeTop, htop, hm', Machine.withStack]
  have hholds : m'.Holds (Value.Within (.without m.iterators.size)) := by
    refine hm' ▸ (hm.addChild s).setStack s fun w hw ↦ hm.stack s w ?_
    exact hstack ▸ List.mem_cons_of_mem _ hw
  have hiterators : m'.iterators = m.iterators := hm' ▸ rfl
  have hscopes : m'.heap.nextScope = m.heap.nextScope + 1 := by
    simp [hm', Machine.withStack, Machine.nest]
  have hframe : m.heap.nextScope < m'.heap.nextScope := hscopes ▸ Nat.lt_succ_self _
  have hempty : m'.heap.stack m.heap.nextScope = [] := by
    rw [hm']
    exact (Heap.stack_setStack_of_ne hne vs).trans (Heap.stack_addChild_self m.heap s)
  -- the argument has been taken from the caller, and is put on the stack of the new scope
  have hpush : Ends (fun _ m'' ↦
      m'' = { m' with heap := m'.heap.push m.heap.nextScope (.table t) })
      (fun e _ ↦ e = .error .stackOverflow) (pushAll m.heap.nextScope [.table t] m') := by
    refine Ends.bind (Q := fun _ m' ↦ m' = _) (.push (fun _ ↦ rfl) rfl) ?_
    rintro _ _ rfl
    exact .ok rfl
  rw [← hiterators] at hholds ⊢
  change Ends _ _ ((takeTop s 1 >>= _) (m.nest s))
  rw [bind_apply, htake]
  refine hpush.bind ?_
  rintro _ _ rfl
  have htable : (m'.heap.push m.heap.nextScope (.table t)).stack m.heap.nextScope = [.table t] := by
    rw [Heap.stack_push_self hframe, hempty]
  have hpushed := hholds.push m.heap.nextScope
    (hiterators ▸ hm.stack s _ (hstack ▸ List.mem_cons_self))
  have hs' : s < (m'.heap.push m.heap.nextScope (.table t)).nextScope := by
    simpa [hscopes] using Nat.lt_succ_of_lt hs
  have hlookup (x : String) :
      (m'.heap.push m.heap.nextScope (.table t)).lookup s x = m.heap.lookup s x := by
    rw [Heap.lookup_push, hm', ← Heap.lookup_addChild_of_lt s hs x]
    exact Heap.lookup_setStack ..
  have hends := ends_tableIterator
    (m := { m' with heap := m'.heap.push m.heap.nextScope (.table t) }) hs' (by simpa using hframe)
    htable hpushed
  exact hends.mono (fun _ _ h ↦ h.of_lookup hlookup) fun _ _ h ↦ h

theorem comes_tableIterator (hs : s < m.heap.nextScope)
    (hstack : m.heap.stack s = .native .tableIterator :: .table t :: vs)
    {marks : List (ScopeId × Nat)} (hmarks : m.marks = (s, vs.length) :: marks) {i : Nat}
    (hi : m.iterators.size = i) (hm : m.Holds (Value.Within (.without i))) (position : Nat) :
    Comes (code s ⟨position, codeOf (bare .call)⟩) m fun left m' ↦
      left = none ∧ m.Made s i t m' := by
  subst hi
  have htop : (m.withStack s (.table t :: vs)).heap.stack s = [.table t] ++ vs :=
    Heap.stack_setStack_self hs _
  have hcall : GemLang.call 1 s m = callNative .tableIterator s (some 1)
      { m.withStack s (.table t :: vs) with marks := marks } := by
    have hcount := @argumentCount_of_marked (m.withStack s (.table t :: vs)) s _ _ marks htop hmarks
    rw [GemLang.call, bind_apply, pop_of_stack hstack]
    change (argumentCount s >>= _) (m.withStack s (.table t :: vs)) = _
    rw [bind_apply, hcount]
    rfl
  have hholds : Machine.Holds (Value.Within (.without m.iterators.size))
      { m.withStack s (.table t :: vs) with marks := marks } :=
    (hm.pop hstack).1.congr rfl rfl
  have hs' : s < (m.heap.setStack s (.table t :: vs)).nextScope := by simpa using hs
  refine .call ?_
  rw [hcall]
  have hends :=
    ends_callNative (m := { m.withStack s (.table t :: vs) with marks := marks }) hs' htop hholds
  exact hends.mono (fun _ _ h ↦ ⟨rfl, h.of_lookup fun x ↦ Heap.lookup_setStack ..⟩) fun _ _ h ↦ h

/-- **`table.iterator(x)` comes to a new iterator** over the entries that the table has then, and
nothing else leads there. -/
theorem comes_iteratorOf (optimize : Bool) (n : Nat) (hs : s < m.heap.nextScope) {x : String}
    (hx : m.heap.lookup s x = some (.table t)) {library : Table}
    (hlibrary : m.heap.lookup s "table" = some (.table library))
    (hfunction : Assoc.get? library (.text "iterator") = some (.native .tableIterator))
    (hm : m.Holds (Value.Within (.without m.iterators.size))) (position : Nat) :
    Comes (code s ⟨position, codeOf (Lower.expr optimize (iteratorOf x) n).1⟩) m fun left m' ↦
      left = none ∧ m.Made s m.iterators.size t m' := by
  have hlines : (Lower.expr optimize (iteratorOf x) n).1 = bare .args ++ unary .loadLocal x ++
      (unary .loadLocal "table" ++ unary .push (Text.quote "iterator") ++ bare .loadKey) ++
        bare .call := rfl
  have hargs := Structured.nested_bare .args
  have hvalue := hargs.append (Structured.nested_unary .loadLocal x)
  have hobject := Structured.nested_unary .loadLocal "table"
  have hkey := Structured.nested_unary .push (Text.quote "iterator")
  have hmember := (hobject.append hkey).append (Structured.nested_bare .loadKey)
  rw [hlines, Structured.code_lines_append (hvalue.append hmember) (Structured.nested_jump .call),
    Structured.code_lines_append hvalue hmember,
    Structured.code_lines_append hargs (Structured.nested_unary .loadLocal x)]
  obtain ⟨m', hm'⟩ : ∃ m' : Machine, m' = { m with marks := (s, m.heap.depth s) :: m.marks } :=
    ⟨_, rfl⟩
  have hheap : m'.heap = m.heap := hm' ▸ rfl
  have hiterators : m'.iterators = m.iterators := hm' ▸ rfl
  have hs' : s < m'.heap.nextScope := hheap ▸ hs
  have hholds : m'.Holds (Value.Within (.without m.iterators.size)) := hm.congr hheap hiterators
  have hmark : Comes (code s ⟨position, codeOf (bare .args)⟩) m fun left q ↦ left = none ∧
      q = m'.withStack s (m.heap.stack s) := by
    refine .plain .args [] rfl rfl ?_
    rw [← hheap, withStack_stack, hm']
    exact .ok ⟨rfl, rfl⟩
  refine Comes.thenComes (P := fun q ↦
    q = m'.withStack s (.native .tableIterator :: .table t :: m.heap.stack s)) ?_ ?_
  · refine Comes.thenComes (P := fun q ↦ q = m'.withStack s (.table t :: m.heap.stack s)) ?_ ?_
    · refine hmark.thenComes ?_
      rintro _ rfl
      exact comes_loadLocal_withStack hs' (hheap ▸ hx) _ _
    · rintro _ rfl
      exact comes_member hs' (hheap ▸ hlibrary) hfunction _ _
  · rintro _ rfl
    have hstack : (m'.withStack s (.native .tableIterator :: .table t :: m.heap.stack s)).heap.stack
        s = .native .tableIterator :: .table t :: m.heap.stack s :=
      Heap.stack_setStack_self hs' _
    have hfunction : (Value.native .tableIterator).Within (.without m.iterators.size) :=
      .native fun _ hi ↦ nomatch hi
    have hvalues := List.forall_mem_cons.mpr
      ⟨hfunction, List.forall_mem_cons.mpr ⟨hm.lookup hx, hm.stack s⟩⟩
    have hlt : s < (m'.withStack s (.native .tableIterator :: .table t ::
        m.heap.stack s)).heap.nextScope := by
      simpa [Machine.withStack] using hs'
    have hmarks : m'.marks = (s, (m.heap.stack s).length) :: m.marks := hm' ▸ rfl
    have hcall := comes_tableIterator hlt hstack hmarks (congrArg Array.size hiterators)
      (hholds.setStack s hvalues)
    refine (hcall _).mono fun _ _ h ↦ ⟨h.1, h.2.of_lookup fun x ↦ ?_⟩
    exact (Heap.lookup_setStack ..).trans (hheap ▸ rfl)

end

end GemLang
