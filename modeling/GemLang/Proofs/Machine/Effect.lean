import GemLang.Machine.Run
import GemLang.Proofs.Machine.Heap

/-!
# The effect on the stack

An operation in a scope that gives a result has taken some values off the top of the stack of that
scope, and has put some there. How many it takes is fixed by the operation, as if there were always
enough: where there are not, it stops. How many it puts there may depend on what it finds: reading
a member leaves one value or two.
-/

namespace GemLang

open Bytecode (Opcode)

/-- The machine `m'` has other values on top of the stack of `s` than the machine `m`: `ins` are
gone, and the number of those that are new satisfies `R`. -/
structure Machine.Traded (s ins : Nat) (R : Nat → Prop) (m m' : Machine) : Prop where
  scope : s < m'.heap.nextScope
  stack : ∃ taken put rest, m.heap.stack s = taken ++ rest ∧ taken.length = ins ∧
    m'.heap.stack s = put ++ rest ∧ R put.length

/-- What is put on the stack may be taken again. -/
theorem Machine.Traded.trans {s ins j : Nat} {R R' R'' : Nat → Prop} {m m₁ m' : Machine}
    (h : m.Traded s ins R m₁) (h' : m₁.Traded s j R' m')
    (hR : ∀ put put', R put → R' put' → j ≤ put ∧ R'' (put' + (put - j))) :
    m.Traded s ins R'' m' := by
  obtain ⟨-, taken, put, rest, hstack, hlength, hstack₁, hput⟩ := h
  obtain ⟨hscope, taken', put', rest', hstack₁', hlength', hstack', hput'⟩ := h'
  obtain ⟨hle, hnew⟩ := hR _ _ hput hput'
  have hrest : rest' = put.drop j ++ rest := by
    have hdrop := congrArg (List.drop j) (hstack₁'.symm.trans hstack₁)
    rwa [List.drop_append_of_le_length hle, ← hlength', List.drop_left, hlength'] at hdrop
  refine ⟨hscope, taken, put' ++ put.drop j, rest, hstack, hlength, ?_, ?_⟩
  · rw [hstack', hrest, List.append_assoc]
  · rwa [List.length_append, List.length_drop]

/-- An operation, if it gives a result, takes `ins` values off the stack of `s` and puts a number of
values there that satisfies `R`. -/
structure Exec.Trades (s ins : Nat) (R : Nat → Prop) {α : Type} (x : Exec α) : Prop where
  of_ok {m m' : Machine} {a : α} : s < m.heap.nextScope → x m = .ok a m' → m.Traded s ins R m'

namespace Exec

variable {α β : Type} {s t : Nat}

theorem bind_eq_ok {x : Exec α} {f : α → Exec β} {m m' : Machine} {b : β} :
    (x >>= f) m = .ok b m' ↔ ∃ a m₁, x m = .ok a m₁ ∧ f a m₁ = .ok b m' := by
  change EStateM.bind x f m = _ ↔ _
  unfold EStateM.bind
  cases x m with
  | ok a m₁ =>
    constructor
    · exact fun h ↦ ⟨a, m₁, rfl, h⟩
    · rintro ⟨_, _, h, hf⟩
      cases h
      exact hf
  | error e m₁ => simp

namespace Trades

variable {ins : Nat} {R : Nat → Prop}

theorem mono {R' : Nat → Prop} {x : Exec α} (hx : Trades s ins R x) (h : ∀ n, R n → R' n) :
    Trades s ins R' x := by
  refine ⟨fun hs hok ↦ ?_⟩
  obtain ⟨hscope, taken, put, rest, hstack, hlength, hstack', hR⟩ := hx.of_ok hs hok
  exact ⟨hscope, taken, put, rest, hstack, hlength, hstack', h _ hR⟩

theorem bind {i j : Nat} {x : Exec α} {f : α → Exec β} (hx : Trades s i (· = 0) x)
    (hf : ∀ a, Trades s j R (f a)) : Trades s (i + j) R (x >>= f) := by
  refine ⟨fun {m m'} _ hs hok ↦ ?_⟩
  obtain ⟨a, m₁, hxm, hfm⟩ := bind_eq_ok.mp hok
  obtain ⟨hscope, taken, put, rest, hstack, hlength, hstack₁, hput⟩ := hx.of_ok hs hxm
  obtain ⟨hscope', taken', put', rest', hstack₁', hlength', hstack', hR⟩ := (hf a).of_ok hscope hfm
  obtain rfl := List.eq_nil_of_length_eq_zero hput
  refine ⟨hscope', taken ++ taken', put', rest', ?_, ?_, hstack', hR⟩
  · rw [hstack, List.append_assoc, ← hstack₁', hstack₁, List.nil_append]
  · rw [List.length_append, hlength, hlength']

theorem bind_still {x : Exec α} {f : α → Exec β} (hx : Trades s 0 (· = 0) x)
    (hf : ∀ a, Trades s ins R (f a)) : Trades s ins R (x >>= f) := by
  have h := hx.bind hf
  rwa [Nat.zero_add] at h

theorem bind_put {i j : Nat} {x : Exec α} {f : α → Exec β} (hx : Trades s 0 (· = i) x)
    (hf : ∀ a, Trades s 0 (· = j) (f a)) : Trades s 0 (· = i + j) (x >>= f) := by
  refine ⟨fun {m m'} _ hs hok ↦ ?_⟩
  obtain ⟨a, m₁, hxm, hfm⟩ := bind_eq_ok.mp hok
  have hfirst := hx.of_ok hs hxm
  exact hfirst.trans ((hf a).of_ok hfirst.scope hfm) (by omega)

theorem of_stack_eq {x : Exec α} (h : ∀ {m m' : Machine} {a : α}, s < m.heap.nextScope →
    x m = .ok a m' → m'.heap.stack s = m.heap.stack s ∧ s < m'.heap.nextScope) :
    Trades s 0 (· = 0) x := by
  refine ⟨fun {m m'} _ hs hok ↦ ?_⟩
  obtain ⟨hstack, hscope⟩ := h hs hok
  exact ⟨hscope, [], [], m.heap.stack s, rfl, rfl, hstack, rfl⟩

theorem pure (a : α) : Trades s 0 (· = 0) (pure a) := by
  refine of_stack_eq fun hs hok ↦ ?_
  cases hok
  exact ⟨rfl, hs⟩

theorem fail (e : Error) : Trades s ins R (fail e : Exec α) := ⟨fun _ hok ↦ by cases hok⟩

theorem check (r : Except Error α) : Trades s 0 (· = 0) (check r) := by
  cases r with
  | ok a => exact .pure a
  | error e => exact .fail e

theorem checkType (r : Except TypeFault α) : Trades s 0 (· = 0) (checkType r) := by
  cases r with
  | ok a => exact .pure a
  | error e => exact .fail _

end Trades

/-! ## The operations of the machine -/

theorem trades_get : Trades s 0 (· = 0) (get : Exec Machine) := by
  refine .of_stack_eq fun hs hok ↦ ?_
  cases hok
  exact ⟨rfl, hs⟩

theorem trades_newScope (s parent : Nat) : Trades s 0 (· = 0) (newScope parent) := by
  refine .of_stack_eq fun hs hok ↦ ?_
  cases hok
  exact ⟨Heap.stack_addChild_of_lt parent hs, by simpa using Nat.lt_succ_of_lt hs⟩

theorem trades_depth (s t : Nat) : Trades s 0 (· = 0) (depth t) := by
  refine .of_stack_eq fun hs hok ↦ ?_
  cases hok
  exact ⟨rfl, hs⟩

theorem push_eq_ok {v : Value} {m m' : Machine} {u : Unit} (h : push s v m = .ok u m') :
    m.heap.depth s < m.config.maxStack ∧ m' = { m with heap := m.heap.push s v } := by
  unfold push at h
  split at h
  · next hroom =>
    cases h
    exact ⟨hroom, rfl⟩
  · cases h

theorem trades_push (s : Nat) (v : Value) : Trades s 0 (· = 1) (push s v) := by
  refine ⟨fun {m m'} _ hs hok ↦ ?_⟩
  obtain ⟨-, rfl⟩ := push_eq_ok hok
  exact ⟨by simpa using hs, [], [v], m.heap.stack s, rfl, rfl, Heap.stack_push_self hs v, rfl⟩

theorem pop_eq_ok {m m' : Machine} {v : Value} (hs : s < m.heap.nextScope)
    (h : pop s m = .ok v m') :
    m.heap.stack s = v :: m'.heap.stack s ∧ m'.heap.nextScope = m.heap.nextScope := by
  unfold pop at h
  split at h
  · next w rest heq =>
    cases h
    refine ⟨?_, by simp⟩
    rw [heq]
    exact congrArg _ (Heap.stack_setStack_self hs rest).symm
  · cases h

theorem trades_pop (s : Nat) : Trades s 1 (· = 0) (pop s) := by
  refine ⟨fun {m m'} v hs hok ↦ ?_⟩
  obtain ⟨hstack, hnext⟩ := pop_eq_ok hs hok
  exact ⟨hnext ▸ hs, [v], [], m'.heap.stack s, hstack, rfl, rfl, rfl⟩

theorem trades_popNumber (s : Nat) : Trades s 1 (· = 0) (popNumber s) := by
  refine (trades_pop s).bind (j := 0) fun v ↦ ?_
  split
  · exact .pure _
  · exact .fail _

theorem trades_popTable (s : Nat) : Trades s 1 (· = 0) (popTable s) := by
  refine (trades_pop s).bind (j := 0) fun v ↦ ?_
  split
  · exact .pure _
  · exact .fail _

theorem trades_popKey (s : Nat) : Trades s 1 (· = 0) (popKey s) :=
  (trades_pop s).bind fun v ↦ .checkType v.toKey

theorem trades_takeTop (s count : Nat) : Trades s count (· = 0) (takeTop s count) := by
  refine ⟨fun {m m'} _ hs hok ↦ ?_⟩
  unfold takeTop at hok
  dsimp only at hok
  split at hok
  · cases hok
  · next hlength =>
    cases hok
    refine ⟨by simpa using hs, (m.heap.stack s).take count, [], (m.heap.stack s).drop count,
      (List.take_append_drop ..).symm, ?_, ?_, rfl⟩
    · simp only [List.length_take]
      omega
    · exact Heap.stack_setStack_self hs _

theorem trades_declare (s t : Nat) (name : String) (v : Value) :
    Trades s 0 (· = 0) (declare t name v) := by
  refine .of_stack_eq fun hs hok ↦ ?_
  cases hok
  exact ⟨by simp, by simpa using hs⟩

theorem trades_lookup (s t : Nat) (name : String) : Trades s 0 (· = 0) (lookup t name) := by
  refine .of_stack_eq fun hs hok ↦ ?_
  unfold lookup at hok
  split at hok
  · cases hok
    exact ⟨rfl, hs⟩
  · cases hok

theorem trades_assign (s t : Nat) (name : String) (v : Value) :
    Trades s 0 (· = 0) (assign t name v) := by
  refine .of_stack_eq fun hs hok ↦ ?_
  unfold assign at hok
  split at hok
  · cases hok
    exact ⟨by simp, by simpa using hs⟩
  · cases hok
    exact ⟨rfl, hs⟩

theorem trades_remove (s t : Nat) (name : String) : Trades s 0 (· = 0) (remove t name) := by
  refine .of_stack_eq fun hs hok ↦ ?_
  unfold remove at hok
  split at hok
  · cases hok
    exact ⟨by simp, by simpa using hs⟩
  · cases hok

theorem trades_freshIdentity (s : Nat) : Trades s 0 (· = 0) freshIdentity := by
  refine .of_stack_eq fun hs hok ↦ ?_
  cases hok
  exact ⟨rfl, hs⟩

theorem trades_popMany (s count : Nat) : Trades s count (· = 0) (popMany s count) := by
  induction count with
  | zero => exact .pure []
  | succ count ih =>
    have h := (trades_pop s).bind fun v ↦ ih.bind (j := 0) fun vs ↦ .pure (v :: vs)
    rwa [Nat.add_zero, Nat.add_comm] at h

theorem trades_popKeys (s count : Nat) : Trades s count (· = 0) (popKeys s count) := by
  induction count with
  | zero => exact .pure []
  | succ count ih =>
    have h := (trades_popKey s).bind fun key ↦ ih.bind (j := 0) fun keys ↦ .pure (key :: keys)
    rwa [Nat.add_zero, Nat.add_comm] at h

/-! ## Plain instructions -/

theorem trades_combine (s : Nat) (f : Value → Value → Except Error Value) :
    Trades s 2 (· = 1) (combine s f) := by
  refine (trades_pop s).bind (j := 1) fun b ↦ (trades_pop s).bind (j := 0) fun a ↦ ?_
  exact (Trades.check (f a b)).bind_still fun v ↦ trades_push s v

/-- A member that is read is one value, or a method on top of the value that it was found for. -/
theorem trades_loadKey (s : Nat) : Trades s 2 (fun n ↦ n = 1 ∨ n = 2) (loadKey s) := by
  have hpush (v : Value) : Trades s 0 (fun n ↦ n = 1 ∨ n = 2) (push s v) :=
    (trades_push s v).mono fun _ ↦ .inl
  have hmethod (object : Value) (methods : String) (key : Key) :
      Trades s 0 (fun n ↦ n = 1 ∨ n = 2) (loadMethod s object methods key) := by
    refine trades_get.bind_still fun m ↦ ?_
    dsimp only
    split
    · next method _ =>
      refine Trades.mono ?_ fun _ ↦ .inr
      exact (trades_push s object).bind_put fun _ ↦ trades_push s method
    · exact hpush .null
  have hinherited (object : Value) (key : Key) :
      Trades s 0 (fun n ↦ n = 1 ∨ n = 2) (loadInherited s object key) := by
    unfold loadInherited
    split
    · exact hpush _
    · split
      · exact hmethod object _ key
      · exact .fail _
  refine (trades_pop s).bind (j := 1) fun keyValue ↦ (trades_pop s).bind (j := 0) fun object ↦ ?_
  refine (Trades.checkType _).bind_still fun key ↦ ?_
  split
  · exact .fail _
  · split
    · split
      · exact hpush _
      · exact hinherited _ key
    · exact hinherited _ key

theorem trades_storePath {count : String} {n : Nat} (hcount : keyCount? count = some n) (s : Nat) :
    Trades s (1 + (n + 1)) (· = 1) (storePath s count) := by
  unfold storePath
  rw [hcount]
  refine (trades_popTable s).bind fun u ↦ (trades_popKeys s n).bind fun keys ↦ ?_
  refine (trades_pop s).bind (j := 0) fun v ↦ ?_
  exact (Trades.check _).bind_still fun w ↦ trades_push s (.table w)

end Exec

/-- How many values a plain instruction takes off the stack and puts there, where its opcode alone
says so. -/
def Bytecode.Opcode.effect? : Opcode → Option (Nat × Nat)
  | .push | .loadLocal | .newTable => some (0, 1)
  | .delete | .args => some (0, 0)
  | .declareLocal | .storeLocal | .pop => some (1, 0)
  | .not => some (1, 1)
  | .add | .sub | .mul | .div | .pow | .mod | .eq | .notEq | .greater | .less | .greaterEq
  | .lessEq | .and | .or => some (2, 1)
  | .storeKey => some (3, 1)
  | _ => none

namespace Exec

theorem trades_comparison (s : Nat) (op : Opcode) : Trades s 2 (· = 1) (do
    let b ← popNumber s
    let a ← popNumber s
    push s (.bool (compareNumbers op a b))) :=
  (trades_popNumber s).bind (j := 1) fun b ↦ (trades_popNumber s).bind (j := 0) fun a ↦
    trades_push s (.bool (compareNumbers op a b))

/-- **A plain instruction has the effect of its opcode.** -/
theorem trades_perform {op : Opcode} {i o : Nat} (h : op.effect? = some (i, o)) (s : Nat)
    (operands : List String) : Trades s i (· = o) (perform s op operands) := by
  unfold perform
  split <;> try cases h
  · next text => exact (Trades.check _).bind_still fun v ↦ trades_push s v
  · next name => exact (trades_pop s).bind (j := 0) fun v ↦ trades_declare s s name v
  · next name =>
    refine (trades_pop s).bind (j := 0) fun v ↦ ?_
    refine (trades_assign s s name v).bind_still fun assigned ↦ ?_
    split
    · refine trades_get.bind_still fun m ↦ ?_
      split
      · exact .fail _
      · exact trades_declare s s name v
    · exact .pure _
  · next name => exact (trades_lookup s s name).bind_still fun v ↦ trades_push s v
  · next name => exact trades_remove s s name
  · exact trades_combine s _
  · exact trades_combine s _
  · exact trades_combine s _
  · exact trades_combine s _
  · exact trades_combine s _
  · exact trades_combine s _
  · exact trades_combine s _
  · exact trades_combine s _
  · exact trades_comparison s .greater
  · exact trades_comparison s .less
  · exact trades_comparison s .greaterEq
  · exact trades_comparison s .lessEq
  · exact trades_combine s _
  · exact trades_combine s _
  · exact (trades_pop s).bind (j := 0) fun v ↦ trades_push s _
  · refine .of_stack_eq fun hs hok ↦ ?_
    cases hok
    exact ⟨rfl, hs⟩
  · exact trades_push s _
  · refine (trades_popKey s).bind (j := 2) fun key ↦ (trades_pop s).bind (j := 1) fun v ↦ ?_
    exact (trades_popTable s).bind (j := 0) fun u ↦ trades_push s _
  · exact (trades_pop s).bind (j := 0) fun _ ↦ .pure _
  · exact .fail _

theorem trades_popTypes (s count : Nat) : Trades s count (· = 0) (popTypes s count) := by
  induction count with
  | zero => exact .pure []
  | succ count ih =>
    have h := (trades_pop s).bind fun v ↦ (Trades.check (typeOfWord v)).bind_still fun type ↦
      ih.bind (j := 0) fun types ↦ .pure (type :: types)
    rwa [Nat.add_zero, Nat.add_comm] at h

theorem trades_defineForeign (s : Nat) (name path : String) (argTypes : List Foreign.CType)
    (returnType : Foreign.CType) :
    Trades s 0 (· = 0) (defineForeign name path argTypes returnType) := by
  have hload : Trades s 0 (· = 0) (loadLibrary path) := by
    refine trades_get.bind_still fun m ↦ ?_
    split
    · exact .pure _
    · split
      · exact .fail _
      · refine Trades.bind_still (.of_stack_eq fun hs hok ↦ ?_) fun _ ↦ .pure _
        cases hok
        exact ⟨rfl, hs⟩
  unfold defineForeign
  split
  · exact .fail _
  · refine hload.bind_still fun loaded ↦ ?_
    dsimp only
    split
    · exact .fail _
    · exact (trades_freshIdentity s).bind_still fun identity ↦ .pure _

/-- The definition of a C function takes its signature off the stack: a count on top, the type of
the result, and as many types of arguments as the count says. -/
theorem stack_define {m m' : Machine} {s : Nat} (hs : s < m.heap.nextScope) {count : Float}
    {returnType : Value} {argTypes rest : List Value}
    (hstack : m.heap.stack s = .number count :: returnType :: (argTypes ++ rest))
    (hcount : (Number.clampToInt 0 (UInt64.size - 1 : Nat) count).toNat = argTypes.length)
    {name operand : String} (h : define s name operand m = .ok () m') :
    m'.heap.stack s = rest := by
  obtain ⟨x, m₁, hpop, h⟩ := bind_eq_ok.mp h
  obtain ⟨v, m₂, hpop, hnumber⟩ := bind_eq_ok.mp hpop
  obtain ⟨htop, hnext⟩ := pop_eq_ok hs hpop
  rw [hstack] at htop
  obtain ⟨rfl, hrest⟩ := List.cons.inj htop
  cases hnumber
  have htrades : Trades s (1 + argTypes.length) (· = 0) (do
      let returnType ← check (typeOfWord (← pop s))
      let argTypes ← popTypes s (Number.clampToInt 0 (UInt64.size - 1 : Nat) count).toNat
      let f ← defineForeign name (libraryPath operand) argTypes returnType
      declare s name (.foreign f)) := by
    rw [hcount]
    refine (trades_pop s).bind fun v ↦ (Trades.check _).bind_still fun returnType ↦ ?_
    refine (trades_popTypes s argTypes.length).bind (j := 0) fun types ↦ ?_
    exact (trades_defineForeign s ..).bind_still fun f ↦ trades_declare s s name _
  obtain ⟨-, taken, put, rest', hstack₁, hlength, hstack', hput⟩ := htrades.of_ok (hnext ▸ hs) h
  obtain rfl := List.eq_nil_of_length_eq_zero hput
  rw [← hrest, ← List.cons_append] at hstack₁
  have hlength' : (returnType :: argTypes).length = taken.length := by
    rw [hlength, List.length_cons, Nat.add_comm]
  obtain ⟨-, hrest'⟩ := List.append_inj hstack₁ hlength'
  rw [hstack', hrest', List.nil_append]

end Exec

end GemLang
