import GemLang.Proofs.Compile.Emitted
import GemLang.Proofs.Machine.Heap
import GemLang.Proofs.Machine.Structured
import GemLang.Proofs.Number.ReadBack

/-!
# What expressions mean

An expression without calls, members and functions has a value that does not need a machine: it
depends on what the names in it mean, and on nothing else. `Direct.expr` computes it from the tree.
Operands come before operators, the left one first, and the value of an entry before its key; both
operands of `&&` and `||` are always computed; and `-x` is `0 - x`.

The code of an expression carries the same values over a stack. It goes through a text on its way,
so numbers and texts have to come out as they went in. `Computes` says what a piece of such code
does to the stack it works on, and goes through sequences as `Except` does; so the proof for a tree
is one line of reasoning for each of its parts (`computes_expr`).

A stack has a limit, which the tree knows nothing of. How much room an expression takes at most is
read off the tree as well (`Direct.height`), and nothing overflows below that.
-/

namespace GemLang

open Bytecode
open Behavior (code seq)
open Exec

/-! ## Trees -/

namespace Simple

variable (calls : Bool)

mutual

/-- Whether an expression has only finite numbers and no functions in it, and members and calls only
if they are allowed. -/
def expr : Expr → Bool
  | .number value => value.isFinite
  | .text _ | .bool _ | .name _ => true
  | .binary _ left right => expr left && expr right
  | .unary _ operand => expr operand
  | .call callee args => calls && expr callee && arguments args
  | .member object property _ => calls && expr object && expr property
  | .table es => entries es
  | .function _ _ _ => false

def arguments : List Expr → Bool
  | [] => true
  | e :: es => expr e && arguments es

def entries : List (Expr × Expr) → Bool
  | [] => true
  | (key, value) :: es => expr key && expr value && entries es

end

end Simple

namespace Direct

/-! ## Operators -/

/-- An operator on numbers, which takes nothing else. -/
def arithmetic (op : Opcode) (f : Float → Float → Except Error Float) :
    Value → Value → Except Error Value
  | .number x, .number y => (f x y).map .number
  | a, b => .error (.type (.combine op a.kind b.kind))

/-- A comparison of numbers. It finds fault with the right operand first. -/
def comparison (f : Float → Float → Bool) : Value → Value → Except Error Value
  | .number x, .number y => .ok (.bool (f x y))
  | a, .number _ => .error (.type (.expectedNumber a.kind))
  | _, b => .error (.type (.expectedNumber b.kind))

/-- The value of an operator with two operands. Texts can be added, which joins them. -/
def binary : BinaryOp → Value → Value → Except Error Value
  | .add, .text s, .text t => .ok (.quoted (Text.unquote s ++ Text.unquote t))
  | .add, a, b => arithmetic .add (fun x y ↦ .ok (x + y)) a b
  | .sub, a, b => arithmetic .sub (fun x y ↦ .ok (x - y)) a b
  | .mul, a, b => arithmetic .mul (fun x y ↦ .ok (x * y)) a b
  | .div, a, b =>
    arithmetic .div (fun x y ↦ if y == 0 then .error .divisionByZero else .ok (x / y)) a b
  | .mod, a, b =>
    arithmetic .mod
      (fun x y ↦ if y == 0 then .error .moduloByZero else .ok (Number.remainder x y)) a b
  | .pow, a, b => arithmetic .pow (fun x y ↦ .ok (x ^ y)) a b
  | .eq, a, b => .ok (.bool (a == b))
  | .notEq, a, b => .ok (.bool (!(a == b)))
  | .greater, a, b => comparison (fun x y ↦ x > y) a b
  | .less, a, b => comparison (fun x y ↦ x < y) a b
  | .greaterEq, a, b => comparison (fun x y ↦ x ≥ y) a b
  | .lessEq, a, b => comparison (fun x y ↦ x ≤ y) a b
  | .and, a, b => .ok (if a.isFalsy then a else b)
  | .or, a, b => .ok (if a.isFalsy then b else a)

def unary : UnaryOp → Value → Except Error Value
  | .negate, v => binary .sub (.number 0) v
  | .not, v => .ok (.bool v.isFalsy)

/-- A table with one more entry, under the key that a value stands for. -/
def store (t : Table) (key value : Value) : Except Error Table :=
  match key.toKey with
  | .ok k => .ok (Assoc.insert t k value)
  | .error fault => .error (.type fault)

/-! ## Expressions -/

def name (lookup : String → Option Value) (x : String) : Except Error Value :=
  match lookup x with
  | some v => .ok v
  | none => .error (.undefined x)

mutual

/-- The value of an expression, or the first fault in it, where `lookup` says what names mean. Only
a run can tell the value of a call, a member or a function; here they are all `null`. -/
def expr (lookup : String → Option Value) : Expr → Except Error Value
  | .number value => .ok (.number value)
  | .text value => .ok (.quoted value)
  | .bool value => .ok (.bool value)
  | .name x => name lookup x
  | .binary op left right => do
    let a ← expr lookup left
    let b ← expr lookup right
    binary op a b
  | .unary op operand => do
    let v ← expr lookup operand
    unary op v
  | .table es => do
    let t ← entries lookup [] es
    return .table t
  | .call _ _ | .member _ _ _ | .function _ _ _ => .ok .null

/-- The table `t` with the entries of a table literal added to it, in their order. -/
def entries (lookup : String → Option Value) (t : Table) : List (Expr × Expr) → Except Error Table
  | [] => .ok t
  | (key, value) :: es => do
    let v ← expr lookup value
    let k ← expr lookup key
    let u ← store t k v
    entries lookup u es

end

mutual

/-- How many values the code of an expression has on the stack at once. -/
def height : Expr → Nat
  | .binary _ left right => max (height left) (1 + height right)
  | .unary .negate operand => 1 + height operand
  | .unary .not operand => height operand
  | .table es => entriesHeight es
  | _ => 1

/-- How many values the code of a table literal has on the stack at once. The table is one of
them. -/
def entriesHeight : List (Expr × Expr) → Nat
  | [] => 1
  | (key, value) :: es => max (max (1 + height value) (2 + height key)) (entriesHeight es)

end

mutual

theorem height_pos (e : Expr) : 0 < height e := by
  match e with
  | .binary _ left right =>
    rw [height]
    omega
  | .unary .negate operand =>
    rw [height]
    omega
  | .unary .not operand => exact height_pos operand
  | .table es => exact entriesHeight_pos es
  | .number _ | .text _ | .bool _ | .name _ => exact Nat.one_pos
  | .call _ _ | .member _ _ _ | .function _ _ _ => exact Nat.one_pos

theorem entriesHeight_pos (es : List (Expr × Expr)) : 0 < entriesHeight es := by
  match es with
  | [] => exact Nat.one_pos
  | (key, value) :: es =>
    rw [entriesHeight]
    omega

end

end Direct

/-! ## Machines with another stack -/

/-- The machine with other values on the stack of a scope. -/
def Machine.withStack (m : Machine) (s : ScopeId) (values : List Value) : Machine :=
  { m with heap := m.heap.setStack s values }

section

variable {m : Machine} {s : ScopeId}

theorem withStack_stack (m : Machine) (s : ScopeId) : m.withStack s (m.heap.stack s) = m := by
  rw [Machine.withStack, Heap.setStack_stack]

theorem lookup_withStack (m : Machine) (s : ScopeId) (vs : List Value) (x : String) :
    (m.withStack s vs).heap.lookup s x = m.heap.lookup s x :=
  Heap.lookup_setStack ..

theorem push_withStack (hs : s < m.heap.nextScope) (v : Value) (vs : List Value) :
    push s v (m.withStack s vs) =
      if vs.length < m.config.maxStack then .ok () (m.withStack s (v :: vs))
      else .error (.error .stackOverflow) (m.withStack s vs) := by
  simp only [push, Machine.withStack, Heap.depth, Heap.stack_setStack_self hs,
    Heap.push_eq_setStack, Heap.setStack_setStack]

theorem pop_withStack (hs : s < m.heap.nextScope) (v : Value) (vs : List Value) :
    pop s (m.withStack s (v :: vs)) = .ok v (m.withStack s vs) := by
  simp only [pop, Machine.withStack, Heap.stack_setStack_self hs, Heap.setStack_setStack]

theorem loadKey_eq_push (hs : s < m.heap.nextScope) {keyValue v : Value} {key : Key} {t : Table}
    (hkey : keyValue.toKey = .ok key) (hget : Assoc.get? t key = some v) (vs : List Value) :
    loadKey s (m.withStack s (keyValue :: .table t :: vs)) = push s v (m.withStack s vs) := by
  rw [loadKey, bind_apply, pop_withStack hs]
  change (pop s >>= _) (m.withStack s (.table t :: vs)) = _
  rw [bind_apply, pop_withStack hs, hkey]
  simp only [checkType, pure_bind, Value.isNull, Bool.false_eq_true, ↓reduceIte, hget]

end

/-! ## Instructions -/

/-- How an instruction ends that computes `x` with `vs` below it on the stack of `s`: it pushes the
value, or stops with the error after some values have been popped. -/
def Leaves (s : ScopeId) (m : Machine) (vs : List Value) (x : Except Error Value)
    (r : Exec.Result Unit) : Prop :=
  match x with
  | .ok v => r = push s v (m.withStack s vs)
  | .error e => ∃ us, r = .error (.error e) (m.withStack s us)

def BinaryOp.isArithmetic : BinaryOp → Bool
  | .add | .sub | .mul | .div | .pow | .mod => true
  | _ => false

/-- The machine does arithmetic as it is said above. -/
theorem binary_eq_arithmetic {op : BinaryOp} (h : op.isArithmetic = true) (a b : Value) :
    Direct.binary op a b = arithmetic op.opcode a b := by
  cases op with
  | add | sub | mul | pow => cases a <;> cases b <;> rfl
  | div | mod =>
    cases a with
    | number x =>
      cases b with
      | number y =>
        simp only [Direct.binary, Direct.arithmetic, arithmetic, computeNumbers, BinaryOp.opcode]
        split <;> rfl
      | _ => rfl
    | _ => cases b <;> rfl
  | _ => cases h

section

variable {m : Machine} {s : ScopeId} (hs : s < m.heap.nextScope) (vs : List Value)
include hs

/-- An operator takes both of its operands before it looks at them. -/
theorem leaves_combine (f : Value → Value → Except Error Value) (a b : Value) :
    Leaves s m vs (f a b) (combine s f (m.withStack s (b :: a :: vs))) := by
  have hcombine : combine s f (m.withStack s (b :: a :: vs)) =
      (check (f a b) >>= push s) (m.withStack s vs) := by
    rw [combine, bind_apply, pop_withStack hs]
    change (pop s >>= fun a ↦ check (f a b) >>= push s) _ = _
    rw [bind_apply, pop_withStack hs]
  rw [hcombine, bind_apply]
  cases f a b with
  | ok v => rfl
  | error e => exact ⟨vs, rfl⟩

theorem popNumber_withStack (x : Float) :
    popNumber s (m.withStack s (.number x :: vs)) = .ok x (m.withStack s vs) := by
  rw [popNumber, bind_apply, pop_withStack hs]
  rfl

theorem popNumber_withStack_of_ne {v : Value} (h : ∀ x, v ≠ .number x) :
    popNumber s (m.withStack s (v :: vs)) =
      .error (.error (.type (.expectedNumber v.kind))) (m.withStack s vs) := by
  rw [popNumber, bind_apply, pop_withStack hs]
  cases v with
  | number x => exact absurd rfl (h x)
  | _ => rfl

theorem leaves_comparison (op : Opcode) (a b : Value) :
    Leaves s m vs (Direct.comparison (compareNumbers op) a b)
      ((do
        let b ← popNumber s
        let a ← popNumber s
        push s (.bool (compareNumbers op a b))) (m.withStack s (b :: a :: vs))) := by
  -- the right operand is on top, so it is the first one to be found at fault
  rw [bind_apply]
  by_cases hb : ∃ y, b = .number y
  · obtain ⟨y, rfl⟩ := hb
    rw [popNumber_withStack hs]
    change Leaves _ _ _ _ ((popNumber s >>= _) _)
    rw [bind_apply]
    by_cases ha : ∃ x, a = .number x
    · obtain ⟨x, rfl⟩ := ha
      rw [popNumber_withStack hs]
      rfl
    · rw [popNumber_withStack_of_ne hs vs fun x hx ↦ ha ⟨x, hx⟩]
      cases a with
      | number x => exact absurd ⟨x, rfl⟩ ha
      | _ => exact ⟨vs, rfl⟩
  · rw [popNumber_withStack_of_ne hs _ fun y hy ↦ hb ⟨y, hy⟩]
    cases b with
    | number y => exact absurd ⟨y, rfl⟩ hb
    | _ => cases a <;> exact ⟨_, rfl⟩

theorem leaves_binary (op : BinaryOp) (a b : Value) :
    Leaves s m vs (Direct.binary op a b)
      (perform s op.opcode [] (m.withStack s (b :: a :: vs))) := by
  have hcombine (f : Value → Value → Except Error Value) := leaves_combine hs vs f a b
  have hcompare (op : Opcode) := leaves_comparison hs vs op a b
  cases op with
  | add | sub | mul | div | pow | mod =>
    rw [binary_eq_arithmetic rfl]
    exact hcombine _
  | eq | notEq | and | or => exact hcombine _
  | greater => exact hcompare .greater
  | less => exact hcompare .less
  | greaterEq => exact hcompare .greaterEq
  | lessEq => exact hcompare .lessEq

theorem leaves_not (v : Value) :
    Leaves s m vs (.ok (.bool v.isFalsy)) (perform s .not [] (m.withStack s (v :: vs))) := by
  rw [perform, bind_apply, pop_withStack hs]
  rfl

omit hs in
theorem perform_push {text : String} {v : Value} (h : literal text = .ok v) :
    perform s .push [text] m = push s v m := by
  rw [perform, bind_apply, h]
  rfl

omit hs in
theorem leaves_push (text : String) :
    Leaves s m vs (literal text) (perform s .push [text] (m.withStack s vs)) := by
  rw [perform, bind_apply]
  cases literal text with
  | ok v => rfl
  | error e => exact ⟨vs, rfl⟩

omit hs in
theorem leaves_loadLocal (x : String) :
    Leaves s m vs (Direct.name (m.heap.lookup s) x)
      (perform s .loadLocal [x] (m.withStack s vs)) := by
  rw [perform, bind_apply, lookup, lookup_withStack, Direct.name]
  cases m.heap.lookup s x with
  | some v => rfl
  | none => exact ⟨vs, rfl⟩

omit hs in
theorem leaves_newTable :
    Leaves s m vs (.ok (.table [])) (perform s .newTable [] (m.withStack s vs)) := rfl

theorem leaves_storeKey (t : Table) (key value : Value) :
    Leaves s m vs (.table <$> Direct.store t key value)
      (perform s .storeKey [] (m.withStack s (key :: value :: .table t :: vs))) := by
  have hpop : popKey s (m.withStack s (key :: value :: .table t :: vs)) =
      checkType key.toKey (m.withStack s (value :: .table t :: vs)) := by
    rw [popKey, bind_apply, pop_withStack hs]
  rw [perform, bind_apply, hpop, Direct.store]
  cases key.toKey with
  | error fault => exact ⟨_, rfl⟩
  | ok k =>
    change Leaves _ _ _ _ ((pop s >>= _) (m.withStack s (value :: .table t :: vs)))
    rw [bind_apply, pop_withStack hs]
    change Leaves _ _ _ _ ((popTable s >>= _) (m.withStack s (.table t :: vs)))
    rw [bind_apply, popTable, bind_apply, pop_withStack hs]
    rfl

end

/-! ## Code -/

/-- What code does to the stack `vs` of `s`, and to nothing else: it ends with other values there,
or stops with an error, as expected; or it overflows the stack, if less than `peak` fits on it. -/
inductive Computes (A : Behavior) (s : ScopeId) (m : Machine) (vs : List Value) (peak : Nat) :
    Except Error (List Value) → Prop where
  | passed {ws : List Value} (hroom : ws.length ≤ m.config.maxStack)
      (h : A (m.withStack s vs) (.ok none (m.withStack s ws))) : Computes A s m vs peak (.ok ws)
  | stopped {e : Error} {us : List Value}
      (h : A (m.withStack s vs) (.error (.error e) (m.withStack s us))) :
      Computes A s m vs peak (.error e)
  | overflow {r : Except Error (List Value)} {us : List Value} (hpeak : m.config.maxStack < peak)
      (h : A (m.withStack s vs) (.error (.error .stackOverflow) (m.withStack s us))) :
      Computes A s m vs peak r

section

variable {m : Machine} {s : ScopeId} {vs : List Value} {peak : Nat}

/-- The second behavior goes on from the stack that the first one came to. -/
theorem Computes.seq {α : Type} {A B : Behavior} {x : Except Error α} {g : α → List Value}
    {f : α → Except Error (List Value)} (hA : Computes A s m vs peak (g <$> x))
    (hB : ∀ a, (g a).length ≤ m.config.maxStack → Computes B s m (g a) peak (f a)) :
    Computes (A.seq B) s m vs peak (x >>= f) := by
  cases x with
  | error e =>
    replace hA : Computes A s m vs peak (.error e) := hA
    change Computes _ s m vs peak (.error e)
    cases hA with
    | stopped h => exact .stopped (.stopped h)
    | overflow hpeak h => exact .overflow hpeak (.stopped h)
  | ok a =>
    replace hA : Computes A s m vs peak (.ok (g a)) := hA
    change Computes _ s m vs peak (f a)
    cases hA with
    | overflow hpeak h => exact .overflow hpeak (.stopped h)
    | passed hroom h =>
      have h' := hB a hroom
      generalize f a = r at h'
      cases h' with
      | passed hroom h' => exact .passed hroom (.passed h h')
      | stopped h' => exact .stopped (.passed h h')
      | overflow hpeak h' => exact .overflow hpeak (.passed h h')

theorem Leaves.computes (hs : s < m.heap.nextScope) {us : List Value} {op : Opcode}
    {operands : List String} {x : Except Error Value}
    (h : Leaves s m us x (perform s op operands (m.withStack s vs))) (hpeak : us.length < peak)
    (hrole : op.role = .plain) (hcount : operands.length = op.operandCount) (position : Nat) :
    Computes (code s ⟨position, .op op :: operands.map .operand⟩) s m vs peak
      ((· :: us) <$> x) := by
  have hcode {r : Exec.Result (Option Signal)} (hsettled : Settled r)
      (hr : (perform s op operands >>= fun _ ↦ pure none) (m.withStack s vs) = r) :
      code s ⟨position, .op op :: operands.map .operand⟩ (m.withStack s vs) r := by
    rw [Behavior.code_plain operands hrole hcount]
    exact eventual_const.mpr ⟨hr, hsettled⟩
  cases x with
  | error e =>
    obtain ⟨ws, hws⟩ := h
    exact .stopped (hcode trivial (by rw [bind_apply, hws]))
  | ok v =>
    replace h : perform s op operands (m.withStack s vs) = push s v (m.withStack s us) := h
    rw [push_withStack hs] at h
    by_cases hroom : us.length < m.config.maxStack
    · rw [if_pos hroom] at h
      refine .passed hroom (hcode trivial ?_)
      rw [bind_apply, h]
      rfl
    · -- all that was computed is lost for want of room for one value
      rw [if_neg hroom] at h
      have hstop : (perform s op operands >>= fun _ ↦ pure (none : Option Signal))
          (m.withStack s vs) = .error (.error .stackOverflow) (m.withStack s us) := by
        rw [bind_apply, h]
      exact .overflow (by omega) (hcode trivial hstop)

end

/-! ## Lowering in parts -/

namespace Lower

variable (optimize : Bool)

theorem lines_binary {op : BinaryOp} {left right : Expr}
    (h : optimize = true → (Expr.binary op left right).constant? = none) (n : Nat) :
    (expr optimize (.binary op left right) n).1 = (expr optimize left n).1 ++
      ((expr optimize right (expr optimize left n).2).1 ++ bare op.opcode) := by
  rw [← List.append_assoc, expr, constantOr]
  cases optimize with
  | false => rfl
  | true =>
    rw [if_pos rfl, h rfl]
    rfl

theorem lines_negate {operand : Expr}
    (h : optimize = true → (Expr.unary .negate operand).constant? = none) (n : Nat) :
    (expr optimize (.unary .negate operand) n).1 =
      Bytecode.unary .push "0" ++ ((expr optimize operand n).1 ++ bare .sub) := by
  rw [← List.append_assoc, expr, constantOr]
  cases optimize with
  | false => rfl
  | true =>
    rw [if_pos rfl, h rfl]
    rfl

theorem lines_not (operand : Expr) (n : Nat) :
    (expr optimize (.unary .not operand) n).1 = (expr optimize operand n).1 ++ bare .not := by
  rw [expr, constantOr]
  cases optimize <;> rfl

theorem lines_entry (key value : Expr) (es : List (Expr × Expr)) (n : Nat) :
    ∃ k l, (entries optimize ((key, value) :: es) n).1 = (expr optimize value n).1 ++
      ((expr optimize key k).1 ++ (bare .storeKey ++ (entries optimize es l).1)) := by
  refine ⟨(expr optimize value n).2, (expr optimize key (expr optimize value n).2).2, ?_⟩
  rw [← List.append_assoc, ← List.append_assoc, entries]
  rfl

end Lower

namespace Structured

theorem nested_entries (optimize : Bool) (es : List (Expr × Expr)) (n : Nat) :
    NestedLines .whole (Lower.entries optimize es n).1 := by
  induction es generalizing n with
  | nil => exact .nil
  | cons entry es ih =>
    obtain ⟨k, l, hlines⟩ := Lower.lines_entry optimize entry.1 entry.2 es n
    rw [hlines]
    exact (nested_expr optimize entry.2 n).append
      ((nested_expr optimize entry.1 k).append ((nested_bare .storeKey).append (ih l)))

end Structured

/-! ## Expressions -/

theorem role_operator (op : BinaryOp) : op.opcode.role = .plain := by cases op <;> rfl

theorem operandCount_operator (op : BinaryOp) : 0 = op.opcode.operandCount := by cases op <;> rfl

theorem nested_operator (op : BinaryOp) : Structured.NestedLines .whole (bare op.opcode) :=
  Structured.nested_bare op.opcode (role_operator op) (operandCount_operator op)

section

variable {m : Machine} {s : ScopeId} (hs : s < m.heap.nextScope) {vs : List Value} {peak : Nat}
include hs

theorem computes_push (hpeak : vs.length < peak) (text : String) (position : Nat) :
    Computes (code s ⟨position, codeOf (Bytecode.unary .push text)⟩) s m vs peak
      ((· :: vs) <$> literal text) :=
  (leaves_push vs text).computes hs hpeak rfl rfl position

theorem computes_pushNumber (hpeak : vs.length < peak) {value : Float}
    (hvalue : value.isFinite = true) (position : Nat) :
    Computes (code s ⟨position, codeOf (Lower.pushNumber value)⟩) s m vs peak
      (.ok (.number value :: vs)) := by
  have h := computes_push hs hpeak (Number.text value) position
  rwa [literal_text hvalue] at h

theorem computes_binary (op : BinaryOp) {l r : List Line} {x y : Except Error Value}
    (hl : Structured.NestedLines .whole l) (hr : Structured.NestedLines .whole r)
    (hpeak : vs.length < peak)
    (hx : ∀ position, Computes (code s ⟨position, codeOf l⟩) s m vs peak ((· :: vs) <$> x))
    (hy : ∀ a position,
      Computes (code s ⟨position, codeOf r⟩) s m (a :: vs) peak ((· :: a :: vs) <$> y))
    (position : Nat) :
    Computes (code s ⟨position, codeOf (l ++ (r ++ bare op.opcode))⟩) s m vs peak
      ((· :: vs) <$> do
        let a ← x
        let b ← y
        Direct.binary op a b) := by
  have hop := nested_operator op
  rw [Structured.code_lines_append hl (hr.append hop), Structured.code_lines_append hr hop]
  simp only [map_bind]
  refine (hx _).seq fun a _ ↦ (hy a _).seq fun b _ ↦ ?_
  exact (leaves_binary hs vs op a b).computes hs hpeak (role_operator op)
    (operandCount_operator op) _

/-- A minus is a subtraction from zero. -/
theorem computes_negate {l : List Line} {x : Except Error Value}
    (hl : Structured.NestedLines .whole l) (hpeak : vs.length < peak)
    (hx : ∀ a position,
      Computes (code s ⟨position, codeOf l⟩) s m (a :: vs) peak ((· :: a :: vs) <$> x))
    (position : Nat) :
    Computes (code s ⟨position, codeOf (Bytecode.unary .push "0" ++ (l ++ bare .sub))⟩) s m vs peak
      ((· :: vs) <$> do
        let v ← x
        Direct.unary .negate v) := by
  have hzero : literal "0" = .ok (.number 0) := rfl
  have hpush (position : Nat) := computes_push hs hpeak "0" position
  rw [hzero] at hpush
  exact computes_binary hs .sub (Structured.nested_unary .push "0") hl hpeak hpush hx position

end

/-- The code of booleans finds them. -/
def Machine.KnowsBools (m : Machine) (s : ScopeId) : Prop :=
  ∀ value : Bool, m.heap.lookup s (if value then "true" else "false") = some (.bool value)

mutual

theorem computes_expr {m : Machine} {s : ScopeId} (hs : s < m.heap.nextScope)
    (hbool : m.KnowsBools s) (e : Expr) (he : Simple.expr false e = true) {vs : List Value}
    {peak : Nat} (hpeak : vs.length + Direct.height e ≤ peak) (n position : Nat) :
    Computes (code s ⟨position, codeOf (Lower.expr false e n).1⟩) s m vs peak
      ((· :: vs) <$> Direct.expr (m.heap.lookup s) e) := by
  match e with
  | .number value =>
    exact computes_pushNumber hs hpeak he position
  | .text value =>
    have h := computes_push hs hpeak (Text.quote value) position
    rwa [literal_quote] at h
  | .bool value =>
    have h := (leaves_loadLocal vs (if value then "true" else "false")).computes hs hpeak rfl rfl
      position
    rw [Direct.name, hbool value] at h
    exact h
  | .name x => exact (leaves_loadLocal vs x).computes hs hpeak rfl rfl position
  | .binary op left right =>
    simp only [Simple.expr, Bool.and_eq_true] at he
    rw [Direct.height] at hpeak
    rw [Lower.lines_binary false nofun, Direct.expr]
    refine computes_binary hs op (Structured.nested_expr false left n)
      (Structured.nested_expr false right _) (by omega) ?_ ?_ position
    · exact computes_expr hs hbool left he.1 (by omega) n
    · intro a
      exact computes_expr hs hbool right he.2 (by rw [List.length_cons]; omega) _
  | .unary .negate operand =>
    rw [Simple.expr] at he
    rw [Direct.height] at hpeak
    rw [Lower.lines_negate false nofun, Direct.expr]
    refine computes_negate hs (Structured.nested_expr false operand n) (by omega) ?_ position
    intro a
    exact computes_expr hs hbool operand he (by rw [List.length_cons]; omega) n
  | .unary .not operand =>
    rw [Simple.expr] at he
    rw [Direct.height] at hpeak
    have hx := Structured.nested_expr false operand n
    rw [Lower.lines_not, Direct.expr, map_bind,
      Structured.code_lines_append hx (Structured.nested_bare .not)]
    refine (computes_expr hs hbool operand he hpeak n position).seq fun v _ ↦ ?_
    have hpos := Direct.height_pos operand
    exact (leaves_not hs vs v).computes hs (by omega) rfl rfl _
  | .table es =>
    rw [Simple.expr] at he
    rw [Direct.height] at hpeak
    have hpos := Direct.entriesHeight_pos es
    have hvalue : (· :: vs) <$> Direct.expr (m.heap.lookup s) (.table es) =
        (.table · :: vs) <$> Direct.entries (m.heap.lookup s) [] es := by
      rw [Direct.expr]
      cases Direct.entries (m.heap.lookup s) [] es <;> rfl
    -- the entries are added to a table that is on the stack from the start
    have hlines : (Lower.expr false (.table es) n).1 =
        bare .newTable ++ (Lower.entries false es n).1 := rfl
    rw [hvalue, hlines, Structured.code_lines_append (Structured.nested_bare .newTable)
      (Structured.nested_entries false es n)]
    refine Computes.seq (x := .ok []) (g := (.table · :: vs))
      (f := fun t ↦ (.table · :: vs) <$> Direct.entries (m.heap.lookup s) t es) ?_ fun t hroom ↦ ?_
    · exact (leaves_newTable vs).computes hs (by omega) rfl rfl position
    · exact computes_entries hs hbool es he hroom hpeak n _
  | .call _ _ => cases he
  | .member _ _ _ => cases he
  | .function _ _ _ => cases he

theorem computes_entries {m : Machine} {s : ScopeId} (hs : s < m.heap.nextScope)
    (hbool : m.KnowsBools s) (es : List (Expr × Expr)) (he : Simple.entries false es = true)
    {t : Table} {vs : List Value} {peak : Nat} (hroom : vs.length + 1 ≤ m.config.maxStack)
    (hpeak : vs.length + Direct.entriesHeight es ≤ peak) (n position : Nat) :
    Computes (code s ⟨position, codeOf (Lower.entries false es n).1⟩) s m (.table t :: vs) peak
      ((.table · :: vs) <$> Direct.entries (m.heap.lookup s) t es) := by
  match es with
  | [] =>
    have hcode : code s ⟨position, codeOf (Lower.entries false [] n).1⟩ = Behavior.skip :=
      Behavior.code_nil s position
    rw [hcode]
    exact .passed hroom rfl
  | (key, value) :: es =>
    simp only [Simple.entries, Bool.and_eq_true] at he
    rw [Direct.entriesHeight] at hpeak
    obtain ⟨k, l, hlines⟩ := Lower.lines_entry false key value es n
    have hv := Structured.nested_expr false value n
    have hk := Structured.nested_expr false key k
    have hstore := Structured.nested_bare .storeKey
    have hes := Structured.nested_entries false es l
    rw [hlines, Structured.code_lines_append hv (hk.append (hstore.append hes)),
      Structured.code_lines_append hk (hstore.append hes),
      Structured.code_lines_append hstore hes, Direct.entries]
    simp only [map_bind]
    -- below the value lies the table, and below the key the value as well
    have hvalue : (Value.table t :: vs).length + Direct.height value ≤ peak := by
      rw [List.length_cons]
      omega
    have hkey (v : Value) : (v :: Value.table t :: vs).length + Direct.height key ≤ peak := by
      rw [List.length_cons, List.length_cons]
      omega
    refine (computes_expr hs hbool value he.1.2 hvalue n _).seq fun v _ ↦ ?_
    refine (computes_expr hs hbool key he.1.1 (hkey v) k _).seq fun w _ ↦ ?_
    refine Computes.seq (g := (.table · :: vs)) ?_ fun u hroom ↦ ?_
    · rw [← Functor.map_map Value.table (· :: vs)]
      exact (leaves_storeKey hs vs t w v).computes hs (by omega) rfl rfl _
    · exact computes_entries hs hbool es he.2 hroom (by omega) l _

end

theorem decode_expr (optimize : Bool) {e : Expr} (h : (Spelling.writable fun _ ↦ True).expr e)
    (n : Nat) : decode (textOf (Lower.expr optimize e n).1) =
      .ok (codeOf (Lower.expr optimize e n).1) := by
  have hnothing : decode "" = .ok [] := by cbv
  have hlegible : ∀ l ∈ (Lower.expr optimize e n).1, l.instruction.Legible := by
    intro l hl
    exact ((Lower.emits_expr optimize e h).run n _ (List.mem_map.mpr ⟨l, hl, rfl⟩)).legible
  simpa using decode_textOf_append hlegible hnothing

/-- **The code of an expression computes its value.** The text of the code is read as the code it
was written from, if the names in the tree are names. And wherever the code stands, a run of it
pushes the value of the tree and changes nothing else, or stops with the first fault of the tree, or
overflows a stack that has no room for what the tree holds at once. -/
theorem code_expr {e : Expr} (he : Simple.expr false e = true) (n : Nat) :
    ((Spelling.writable fun _ ↦ True).expr e →
      decode (textOf (Lower.expr false e n).1) = .ok (codeOf (Lower.expr false e n).1)) ∧
    ∀ (m : Machine) (s : ScopeId) (position : Nat), s < m.heap.nextScope →
      m.heap.lookup s "true" = some (.bool true) → m.heap.lookup s "false" = some (.bool false) →
      ∃ r, code s ⟨position, codeOf (Lower.expr false e n).1⟩ m r ∧
        ((∃ v, Direct.expr (m.heap.lookup s) e = .ok v ∧
            r = .ok none { m with heap := m.heap.push s v }) ∨
          (∃ error vs, Direct.expr (m.heap.lookup s) e = .error error ∧
            r = .error (.error error) { m with heap := m.heap.setStack s vs }) ∨
          ∃ vs, m.config.maxStack < m.heap.depth s + Direct.height e ∧
            r = .error (.error .stackOverflow) { m with heap := m.heap.setStack s vs }) := by
  refine ⟨fun hspelling ↦ decode_expr false hspelling n, ?_⟩
  intro m s position hs htrue hfalse
  have hbool : m.KnowsBools s := by
    intro value
    cases value with
    | true => exact htrue
    | false => exact hfalse
  have h := computes_expr hs hbool e he (Nat.le_refl (m.heap.depth s + Direct.height e)) n position
  cases hvalue : Direct.expr (m.heap.lookup s) e with
  | ok v =>
    rw [hvalue] at h
    replace h : Computes _ s m _ _ (.ok (v :: m.heap.stack s)) := h
    cases h with
    | passed _ h =>
      rw [withStack_stack] at h
      refine ⟨_, h, .inl ⟨v, rfl, ?_⟩⟩
      rw [Machine.withStack, Heap.push_eq_setStack]
    | overflow hpeak h =>
      rw [withStack_stack] at h
      exact ⟨_, h, .inr (.inr ⟨_, hpeak, rfl⟩)⟩
  | error error =>
    rw [hvalue] at h
    replace h : Computes _ s m _ _ (.error error) := h
    cases h with
    | stopped h =>
      rw [withStack_stack] at h
      exact ⟨_, h, .inr (.inl ⟨error, _, rfl, rfl⟩)⟩
    | overflow hpeak h =>
      rw [withStack_stack] at h
      exact ⟨_, h, .inr (.inr ⟨_, hpeak, rfl⟩)⟩

/-- `false || -x`, where nothing is called `x`, is at fault after `false` and `0` have been
pushed. -/
theorem code_expr_undefined :
    ∃ (e : Expr) (m : Machine) (vs : List Value),
      e = .binary .or (.bool false) (.unary .negate (.name "x")) ∧
      m = Machine.start (.standard true) .plain ∧ Simple.expr false e = true ∧
      m.heap.lookup Machine.root "true" = some (.bool true) ∧
      m.heap.lookup Machine.root "false" = some (.bool false) ∧
      code Machine.root ⟨0, codeOf (Lower.expr false e 0).1⟩ m
        (.error (.error (.undefined "x")) { m with heap := m.heap.setStack Machine.root vs }) := by
  let e : Expr := .binary .or (.bool false) (.unary .negate (.name "x"))
  let m := Machine.start (.standard true) .plain
  have he : Simple.expr false e = true := rfl
  have hroot : Machine.root < m.heap.nextScope := Nat.one_pos
  have htrue : m.heap.lookup Machine.root "true" = some (.bool true) := rfl
  have hfalse : m.heap.lookup Machine.root "false" = some (.bool false) := rfl
  have hvalue : Direct.expr (m.heap.lookup Machine.root) e = .error (.undefined "x") := rfl
  obtain ⟨-, h⟩ := code_expr he 0
  obtain ⟨r, hr, ⟨v, hv, -⟩ | ⟨error, vs, herror, rfl⟩ | ⟨vs, hpeak, -⟩⟩ :=
    h m Machine.root 0 hroot htrue hfalse
  · rw [hvalue] at hv
    cases hv
  · rw [hvalue] at herror
    cases herror
    exact ⟨e, m, vs, rfl, rfl, he, htrue, hfalse, hr⟩
  · exact absurd hpeak (by decide)

end GemLang
