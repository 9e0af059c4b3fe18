import GemLang.Proofs.Compile.Lowered
import GemLang.Proofs.Machine.Behavior

/-!
# What statements mean

A conditional is a chain of branches in code, and a `while` loop is a loop around a conditional that
breaks it; where each of them ends is found by counting. The meaning of a statement says what it
does with none of this: `Structured.stmt` takes a tree and puts a behavior together from those of
its parts, one combinator for each construct.

```text
if c { a } elif d { b }   in one new scope: test c, then a, or else test d, then b
while c { b }             in a new scope, loop: in a new scope, test c, then b, or else break
break, continue           leave by a signal
return e                  e, then leave by a signal with its value
```

Expressions and simple statements keep the behavior of their code. So do functions: making one does
not run it, and what its calls do is the meaning of its body (`Behavior.calling`).

Meaning and code agree everywhere (`Structured.stmts_eq`). Positions and hidden names are kept track
of on both sides, since a function carries the position of its code and a loop over an iterator the
number of its name.
-/

namespace GemLang

open Bytecode
open Behavior (code skip leave giveBack seq inside test loop make calling otherwise)

/-- Where the next code goes: the number of the last hidden name, and a position. -/
@[ext] structure Layout where
  hidden : Nat
  position : Nat

namespace Structured

/-! ## Laying code out -/

/-- Goes past atoms of code. -/
def advance (count : Nat) : StateM Layout Unit :=
  modify fun l ↦ { l with position := l.position + count }

/-- Takes hidden names. -/
def naming {α : Type} (x : StateM Nat α) : StateM Layout α := fun l ↦
  ((x l.hidden).1, { l with hidden := (x l.hidden).2 })

def place (lines : StateM Nat (List Line)) : StateM Layout Stretch := do
  let ls ← naming lines
  let l ← get
  advance (codeOf ls).length
  return ⟨l.position, codeOf ls⟩

/-- What the code of some lines does. -/
def verbatim (lines : StateM Nat (List Line)) : StateM Layout (ScopeId → Behavior) := do
  let c ← place lines
  return fun s ↦ code s c

/-! ## Meanings -/

/-- A conditional that leaves the enclosing loop. -/
def breakIf (C : ScopeId → Behavior) (s : ScopeId) : Behavior :=
  inside s fun block ↦ test block (C block) (leave .broke) skip

/-- A `for` loop over a range. -/
def range (counter : String) (first step stop : StateM Nat (List Line))
    (body : StateM Layout (ScopeId → Behavior)) : StateM Layout (ScopeId → Behavior) := do
  advance 1
  let always ← verbatim (pure (unary .push "1"))
  advance 1
  let start ← verbatim do return (← first) ++ unary .declareLocal counter
  advance 1
  let next ← verbatim do
    return unary .loadLocal counter ++ (← step) ++ bare .add ++ unary .storeLocal counter
  advance 1
  let done ← verbatim do return unary .loadLocal counter ++ (← stop) ++ bare .greaterEq
  advance 3
  let A ← body
  advance 2
  return fun s ↦ inside s fun block ↦ test block (always block)
    ((start block).seq (inside block fun around ↦
      loop (((next around).seq (breakIf done around)).seq (A around))))
    skip

variable (optimize : Bool)

mutual

def stmts : List Stmt → StateM Layout (ScopeId → Behavior)
  | [] => return fun _ ↦ skip
  | x :: xs => do
    let A ← stmt x
    let B ← stmts xs
    return fun s ↦ (A s).seq (B s)

def stmt : Stmt → StateM Layout (ScopeId → Behavior)
  | .function name params body => do
    advance (1 + params.length + 2)
    let c ← place (Lower.stmts optimize body)
    advance 1
    let bind ← verbatim (pure (unary .declareLocal name))
    return fun s ↦ (make s name params c).seq (bind s)
  | .cond condition body more none => do
    advance 1
    let C ← verbatim (Lower.expr optimize condition)
    advance 1
    let A ← stmts body
    advance 1
    let E ← branches more
    return fun s ↦ inside s fun block ↦ test block (C block) (A block) (E (fun _ ↦ skip) block)
  | .cond condition body more (some other) => do
    advance 1
    let C ← verbatim (Lower.expr optimize condition)
    advance 1
    let A ← stmts body
    advance 1
    let E ← branches more
    advance 1
    let O ← stmts other
    advance 1
    return fun s ↦ inside s fun block ↦ test block (C block) (A block) (E O block)
  | .while condition body => do
    advance 2
    let C ← verbatim (Lower.expr optimize condition)
    advance 1
    let A ← stmts body
    advance 5
    return fun s ↦ inside s fun around ↦
      loop (inside around fun block ↦ test block (C block) (A block) (leave .broke))
  | .forRange counter start stop (some step) body =>
    range counter
      (Lower.constantOr optimize (.binary .sub start step) do
        return (← Lower.expr optimize start) ++ (← Lower.expr optimize step) ++ bare .sub)
      (Lower.expr optimize step) (Lower.expr optimize stop) (stmts body)
  | .forRange counter start stop none body =>
    range counter
      (Lower.constantOr optimize (.binary .sub start (.number 1)) do
        return (← Lower.expr optimize start) ++ Lower.pushNumber 1 ++ bare .sub)
      (pure (Lower.pushNumber 1)) (Lower.expr optimize stop) (stmts body)
  | .forEach key value iterator body => do
    let hidden ← naming Lower.freshName
    let start ← verbatim do
      return (← Lower.expr optimize iterator) ++ unary .declareLocal hidden
    advance 1
    let next ← verbatim (pure (unary .loadLocal hidden ++ bare .call ++ unary .declareLocal key ++
      unary .declareLocal value))
    advance 1
    let done ← verbatim (pure (unary .loadLocal key ++ unary .loadLocal "null" ++ bare .eq))
    advance 3
    let A ← stmts body
    advance 1
    let finish ← verbatim (pure (unary .delete hidden))
    return fun s ↦ ((start s).seq (inside s fun around ↦
      loop (((next around).seq (breakIf done around)).seq (A around)))).seq (finish s)
  | .return none => do
    let V ← verbatim (pure (unary .loadLocal "null"))
    advance 1
    return fun s ↦ (V s).seq (giveBack s)
  | .return (some value) => do
    let V ← verbatim (Lower.expr optimize value)
    advance 1
    return fun s ↦ (V s).seq (giveBack s)
  | .break => do
    advance 1
    return fun _ ↦ leave .broke
  | .continue => do
    advance 1
    return fun _ ↦ leave .continued
  | .shine inner => stmt inner
  | .var name value => verbatim (Lower.stmt optimize (.var name value))
  | .assign root path value => verbatim (Lower.stmt optimize (.assign root path value))
  | .reflect path names => verbatim (Lower.stmt optimize (.reflect path names))
  | .foreign name path argTypes returnType =>
    verbatim (Lower.stmt optimize (.foreign name path argTypes returnType))
  | .delete name => verbatim (Lower.stmt optimize (.delete name))
  | .expr value => verbatim (Lower.stmt optimize (.expr value))

/-- The meaning of `elif` branches, before one for when no condition holds. -/
def branches : List (Expr × List Stmt) →
    StateM Layout ((ScopeId → Behavior) → ScopeId → Behavior)
  | [] => return id
  | (condition, body) :: more => do
    advance 1
    let C ← verbatim (Lower.expr optimize condition)
    advance 1
    let A ← stmts body
    advance 1
    let E ← branches more
    return fun other block ↦ test block (C block) (A block) (E other block)

end

/-! ## Lines -/

/-- Lines of well-nested code. -/
def NestedLines (part : Part) (ls : List Line) : Prop :=
  WellNested (fun _ _ ↦ True) (fun _ ↦ True) part (codeOf ls)

theorem nested_of_shaped {form : Form} {ls : List Line} (h : Lower.Shaped form ls) :
    NestedLines form.part ls := by
  unfold NestedLines
  rw [codeOf_eq_flatten]
  refine Shape.wellNested (fun _ _ _ ↦ trivial) h fun i _ ↦ ?_
  cases i <;> trivial

theorem nested_expr (e : Expr) (n : Nat) : NestedLines .whole (Lower.expr optimize e n).1 :=
  nested_of_shaped ((Lower.shaped_expr optimize (t := false) e (by simp)).run n)

theorem nested_stmts (ss : List Stmt) (n : Nat) :
    NestedLines .whole (Lower.stmts optimize ss n).1 :=
  nested_of_shaped ((Lower.shaped_stmts optimize (t := false) ss (by simp)).run n)

theorem nested_stmt (x : Stmt) (n : Nat) : NestedLines .whole (Lower.stmt optimize x n).1 :=
  nested_of_shaped ((Lower.shaped_stmt optimize (t := false) x (by simp)).run n)

theorem nested_branches (bs : List (Expr × List Stmt)) (n : Nat) {last : List Line}
    (hlast : Lower.Shaped (.chain false) last) :
    NestedLines .chain ((Lower.branches optimize bs n).1 ++ last) :=
  nested_of_shaped ((Lower.shaped_branches optimize (t := false) bs (by simp)).run n last hlast)

theorem shaped_other (ss : List Stmt) (n : Nat) :
    Lower.Shaped (.chain false) (Lower.otherwiseLines (Lower.stmts optimize ss n).1) :=
  Lower.shaped_otherwiseLines ((Lower.shaped_stmts optimize (t := false) ss (by simp)).run n)

section

variable {a b c : List Line}

theorem NestedLines.append (ha : NestedLines .whole a) (hb : NestedLines .whole b) :
    NestedLines .whole (a ++ b) := by
  rw [NestedLines, codeOf_append]
  exact WellNested.append ha hb

theorem nested_unary (op : Opcode) (x : String) (hrole : op.role = .plain := by rfl)
    (hcount : 1 = op.operandCount := by rfl) : NestedLines .whole (unary op x) :=
  .plain hrole (show [x].length = _ from hcount) trivial .nil

theorem nested_bare (op : Opcode) (hrole : op.role = .plain := by rfl)
    (hcount : 0 = op.operandCount := by rfl) : NestedLines .whole (bare op) :=
  .plain hrole (show [].length = _ from hcount) trivial .nil

theorem nested_jump (op : Opcode) (hjump : op.isJump = true := by rfl) :
    NestedLines .whole (bare op) :=
  .jump hjump .nil

theorem nested_nil : NestedLines .chain [] := .chainEnd

theorem nested_functionLines {name : String} {params : List String} (hb : NestedLines .whole b) :
    NestedLines .whole (Lower.functionLines name params b) := by
  have h : WellNested _ _ .whole (.op .function :: .operand name :: (params.map .operand ++
      .op .colon :: (codeOf b ++ Atom.op .endFunction :: []))) := .function hb trivial .nil
  simpa [NestedLines, Lower.functionLines, Instruction.code] using h

theorem nested_branchLines (hc : NestedLines .whole c) (hb : NestedLines .whole b)
    {later : List Line} (hlater : NestedLines .chain later) :
    NestedLines .whole (Lower.branchLines .ifOp c b ++ later) := by
  simpa [NestedLines, Lower.branchLines, Instruction.code] using WellNested.branch hc hb hlater .nil

theorem length_functionLines (name : String) (params : List String) :
    (codeOf (Lower.functionLines name params b)).length =
      1 + params.length + 2 + (codeOf b).length + 1 := by
  simp [Lower.functionLines, Instruction.code]
  omega

theorem length_branchLines (op : Opcode) : (codeOf (Lower.branchLines op c b)).length =
    1 + (codeOf c).length + 1 + (codeOf b).length + 1 := by
  simp [Lower.branchLines, Instruction.code]
  omega

theorem length_otherwiseLines :
    (codeOf (Lower.otherwiseLines b)).length = 1 + (codeOf b).length + 1 := by
  simp [Lower.otherwiseLines, Instruction.code]
  omega

theorem length_loopLines : (codeOf (Lower.loopLines b)).length = 1 + (codeOf b).length + 1 := by
  simp [Lower.loopLines, Instruction.code]
  omega

theorem nested_breakWhen (hc : NestedLines .whole c) : NestedLines .whole (Lower.breakWhen c) := by
  have h := nested_branchLines hc (nested_jump .breakOp) nested_nil
  rwa [List.append_nil] at h

theorem nested_loopLines (hb : NestedLines .whole b) : NestedLines .whole (Lower.loopLines b) := by
  simpa [NestedLines, Lower.loopLines, Instruction.code] using WellNested.loop hb .nil

theorem nested_pushNumber (value : Float) : NestedLines .whole (Lower.pushNumber value) :=
  nested_unary .push _

theorem code_lines_append (ha : NestedLines .whole a) (hb : NestedLines .whole b) (s : ScopeId)
    (position : Nat) : code s ⟨position, codeOf (a ++ b)⟩ =
      (code s ⟨position, codeOf a⟩).seq (code s ⟨position + (codeOf a).length, codeOf b⟩) := by
  rw [codeOf_append]
  exact Behavior.code_append ha hb.not_continues s position

theorem code_loopLines (hb : NestedLines .whole b) (s : ScopeId) (position : Nat) :
    code s ⟨position, codeOf (Lower.loopLines b)⟩ =
      inside s fun block ↦ loop (code block ⟨position + 1, codeOf b⟩) := by
  have hcode : codeOf (Lower.loopLines b) = .op .loop :: (codeOf b ++ [Atom.op .endLoop]) := by
    simp [Lower.loopLines, Instruction.code]
  rw [hcode]
  exact Behavior.code_loop hb s position

theorem codeOf_branchLines (op : Opcode) (later : List Line) :
    codeOf (Lower.branchLines op c b ++ later) =
      .op op :: (codeOf c ++ Atom.op .thenOp :: (codeOf b ++ Atom.op .endIf :: codeOf later)) := by
  simp [Lower.branchLines, Instruction.code]

theorem code_branchLines (hc : NestedLines .whole c) (hb : NestedLines .whole b) {later : List Line}
    (hlater : NestedLines .chain later) (s : ScopeId) (position : Nat) :
    code s ⟨position, codeOf (Lower.branchLines .ifOp c b ++ later)⟩ =
      inside s fun block ↦ test block (code block ⟨position + 1, codeOf c⟩)
        (code block ⟨position + 1 + (codeOf c).length + 1, codeOf b⟩)
        (otherwise block
          ⟨position + 1 + (codeOf c).length + 1 + (codeOf b).length + 1, codeOf later⟩) := by
  rw [codeOf_branchLines, Behavior.code_branch ⟨hc, hb, hlater⟩]
  congr 1
  funext block
  exact Behavior.chain_eq hc hb hlater block (position + 1)

theorem otherwise_elifLines (hc : NestedLines .whole c) (hb : NestedLines .whole b)
    {later : List Line} (hlater : NestedLines .chain later) (block : ScopeId) (position : Nat) :
    otherwise block ⟨position, codeOf (Lower.branchLines .elifOp c b ++ later)⟩ =
      test block (code block ⟨position + 1, codeOf c⟩)
        (code block ⟨position + 1 + (codeOf c).length + 1, codeOf b⟩)
        (otherwise block
          ⟨position + 1 + (codeOf c).length + 1 + (codeOf b).length + 1, codeOf later⟩) := by
  rw [codeOf_branchLines, Behavior.otherwise_elif]
  exact Behavior.chain_eq hc hb hlater block (position + 1)

theorem otherwise_otherwiseLines (hb : NestedLines .whole b) (block : ScopeId) (position : Nat) :
    otherwise block ⟨position, codeOf (Lower.otherwiseLines b)⟩ =
      code block ⟨position + 1, codeOf b⟩ := by
  have hcode : codeOf (Lower.otherwiseLines b) = .op .elseOp :: (codeOf b ++ [Atom.op .endIf]) := by
    simp [Lower.otherwiseLines, Instruction.code]
  rw [hcode]
  exact Behavior.otherwise_else hb block position

theorem code_ifLines (hc : NestedLines .whole c) (hb : NestedLines .whole b) (s : ScopeId)
    (position : Nat) : code s ⟨position, codeOf (Lower.branchLines .ifOp c b)⟩ =
      inside s fun block ↦ test block (code block ⟨position + 1, codeOf c⟩)
        (code block ⟨position + 1 + (codeOf c).length + 1, codeOf b⟩) skip := by
  have h := code_branchLines hc hb nested_nil s position
  simpa only [List.append_nil, codeOf_nil, Behavior.otherwise_nil] using h

theorem code_breakWhen (hc : NestedLines .whole c) (s : ScopeId) (position : Nat) :
    code s ⟨position, codeOf (Lower.breakWhen c)⟩ =
      breakIf (fun block ↦ code block ⟨position + 1, codeOf c⟩) s := by
  rw [Lower.breakWhen, code_ifLines hc (nested_jump .breakOp)]
  simp only [codeOf_bare, Behavior.code_break]
  rfl

theorem length_breakWhen : (codeOf (Lower.breakWhen c)).length = 1 + (codeOf c).length + 3 := by
  simp [Lower.breakWhen, Lower.branchLines, Instruction.code]
  omega

theorem nested_pass (ha : NestedLines .whole a) (hc : NestedLines .whole c)
    (hb : NestedLines .whole b) : NestedLines .whole (a ++ Lower.breakWhen c ++ b) :=
  (ha.append (nested_breakWhen hc)).append hb

theorem code_passes (ha : NestedLines .whole a) (hc : NestedLines .whole c)
    (hb : NestedLines .whole b) (s : ScopeId) (position : Nat) :
    code s ⟨position, codeOf (Lower.loopLines (a ++ Lower.breakWhen c ++ b))⟩ =
      inside s fun around ↦ loop (((code around ⟨position + 1, codeOf a⟩).seq
        (breakIf (fun block ↦ code block ⟨position + 1 + (codeOf a).length + 1, codeOf c⟩)
          around)).seq
        (code around
          ⟨position + 1 + (codeOf a).length + 1 + (codeOf c).length + 3, codeOf b⟩)) := by
  have hguard := ha.append (nested_breakWhen hc)
  rw [code_loopLines (nested_pass ha hc hb)]
  simp only [code_lines_append hguard hb, code_lines_append ha (nested_breakWhen hc),
    code_breakWhen hc]
  simp only [codeOf_append, List.length_append, length_breakWhen, Nat.add_assoc]

theorem code_returning (ha : NestedLines .whole a) (s : ScopeId) (position : Nat) :
    code s ⟨position, codeOf (a ++ bare .returnOp)⟩ =
      (code s ⟨position, codeOf a⟩).seq (giveBack s) := by
  rw [code_lines_append ha (nested_jump .returnOp), codeOf_bare, Behavior.code_return]

theorem code_functionLines (hb : NestedLines .whole b) (s : ScopeId) (position : Nat)
    (name : String) (params : List String) :
    code s ⟨position, codeOf (Lower.functionLines name params b)⟩ =
      make s name params ⟨position + 1 + params.length + 2, codeOf b⟩ := by
  have hcode : codeOf (Lower.functionLines name params b) = .op .function :: .operand name ::
      (params.map .operand ++ Atom.op .colon :: (codeOf b ++ [Atom.op .endFunction])) := by
    simp [Lower.functionLines, Instruction.code]
  rw [hcode]
  exact Behavior.code_function hb s position name params

end

/-! ## Trees -/

section

variable {σ α β : Type}

theorem bind_state (x : StateM σ α) (f : α → StateM σ β) (l : σ) :
    (x >>= f) l = f (x l).1 (x l).2 := rfl

theorem pure_state (a : α) (l : σ) : (pure a : StateM σ α) l = (a, l) := rfl

end

theorem advance_state (count : Nat) (l : Layout) :
    advance count l = ((), ⟨l.hidden, l.position + count⟩) := rfl

theorem naming_state {α : Type} (x : StateM Nat α) (l : Layout) :
    naming x l = ((x l.hidden).1, ⟨(x l.hidden).2, l.position⟩) := rfl

theorem freshName_state (n : Nat) : Lower.freshName n = (Lower.hiddenName (n + 1), n + 1) := rfl

theorem place_state (lines : StateM Nat (List Line)) (l : Layout) :
    place lines l = (⟨l.position, codeOf (lines l.hidden).1⟩,
      ⟨(lines l.hidden).2, l.position + (codeOf (lines l.hidden).1).length⟩) := rfl

theorem verbatim_state (lines : StateM Nat (List Line)) (l : Layout) :
    verbatim lines l = (fun s ↦ code s ⟨l.position, codeOf (lines l.hidden).1⟩,
      ⟨(lines l.hidden).2, l.position + (codeOf (lines l.hidden).1).length⟩) := rfl

theorem laid_eq {A A' : ScopeId → Behavior} {n p p' : Nat} (hA : ∀ s, A s = A' s) (hp : p = p') :
    (A, (⟨n, p⟩ : Layout)) = (A', ⟨n, p'⟩) := by
  rw [funext hA, hp]

/-- A `for` loop over a range is a loop that is left when the counter is past the end. -/
theorem range_eq (counter : String) {first step stop lines : StateM Nat (List Line)}
    (hfirst : Lower.Yields (NestedLines .whole) first)
    (hstep : Lower.Yields (NestedLines .whole) step)
    (hstop : Lower.Yields (NestedLines .whole) stop)
    (hlines : Lower.Yields (NestedLines .whole) lines) :
    range counter first step stop (verbatim lines) = verbatim (do
      let f ← first
      let b ← step
      let e ← stop
      let x ← lines
      return Lower.rangeLines counter f b e x) := by
  funext l
  have hf := hfirst.run l.hidden
  have hb := hstep.run (first l.hidden).2
  have he := hstop.run (step (first l.hidden).2).2
  have hx := hlines.run (stop (step (first l.hidden).2).2).2
  simp only [range, verbatim_state, advance_state, pure_state, bind_state]
  simp only [StateT.run] at hf hb he hx
  -- from here on only the lines matter, and not how they came about
  generalize first l.hidden = f at *
  generalize step f.2 = b at *
  generalize stop b.2 = e at *
  generalize lines e.2 = x at *
  have hread := nested_unary .loadLocal counter
  have hnext := ((hread.append hb).append (nested_bare .add)).append
    (nested_unary .storeLocal counter)
  have hdone := (hread.append he).append (nested_bare .greaterEq)
  have hstart := hf.append (nested_unary .declareLocal counter)
  have hloop := nested_loopLines (nested_pass hnext hdone hx)
  refine laid_eq (fun s ↦ ?_) ?_
  · rw [Lower.rangeLines, code_ifLines (nested_unary .push "1") (hstart.append hloop)]
    simp only [code_lines_append hstart hloop, code_passes hnext hdone hx]
  · simp only [Lower.rangeLines, Lower.breakWhen, length_branchLines, length_loopLines,
      codeOf_append, codeOf_unary, codeOf_bare, List.length_append, List.length_cons,
      List.length_nil]
    omega

mutual

theorem stmts_eq (ss : List Stmt) : stmts optimize ss = verbatim (Lower.stmts optimize ss) := by
  match ss with
  | [] =>
    funext l
    simp only [stmts, Lower.stmts, verbatim_state, pure_state]
    exact laid_eq (fun s ↦ (Behavior.code_nil s l.position).symm) rfl
  | x :: xs =>
    funext l
    simp only [stmts, Lower.stmts, verbatim_state, pure_state, bind_state, stmt_eq x, stmts_eq xs]
    refine laid_eq (fun s ↦ ?_) ?_
    · exact (code_lines_append (nested_stmt optimize x _) (nested_stmts optimize xs _) s _).symm
    · simp only [codeOf_append, List.length_append]
      omega

theorem stmt_eq (x : Stmt) : stmt optimize x = verbatim (Lower.stmt optimize x) := by
  match x with
  | .function name params body =>
    funext l
    have hb := nested_stmts optimize body l.hidden
    simp only [stmt, Lower.stmt, place_state, verbatim_state, advance_state, pure_state, bind_state]
    generalize Lower.stmts optimize body l.hidden = b at hb
    refine laid_eq (fun s ↦ ?_) ?_
    · rw [code_lines_append (nested_functionLines hb) (nested_unary .declareLocal name),
        code_functionLines hb]
      simp only [length_functionLines, Nat.add_assoc]
    · simp only [codeOf_append, List.length_append, length_functionLines]
      omega
  | .cond condition body more none =>
    funext l
    have hc := nested_expr optimize condition l.hidden
    have hb := nested_stmts optimize body (Lower.expr optimize condition l.hidden).2
    simp only [stmt, Lower.stmt, verbatim_state, advance_state, pure_state, bind_state,
      stmts_eq body]
    generalize Lower.expr optimize condition l.hidden = c at hc hb
    generalize Lower.stmts optimize body c.2 = b at hb
    obtain ⟨hlayout, hlater⟩ := branches_eq more
      ⟨b.2, l.position + 1 + (codeOf c.1).length + 1 + (codeOf b.1).length + 1⟩
    -- the conditional ends with the last `elif` branch
    have hchain := nested_branches optimize more b.2 Lower.shaped_noChain
    replace hlater := hlater Lower.shaped_noChain
    rw [List.append_nil] at hchain
    simp only [List.append_nil, codeOf_nil, Behavior.otherwise_nil] at hlater
    rw [hlayout]
    refine laid_eq (fun s ↦ ?_) ?_
    · simp only [code_branchLines hc hb hchain, hlater]
    · simp only [codeOf_append, List.length_append, length_branchLines]
      omega
  | .cond condition body more (some other) =>
    funext l
    have hc := nested_expr optimize condition l.hidden
    have hb := nested_stmts optimize body (Lower.expr optimize condition l.hidden).2
    simp only [stmt, Lower.stmt, verbatim_state, advance_state, pure_state, bind_state,
      stmts_eq body, stmts_eq other]
    generalize Lower.expr optimize condition l.hidden = c at hc hb
    generalize Lower.stmts optimize body c.2 = b at hb
    obtain ⟨hlayout, hlater⟩ := branches_eq more
      ⟨b.2, l.position + 1 + (codeOf c.1).length + 1 + (codeOf b.1).length + 1⟩
    rw [hlayout]
    dsimp only
    -- the branches are followed by the `else` branch, where hidden names go on
    have ho := nested_stmts optimize other (Lower.branches optimize more b.2).2
    have hshaped := shaped_other optimize other (Lower.branches optimize more b.2).2
    have hchain := nested_branches optimize more b.2 hshaped
    replace hlater := hlater hshaped
    simp only [hlayout, otherwise_otherwiseLines ho] at hlater
    refine laid_eq (fun s ↦ ?_) ?_
    · simp only [List.append_assoc, code_branchLines hc hb hchain, hlater]
    · simp only [codeOf_append, List.length_append, length_branchLines, length_otherwiseLines]
      omega
  | .while condition body =>
    funext l
    have hc := nested_expr optimize condition l.hidden
    have hb := nested_stmts optimize body (Lower.expr optimize condition l.hidden).2
    simp only [stmt, Lower.stmt, verbatim_state, advance_state, pure_state, bind_state,
      stmts_eq body]
    generalize Lower.expr optimize condition l.hidden = c at hc hb
    generalize Lower.stmts optimize body c.2 = b at hb
    -- in code, the loop is around a conditional whose other branch breaks it
    have hbreak : NestedLines .chain (Lower.otherwiseLines (bare .breakOp)) :=
      .chainElse (nested_jump .breakOp)
    refine laid_eq (fun s ↦ ?_) ?_
    · rw [code_loopLines (nested_branchLines hc hb hbreak)]
      simp only [code_branchLines hc hb hbreak, otherwise_otherwiseLines (nested_jump .breakOp),
        codeOf_bare, Behavior.code_break, Nat.add_assoc, Nat.reduceAdd]
    · simp only [length_loopLines, length_branchLines, length_otherwiseLines, codeOf_append,
        codeOf_bare, List.length_append, List.length_cons, List.length_nil]
      omega
  | .return none =>
    funext l
    exact laid_eq (fun s ↦ (code_returning (nested_unary .loadLocal "null") s l.position).symm) rfl
  | .return (some value) =>
    funext l
    have hx := nested_expr optimize value l.hidden
    simp only [stmt, Lower.stmt, verbatim_state, advance_state, pure_state, bind_state]
    generalize Lower.expr optimize value l.hidden = x at hx
    refine laid_eq (fun s ↦ ?_) ?_
    · exact (code_returning hx s l.position).symm
    · simp only [codeOf_append, codeOf_bare, List.length_append, List.length_singleton]
      omega
  | .break =>
    funext l
    exact Prod.ext (funext fun s ↦ (Behavior.code_break s l.position []).symm) rfl
  | .continue =>
    funext l
    exact Prod.ext (funext fun s ↦ (Behavior.code_continue s l.position []).symm) rfl
  | .shine inner => exact stmt_eq inner
  | .forRange counter start stop (some step) body =>
    have hstep : Lower.Yields (NestedLines .whole) (Lower.expr optimize step) :=
      ⟨nested_expr optimize step⟩
    have hfirst : Lower.Yields (NestedLines .whole) (do
        let a ← Lower.expr optimize start
        let b ← Lower.expr optimize step
        return a ++ b ++ bare .sub) :=
      .bind ⟨nested_expr optimize start⟩ fun a ha ↦ hstep.bind fun b hb ↦
        .pure ((ha.append hb).append (nested_bare _))
    rw [stmt, Lower.stmt, stmts_eq body]
    exact range_eq counter (.constantOr nested_pushNumber hfirst optimize _) hstep
      ⟨nested_expr optimize stop⟩ ⟨nested_stmts optimize body⟩
  | .forRange counter start stop none body =>
    have hfirst : Lower.Yields (NestedLines .whole) (do
        let a ← Lower.expr optimize start
        return a ++ Lower.pushNumber 1 ++ bare .sub) :=
      .bind ⟨nested_expr optimize start⟩ fun a ha ↦
        .pure ((ha.append (nested_pushNumber 1)).append (nested_bare _))
    rw [stmt, Lower.stmt, stmts_eq body]
    exact range_eq counter (.constantOr nested_pushNumber hfirst optimize _)
      (.pure (nested_pushNumber 1)) ⟨nested_expr optimize stop⟩ ⟨nested_stmts optimize body⟩
  | .forEach key value iterator body =>
    funext l
    have hi := nested_expr optimize iterator (l.hidden + 1)
    have hx := nested_stmts optimize body (Lower.expr optimize iterator (l.hidden + 1)).2
    simp only [stmt, Lower.stmt, verbatim_state, naming_state, advance_state, pure_state,
      bind_state, freshName_state, stmts_eq body]
    generalize Lower.expr optimize iterator (l.hidden + 1) = i at hi hx
    generalize Lower.stmts optimize body i.2 = x at hx
    generalize Lower.hiddenName (l.hidden + 1) = hidden
    have hread (name : String) := nested_unary .loadLocal name
    have hbind (name : String) := nested_unary .declareLocal name
    have hnext := (((hread hidden).append (nested_jump .call)).append (hbind key)).append
      (hbind value)
    have hdone := ((hread key).append (hread "null")).append (nested_bare .eq)
    have hstart := hi.append (hbind hidden)
    have hloop := nested_loopLines (nested_pass hnext hdone hx)
    refine laid_eq (fun s ↦ ?_) ?_
    · rw [Lower.eachLines, code_lines_append (hstart.append hloop) (nested_unary _ hidden),
        code_lines_append hstart hloop, code_passes hnext hdone hx]
      simp only [length_loopLines, length_breakWhen, codeOf_append, List.length_append,
        Nat.add_assoc]
    · simp only [Lower.eachLines, length_loopLines, length_breakWhen, codeOf_append, codeOf_unary,
        codeOf_bare, List.length_append, List.length_cons, List.length_nil]
      omega
  | .var name value => rfl
  | .assign root path value => rfl
  | .reflect path names => rfl
  | .foreign name path argTypes returnType => rfl
  | .delete name => rfl
  | .expr value => rfl

/-- The meaning of `elif` branches goes on with that of what follows them in the conditional. -/
theorem branches_eq (bs : List (Expr × List Stmt)) (l : Layout) :
    (branches optimize bs l).2 = ⟨(Lower.branches optimize bs l.hidden).2,
      l.position + (codeOf (Lower.branches optimize bs l.hidden).1).length⟩ ∧
    ∀ {last : List Line}, Lower.Shaped (.chain false) last → ∀ block,
      otherwise block ⟨l.position, codeOf ((Lower.branches optimize bs l.hidden).1 ++ last)⟩ =
        (branches optimize bs l).1
          (fun block ↦ otherwise block ⟨(branches optimize bs l).2.position, codeOf last⟩)
          block := by
  match bs with
  | [] => exact ⟨rfl, fun _ _ ↦ rfl⟩
  | (condition, body) :: more =>
    have hc := nested_expr optimize condition l.hidden
    have hb := nested_stmts optimize body (Lower.expr optimize condition l.hidden).2
    simp only [branches, Lower.branches, verbatim_state, advance_state, pure_state, bind_state,
      stmts_eq body]
    generalize Lower.expr optimize condition l.hidden = c at hc hb
    generalize Lower.stmts optimize body c.2 = b at hb
    obtain ⟨hlayout, hlater⟩ := branches_eq more
      ⟨b.2, l.position + 1 + (codeOf c.1).length + 1 + (codeOf b.1).length + 1⟩
    refine ⟨?_, fun hlast block ↦ ?_⟩
    · rw [hlayout]
      simp only [codeOf_append, List.length_append, length_branchLines, Nat.add_assoc]
    · rw [List.append_assoc, otherwise_elifLines hc hb (nested_branches optimize more b.2 hlast),
        hlater hlast]

end

/-- A `while` loop takes up every `break` and `continue` of its body. -/
theorem while_left {condition : Expr} {body : List Stmt} {l : Layout} {s : ScopeId} {m m' : Machine}
    {left : Option Signal}
    (h : (stmt optimize (.while condition body) l).1 s m (.ok left m')) :
    left = none ∨ ∃ v, left = some (.returned v) := by
  simp only [stmt, verbatim_state, advance_state, pure_state, bind_state] at h
  exact Behavior.loop_left h

end Structured

/-- **Control flow is lowered faithfully.** Wherever the code of a statement stands, a run does what
the statement means and then goes on right after the code; no `while` loop lets a `break` or a
`continue` out; and a call of a function does what the body of the function means, ends by a return
from any depth of blocks, and keeps the signals that are meant for loops to itself. -/
theorem code_eq_meaning (optimize : Bool) (l : Layout) :
    (∀ (x : Stmt) (s : ScopeId) (rest : Code), ¬Continues rest →
      code s ⟨l.position, codeOf (Lower.stmt optimize x l.hidden).1 ++ rest⟩ =
        ((Structured.stmt optimize x l).1 s).seq
          (code s ⟨l.position + (codeOf (Lower.stmt optimize x l.hidden).1).length, rest⟩)) ∧
    (∀ (condition : Expr) (body : List Stmt) (s : ScopeId) (m m' : Machine) (left : Option Signal),
      (Structured.stmt optimize (.while condition body) l).1 s m (.ok left m') →
        left = none ∨ ∃ v, left = some (.returned v)) ∧
    ∀ (body : List Stmt) (f : ScriptFunction),
      f.body = ⟨l.position, codeOf (Lower.stmts optimize body l.hidden).1⟩ →
        ∀ (caller : ScopeId) (marked : Option Nat), Eventual (callScript · f caller marked) =
          calling f caller marked (Structured.stmts optimize body l).1 := by
  refine ⟨fun x s rest hrest ↦ ?_, fun condition body s m m' left h ↦ ?_,
    fun body f hbody caller marked ↦ ?_⟩
  · have hx := Structured.nested_stmt optimize x l.hidden
    rw [Behavior.code_append hx hrest, Structured.stmt_eq]
    rfl
  · exact Structured.while_left optimize h
  · rw [Behavior.eventual_callScript, hbody, Structured.stmts_eq]
    rfl

/-- A loop that breaks at once, in a function of its own. -/
theorem code_eq_meaning_break :
    (code 0 ⟨0, codeOf (Lower.stmt false (.while (.bool true) [.break]) 0).1 ++ [.op .returnOp]⟩ =
      ((Structured.stmt false (.while (.bool true) [.break]) ⟨0, 0⟩).1 0).seq
        (code 0 ⟨11, [.op .returnOp]⟩)) ∧
    Eventual (callScript · ⟨0, "f", [],
        ⟨0, codeOf (Lower.stmts false [.while (.bool true) [.break]] 0).1⟩, 0⟩ 0 none) =
      calling ⟨0, "f", [],
        ⟨0, codeOf (Lower.stmts false [.while (.bool true) [.break]] 0).1⟩, 0⟩ 0 none
        (Structured.stmts false [.while (.bool true) [.break]] ⟨0, 0⟩).1 := by
  obtain ⟨hcode, -, hcall⟩ := code_eq_meaning false ⟨0, 0⟩
  exact ⟨hcode _ 0 [.op .returnOp] (by simp [Continues]), hcall _ _ rfl 0 none⟩

end GemLang
