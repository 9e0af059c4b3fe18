import GemLang.Bytecode.Block
import Mathlib

/-!
# Well-nested code

Where a block ends is found by counting, one family of blocks at a time. Counting finds the right
end if the code inside is *well nested*: every block in it is closed by its own closing opcode, in
the order in which blocks were opened. Then code inside a block is balanced in all three families at
once, and each count passes over it unchanged (`WellNested.cutBlock_append`,
`WellNested.cutCondition_append`).

The rest of a chain of branches is balanced too, but it cannot stand alone. It is kept apart as a
part of its own, since what may follow a chain depends on it: an `ELIF` or an `ELSE` would be taken
for one more branch (`Continues`).

Two predicates are carried along, one on plain instructions with their operands and one on the
bodies of functions, so that what holds all over some code is known in the blocks inside it.
-/

namespace GemLang.Bytecode

/-- A stretch of well-nested code is a sequence of instructions, or what follows the first branch of
a conditional. -/
inductive Part where
  | whole
  | chain
  deriving DecidableEq

/-- Whether an opcode moves control without opening a block. -/
def Opcode.isJump (op : Opcode) : Bool :=
  op.role = .call || op.role = .leave || op.role = .breakLoop || op.role = .nextPass

/-- Well-nested code whose plain instructions all satisfy `P`, and whose functions have bodies that
satisfy `B`. -/
inductive WellNested (P : Opcode → List String → Prop) (B : Code → Prop) :
    Part → Code → Prop where
  | nil : WellNested P B .whole []
  | plain {op : Opcode} {operands : List String} {rest : Code} (hrole : op.role = .plain)
      (hcount : operands.length = op.operandCount) (hop : P op operands)
      (hrest : WellNested P B .whole rest) :
      WellNested P B .whole (.op op :: (operands.map .operand ++ rest))
  | jump {op : Opcode} {rest : Code} (hjump : op.isJump = true)
      (hrest : WellNested P B .whole rest) : WellNested P B .whole (.op op :: rest)
  | branch {condition body chain rest : Code} (hcondition : WellNested P B .whole condition)
      (hbody : WellNested P B .whole body) (hchain : WellNested P B .chain chain)
      (hrest : WellNested P B .whole rest) :
      WellNested P B .whole
        (.op .ifOp :: (condition ++ Atom.op .thenOp :: (body ++ Atom.op .endIf :: (chain ++ rest))))
  | loop {body rest : Code} (hbody : WellNested P B .whole body)
      (hrest : WellNested P B .whole rest) :
      WellNested P B .whole (.op .loop :: (body ++ Atom.op .endLoop :: rest))
  | function {name : String} {params : List String} {body rest : Code}
      (hbody : WellNested P B .whole body) (hfunction : B body)
      (hrest : WellNested P B .whole rest) :
      WellNested P B .whole
        (.op .function :: .operand name ::
          (params.map .operand ++ Atom.op .colon :: (body ++ Atom.op .endFunction :: rest)))
  | chainEnd : WellNested P B .chain []
  | chainElse {body : Code} (hbody : WellNested P B .whole body) :
      WellNested P B .chain (.op .elseOp :: (body ++ [Atom.op .endIf]))
  | chainElif {condition body chain : Code} (hcondition : WellNested P B .whole condition)
      (hbody : WellNested P B .whole body) (hchain : WellNested P B .chain chain) :
      WellNested P B .chain
        (.op .elifOp :: (condition ++ Atom.op .thenOp :: (body ++ Atom.op .endIf :: chain)))

/-! ## Putting code together -/

variable {P : Opcode → List String → Prop} {B : Code → Prop}

theorem WellNested.append {a b : Code} (ha : WellNested P B .whole a)
    (hb : WellNested P B .whole b) : WellNested P B .whole (a ++ b) := by
  generalize hpart : Part.whole = part at ha
  induction ha with
  | nil => exact hb
  | plain hrole hcount hop _ ih =>
    rw [List.cons_append, List.append_assoc]
    exact .plain hrole hcount hop (ih rfl)
  | jump hjump _ ih => exact .jump hjump (ih rfl)
  | branch hcondition hbody hchain _ _ _ _ ih =>
    simp only [List.cons_append, List.append_assoc]
    exact .branch hcondition hbody hchain (ih rfl)
  | loop hbody _ _ ih =>
    simp only [List.cons_append, List.append_assoc]
    exact .loop hbody (ih rfl)
  | function hbody hfunction _ _ ih =>
    simp only [List.cons_append, List.append_assoc]
    exact .function hbody hfunction (ih rfl)
  | chainEnd => cases hpart
  | chainElse => cases hpart
  | chainElif => cases hpart

/-! ## Cutting past balanced code -/

/-- Puts code in front of the inside of a block. -/
def appendInside (c : Code) (cut : Option (Code × Code)) : Option (Code × Code) :=
  cut.map fun (inside, rest) ↦ (c ++ inside, rest)

@[simp] theorem appendInside_nil (cut : Option (Code × Code)) : appendInside [] cut = cut := by
  cases cut <;> rfl

@[simp] theorem appendInside_some (c inside rest : Code) :
    appendInside c (some (inside, rest)) = some (c ++ inside, rest) := rfl

@[simp] theorem consInside_appendInside (a : Atom) (c : Code) (cut : Option (Code × Code)) :
    consInside a (appendInside c cut) = appendInside (a :: c) cut := by
  cases cut <;> rfl

@[simp] theorem appendInside_appendInside (c d : Code) (cut : Option (Code × Code)) :
    appendInside c (appendInside d cut) = appendInside (c ++ d) cut := by
  cases cut <;> simp [appendInside]

theorem consInside_eq_appendInside (a : Atom) (cut : Option (Code × Code)) :
    consInside a cut = appendInside [a] cut := by
  cases cut <;> rfl

theorem cutBlock_operands_append (family : Family) (count : Nat) (operands : List String)
    (rest : Code) :
    cutBlock family count (operands.map .operand ++ rest) =
      appendInside (operands.map .operand) (cutBlock family count rest) := by
  induction operands with
  | nil => simp
  | cons operand operands ih => simp [cutBlock, ih]

theorem cutCondition_operands_append (count : Nat) (operands : List String) (rest : Code) :
    cutCondition count (operands.map .operand ++ rest) =
      appendInside (operands.map .operand) (cutCondition count rest) := by
  induction operands with
  | nil => simp
  | cons operand operands ih => simp [cutCondition, ih]

theorem cutBlock_cons_of_free {op : Opcode} (h : op.role = .plain ∨ op.isJump = true)
    (family : Family) (count : Nat) (rest : Code) :
    cutBlock family count (.op op :: rest) =
      appendInside [.op op] (cutBlock family count rest) := by
  have hopens : family.opens op = false := by
    cases family <;> cases op <;> simp_all [Family.opens, Opcode.role, Opcode.isJump]
  have hclose : op ≠ family.close := by
    cases family <;> cases op <;> simp_all [Family.close, Opcode.role, Opcode.isJump]
  simp [cutBlock, hopens, hclose, consInside_eq_appendInside]

theorem cutCondition_cons_of_free {op : Opcode} (h : op.role = .plain ∨ op.isJump = true)
    (count : Nat) (rest : Code) :
    cutCondition count (.op op :: rest) = appendInside [.op op] (cutCondition count rest) := by
  have hopens : Family.branch.opens op = false := by
    cases op <;> simp_all [Family.opens, Opcode.role, Opcode.isJump]
  have hthen : op ≠ .thenOp := by
    rintro rfl
    simp [Opcode.role, Opcode.isJump] at h
  have hend : op ≠ .endIf := by
    rintro rfl
    simp [Opcode.role, Opcode.isJump] at h
  simp [cutCondition, hopens, hthen, hend, consInside_eq_appendInside]

/-- **Well-nested code does not close a block it stands in**, whichever family is counted. -/
theorem WellNested.cutBlock_append {part : Part} {c : Code} (h : WellNested P B part c)
    (family : Family) (count : Nat) (rest : Code) :
    cutBlock family count (c ++ rest) = appendInside c (cutBlock family count rest) := by
  induction h generalizing count rest with
  | nil => simp
  | plain hrole _ _ _ ih =>
    rw [List.cons_append, List.append_assoc, cutBlock_cons_of_free (.inl hrole),
      cutBlock_operands_append, ih]
    simp
  | jump hjump _ ih =>
    rw [List.cons_append, cutBlock_cons_of_free (.inr hjump), ih]
    simp
  | branch _ _ _ _ ihCondition ihBody ihChain ihRest =>
    -- only the count of branches moves, up at the opening opcode and back down at the closing one
    cases family <;>
      simp [cutBlock, Family.opens, Family.close, ihCondition, ihBody, ihChain, ihRest]
  | loop _ _ ihBody ihRest =>
    cases family <;> simp [cutBlock, Family.opens, Family.close, ihBody, ihRest]
  | function _ _ _ ihBody ihRest =>
    cases family <;>
      simp [cutBlock, Family.opens, Family.close, cutBlock_operands_append, ihBody, ihRest]
  | chainEnd => simp
  | chainElse _ ihBody =>
    cases family <;>
      simp [cutBlock, Family.opens, Family.close, ihBody, consInside_eq_appendInside]
  | chainElif _ _ _ ihCondition ihBody ihChain =>
    cases family <;> simp [cutBlock, Family.opens, Family.close, ihCondition, ihBody, ihChain]

/-- Well-nested code does not end a condition it stands in: its own `THEN`s are inside branches. -/
theorem WellNested.cutCondition_append {part : Part} {c : Code} (h : WellNested P B part c)
    (count : Nat) (rest : Code) :
    cutCondition count (c ++ rest) = appendInside c (cutCondition count rest) := by
  induction h generalizing count rest with
  | nil => simp
  | plain hrole _ _ _ ih =>
    rw [List.cons_append, List.append_assoc, cutCondition_cons_of_free (.inl hrole),
      cutCondition_operands_append, ih]
    simp
  | jump hjump _ ih =>
    rw [List.cons_append, cutCondition_cons_of_free (.inr hjump), ih]
    simp
  | branch _ _ _ _ ihCondition ihBody ihChain ihRest =>
    simp [cutCondition, Family.opens, ihCondition, ihBody, ihChain, ihRest]
  | loop _ _ ihBody ihRest => simp [cutCondition, Family.opens, ihBody, ihRest]
  | function _ _ _ ihBody ihRest =>
    simp [cutCondition, Family.opens, cutCondition_operands_append, ihBody, ihRest]
  | chainEnd => simp
  | chainElse _ ihBody =>
    simp [cutCondition, Family.opens, ihBody, consInside_eq_appendInside]
  | chainElif _ _ _ ihCondition ihBody ihChain =>
    simp [cutCondition, Family.opens, ihCondition, ihBody, ihChain]

/-! ## Cutting stretches -/

/-- The block that well-nested code fills is cut out whole. -/
theorem WellNested.block_eq {body : Code} (h : WellNested P B .whole body) (family : Family)
    (position : Nat) (rest : Code) :
    Stretch.block family ⟨position, body ++ Atom.op family.close :: rest⟩ =
      .ok (⟨position, body⟩, ⟨position + body.length + 1, rest⟩) := by
  have hclose : cutBlock family 0 (.op family.close :: rest) = some ([], rest) := by
    cases family <;> simp [cutBlock, Family.opens, Family.close]
  simp [Stretch.block, h.cutBlock_append, hclose]

theorem WellNested.condition_eq {condition : Code} (h : WellNested P B .whole condition)
    (position : Nat) (rest : Code) :
    Stretch.condition ⟨position, condition ++ Atom.op .thenOp :: rest⟩ =
      .ok (⟨position, condition⟩, ⟨position + condition.length + 1, rest⟩) := by
  have hthen : cutCondition 0 (.op .thenOp :: rest) = some ([], rest) := by simp [cutCondition]
  simp [Stretch.condition, h.cutCondition_append, hthen]

theorem operands_append (operands : List String) (position : Nat) (rest : Code) :
    Stretch.operands ⟨position, operands.map .operand ++ rest⟩ operands.length =
      .ok (operands, ⟨position + operands.length, rest⟩) := by
  induction operands generalizing position with
  | nil => rfl
  | cons operand operands ih =>
    simp [Stretch.operands, ih, Nat.add_assoc, Nat.add_comm 1]

theorem untilColon?_append (params : List String) (rest : Code) :
    untilColon? (params.map .operand ++ Atom.op .colon :: rest) = some (params, rest) := by
  induction params with
  | nil => simp [untilColon?]
  | cons param params ih => simp [untilColon?, ih]

theorem WellNested.function_eq {body : Code} (h : WellNested P B .whole body) (position : Nat)
    (name : String) (params : List String) (rest : Code) :
    Stretch.function ⟨position, .operand name ::
        (params.map .operand ++ Atom.op .colon :: (body ++ Atom.op .endFunction :: rest))⟩ =
      .ok ((name, params, ⟨position + params.length + 2, body⟩),
        ⟨position + params.length + 2 + body.length + 1, rest⟩) := by
  have hbody := h.block_eq .function (position + params.length + 2) rest
  simp only [Family.close] at hbody
  simp [Stretch.function, untilColon?_append, hbody]

/-! ## The rest of a chain -/

/-- Code that would be taken for one more branch of a conditional in front of it. -/
def Continues (c : Code) : Prop :=
  c.head? = some (.op .elifOp) ∨ c.head? = some (.op .elseOp)

theorem not_continues_nil : ¬Continues [] := by simp [Continues]

/-- A sequence of instructions does not go on with a conditional in front of it. -/
theorem WellNested.not_continues {c : Code} (h : WellNested P B .whole c) : ¬Continues c := by
  cases h with
  | plain hrole =>
    rintro (hc | hc) <;> (simp only [List.head?_cons, Option.some.injEq, Atom.op.injEq] at hc)
      <;> simp [hc, Opcode.role] at hrole
  | jump hjump =>
    rintro (hc | hc) <;> (simp only [List.head?_cons, Option.some.injEq, Atom.op.injEq] at hc)
      <;> simp [hc, Opcode.isJump, Opcode.role] at hjump
  | _ => simp [Continues]

/-- After a branch that was taken, exactly the rest of its chain is passed over. -/
theorem WellNested.skipChain_eq {chain : Code} (h : WellNested P B .chain chain) (position : Nat)
    {rest : Code} (hrest : ¬Continues rest) :
    Stretch.skipChain ⟨position, chain ++ rest⟩ = .ok ⟨position + chain.length, rest⟩ := by
  generalize hpart : Part.chain = part at h
  induction h generalizing position with
  | chainEnd =>
    rw [Stretch.skipChain]
    split
    · next heq => exact absurd (.inl (by simpa using congrArg List.head? heq)) hrest
    · next heq => exact absurd (.inr (by simpa using congrArg List.head? heq)) hrest
    · simp
  | @chainElse body hbody _ =>
    have hcut := hbody.block_eq .branch (position + 1) rest
    simp only [Family.close] at hcut
    rw [Stretch.skipChain]
    simp [hcut, Nat.add_comm, Nat.add_left_comm]
  | @chainElif condition body chain hcondition hbody hchain _ _ ih =>
    have hcut := hcondition.condition_eq (position + 1)
      (body ++ Atom.op .endIf :: (chain ++ rest))
    have hcut' := hbody.block_eq .branch (position + 1 + condition.length + 1) (chain ++ rest)
    simp only [Family.close] at hcut'
    rw [Stretch.skipChain]
    dsimp only [List.cons_append]
    split
    · next heq => simp [hcut] at heq
    · next heq =>
      simp only [List.append_assoc, List.cons_append, hcut] at heq
      simp only [Except.ok.injEq, Prod.mk.injEq] at heq
      obtain ⟨-, rfl⟩ := heq
      split
      · next heq => simp [hcut'] at heq
      · next heq =>
        rw [hcut'] at heq
        simp only [Except.ok.injEq, Prod.mk.injEq] at heq
        obtain ⟨-, rfl⟩ := heq
        rw [ih _ rfl]
        simp [Nat.add_comm, Nat.add_left_comm]
  | _ => cases hpart

end GemLang.Bytecode
