import GemLang.Bytecode.Code

/-!
# Blocks

Branches, loops and functions enclose stretches of code. Where a stretch ends is not written down:
it is found by going through the code and counting the blocks that open and close on the way. Each
family of blocks is counted for itself, since blocks of different families nest properly or the code
is malformed anyway.

Cutting a block off the front of some code gives what is inside and what comes after. Code that
stands inside a block can therefore not reach past its end.
-/

namespace GemLang.Bytecode

/-! ## The part an opcode plays -/

/-- The part that an opcode plays in the flow of control. -/
inductive Role where
  /-- Changes the state and goes on. -/
  | plain
  | call
  /-- Leaves the enclosing function. -/
  | leave
  /-- Leaves the enclosing loop. -/
  | breakLoop
  /-- Goes to the next pass of the enclosing loop. -/
  | nextPass
  | branch
  | loop
  | function
  /-- Divides or ends a block, and cannot stand alone. -/
  | divider
  deriving DecidableEq

/-- The part that an opcode plays. -/
def Opcode.role : Opcode → Role
  | .call => .call
  | .returnOp => .leave
  | .breakOp => .breakLoop
  | .continueOp => .nextPass
  | .ifOp => .branch
  | .loop => .loop
  | .function => .function
  | .thenOp | .elifOp | .elseOp | .endIf | .endLoop | .colon | .endFunction => .divider
  | _ => .plain

/-! ## Cutting -/

/-- The families of blocks. -/
inductive Family where
  | branch
  | loop
  | function
  deriving DecidableEq

/-- Whether an opcode opens a block of a family. Every part of a chain of branches is a block of its
own. -/
def Family.opens : Family → Opcode → Bool
  | .branch, .ifOp | .branch, .elifOp | .branch, .elseOp => true
  | .loop, .loop => true
  | .function, .function => true
  | _, _ => false

def Family.close : Family → Opcode
  | .branch => .endIf
  | .loop => .endLoop
  | .function => .endFunction

/-- Puts an atom in front of the inside of a block. -/
def consInside (a : Atom) : Option (Code × Code) → Option (Code × Code)
  | some (inside, rest) => some (a :: inside, rest)
  | none => none

/-- The inside of the block that some code starts in, and the code after its end. The count is of
the blocks of the family that have opened inside and not closed yet. -/
def cutBlock (family : Family) (count : Nat) : Code → Option (Code × Code)
  | [] => none
  | .operand text :: code => consInside (.operand text) (cutBlock family count code)
  | .op op :: code =>
    if family.opens op then
      consInside (.op op) (cutBlock family (count + 1) code)
    else if op = family.close then
      match count with
      | 0 => some ([], code)
      | count + 1 => consInside (.op op) (cutBlock family count code)
    else
      consInside (.op op) (cutBlock family count code)

/-- The condition that some code starts with, and the code after its `THEN`. A condition may hold
functions with branches of their own; the count is of those still open. -/
def cutCondition (count : Nat) : Code → Option (Code × Code)
  | [] => none
  | .operand text :: code => consInside (.operand text) (cutCondition count code)
  | .op op :: code =>
    if op = .thenOp ∧ count = 0 then
      some ([], code)
    else if Family.branch.opens op then
      consInside (.op op) (cutCondition (count + 1) code)
    else if op = .endIf then
      consInside (.op op) (cutCondition (count - 1) code)
    else
      consInside (.op op) (cutCondition count code)

theorem consInside_eq_some {a : Atom} {cut : Option (Code × Code)} {inside rest : Code}
    (h : consInside a cut = some (inside, rest)) :
    ∃ shorter, cut = some (shorter, rest) ∧ inside = a :: shorter := by
  match cut with
  | none => simp [consInside] at h
  | some (shorter, rest') =>
    simp only [consInside, Option.some.injEq, Prod.mk.injEq] at h
    exact ⟨shorter, by simp [h.2], h.1.symm⟩

/-- Cutting loses nothing but the closing opcode. -/
theorem cutBlock_eq_append {family : Family} {count : Nat} {code inside rest : Code}
    (h : cutBlock family count code = some (inside, rest)) :
    code = inside ++ .op family.close :: rest := by
  fun_induction cutBlock family count code generalizing inside rest with
  | case1 => simp at h
  | case2 count text code ih =>
    obtain ⟨shorter, hcut, rfl⟩ := consInside_eq_some h
    simp [ih hcut]
  | case3 count op code hopens ih =>
    obtain ⟨shorter, hcut, rfl⟩ := consInside_eq_some h
    simp [ih hcut]
  | case4 => simp_all
  | case5 =>
    obtain ⟨shorter, hcut, rfl⟩ := consInside_eq_some h
    simp_all
  | case6 count op code hopens hclose ih =>
    obtain ⟨shorter, hcut, rfl⟩ := consInside_eq_some h
    simp [ih hcut]

/-- Cutting loses nothing but the `THEN`. -/
theorem cutCondition_eq_append {count : Nat} {code inside rest : Code}
    (h : cutCondition count code = some (inside, rest)) :
    code = inside ++ .op .thenOp :: rest := by
  fun_induction cutCondition count code generalizing inside rest with
  | case1 => simp at h
  | case2 count text code ih =>
    obtain ⟨shorter, hcut, rfl⟩ := consInside_eq_some h
    simp [ih hcut]
  | case3 count op code hthen => simp_all
  | case4 count op code hthen hopens ih =>
    obtain ⟨shorter, hcut, rfl⟩ := consInside_eq_some h
    simp [ih hcut]
  | case5 =>
    obtain ⟨shorter, hcut, rfl⟩ := consInside_eq_some h
    simp_all
  | case6 count op code hthen hopens hend ih =>
    obtain ⟨shorter, hcut, rfl⟩ := consInside_eq_some h
    simp [ih hcut]

/-! ## Stretches -/

/-- Cuts the block of a family that a stretch starts in. -/
def Stretch.block (family : Family) (c : Stretch) : Except CodeFault (Stretch × Stretch) :=
  match cutBlock family 0 c.code with
  | some (inside, rest) => .ok (⟨c.position, inside⟩, ⟨c.position + inside.length + 1, rest⟩)
  | none => .error (.openBlock family.close c.position)

/-- Cuts the condition that a stretch starts with. -/
def Stretch.condition (c : Stretch) : Except CodeFault (Stretch × Stretch) :=
  match cutCondition 0 c.code with
  | some (inside, rest) => .ok (⟨c.position, inside⟩, ⟨c.position + inside.length + 1, rest⟩)
  | none => .error (.noThen c.position)

/-- Takes `count` operands off the front of a stretch. -/
def Stretch.operands (c : Stretch) : Nat → Except CodeFault (List String × Stretch)
  | 0 => .ok ([], c)
  | count + 1 =>
    match c.code with
    | .operand text :: code =>
      match Stretch.operands ⟨c.position + 1, code⟩ count with
      | .ok (texts, rest) => .ok (text :: texts, rest)
      | .error e => .error e
    | _ => .error (.missingOperand c.position)

/-- Takes operands off the front of some code up to a colon, which is taken too. -/
def untilColon? : Code → Option (List String × Code)
  | .op .colon :: code => some ([], code)
  | .operand text :: code =>
    match untilColon? code with
    | some (texts, rest) => some (text :: texts, rest)
    | none => none
  | _ => none

/-- Takes a function off the front of a stretch, after its opening opcode: the name, the parameters
and the body. -/
def Stretch.function (c : Stretch) :
    Except CodeFault ((String × List String × Stretch) × Stretch) :=
  match c.code with
  | .operand name :: code =>
    match untilColon? code with
    | none => .error (.badHeader name)
    | some (params, code) =>
      match Stretch.block .function ⟨c.position + params.length + 2, code⟩ with
      | .error e => .error e
      | .ok (body, rest) => .ok ((name, params, body), rest)
  | _ => .error (.missingOperand c.position)

theorem Stretch.length_block_lt {family : Family} {c inside rest : Stretch}
    (h : c.block family = .ok (inside, rest)) : rest.code.length < c.code.length := by
  unfold Stretch.block at h
  split at h
  · next hcut =>
    simp only [Except.ok.injEq, Prod.mk.injEq] at h
    simp only [← h.2, cutBlock_eq_append hcut, List.length_append, List.length_cons]
    omega
  · simp at h

theorem Stretch.length_condition_lt {c inside rest : Stretch}
    (h : c.condition = .ok (inside, rest)) : rest.code.length < c.code.length := by
  unfold Stretch.condition at h
  split at h
  · next hcut =>
    simp only [Except.ok.injEq, Prod.mk.injEq] at h
    simp only [← h.2, cutCondition_eq_append hcut, List.length_append, List.length_cons]
    omega
  · simp at h

/-- Takes the rest of a chain of branches off the front of a stretch. -/
def Stretch.skipChain (c : Stretch) : Except CodeFault Stretch :=
  match _h : c.code with
  | .op .elifOp :: code =>
    match _hc : Stretch.condition ⟨c.position + 1, code⟩ with
    | .error e => .error e
    | .ok (_, afterThen) =>
      match _hb : afterThen.block .branch with
      | .error e => .error e
      | .ok (_, rest) => rest.skipChain
  | .op .elseOp :: code =>
    match Stretch.block .branch ⟨c.position + 1, code⟩ with
    | .error e => .error e
    | .ok (_, rest) => .ok rest
  | _ => .ok c
termination_by c.code.length
decreasing_by
  have hlt := Stretch.length_condition_lt _hc
  have hlt' := Stretch.length_block_lt _hb
  simp only [_h, List.length_cons] at *
  omega

end GemLang.Bytecode
