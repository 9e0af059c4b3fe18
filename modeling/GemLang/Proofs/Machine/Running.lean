import GemLang.Machine.Run
import GemLang.Proofs.Bytecode.Nesting

/-!
# Running well-nested code

How a run goes through well-nested code, one equation for each kind of instruction. The search for
the ends of blocks is gone from them: where a block ends is known (`Proofs/Bytecode/Nesting.lean`).

From these follows that code runs in parts (`run_append`): first the one, and if control came to its
end, then the other with what is left of the steps.
-/

namespace GemLang

open Bytecode
open Exec

variable {P : Opcode → List String → Prop} {B : Code → Prop} {fuel : Nat} {s : ScopeId}

@[simp] theorem Exec.checkCode_ok {α : Type} (a : α) : checkCode (.ok a) = pure a := rfl

/-- Goes on with more code, unless control has left by a signal. -/
def proceed (next : Exec (Option Signal)) : Option Signal → Exec (Option Signal)
  | some signal => pure (some signal)
  | none => next

@[simp] theorem proceed_some (next : Exec (Option Signal)) (signal : Signal) :
    proceed next (some signal) = pure (some signal) := rfl

@[simp] theorem proceed_none (next : Exec (Option Signal)) : proceed next none = next := rfl

theorem proceed_assoc (x y : Exec (Option Signal)) (left : Option Signal) :
    proceed x left >>= proceed y = proceed (x >>= proceed y) left := by
  cases left <;> rfl

/-! ## Instructions -/

theorem run_zero (s : ScopeId) (c : Stretch) : run 0 s c = outOfSteps := by rw [run]

theorem run_nil (fuel : Nat) (s : ScopeId) (position : Nat) :
    run (fuel + 1) s ⟨position, []⟩ = pure none := by rw [run]

theorem run_plain {op : Opcode} {operands : List String} (hrole : op.role = .plain)
    (hcount : operands.length = op.operandCount) (fuel : Nat) (s : ScopeId) (position : Nat)
    (rest : Code) :
    run (fuel + 1) s ⟨position, .op op :: (operands.map .operand ++ rest)⟩ = (do
      perform s op operands
      run fuel s ⟨position + 1 + operands.length, rest⟩) := by
  rw [run]
  simp only [hrole, ← hcount, operands_append, checkCode_ok, pure_bind]

theorem run_call (fuel : Nat) (s : ScopeId) (position : Nat) (rest : Code) :
    run (fuel + 1) s ⟨position, .op .call :: rest⟩ = (do
      call fuel s
      run fuel s ⟨position + 1, rest⟩) := by
  rw [run]
  rfl

theorem run_leave (fuel : Nat) (s : ScopeId) (position : Nat) (rest : Code) :
    run (fuel + 1) s ⟨position, .op .returnOp :: rest⟩ =
      (do return some (.returned (← popOrNull s))) := by
  rw [run]
  rfl

theorem run_breakLoop (fuel : Nat) (s : ScopeId) (position : Nat) (rest : Code) :
    run (fuel + 1) s ⟨position, .op .breakOp :: rest⟩ = pure (some .broke) := by
  rw [run]
  rfl

theorem run_nextPass (fuel : Nat) (s : ScopeId) (position : Nat) (rest : Code) :
    run (fuel + 1) s ⟨position, .op .continueOp :: rest⟩ = pure (some .continued) := by
  rw [run]
  rfl

theorem run_loop {body : Code} (hbody : WellNested P B .whole body) (fuel : Nat) (s : ScopeId)
    (position : Nat) (rest : Code) :
    run (fuel + 1) s ⟨position, .op .loop :: (body ++ Atom.op .endLoop :: rest)⟩ = (do
      let block ← newScope s
      let left ← iterate fuel block ⟨position + 1, body⟩
      proceed (run fuel s ⟨position + 1 + body.length + 1, rest⟩) left) := by
  have hcut := hbody.block_eq .loop (position + 1) rest
  simp only [Family.close] at hcut
  rw [run]
  simp only [Opcode.role, hcut, checkCode_ok, pure_bind]
  rfl

theorem run_function {body : Code} (hbody : WellNested P B .whole body) (fuel : Nat) (s : ScopeId)
    (position : Nat) (name : String) (params : List String) (rest : Code) :
    run (fuel + 1) s ⟨position, .op .function :: .operand name ::
        (params.map .operand ++ Atom.op .colon :: (body ++ Atom.op .endFunction :: rest))⟩ = (do
      let identity ← freshIdentity
      push s (.script ⟨identity, name, params, ⟨position + 1 + params.length + 2, body⟩, s⟩)
      run fuel s ⟨position + 1 + params.length + 2 + body.length + 1, rest⟩) := by
  have hcut := hbody.function_eq (position + 1) name params rest
  rw [run]
  simp only [Opcode.role, makeFunction, hcut, checkCode_ok, pure_bind, bind_assoc]

/-! ## Branches -/

/-- What a chain of branches comes to: the signal that control left it by, or the code after it. -/
def chainResult (c : Stretch) : Option Signal → Except Signal Stretch
  | some signal => .error signal
  | none => .ok c

/-- A chain of branches from a condition on. -/
inductive IsBranches (P : Opcode → List String → Prop) (B : Code → Prop) : Code → Prop where
  | intro {condition body chain : Code} (hcondition : WellNested P B .whole condition)
      (hbody : WellNested P B .whole body) (hchain : WellNested P B .chain chain) :
      IsBranches P B (condition ++ Atom.op .thenOp :: (body ++ Atom.op .endIf :: chain))

/-- Runs what follows a branch whose condition did not hold. -/
def branchOn (fuel : Nat) (block : ScopeId) (rest : Stretch) : Exec (Except Signal Stretch) :=
  match rest.code with
  | .op .elifOp :: code => branch fuel block ⟨rest.position + 1, code⟩
  | .op .elseOp :: code => do
    let (body, rest) ← checkCode (Stretch.block .branch ⟨rest.position + 1, code⟩)
    match ← run fuel block body with
    | some signal => return .error signal
    | none => return .ok rest
  | _ => return .ok rest

theorem branch_eq {condition body chain : Code} (hcondition : WellNested P B .whole condition)
    (hbody : WellNested P B .whole body) (hchain : WellNested P B .chain chain) (fuel : Nat)
    (block : ScopeId) (position : Nat) {rest : Code} (hrest : ¬Continues rest) :
    branch (fuel + 1) block
        ⟨position,
          condition ++ Atom.op .thenOp :: (body ++ Atom.op .endIf :: (chain ++ rest))⟩ = (do
      match ← run fuel block ⟨position, condition⟩ with
      | some signal => return .error signal
      | none =>
        if (← pop block).isFalsy then
          branchOn fuel block
            ⟨position + condition.length + 1 + body.length + 1, chain ++ rest⟩
        else
          return chainResult
            ⟨position + condition.length + 1 + body.length + 1 + chain.length, rest⟩
            (← run fuel block ⟨position + condition.length + 1, body⟩)) := by
  have hcut := hcondition.condition_eq position (body ++ Atom.op .endIf :: (chain ++ rest))
  have hcut' := hbody.block_eq .branch (position + condition.length + 1) (chain ++ rest)
  simp only [Family.close] at hcut'
  have hskip := hchain.skipChain_eq (position + condition.length + 1 + body.length + 1) hrest
  rw [branch]
  simp only [hcut, hcut', hskip, checkCode_ok, pure_bind]
  refine bind_congr fun left ↦ ?_
  cases left with
  | some signal => rfl
  | none =>
    refine bind_congr fun v ↦ ?_
    split
    · rfl
    · refine bind_congr fun left ↦ ?_
      cases left <;> rfl

/-- Past the end of a chain there is nothing more to run. -/
theorem branchOn_of_not_continues (fuel : Nat) (block : ScopeId) {c : Stretch}
    (h : ¬Continues c.code) : branchOn fuel block c = pure (.ok c) := by
  unfold branchOn
  split
  · next heq => exact absurd (.inl (by simp [heq])) h
  · next heq => exact absurd (.inr (by simp [heq])) h
  · rfl

theorem branchOn_elif (fuel : Nat) (block : ScopeId) (position : Nat) (c : Code) :
    branchOn fuel block ⟨position, .op .elifOp :: c⟩ = branch fuel block ⟨position + 1, c⟩ := rfl

theorem branchOn_else {body : Code} (hbody : WellNested P B .whole body) (fuel : Nat)
    (block : ScopeId) (position : Nat) (rest : Code) :
    branchOn fuel block ⟨position, .op .elseOp :: (body ++ Atom.op .endIf :: rest)⟩ = (do
      return chainResult ⟨position + 1 + body.length + 1, rest⟩
        (← run fuel block ⟨position + 1, body⟩)) := by
  have hcut := hbody.block_eq .branch (position + 1) rest
  simp only [Family.close] at hcut
  simp only [branchOn, hcut, checkCode_ok, pure_bind]
  refine bind_congr fun left ↦ ?_
  cases left <;> rfl

/-- Puts the code that follows a chain of branches in place of what was left of the chain. -/
def andThen (c : Stretch) (r : Except Signal Stretch) : Except Signal Stretch := r.map fun _ ↦ c

@[simp] theorem andThen_chainResult (c d : Stretch) (left : Option Signal) :
    andThen c (chainResult d left) = chainResult c left := by
  cases left <;> rfl

/-- What follows a chain of branches is not looked at while the chain runs. -/
theorem branch_append {c : Code} (hc : IsBranches P B c) (fuel : Nat) (block : ScopeId)
    (position : Nat) {rest : Code} (hrest : ¬Continues rest) :
    branch fuel block ⟨position, c ++ rest⟩ = (do
      return andThen ⟨position + c.length, rest⟩ (← branch fuel block ⟨position, c⟩)) := by
  induction fuel generalizing c position with
  | zero =>
    simp only [branch]
    rfl
  | succ fuel ih =>
    obtain ⟨hcondition, hbody, hchain⟩ := hc
    next condition body chain =>
    have hwith := branch_eq hcondition hbody hchain fuel block position hrest
    have hwithout := branch_eq hcondition hbody hchain fuel block position not_continues_nil
    have hlength :
        position + (condition ++ Atom.op .thenOp :: (body ++ Atom.op .endIf :: chain)).length =
          position + condition.length + 1 + body.length + 1 + chain.length := by
      simp only [List.length_append, List.length_cons]
      omega
    generalize hq : position + condition.length + 1 + body.length + 1 = q at hwith hwithout hlength
    rw [List.append_nil] at hwithout
    rw [hlength]
    simp only [List.append_assoc, List.cons_append, hwith, hwithout, bind_assoc]
    refine bind_congr fun left ↦ ?_
    cases left with
    | some signal => rfl
    | none =>
      simp only [bind_assoc]
      refine bind_congr fun v ↦ ?_
      split
      · cases hchain with
        | chainEnd =>
          rw [branchOn_of_not_continues fuel block (by simpa using hrest),
            branchOn_of_not_continues fuel block (by simpa using not_continues_nil)]
          rfl
        | @chainElse body' hbody' =>
          have helse := branchOn_else hbody' fuel block q
          simp only [List.cons_append, List.append_assoc, List.nil_append, helse, bind_assoc,
            pure_bind, andThen_chainResult, List.length_cons, List.length_append, List.length_nil]
          simp only [Nat.add_comm, Nat.add_left_comm]
        | chainElif hcondition' hbody' hchain' =>
          rw [List.cons_append, branchOn_elif, branchOn_elif, ih ⟨hcondition', hbody', hchain'⟩]
          simp only [List.length_cons, Nat.add_assoc, Nat.add_comm]
      · simp only [bind_assoc, pure_bind, andThen_chainResult]

/-- How control left a chain of branches. -/
def leftBy : Except Signal Stretch → Option Signal
  | .error signal => some signal
  | .ok _ => none

/-- A conditional is run in a scope of its own; then comes what follows it. -/
theorem run_branch {c : Code} (hc : IsBranches P B c) (fuel : Nat) (s : ScopeId) (position : Nat)
    {rest : Code} (hrest : ¬Continues rest) :
    run (fuel + 1) s ⟨position, .op .ifOp :: (c ++ rest)⟩ = (do
      let block ← newScope s
      let r ← branch fuel block ⟨position + 1, c⟩
      proceed (run fuel s ⟨position + 1 + c.length, rest⟩) (leftBy r)) := by
  rw [run]
  simp only [Opcode.role, branch_append hc fuel _ (position + 1) hrest, bind_assoc, pure_bind]
  refine bind_congr fun block ↦ bind_congr fun r ↦ ?_
  cases r <;> rfl

/-! ## Code in parts -/

theorem not_continues_append {a b : Code} (ha : WellNested P B .whole a) (hb : ¬Continues b) :
    ¬Continues (a ++ b) := by
  have h := ha.not_continues
  cases a with
  | nil => exact hb
  | cons atom a => simpa [Continues] using h

/-- **Code runs in parts**: control that comes to the end of the first part goes on with the
second. The first part takes some of the steps, always the same number. -/
theorem run_append {a b : Code} (ha : WellNested P B .whole a) (hb : ¬Continues b) :
    ∃ taken, ∀ fuel s position, run fuel s ⟨position, a ++ b⟩ = (do
      let left ← run fuel s ⟨position, a⟩
      proceed (run (fuel - taken) s ⟨position + a.length, b⟩) left) := by
  have hzero (s position : Nat) (a : Code) (c : Stretch) : run 0 s ⟨position, a ++ b⟩ = (do
      let left ← run 0 s ⟨position, a⟩
      proceed (run 0 s c) left) := by
    simp only [run_zero]
    rfl
  generalize hpart : Part.whole = part at ha
  induction ha with
  | nil =>
    refine ⟨0, fun fuel s position ↦ ?_⟩
    cases fuel with
    | zero => exact hzero s position [] _
    | succ fuel =>
      rw [run_nil]
      rfl
  | @plain op operands rest hrole hcount _ _ ih =>
    obtain ⟨taken, h⟩ := ih rfl
    refine ⟨taken + 1, fun fuel s position ↦ ?_⟩
    rcases fuel with _ | fuel
    · rw [Nat.zero_sub]
      exact hzero s position _ _
    simp only [List.cons_append, List.append_assoc, run_plain hrole hcount, h, bind_assoc,
      Nat.add_sub_add_right, List.length_cons, List.length_append, List.length_map, Nat.add_assoc,
      Nat.add_comm 1]
  | @jump op rest hjump _ ih =>
    obtain ⟨taken, h⟩ := ih rfl
    refine ⟨taken + 1, fun fuel s position ↦ ?_⟩
    rcases fuel with _ | fuel
    · rw [Nat.zero_sub]
      exact hzero s position _ _
    rw [List.cons_append, Nat.add_sub_add_right, List.length_cons, Nat.add_comm rest.length 1,
      ← Nat.add_assoc]
    cases op <;> simp [Opcode.isJump, Opcode.role] at hjump
    · simp only [run_call, h, bind_assoc]
    · simp only [run_leave, bind_assoc, pure_bind, proceed_some]
    · simp only [run_breakLoop, pure_bind, proceed_some]
    · simp only [run_nextPass, pure_bind, proceed_some]
  | @branch condition body chain rest hcondition hbody hchain hrest _ _ _ ih =>
    obtain ⟨taken, h⟩ := ih rfl
    refine ⟨taken + 1, fun fuel s position ↦ ?_⟩
    rcases fuel with _ | fuel
    · rw [Nat.zero_sub]
      exact hzero s position _ _
    have hc : IsBranches P B (condition ++ Atom.op .thenOp :: (body ++ Atom.op .endIf :: chain)) :=
      ⟨hcondition, hbody, hchain⟩
    have halone := run_branch hc fuel s position hrest.not_continues
    have hmore := run_branch hc fuel s position (not_continues_append hrest hb)
    have hlength : position + 1 +
        (condition ++ Atom.op .thenOp :: (body ++ Atom.op .endIf :: chain)).length + rest.length =
        position + (.op .ifOp :: (condition ++ Atom.op .thenOp ::
          (body ++ Atom.op .endIf :: (chain ++ rest)))).length := by
      simp only [List.length_append, List.length_cons]
      omega
    rw [← hlength]
    generalize position + 1 + _ = next at halone hmore
    simp only [List.append_assoc, List.cons_append] at halone hmore ⊢
    simp only [halone, hmore, h, bind_assoc, proceed_assoc, Nat.add_sub_add_right]
  | @loop body rest hbody _ _ ih =>
    obtain ⟨taken, h⟩ := ih rfl
    refine ⟨taken + 1, fun fuel s position ↦ ?_⟩
    rcases fuel with _ | fuel
    · rw [Nat.zero_sub]
      exact hzero s position _ _
    have hlength : position + 1 + body.length + 1 + rest.length =
        position + (.op .loop :: (body ++ Atom.op .endLoop :: rest)).length := by
      simp only [List.length_append, List.length_cons]
      omega
    rw [← hlength]
    simp only [List.cons_append, List.append_assoc, run_loop hbody, h, bind_assoc, proceed_assoc,
      Nat.add_sub_add_right]
  | @function name params body rest hbody _ _ _ ih =>
    obtain ⟨taken, h⟩ := ih rfl
    refine ⟨taken + 1, fun fuel s position ↦ ?_⟩
    rcases fuel with _ | fuel
    · rw [Nat.zero_sub]
      exact hzero s position _ _
    have hlength : position + 1 + params.length + 2 + body.length + 1 + rest.length =
        position + (.op .function :: .operand name :: (params.map .operand ++
          Atom.op .colon :: (body ++ Atom.op .endFunction :: rest))).length := by
      simp only [List.length_append, List.length_cons, List.length_map]
      omega
    rw [← hlength]
    simp only [List.cons_append, List.append_assoc, run_function hbody, h, bind_assoc,
      Nat.add_sub_add_right]
  | chainEnd => cases hpart
  | chainElse => cases hpart
  | chainElif => cases hpart

end GemLang
