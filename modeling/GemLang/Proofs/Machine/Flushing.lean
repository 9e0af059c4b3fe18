import GemLang.Proofs.Machine.Steps

/-!
# The flush after a run

When the run of a program is over, the writer is flushed, and only then is it looked at how the run
ended. If the writer fails, its fault is what the program ends with, and two things are lost
(`evaluate_of_flushFails`). An error that the run had stopped with is not reported. And the result
of `main`, if the run came to one, is not dropped: it is left on the stack of the outermost scope.
-/

namespace GemLang

open Bytecode
open Exec

namespace Exec

variable {α : Type}

def machineOf : Exec.Result α → Machine
  | .ok _ m | .error _ m => m

theorem machineOf_mapMachine (f : Machine → Machine) (r : Exec.Result α) :
    machineOf (mapMachine f r) = f (machineOf r) := by
  cases r <;> rfl

/-! ## Asking and flushing -/

section

variable {x : Exec α} {m : Machine} {reason : String}

theorem flushed_of_not_settled (h : ¬Settled (x m)) : flushed x m = x m := by
  unfold flushed
  cases hx : x m with
  | ok a m' =>
    rw [hx] at h
    exact absurd trivial h
  | error e m' =>
    cases e with
    | error e =>
      rw [hx] at h
      exact absurd trivial h
    | outOfSteps => rfl

theorem ask_apply (request : Writer.Request) (m : Machine) : ask request m =
    match m.fault? request with
    | none => .ok () (m.asked request)
    | some reason => .error (.error (.output reason)) (m.asked request) := rfl

theorem flushed_apply (h : Settled (x m)) : flushed x m =
    match (machineOf (x m)).fault? .flush with
    | none => mapMachine (·.asked .flush) (x m)
    | some reason => .error (.error (.output reason)) ((machineOf (x m)).asked .flush) := by
  unfold flushed
  cases hx : x m with
  | ok a m' =>
    dsimp only [machineOf]
    rw [bind_apply, ask_apply]
    cases m'.fault? .flush <;> rfl
  | error e m' =>
    rw [hx] at h
    cases e with
    | error e =>
      dsimp only [machineOf]
      rw [bind_apply, ask_apply]
      cases m'.fault? .flush <;> rfl
    | outOfSteps => exact h.elim

theorem flushed_of_none (hsettled : Settled (x m)) (h : (machineOf (x m)).fault? .flush = none) :
    flushed x m = mapMachine (·.asked .flush) (x m) := by
  rw [flushed_apply hsettled, h]

theorem flushed_of_some (hsettled : Settled (x m))
    (h : (machineOf (x m)).fault? .flush = some reason) :
    flushed x m = .error (.error (.output reason)) ((machineOf (x m)).asked .flush) := by
  rw [flushed_apply hsettled, h]

end

end Exec

/-- A writer that takes every text and fails to flush. -/
def Writer.unflushable : Writer where
  fault? _
    | .write _ => none
    | .flush => some "no space left on device"

/-- Why the writer failed, if an operation ends with its fault, and what is on the stack of the
outermost scope then. -/
def Exec.leftAtFault? {α : Type} (x : Exec α) (m : Machine) : Option (String × List Value) :=
  match x m with
  | .error (.error (.output reason)) m' => some (reason, m'.heap.stack Machine.root)
  | _ => none

/-! ## Programs -/

/-- Runs code as the code of a program is run. -/
def evaluateCode (fuel : Nat) (code : Code) : Exec Unit := do
  modify ({ · with marks := [] })
  match ← flushed (run fuel Machine.root ⟨0, code⟩) with
  | some .broke | some .continued => fail (.type (.escapedLoop none))
  | some (.returned _) | none =>
    let _ ← popOrNull Machine.root

section

variable {fuel : Nat} {code : Code} {m m' : Machine}

theorem evaluateCode_of_none (hrun : run fuel Machine.root ⟨0, code⟩ { m with marks := [] } =
      .ok none m') (hflush : m'.fault? .flush = none) :
    evaluateCode fuel code m = (do let _ ← popOrNull Machine.root) (m'.asked .flush) := by
  have hflushed : flushed (run fuel Machine.root ⟨0, code⟩) { m with marks := [] } =
      .ok none (m'.asked .flush) := by
    rw [flushed_of_none, hrun]
    · rfl
    · rw [hrun]
      trivial
    · rw [hrun]
      exact hflush
  change (flushed (run fuel Machine.root ⟨0, code⟩) >>= _) { m with marks := [] } = _
  rw [bind_apply, hflushed]

theorem evaluateCode_of_flushed {e : Stop}
    (h : flushed (run fuel Machine.root ⟨0, code⟩) { m with marks := [] } = .error e m') :
    evaluateCode fuel code m = .error e m' := by
  change (flushed (run fuel Machine.root ⟨0, code⟩) >>= _) { m with marks := [] } = _
  rw [bind_apply, h]

/-- A run that stops with an error is followed by one, if not by the same. -/
theorem exists_evaluateCode_of_error {e : Error}
    (hrun : run fuel Machine.root ⟨0, code⟩ { m with marks := [] } = .error (.error e) m') :
    ∃ e', evaluateCode fuel code m = .error (.error e') (m'.asked .flush) := by
  have hflushed : ∃ e', flushed (run fuel Machine.root ⟨0, code⟩) { m with marks := [] } =
      .error (.error e') (m'.asked .flush) := by
    rw [flushed_apply] <;> rw [hrun]
    · split
      · exact ⟨e, rfl⟩
      · next reason _ => exact ⟨.output reason, rfl⟩
    · trivial
  obtain ⟨e', hflushed⟩ := hflushed
  exact ⟨e', evaluateCode_of_flushed hflushed⟩

theorem evaluateCode_of_outOfSteps
    (hrun : run fuel Machine.root ⟨0, code⟩ { m with marks := [] } = .error .outOfSteps m') :
    evaluateCode fuel code m = .error .outOfSteps m' := by
  refine evaluateCode_of_flushed ?_
  rw [flushed_of_not_settled, hrun]
  rw [hrun]
  exact id

end

theorem evaluate_of_decode {text : String} {code : Code}
    (h : decode (text ++ callMain) = .ok code) (fuel : Nat) :
    evaluate fuel text = evaluateCode fuel code := by
  unfold evaluate
  rw [h]
  rfl

theorem evaluate_of_decode_error {text : String} {fault : CodeFault}
    (h : decode (text ++ callMain) = .error fault) (fuel : Nat) (m : Machine) :
    evaluate fuel text m = .error (.error (.malformed fault)) { m with marks := [] } := by
  unfold evaluate
  rw [h]
  rfl

/-- The run of a program is over and ended as `r`, and the writer then fails to flush. -/
structure FlushFails (fuel : Nat) (text : String) (m : Machine)
    (r : Exec.Result (Option Signal)) : Prop where
  exists_code : ∃ code, decode (text ++ callMain) = .ok code ∧
    run fuel Machine.root ⟨0, code⟩ { m with marks := [] } = r
  settled : Settled r
  exists_reason : ∃ reason, (machineOf r).fault? .flush = some reason

/-- **The fault of the writer takes the place of how the run ended**, and the machine is left as the
run left it. -/
theorem evaluate_of_flushFails {fuel : Nat} {text : String} {m : Machine}
    {r : Exec.Result (Option Signal)} (h : FlushFails fuel text m r) :
    ∃ reason, evaluate fuel text m =
      .error (.error (.output reason)) ((machineOf r).asked .flush) := by
  obtain ⟨⟨code, hdecode, rfl⟩, hsettled, reason, hreason⟩ := h
  refine ⟨reason, ?_⟩
  rw [evaluate_of_decode hdecode]
  exact evaluateCode_of_flushed (flushed_of_some hsettled hreason)

end GemLang
