import GemLang.Proofs.Machine.Plain
import GemLang.Proofs.Machine.Running

/-!
# Runs keep what there is

Code that is well nested only makes functions whose bodies it encloses. If these bodies are as they
should be (`B`), and every function already in the machine has such a body, then that stays so
through any run, along with the stacks of the scopes that the run does not work in.

What a run is assumed to be given is gathered in `Discipline`. It is used twice: with the operands
of compiled code known to be usable, where no run finds a fault of the code, and without.
-/

namespace GemLang

open Bytecode
open Exec

/-- Bodies that satisfy `B` are well nested, with plain instructions that satisfy `P`; and stopping
in one of these, or for another reason than a fault of the code, is covered by `E`. -/
structure Discipline (P : Opcode → List String → Prop) (B : Code → Prop) (E : Stop → Prop) :
    Prop where
  body {c : Code} : B c → WellNested P B .whole c
  plain {op : Opcode} {operands : List String} {e : Stop} :
    P op operands → (Runnable op operands → NotMalformed e) → E e
  other {e : Stop} : NotMalformed e → E e

def ScriptFunction.HasBody (B : Code → Prop) (f : ScriptFunction) : Prop := B f.body.code

/-- What control left by holds only functions that satisfy `F`. -/
def Signal.All (F : ScriptFunction → Prop) : Option Signal → Prop
  | some (.returned v) => v.All F
  | _ => True

variable {P : Opcode → List String → Prop} {B : Code → Prop} {E : Stop → Prop}
  {F : ScriptFunction → Prop} {T : Prop} {m₀ : Machine} {s t : Nat}

namespace Exec

theorem Keeps.disciplined (hd : Discipline P B E) {α : Type} {Q : α → Prop} {x : Exec α}
    (h : KeepsWell F T m₀ s Q x) : Keeps F T m₀ s E Q x :=
  h.mono (fun _ ↦ hd.other) fun _ hq ↦ hq

/-! ## Calls of functions of the program -/

theorem keeps_bindParams {caller : Nat} (hcaller : m₀.IsOpen s caller) (frame provided : Nat)
    (params : List String) :
    KeepsWell F T m₀ s (fun _ ↦ True) (bindParams caller frame provided params) := by
  induction params generalizing provided with
  | nil =>
    cases provided <;> exact .pure trivial
  | cons param params ih =>
    cases provided with
    | zero => exact (keeps_declare frame param Value.all_null).bind fun _ _ ↦ ih 0
    | succ provided =>
      refine (keeps_pop hcaller).bind fun v hv ↦ ?_
      exact (keeps_declare frame param hv).bind fun _ _ ↦ ih provided

theorem keeps_enterFunction (f : ScriptFunction) {caller : Nat} (hcaller : m₀.IsOpen s caller)
    (marked : Option Nat) : KeepsWell F T m₀ s (m₀.IsOpen s) (enterFunction f caller marked) := by
  refine (keeps_newScope f.home).bind fun frame hframe ↦ ?_
  refine (keeps_depth caller).bind fun depth _ ↦ ?_
  refine (keeps_bindParams hcaller frame _ f.params).bind fun _ _ ↦ ?_
  cases marked with
  | some count => exact (keeps_takeTop hcaller _).bind fun _ _ ↦ .pure hframe
  | none => exact .pure hframe

theorem keeps_callResult (f : ScriptFunction) {frame : Nat} (hframe : m₀.IsOpen s frame)
    {left : Option Signal} (hleft : Signal.All F left) :
    KeepsWell F T m₀ s (Value.All F) (callResult f frame left) := by
  match left with
  | some (.returned v) => exact .pure hleft
  | none => exact keeps_popOrNull hframe
  | some .broke | some .continued => exact .fail trivial

theorem Keeps.proceed {next : Exec (Option Signal)} (hnext : Keeps F T m₀ s E (Signal.All F) next)
    {left : Option Signal} (hleft : Signal.All F left) :
    Keeps F T m₀ s E (Signal.All F) (proceed next left) := by
  cases left with
  | some signal => exact .pure hleft
  | none => exact hnext

end Exec

/-! ## Runs -/

/-- Runs with a number of steps keep that all functions have bodies that satisfy `B`. -/
structure RunsKeep (P : Opcode → List String → Prop) (B : Code → Prop) (E : Stop → Prop)
    (fuel : Nat) : Prop where
  run {m₀ : Machine} {s t : Nat} (ht : m₀.IsOpen s t) (position : Nat) {c : Code}
    (hc : WellNested P B .whole c) :
    Keeps (·.HasBody B) False m₀ s E (Signal.All (·.HasBody B)) (run fuel t ⟨position, c⟩)
  branch {m₀ : Machine} {s t : Nat} (ht : m₀.IsOpen s t) (position : Nat) {c : Code}
    (hc : IsBranches P B c) :
    Keeps (·.HasBody B) False m₀ s E (fun r ↦ Signal.All (·.HasBody B) (leftBy r))
      (branch fuel t ⟨position, c⟩)
  iterate {m₀ : Machine} {s t : Nat} (ht : m₀.IsOpen s t) (position : Nat) {c : Code}
    (hc : WellNested P B .whole c) :
    Keeps (·.HasBody B) False m₀ s E (Signal.All (·.HasBody B)) (iterate fuel t ⟨position, c⟩)
  call {m₀ : Machine} {s t : Nat} (ht : m₀.IsOpen s t) :
    Keeps (·.HasBody B) False m₀ s E (fun _ ↦ True) (call fuel t)
  callScript {m₀ : Machine} {s t : Nat} (ht : m₀.IsOpen s t) {f : ScriptFunction}
    (hf : f.HasBody B) (marked : Option Nat) :
    Keeps (·.HasBody B) False m₀ s E (Value.All (·.HasBody B)) (callScript fuel f t marked)

namespace RunsKeep

variable {fuel : Nat}

theorem keeps_outOfSteps (hd : Discipline P B E) {α : Type} {Q : α → Prop} :
    Keeps F T m₀ s E Q outOfSteps :=
  ⟨fun hm ↦ .error ⟨hm, hd.other trivial⟩⟩

theorem zero (hd : Discipline P B E) : RunsKeep P B E 0 where
  run _ _ _ _ := by
    rw [run_zero]
    exact keeps_outOfSteps hd
  branch _ _ _ _ := by
    rw [GemLang.branch]
    exact keeps_outOfSteps hd
  iterate _ _ _ _ := by
    rw [GemLang.iterate]
    exact keeps_outOfSteps hd
  call _ := by
    rw [GemLang.call]
    exact keeps_outOfSteps hd
  callScript _ _ _ _ := by
    rw [GemLang.callScript]
    exact keeps_outOfSteps hd

theorem run_succ (hd : Discipline P B E) (ih : RunsKeep P B E fuel) (ht : m₀.IsOpen s t)
    (position : Nat) {c : Code} (hc : WellNested P B .whole c) :
    Keeps (·.HasBody B) False m₀ s E (Signal.All (·.HasBody B))
      (GemLang.run (fuel + 1) t ⟨position, c⟩) := by
  cases hc with
  | nil =>
    rw [run_nil]
    exact .pure trivial
  | plain hrole hcount hop hrest =>
    rw [run_plain hrole hcount]
    have hperform := (keeps_perform (F := (·.HasBody B)) ht hrole hcount False.elim).mono
      (fun _ ↦ hd.plain hop) fun _ hq ↦ hq
    exact hperform.bind fun _ _ ↦ ih.run ht _ hrest
  | @jump op rest hjump hrest =>
    cases op <;> simp [Opcode.isJump, Opcode.role] at hjump
    · rw [run_call]
      exact (ih.call ht).bind fun _ _ ↦ ih.run ht _ hrest
    · rw [run_leave]
      exact ((keeps_popOrNull ht).disciplined hd).bind fun v hv ↦ .pure hv
    · rw [run_breakLoop]
      exact .pure trivial
    · rw [run_nextPass]
      exact .pure trivial
  | @branch condition body chain rest hcondition hbody hchain hrest =>
    have hbranches : IsBranches P B _ := ⟨hcondition, hbody, hchain⟩
    have hrun := run_branch hbranches fuel t position hrest.not_continues
    simp only [List.append_assoc, List.cons_append] at hrun
    rw [hrun]
    refine ((keeps_newScope t).disciplined hd).bind fun block hblock ↦ ?_
    exact (ih.branch hblock _ hbranches).bind fun r hr ↦ (ih.run ht _ hrest).proceed hr
  | loop hbody hrest =>
    rw [run_loop hbody]
    refine ((keeps_newScope t).disciplined hd).bind fun block hblock ↦ ?_
    exact (ih.iterate hblock _ hbody).bind fun left hleft ↦ (ih.run ht _ hrest).proceed hleft
  | function hbody hfunction hrest =>
    rw [run_function hbody]
    refine (keeps_freshIdentity.disciplined hd).bind fun identity _ ↦ ?_
    refine Keeps.bind (Keeps.disciplined hd (keeps_push ht ?_)) fun _ _ ↦ ih.run ht _ hrest
    exact hfunction

theorem branchOn (ih : RunsKeep P B E fuel) (ht : m₀.IsOpen s t)
    (position : Nat) {chain : Code} (hchain : WellNested P B .chain chain) :
    Keeps (·.HasBody B) False m₀ s E (fun r ↦ Signal.All (·.HasBody B) (leftBy r))
      (GemLang.branchOn fuel t ⟨position, chain⟩) := by
  cases hchain with
  | chainEnd => exact .pure trivial
  | chainElse hbody =>
    rw [branchOn_else hbody]
    refine (ih.run ht _ hbody).bind fun left hleft ↦ .pure ?_
    cases left <;> exact hleft
  | chainElif hcondition hbody hchain =>
    rw [branchOn_elif]
    exact ih.branch ht _ ⟨hcondition, hbody, hchain⟩

theorem branch_succ (hd : Discipline P B E) (ih : RunsKeep P B E fuel) (ht : m₀.IsOpen s t)
    (position : Nat) {c : Code} (hc : IsBranches P B c) :
    Keeps (·.HasBody B) False m₀ s E (fun r ↦ Signal.All (·.HasBody B) (leftBy r))
      (GemLang.branch (fuel + 1) t ⟨position, c⟩) := by
  obtain ⟨hcondition, hbody, hchain⟩ := hc
  have hbranch := branch_eq hcondition hbody hchain fuel t position not_continues_nil
  rw [List.append_nil] at hbranch
  rw [hbranch]
  refine (ih.run ht _ hcondition).bind fun left hleft ↦ ?_
  cases left with
  | some signal => exact .pure hleft
  | none =>
    refine ((keeps_pop ht).disciplined hd).bind fun v _ ↦ ?_
    split
    · exact ih.branchOn ht _ hchain
    · refine (ih.run ht _ hbody).bind fun left hleft ↦ .pure ?_
      cases left <;> exact hleft

theorem iterate_succ (ih : RunsKeep P B E fuel) (ht : m₀.IsOpen s t) (position : Nat) {c : Code}
    (hc : WellNested P B .whole c) :
    Keeps (·.HasBody B) False m₀ s E (Signal.All (·.HasBody B))
      (GemLang.iterate (fuel + 1) t ⟨position, c⟩) := by
  rw [GemLang.iterate]
  refine (ih.run ht _ hc).bind fun left hleft ↦ ?_
  match left with
  | none | some .continued => exact ih.iterate ht _ hc
  | some .broke => exact .pure trivial
  | some (.returned v) => exact .pure hleft

theorem call_succ (hd : Discipline P B E) (ih : RunsKeep P B E fuel) (ht : m₀.IsOpen s t) :
    Keeps (·.HasBody B) False m₀ s E (fun _ ↦ True) (GemLang.call (fuel + 1) t) := by
  rw [GemLang.call]
  refine ((keeps_pop ht).disciplined hd).bind fun callee hcallee ↦ ?_
  refine ((keeps_argumentCount id t).disciplined hd).bind fun marked _ ↦ ?_
  split
  · next f => exact (keeps_callNative ht f marked).disciplined hd
  · next f =>
    exact (ih.callScript ht hcallee marked).bind fun v hv ↦ (keeps_push ht hv).disciplined hd
  · next f => exact (keeps_callForeign ht f marked).disciplined hd
  · exact .fail (hd.other trivial)

theorem callScript_succ (hd : Discipline P B E) (ih : RunsKeep P B E fuel) (ht : m₀.IsOpen s t)
    {f : ScriptFunction} (hf : f.HasBody B) (marked : Option Nat) :
    Keeps (·.HasBody B) False m₀ s E (Value.All (·.HasBody B))
      (GemLang.callScript (fuel + 1) f t marked) := by
  rw [GemLang.callScript]
  refine (keeps_get.disciplined hd).bind fun m _ ↦ ?_
  split
  · exact .fail (hd.other trivial)
  · refine ((keeps_enterFunction f ht marked).disciplined hd).bind fun frame hframe ↦ ?_
    have hdeeper : Machine.IsOpen { m₀ with callDepth := m₀.callDepth + 1 } s frame := hframe
    refine (ih.run hdeeper f.body.position (hd.body hf)).counted.bind fun left hleft ↦ ?_
    exact (keeps_callResult f hframe hleft).disciplined hd

end RunsKeep

/-- **Runs of well-nested code work in their scope**, and all functions keep bodies that satisfy
`B`, however many steps a run takes and however it ends. -/
theorem runsKeep (hd : Discipline P B E) (fuel : Nat) : RunsKeep P B E fuel := by
  induction fuel with
  | zero => exact .zero hd
  | succ fuel ih =>
    exact ⟨ih.run_succ hd, ih.branch_succ hd, ih.iterate_succ, ih.call_succ hd,
      ih.callScript_succ hd⟩

end GemLang
