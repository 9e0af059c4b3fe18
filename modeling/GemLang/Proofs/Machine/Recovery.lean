import GemLang.Proofs.Machine.Flushing
import GemLang.Proofs.Machine.Rules
import GemLang.Proofs.Machine.Session
import GemLang.Proofs.Machine.Structured

/-!
# What a run leaves behind

A run may stop anywhere: in the middle of an instruction, inside loops and calls, with values on
many stacks. What it left on those stacks is out of reach afterwards, since each belongs to a scope
that was made for a block or a call. Only the outermost scope is used again, by the next program.

That is why a failed run does no harm to the runs after it. Work in a scope, of any code whatever,
leaves the stacks of older scopes and the count of calls under way as they were (`tame_run`). A
compiled program does three things in the outermost scope, namely making its `main`, loading it and
calling it, and at each of them the values that were there before are still below.

There is one exception. If all goes well, but the writer fails to flush after the run, then the
result of `main` stays on the stack of the outermost scope (`evaluate_recovers`).
-/

namespace GemLang

open Bytecode
open Exec

/-! ## Any code works in its scope -/

/-- An operation is work in the scope `s`, with nothing known of the functions in the machine, and
may stop for any reason. -/
abbrev Exec.Tame (m₀ : Machine) (s : Nat) {α : Type} (Q : α → Prop) (x : Exec α) : Prop :=
  Keeps (fun _ ↦ True) False m₀ s (fun _ ↦ True) Q x

variable {m₀ : Machine} {s t : Nat}

theorem all_true (v : Value) : v.All fun _ ↦ True := v.all_of_forall fun _ ↦ trivial

theorem Exec.Keeps.tame {α : Type} {E : Stop → Prop} {Q R : α → Prop} {x : Exec α}
    (h : Keeps (fun _ ↦ True) False m₀ s E Q x) (hR : ∀ a, R a) : Tame m₀ s R x :=
  h.mono (fun _ _ ↦ trivial) fun a _ ↦ hR a

/-- Nothing need be known of the scopes that functions come from, since a call works in a new scope.
The judgment is on all machines at once, for while a call is under way it is counted. -/
theorem rules_tame (W : ScopeId → Prop) (s : ScopeId) :
    Rules W (fun _ ↦ True) (fun _ ↦ True)
      fun Q x ↦ ∀ m₀ : Machine, (∀ t, W t ↔ m₀.IsOpen s t) → Tame m₀ s Q x where
  plain _ := trivial
  script _ := trivial
  home _ := trivial
  empty := trivial
  entry _ _ := trivial
  insert _ _ _ := trivial
  erase _ _ := trivial
  makes _ := trivial
  pure ha _ _ := .pure ha
  bind hx hf m₀ hW := (hx m₀ hW).bind fun a ha ↦ hf a ha m₀ hW
  fail _ _ _ := .fail trivial
  outOfSteps _ _ := ⟨fun hm ↦ .error ⟨hm, trivial⟩⟩
  get _ _ := keeps_get.tame fun _ _ _ _ _ ↦ trivial
  newScope _ _ hW := (keeps_newScope _).mono (fun _ _ ↦ trivial) fun t ht ↦ (hW t).mpr ht
  push ht _ _ _ hW := (keeps_push ((hW _).mp ht) (all_true _)).tame fun _ ↦ trivial
  pop ht _ hW := (keeps_pop ((hW _).mp ht)).tame fun _ ↦ trivial
  popOrNull ht _ hW := (keeps_popOrNull ((hW _).mp ht)).tame fun _ ↦ trivial
  takeTop ht count _ hW := (keeps_takeTop ((hW _).mp ht) count).tame fun _ _ _ ↦ trivial
  drain ht _ hW := (keeps_drain ((hW _).mp ht)).tame fun _ ↦ trivial
  declare _ name _ _ _ _ _ := (keeps_declare _ name (all_true _)).tame fun _ ↦ trivial
  lookup _ name _ _ _ := (keeps_lookup _ name).tame fun _ ↦ trivial
  assign _ name _ _ _ _ _ := (keeps_assign _ name (all_true _)).tame fun _ ↦ trivial
  remove _ name _ _ _ := (keeps_remove _ name).tame fun _ ↦ trivial
  ask request _ _ := (keeps_ask request).tame fun _ ↦ trivial
  freshIdentity _ _ := keeps_freshIdentity.tame fun _ ↦ trivial
  addLibrary _ _ _ := ⟨fun hm ↦ .ok ⟨hm.congr rfl rfl rfl rfl rfl fun _ ↦ rfl, trivial⟩⟩
  newIterator _ _ _ :=
    (keeps_newIterator fun p _ ↦ ⟨all_true p.1, all_true p.2⟩).tame fun _ ↦ ⟨trivial, trivial⟩
  nextOfString _ _ _ := (keeps_nextPair _).tame fun _ ↦ ⟨trivial, trivial⟩
  nextOfTable _ _ _ := (keeps_nextPair _).tame fun _ ↦ ⟨trivial, trivial⟩
  mark t _ _ := (keeps_mark id t).tame fun _ ↦ trivial
  argumentCount t _ _ := (keeps_argumentCount id t).tame fun _ ↦ trivial
  limited hx m₀ hW := ⟨fun hm ↦ ((hx m₀ hW).ends hm).limited ⟨hm, trivial⟩⟩
  counted hx m₀ hW := (hx { m₀ with callDepth := m₀.callDepth + 1 } hW).counted

/-- **Runs of any code work in their scope**, whatever functions there are in the machine. -/
theorem tame_run (ht : m₀.IsOpen s t) (fuel : Nat) (c : Stretch) :
    Tame m₀ s (fun _ ↦ True) (run fuel t c) :=
  ((rules_tame (m₀.IsOpen s) s).run fuel ht c m₀ fun _ ↦ Iff.rfl).tame fun _ ↦ trivial

theorem tame_callScript (ht : m₀.IsOpen s t) (fuel : Nat) (f : ScriptFunction)
    (marked : Option Nat) : Tame m₀ s (fun _ ↦ True) (callScript fuel f t marked) :=
  (rules_tame (m₀.IsOpen s) s).callScript fuel trivial ht marked m₀ fun _ ↦ Iff.rfl

theorem tame_evaluate (fuel : Nat) (text : String) (m : Machine) :
    Tame m Machine.root (fun _ ↦ True) (evaluate fuel text) := by
  refine (rules_tame (m.IsOpen Machine.root) Machine.root).evaluate ?_ ?_ (.inl rfl) fuel text m
    fun _ ↦ Iff.rfl
  · exact fun _ _ ↦ ⟨fun hm ↦ .ok ⟨hm.congr rfl rfl rfl rfl rfl False.elim, trivial⟩⟩
  · exact fun hx m₀ hW ↦ (hx m₀ hW).flushed fun _ ↦ trivial

theorem Exec.Tame.ends_within {α : Type} {Q : α → Prop} {x : Exec α} (hx : Tame m₀ s Q x) :
    Ends (fun _ ↦ Machine.Within (fun _ ↦ True) False m₀ s)
      (fun _ ↦ Machine.Within (fun _ ↦ True) False m₀ s) (x m₀) :=
  (hx.ends (.refl m₀.all_true s)).mono (fun _ _ h ↦ h.1) fun _ _ h ↦ h.1

theorem callDepth_callScript (fuel : Nat) (f : ScriptFunction) (caller : ScopeId)
    (marked : Option Nat) (m : Machine) :
    ((callScript fuel f caller marked).stateAfter m).callDepth = m.callDepth := by
  have htame : Tame m caller (fun _ ↦ True) (callScript fuel f caller marked) :=
    tame_callScript (.inl rfl) fuel f marked
  exact (Ends.stateAfter htame.ends_within).callDepth

/-! ## The outermost scope -/

/-- The values `vs` are on the stack of the outermost scope, and `count` calls are under way. -/
structure Machine.Rests (vs : List Value) (count : Nat) (m : Machine) : Prop where
  stack : m.heap.stack Machine.root = vs
  callDepth : m.callDepth = count

/-- A machine at rest between the instructions of a program in the outermost scope, where no call
has started taking arguments. -/
structure Machine.Idle (vs : List Value) (count : Nat) (m : Machine) : Prop
    extends Machine.Rests vs count m where
  exists_root : Machine.root < m.heap.nextScope
  marks : m.marks = []

/-- However a run stops, except for want of steps, the machine is at rest. -/
def StopsAtRest (vs : List Value) (count : Nat) (e : Stop) (m : Machine) : Prop :=
  e ≠ .outOfSteps → m.Rests vs count

variable {vs : List Value} {count : Nat} {m : Machine}

theorem ends_outOfSteps {α : Type} {Q : α → Machine → Prop} :
    Ends Q (StopsAtRest vs count) (outOfSteps m) := by
  refine .error fun hne ↦ ?_
  exact absurd rfl hne

theorem ends_push_root (h : m.Idle vs count) (v : Value) :
    Ends (fun _ m' ↦ m'.Idle (v :: vs) count) (StopsAtRest vs count) (push Machine.root v m) := by
  refine .push (fun _ ↦ ⟨⟨?_, h.callDepth⟩, by simpa using h.exists_root, h.marks⟩)
    fun _ ↦ h.toRests
  rw [← h.stack]
  exact Heap.stack_push_self h.exists_root v

theorem ends_freshIdentity (h : m.Idle vs count) :
    Ends (fun _ m' ↦ m'.Idle vs count) (StopsAtRest vs count) (freshIdentity m) :=
  .ok ⟨⟨h.stack, h.callDepth⟩, h.exists_root, h.marks⟩

theorem ends_pop_root {v : Value} (h : m.Idle (v :: vs) count) :
    Ends (fun w m' ↦ w = v ∧ m'.Idle vs count) (StopsAtRest vs count) (pop Machine.root m) := by
  unfold pop
  rw [h.stack]
  refine .ok ⟨rfl, ⟨Heap.stack_setStack_self h.exists_root vs, h.callDepth⟩, ?_, h.marks⟩
  simpa using h.exists_root

theorem ends_declareMain {v : Value} (h : m.Idle (v :: vs) count) :
    Ends (fun _ m' ↦ m'.Idle vs count ∧ m'.heap.lookup Machine.root "main" = some v)
      (StopsAtRest vs count) (perform Machine.root .declareLocal ["main"] m) := by
  refine (ends_pop_root h).bind fun w m' ⟨hw, h'⟩ ↦ ?_
  subst hw
  refine .ok ⟨⟨⟨?_, h'.callDepth⟩, ?_, h'.marks⟩, ?_⟩
  · simpa using h'.stack
  · simpa using h'.exists_root
  · exact Heap.lookup_declare_self h'.exists_root "main" w

theorem ends_loadMain {v : Value} (h : m.Idle vs count)
    (hmain : m.heap.lookup Machine.root "main" = some v) :
    Ends (fun _ m' ↦ m'.Idle (v :: vs) count) (StopsAtRest vs count)
      (perform Machine.root .loadLocal ["main"] m) := by
  have hlookup : lookup Machine.root "main" m = .ok v m := by
    unfold lookup
    rw [hmain]
  change Ends _ _ ((lookup Machine.root "main" >>= push Machine.root) m)
  rw [bind_apply, hlookup]
  exact ends_push_root h v

/-- A function without parameters takes nothing from its caller. -/
theorem enterFunction_of_noParams {f : ScriptFunction} (hf : f.params = []) (caller : ScopeId)
    (m : Machine) : enterFunction f caller none m =
      .ok m.heap.nextScope { m with heap := m.heap.addChild f.home } := by
  unfold enterFunction
  rw [hf]
  rfl

theorem ends_callScript {f : ScriptFunction} (hf : f.params = []) (h : m.Idle vs count)
    (fuel : Nat) :
    Ends (fun _ m' ↦ m'.Rests vs count ∧ Machine.root < m'.heap.nextScope) (StopsAtRest vs count)
      (callScript fuel f Machine.root none m) := by
  let frame := m.heap.nextScope
  let entered : Machine := { m with heap := m.heap.addChild f.home }
  have hroot : Machine.root < entered.heap.nextScope := by
    simpa [entered] using Nat.lt_succ_of_lt h.exists_root
  have hne : Machine.root ≠ frame := Nat.ne_of_lt h.exists_root
  have htame (fuel : Nat) : Tame entered frame (fun _ ↦ True)
      (counted (run fuel frame f.body) >>= callResult f frame) := by
    have hrules := rules_tame (entered.IsOpen frame) frame
    refine hrules.bind (hrules.counted (hrules.run fuel (.inl rfl) f.body)) ?_ entered fun _ ↦ .rfl
    exact fun left hleft ↦ hrules.callResult f (.inl rfl) hleft
  -- the outermost scope is older than the scope of the call, and so out of its reach
  have hrests (m' : Machine) (hw : Machine.Within (fun _ ↦ True) False entered frame m') :
      m'.Rests vs count := by
    refine ⟨?_, hw.callDepth.trans h.callDepth⟩
    rw [hw.stack hroot hne, ← h.stack]
    exact Heap.stack_addChild_of_lt f.home h.exists_root
  cases fuel with
  | zero =>
    rw [callScript]
    exact ends_outOfSteps
  | succ fuel =>
    rw [Behavior.callScript_apply]
    split
    · exact .error fun _ ↦ h.toRests
    · rw [bind_apply, enterFunction_of_noParams hf]
      refine Ends.mono (htame fuel).ends_within (fun _ m' hw ↦ ?_) fun _ m' hw _ ↦ ?_
      · exact ⟨hrests m' hw, Nat.lt_of_lt_of_le hroot hw.nextScope⟩
      · exact hrests m' hw

theorem ends_callMain {f : ScriptFunction} (hf : f.params = [])
    (h : m.Idle (.script f :: vs) count) (fuel : Nat) :
    Ends (fun _ m' ↦ ∃ v, m'.Rests (v :: vs) count ∧ Machine.root < m'.heap.nextScope)
      (StopsAtRest vs count) (call fuel Machine.root m) := by
  cases fuel with
  | zero =>
    rw [call]
    exact ends_outOfSteps
  | succ fuel =>
    rw [call]
    refine (ends_pop_root h).bind ?_
    rintro callee m₁ ⟨rfl, h₁⟩
    have hcount : argumentCount Machine.root m₁ = .ok none m₁ := by
      unfold argumentCount
      rw [h₁.marks]
    rw [bind_apply, hcount]
    refine (ends_callScript hf h₁ fuel).bind ?_
    rintro v m₂ ⟨h₂, hroot⟩
    refine .push (fun _ ↦ ⟨v, ⟨?_, h₂.callDepth⟩, by simpa using hroot⟩) fun _ ↦ h₂
    rw [← h₂.stack]
    exact Heap.stack_push_self hroot v

/-! ## Programs -/

/-- The code of a program whose `main` has a body, and of the call of its `main`. -/
def programCode (body : Code) : Code :=
  .op .function :: .operand "main" :: .op .colon :: (body ++ Atom.op .endFunction ::
    .op .declareLocal :: .operand "main" :: .op .loadLocal :: .operand "main" :: [.op .call])

theorem IsCompiled.exists_programCode {text : String} (h : IsCompiled text) :
    ∃ body, decode (text ++ callMain) = .ok (programCode body) ∧
      WellNested (fun _ _ ↦ True) (fun _ ↦ True) .whole body := by
  obtain ⟨optimize, linked, rfl, hlinked⟩ := h.exists_linked
  refine ⟨codeOf (Lower.stmts optimize linked 0).1, ?_, Structured.nested_stmts optimize linked 0⟩
  rw [Lower.decode_program_append optimize hlinked decode_callMain]
  simp [Lower.program, Lower.functionLines, programCode, Instruction.code]
  rfl

theorem ends_plain {op : Opcode} (operands : List String) {rest : Code} {Q : Machine → Prop}
    {R : Option Signal → Machine → Prop} (hrole : op.role = .plain)
    (hcount : operands.length = op.operandCount)
    (h : Ends (fun _ ↦ Q) (StopsAtRest vs count) (perform Machine.root op operands m))
    (hrest : ∀ m', Q m' → ∀ fuel position,
      Ends R (StopsAtRest vs count) (run fuel Machine.root ⟨position, rest⟩ m'))
    (fuel position : Nat) : Ends R (StopsAtRest vs count)
      (run fuel Machine.root ⟨position, .op op :: (operands.map .operand ++ rest)⟩ m) := by
  cases fuel with
  | zero =>
    rw [run_zero]
    exact ends_outOfSteps
  | succ fuel =>
    rw [run_plain hrole hcount]
    exact h.bind fun _ m' h' ↦ hrest m' h' fuel _

theorem ends_run_callMain {f : ScriptFunction} (hf : f.params = [])
    (h : m.Idle (.script f :: vs) count) (fuel position : Nat) :
    Ends (fun left m' ↦ left = none ∧ ∃ v, m'.Rests (v :: vs) count ∧
      Machine.root < m'.heap.nextScope) (StopsAtRest vs count)
      (run fuel Machine.root ⟨position, [.op .call]⟩ m) := by
  cases fuel with
  | zero =>
    rw [run_zero]
    exact ends_outOfSteps
  | succ fuel =>
    rw [run_call]
    refine (ends_callMain hf h fuel).bind fun _ m' h' ↦ ?_
    cases fuel with
    | zero =>
      rw [run_zero]
      exact ends_outOfSteps
    | succ fuel =>
      rw [run_nil]
      exact .ok ⟨rfl, h'⟩

/-- A program starts by making its `main`. -/
theorem run_programCode {body : Code}
    (hbody : WellNested (fun _ _ ↦ True) (fun _ ↦ True) .whole body) (fuel : Nat) :
    run (fuel + 1) Machine.root ⟨0, programCode body⟩ = (do
      let identity ← freshIdentity
      push Machine.root (.script ⟨identity, "main", [], ⟨3, body⟩, Machine.root⟩)
      run fuel Machine.root ⟨3 + body.length + 1, .op .declareLocal :: .operand "main" ::
        .op .loadLocal :: .operand "main" :: [.op .call]⟩) :=
  run_function hbody fuel Machine.root 0 "main" [] _

/-- A program puts the result of its `main` on the stack of the outermost scope, or stops with the
stack as it was. -/
theorem ends_programCode {body : Code}
    (hbody : WellNested (fun _ _ ↦ True) (fun _ ↦ True) .whole body) (h : m.Idle vs count)
    (fuel : Nat) :
    Ends (fun left m' ↦ left = none ∧ ∃ v, m'.Rests (v :: vs) count ∧
      Machine.root < m'.heap.nextScope) (StopsAtRest vs count)
      (run fuel Machine.root ⟨0, programCode body⟩ m) := by
  cases fuel with
  | zero =>
    rw [run_zero]
    exact ends_outOfSteps
  | succ fuel =>
    rw [run_programCode hbody]
    refine (ends_freshIdentity h).bind fun identity m₁ h₁ ↦ ?_
    refine (ends_push_root h₁ _).bind fun _ m₂ h₂ ↦ ?_
    refine ends_plain ["main"] rfl rfl (ends_declareMain h₂) ?_ fuel _
    intro m₃ ⟨h₃, hmain⟩
    refine ends_plain ["main"] rfl rfl (ends_loadMain h₃ hmain) ?_
    intro m₄ h₄
    exact ends_run_callMain rfl h₄

/-- Without an outermost scope no program gets to its `main`. -/
theorem ends_programCode_of_noRoot {body : Code}
    (hbody : WellNested (fun _ _ ↦ True) (fun _ ↦ True) .whole body)
    (hroot : ¬Machine.root < m.heap.nextScope) (fuel : Nat) :
    Ends (fun _ _ ↦ False) (StopsAtRest (m.heap.stack Machine.root) m.callDepth)
      (run fuel Machine.root ⟨0, programCode body⟩ m) := by
  have hpush (v : Value) : (m.heap.push Machine.root v).stack Machine.root =
      m.heap.stack Machine.root := by
    simp [Heap.stack, Heap.push, Heap.scope_modify, hroot]
  have hempty : m.heap.stack Machine.root = [] := by
    have hsize : ¬Machine.root < m.heap.scopes.size := hroot
    simp [Heap.stack, Heap.scope, Scope.empty, Array.getD, hsize]
  cases fuel with
  | zero =>
    rw [run_zero]
    exact ends_outOfSteps
  | succ fuel =>
    rw [run_programCode hbody]
    have hfresh : Ends (fun _ m' ↦ m' = { m with nextIdentity := m.nextIdentity + 1 })
        (StopsAtRest (m.heap.stack Machine.root) m.callDepth) (freshIdentity m) := .ok rfl
    refine hfresh.bind fun identity m₁ h₁ ↦ ?_
    subst h₁
    refine Ends.bind (Q := fun _ m' ↦ m'.Rests (m.heap.stack Machine.root) m.callDepth) ?_ ?_
    · exact .push (fun _ ↦ ⟨hpush _, rfl⟩) fun _ ↦ ⟨rfl, rfl⟩
    · intro _ m₂ h₂
      -- the function was pushed onto a stack that is not there, and cannot be taken from it
      refine ends_plain ["main"] (Q := fun _ ↦ False) rfl rfl ?_ (fun _ h ↦ h.elim) fuel _
      refine Ends.bind (Q := fun _ _ ↦ False) ?_ fun _ _ h ↦ h.elim
      unfold pop
      rw [h₂.stack, hempty]
      exact .error fun _ ↦ ⟨h₂.stack.trans hempty, h₂.callDepth⟩

/-- The run of a compiled program puts the result of its `main` on the stack of the outermost scope,
or stops with the stack as it was. -/
theorem IsCompiled.exists_ends {text : String} (htext : IsCompiled text) (fuel : Nat)
    (m : Machine) : ∃ code, decode (text ++ callMain) = .ok code ∧
      Ends (fun left m' ↦ left = none ∧ ∃ v, m'.Rests (v :: m.heap.stack Machine.root) m.callDepth ∧
          Machine.root < m'.heap.nextScope)
        (StopsAtRest (m.heap.stack Machine.root) m.callDepth)
        (run fuel Machine.root ⟨0, code⟩ { m with marks := [] }) := by
  obtain ⟨body, hdecode, hbody⟩ := htext.exists_programCode
  refine ⟨programCode body, hdecode, ?_⟩
  by_cases hroot : Machine.root < m.heap.nextScope
  · have hidle : Machine.Idle (m.heap.stack Machine.root) m.callDepth { m with marks := [] } :=
      ⟨⟨rfl, rfl⟩, hroot, rfl⟩
    exact ends_programCode hbody hidle fuel
  · exact (ends_programCode_of_noRoot (m := { m with marks := [] }) hbody hroot fuel).mono
      (fun _ _ h ↦ h.elim) fun _ _ h ↦ h

/-- A program leaves the outermost scope as it found it, and the count of calls under way, whichever
way it ends, unless the writer hides that its run went well. -/
theorem rests_evaluate {text : String} (htext : IsCompiled text) {fuel : Nat} {m : Machine}
    (hsettled : Settled (evaluate fuel text m))
    (hflush : ∀ left m', ¬FlushFails fuel text m (.ok left m')) :
    ((evaluate fuel text).stateAfter m).Rests (m.heap.stack Machine.root) m.callDepth := by
  obtain ⟨code, hdecode, hends⟩ := htext.exists_ends fuel m
  rw [evaluate_of_decode hdecode] at hsettled ⊢
  unfold Exec.stateAfter
  cases hrun : run fuel Machine.root ⟨0, code⟩ { m with marks := [] } with
  | ok left m' =>
    rw [hrun] at hends
    cases hends with
    | ok h =>
      obtain ⟨rfl, v, hrests, hroot⟩ := h
      have hfault : m'.fault? .flush = none := by
        refine Option.eq_none_iff_forall_ne_some.mpr fun reason hreason ↦ ?_
        exact hflush none m' ⟨⟨code, hdecode, hrun⟩, trivial, reason, hreason⟩
      have hpop : popOrNull Machine.root (m'.asked .flush) = .ok v { m'.asked .flush with
          heap := m'.heap.setStack Machine.root (m.heap.stack Machine.root) } := by
        have hstack : (m'.asked .flush).heap.stack Machine.root = v :: m.heap.stack Machine.root :=
          hrests.stack
        unfold popOrNull
        rw [hstack]
        rfl
      rw [evaluateCode_of_none hrun hfault, bind_apply, hpop]
      exact ⟨Heap.stack_setStack_self hroot _, hrests.callDepth⟩
  | error e m' =>
    rw [hrun] at hends
    cases hends with
    | error h =>
      cases e with
      | error e =>
        obtain ⟨e', hevaluate⟩ := exists_evaluateCode_of_error hrun
        rw [hevaluate]
        exact ⟨(h nofun).stack, (h nofun).callDepth⟩
      | outOfSteps =>
        rw [evaluateCode_of_outOfSteps hrun] at hsettled
        exact hsettled.elim

/-- A program whose run went well, but after which the writer failed to flush, leaves the result of
its `main` behind. -/
theorem rests_evaluate_of_flushFails {text : String} (htext : IsCompiled text) {fuel : Nat}
    {m : Machine} {left : Option Signal} {m' : Machine}
    (hflush : FlushFails fuel text m (.ok left m')) :
    ∃ v, ((evaluate fuel text).stateAfter m).Rests (v :: m.heap.stack Machine.root)
      m.callDepth := by
  obtain ⟨code, hdecode, hends⟩ := htext.exists_ends fuel m
  obtain ⟨code', hdecode', hrun⟩ := hflush.exists_code
  obtain rfl : code = code' := Except.ok.inj (hdecode.symm.trans hdecode')
  rw [hrun] at hends
  cases hends with
  | ok h =>
    obtain ⟨-, v, hrests, -⟩ := h
    obtain ⟨reason, hevaluate⟩ := evaluate_of_flushFails hflush
    unfold Exec.stateAfter
    rw [hevaluate]
    exact ⟨v, hrests.stack, hrests.callDepth⟩

/-! ## One program after the other -/

/-- Machines that have run compiled programs to their ends, one after the other, whether these ended
well or not. They come with the number of programs whose run went well, but after which the writer
failed to flush. -/
inductive IsFinished : Nat → Machine → Prop where
  | start (config : Config) (host : Host) : IsFinished 0 (Machine.start config host)
  | evaluate {stranded : Nat} {m : Machine} (h : IsFinished stranded m) {fuel : Nat} {text : String}
      (htext : IsCompiled text) (hsettled : Settled (evaluate fuel text m))
      (hflush : ∀ left m', ¬FlushFails fuel text m (.ok left m')) :
      IsFinished stranded ((evaluate fuel text).stateAfter m)
  | flushFails {stranded : Nat} {m : Machine} (h : IsFinished stranded m) {fuel : Nat}
      {text : String} (htext : IsCompiled text) {left : Option Signal} {m' : Machine}
      (hflush : FlushFails fuel text m (.ok left m')) :
      IsFinished (stranded + 1) ((evaluate fuel text).stateAfter m)

theorem IsFinished.rests {stranded : Nat} {m : Machine} (h : IsFinished stranded m) :
    (m.heap.stack Machine.root).length = stranded ∧ m.callDepth = 0 := by
  induction h with
  | start config host => exact ⟨rfl, rfl⟩
  | evaluate _ htext hsettled hflush ih =>
    have hrests := rests_evaluate htext hsettled hflush
    rwa [hrests.stack, hrests.callDepth]
  | flushFails _ htext hflush ih =>
    obtain ⟨v, hrests⟩ := rests_evaluate_of_flushFails htext hflush
    rw [hrests.stack, hrests.callDepth]
    exact ⟨congrArg (· + 1) ih.1, ih.2⟩

theorem host_evaluate (fuel : Nat) (text : String) (m : Machine) :
    ((evaluate fuel text).stateAfter m).host = m.host :=
  (Ends.stateAfter (tame_evaluate fuel text m).ends_within).host

/-- No run changes which writer there is, so one that never fails to flush hides nothing. -/
theorem not_flushFails {m : Machine}
    (hwriter : ∀ requests, m.host.writer.fault? requests .flush = none) (fuel : Nat) (text : String)
    (r : Exec.Result (Option Signal)) : ¬FlushFails fuel text m r := by
  rintro ⟨⟨code, -, hrun⟩, -, reason, hreason⟩
  have htame : Tame { m with marks := [] } Machine.root (fun _ ↦ True)
      (run fuel Machine.root ⟨0, code⟩) := tame_run (.inl rfl) fuel ⟨0, code⟩
  have hhost : (machineOf r).host = m.host := by
    have hends := htame.ends_within
    rw [hrun] at hends
    cases hends with
    | ok h | error h => exact h.host
  rw [Machine.fault?, hhost, hwriter] at hreason
  cases hreason

theorem IsFinished.stranded_eq {stranded : Nat} {m : Machine} (h : IsFinished stranded m)
    (hwriter : ∀ requests, m.host.writer.fault? requests .flush = none) : stranded = 0 := by
  induction h with
  | start => rfl
  | evaluate _ _ _ _ ih =>
    rw [host_evaluate] at hwriter
    exact ih hwriter
  | flushFails _ _ hflush =>
    rw [host_evaluate] at hwriter
    exact absurd hflush (not_flushFails hwriter _ _ _)

/-- **A failed run does not harm the machine.** Whichever way a compiled program ends, the count of
calls under way is what it was before, and so is the stack of the outermost scope, unless the run
went well and the writer then failed to flush: the result of `main` is left on top. A call of any
function leaves the count alone, whether it comes to a result or not. And so a machine that has run
any compiled programs has no call under way, and one value on that stack for each time this
happened, which is none if the writer never fails to flush. -/
theorem evaluate_recovers (m : Machine) :
    (∀ (text : String) (fuel : Nat), IsCompiled text → Settled (evaluate fuel text m) →
      ((evaluate fuel text).stateAfter m).callDepth = m.callDepth ∧
      ((∀ left m', ¬FlushFails fuel text m (.ok left m')) →
        ((evaluate fuel text).stateAfter m).heap.stack Machine.root =
          m.heap.stack Machine.root) ∧
      ∀ left m', FlushFails fuel text m (.ok left m') →
        ∃ v, ((evaluate fuel text).stateAfter m).heap.stack Machine.root =
          v :: m.heap.stack Machine.root) ∧
    (∀ (f : ScriptFunction) (caller : ScopeId) (marked : Option Nat) (fuel : Nat),
      ((callScript fuel f caller marked).stateAfter m).callDepth = m.callDepth) ∧
    ∀ stranded, IsFinished stranded m →
      (m.heap.stack Machine.root).length = stranded ∧ m.callDepth = 0 ∧
      ((∀ requests, m.host.writer.fault? requests .flush = none) → stranded = 0) := by
  refine ⟨fun text fuel htext hsettled ↦ ⟨?_, fun hflush ↦ ?_, fun left m' hflush ↦ ?_⟩,
    fun f caller marked fuel ↦ ?_, fun stranded h ↦ ?_⟩
  · exact (Ends.stateAfter (tame_evaluate fuel text m).ends_within).callDepth
  · exact (rests_evaluate htext hsettled hflush).stack
  · obtain ⟨v, hrests⟩ := rests_evaluate_of_flushFails htext hflush
    exact ⟨v, hrests.stack⟩
  · exact callDepth_callScript fuel f caller marked m
  · exact ⟨h.rests.1, h.rests.2, h.stranded_eq⟩

/-- A source text that asks for no other file is compiled from its tree. -/
theorem isCompiled_of_parse (optimize : Bool) (source : String) (body : Program)
    (hsource : source.length < UInt64.size) (hbody : parseSource source "" = .ok body)
    (hlinked : Link.program ⟨[], []⟩ ⟨""⟩ body = .ok body)
    (hlibraries : Spelling.librariesWritable.stmts body) :
    compileSource ⟨[], []⟩ ⟨""⟩ optimize source = .ok (textOf (Lower.program optimize body)) ∧
      IsCompiled (textOf (Lower.program optimize body)) := by
  have htext : compileSource ⟨[], []⟩ ⟨""⟩ optimize source =
      .ok (textOf (Lower.program optimize body)) :=
    compileSource_eq_ok_iff.mpr ⟨body, body, hbody, hlinked, rfl⟩
  refine ⟨htext, ⟨[], []⟩, ⟨""⟩, optimize, source, by simp [FileTree.IsSized, FileTree.content?],
    hsource, htext, fun body' linked hbody' hlinked' ↦ ?_⟩
  rw [hbody] at hbody'
  cases hbody'
  rw [hlinked] at hlinked'
  cases hlinked'
  exact hlibraries

/-- A `break` outside of loops ends a program with an error, and the next one starts afresh. -/
theorem evaluate_recovers_break :
    ∃ text, compileSource ⟨[], []⟩ ⟨""⟩ true "break" = .ok text ∧
      Settled (evaluate 20 text (.start (.standard false) .plain)) ∧
      ∀ m, m = (evaluate 20 text).stateAfter (.start (.standard false) .plain) →
        m.heap.stack Machine.root = [] ∧ m.callDepth = 0 ∧
        (Settled (evaluate 20 text m) →
          ((evaluate 20 text).stateAfter m).heap.stack Machine.root = [] ∧
          ((evaluate 20 text).stateAfter m).callDepth = 0) := by
  obtain ⟨htext, hcompiled⟩ := isCompiled_of_parse true "break" [.break]
    (by decide) (by cbv) rfl (by simp [Spelling.stmts, Spelling.stmt])
  have hsettled : Settled (evaluate 20 (textOf (Lower.program true [.break]))
      (.start (.standard false) .plain)) := by
    have hspelled : (Spelling.writable (· < UInt64.size)).stmts [.break] := by
      simp [Spelling.stmts, Spelling.stmt]
    rw [evaluate_of_decode (Lower.decode_program_append true hspelled decode_callMain)]
    cbv
  refine ⟨_, htext, hsettled, fun m hm ↦ ?_⟩
  have hwriter (requests : List Writer.Request) : m.host.writer.fault? requests .flush = none := by
    rw [hm, host_evaluate]
    rfl
  have hfinished : IsFinished 0 m := by
    rw [hm]
    exact .evaluate (.start _ _) hcompiled hsettled fun left m' ↦ not_flushFails (fun _ ↦ rfl) _ _ _
  obtain ⟨hends, -, hrests⟩ := evaluate_recovers m
  obtain ⟨hstack, hdepth, -⟩ := hrests 0 hfinished
  have hempty := List.length_eq_zero_iff.mp hstack
  refine ⟨hempty, hdepth, fun hagain ↦ ?_⟩
  obtain ⟨hdepth', hstack', -⟩ := hends _ 20 hcompiled hagain
  exact ⟨(hstack' fun left m' ↦ not_flushFails hwriter _ _ _).trans hempty, hdepth'.trans hdepth⟩

/-- A program that does nothing leaves `null` behind, the result of its `main`, if the writer fails
to flush. -/
theorem evaluate_leaves_result :
    ∃ text, compileSource ⟨[], []⟩ ⟨""⟩ true "" = .ok text ∧
      (evaluate 20 text).leftAtFault? (.start (.standard false) ⟨.unflushable, .empty⟩) =
        some ("no space left on device", [.null]) := by
  have hspelled : (Spelling.writable (· < UInt64.size)).stmts [] := trivial
  obtain ⟨htext, -⟩ := isCompiled_of_parse true "" [] (by decide) (by cbv) rfl trivial
  refine ⟨_, htext, ?_⟩
  rw [evaluate_of_decode (Lower.decode_program_append true hspelled decode_callMain)]
  cbv

end GemLang
