import GemLang.Proofs.Machine.Effect
import GemLang.Proofs.Machine.Recovery
import GemLang.Proofs.Machine.Strict

/-!
# What the limits of a machine do

A machine limits how many values a stack may hold and how many calls of functions of the program may
be under way. Both limits are kept at all times, and they matter in one way only: a program that
would go past one of them stops with an overflow of the stack. A program that ends in any other way
ends so on every machine with larger limits, with all else as it was (`limits_only_overflow`).

What happens on two machines is had from `relaxed_evaluate`. That the limits are kept is a fact
about every state that a run passes through. Such states are described by what the machine is about
to do there, with the number of calls that are under way (`Passes`); a step from one to the next
carries out an instruction, or enters or leaves a block, a pass of a loop or a call.
-/

namespace GemLang

open Bytecode (Code Opcode Stretch textOf)
open Exec

/-! ## Keeping the limits -/

/-- The machine has the limits `limits`, with a number of calls under way, and no stack is too
large. -/
structure Machine.Fits (limits : Config) (calls : Nat) (m : Machine) : Prop where
  config : m.config = limits
  callDepth : m.callDepth = calls
  depth (s : ScopeId) : m.heap.depth s ≤ limits.maxStack

/-- On a machine that fits its limits the operation leaves one that does, however it ends, with as
many calls under way. -/
structure Exec.Contained (limits : Config) {α : Type} (Q : α → Prop) (x : Exec α) : Prop where
  ends {calls : Nat} {m : Machine} : m.Fits limits calls →
    Exec.Ends (fun a m' ↦ m'.Fits limits calls ∧ Q a) (fun _ m' ↦ m'.Fits limits calls) (x m)

variable {limits : Config} {calls : Nat} {m m' : Machine}

namespace Machine.Fits

theorem start (limits : Config) (host : Host) :
    (Machine.start limits host).Fits limits 0 where
  config := rfl
  callDepth := rfl
  depth s := by
    cases s with
    | zero => exact Nat.zero_le _
    | succ s => exact Nat.zero_le _

theorem congr (h : m.Fits limits calls) (hheap : m'.heap = m.heap) (hconfig : m'.config = m.config)
    (hdepth : m'.callDepth = m.callDepth) : m'.Fits limits calls :=
  ⟨hconfig.trans h.config, hdepth.trans h.callDepth, hheap ▸ h.depth⟩

/-- A change of one scope that does not leave too many values on its stack. -/
theorem modify (h : m.Fits limits calls) (s : ScopeId) {f : Scope → Scope}
    (hf : (f (m.heap.scope s)).stack.length ≤ limits.maxStack) :
    Machine.Fits limits calls { m with heap := m.heap.modify s f } where
  config := h.config
  callDepth := h.callDepth
  depth t := by
    simp only [Heap.depth, Heap.stack, Heap.scope_modify]
    split
    · next heq => exact heq.1 ▸ hf
    · exact h.depth t

theorem setStack (h : m.Fits limits calls) (s : ScopeId) {values : List Value}
    (hvalues : values.length ≤ m.heap.depth s) :
    Machine.Fits limits calls { m with heap := m.heap.setStack s values } :=
  h.modify s (hvalues.trans (h.depth s))

theorem pop (h : m.Fits limits calls) {s : ScopeId} {v : Value} {rest : List Value}
    (hstack : m.heap.stack s = v :: rest) :
    Machine.Fits limits calls { m with heap := m.heap.setStack s rest } := by
  refine h.setStack s ?_
  rw [Heap.depth, hstack]
  exact Nat.le_succ _

theorem addChild (h : m.Fits limits calls) (parent : ScopeId) :
    Machine.Fits limits calls { m with heap := m.heap.addChild parent } where
  config := h.config
  callDepth := h.callDepth
  depth t := by
    simp only [Heap.depth, Heap.stack, Heap.scope_addChild]
    split
    · exact Nat.zero_le _
    · exact h.depth t

end Machine.Fits

namespace Exec

theorem contained_push (s : ScopeId) (v : Value) :
    Contained limits (fun _ ↦ True) (push s v) := by
  refine ⟨fun {calls m} hm ↦ .push (fun hroom ↦ ⟨hm.modify s ?_, trivial⟩) hm⟩
  rw [hm.config] at hroom
  exact hroom

theorem contained_pop (s : ScopeId) : Contained limits (fun _ ↦ True) (pop s) :=
  ⟨fun hm ↦ .pop (fun _ _ hstack ↦ ⟨hm.pop hstack, trivial⟩) hm⟩

theorem contained_popOrNull (s : ScopeId) : Contained limits (fun _ ↦ True) (popOrNull s) :=
  ⟨fun hm ↦ .popOrNull (fun _ _ hstack ↦ ⟨hm.pop hstack, trivial⟩) ⟨hm, trivial⟩⟩

theorem contained_takeTop (s : ScopeId) (count : Nat) :
    Contained limits (fun vs ↦ ∀ v ∈ vs, True) (takeTop s count) := by
  refine ⟨fun {calls m} hm ↦ .takeTop ⟨hm.setStack s ?_, fun _ _ ↦ trivial⟩ hm⟩
  rw [List.length_drop]
  exact Nat.sub_le _ _

theorem contained_drain (s : ScopeId) : Contained limits (fun _ ↦ True) (drain s) :=
  ⟨fun hm ↦ .ok ⟨hm.setStack s (Nat.zero_le _), trivial⟩⟩

theorem contained_lookup (s : ScopeId) (name : String) :
    Contained limits (fun _ ↦ True) (lookup s name) :=
  ⟨fun hm ↦ .lookup (fun _ _ ↦ ⟨hm, trivial⟩) hm⟩

theorem contained_declare (s : ScopeId) (name : String) (v : Value) :
    Contained limits (fun _ ↦ True) (declare s name v) :=
  ⟨fun hm ↦ .ok ⟨hm.modify s (hm.depth s), trivial⟩⟩

theorem contained_assign (s : ScopeId) (name : String) (v : Value) :
    Contained limits (fun _ ↦ True) (assign s name v) :=
  ⟨fun hm ↦ .assign (fun o _ ↦ ⟨hm.modify o (hm.depth o), trivial⟩) ⟨hm, trivial⟩⟩

theorem contained_remove (s : ScopeId) (name : String) :
    Contained limits (fun _ ↦ True) (remove s name) :=
  ⟨fun hm ↦ .remove (fun o _ ↦ ⟨hm.modify o (hm.depth o), trivial⟩) hm⟩

theorem contained_nextPair (iterator : Nat) :
    Contained limits (fun _ ↦ True ∧ True) (nextPair iterator) :=
  ⟨fun hm ↦ .nextPair (fun _ _ _ ↦ ⟨hm.congr rfl rfl rfl, trivial, trivial⟩)
    ⟨hm, trivial, trivial⟩⟩

theorem contained_argumentCount (s : ScopeId) :
    Contained limits (fun _ ↦ True) (argumentCount s) :=
  ⟨fun hm ↦ .argumentCount (fun _ _ ↦ ⟨hm.congr rfl rfl rfl, trivial⟩) ⟨hm, trivial⟩⟩

theorem contained_modify {f : Machine → Machine} (hheap : ∀ m, (f m).heap = m.heap)
    (hconfig : ∀ m, (f m).config = m.config) (hdepth : ∀ m, (f m).callDepth = m.callDepth) :
    Contained limits (fun _ ↦ True) (modify f) :=
  ⟨fun {_ m} hm ↦ .ok ⟨hm.congr (hheap m) (hconfig m) (hdepth m), trivial⟩⟩

namespace Contained

variable {α β γ : Type} {Q : α → Prop} {R : β → Prop}

theorem bind {x : Exec α} {f : α → Exec β} (hx : Contained limits Q x)
    (hf : ∀ a, Q a → Contained limits R (f a)) : Contained limits R (x >>= f) :=
  ⟨fun hm ↦ (hx.ends hm).bind fun a _ h ↦ (hf a h.2).ends h.1⟩

theorem limited {x : Exec α} (hx : Contained limits Q x) : Contained limits Q (limited x) :=
  ⟨fun hm ↦ (hx.ends hm).limited hm⟩

theorem counted {x : Exec α} (hx : Contained limits Q x) : Contained limits Q (counted x) := by
  refine ⟨fun {calls m} hm ↦ ?_⟩
  have hcounted : Machine.Fits limits (calls + 1) { m with callDepth := m.callDepth + 1 } :=
    ⟨hm.config, congrArg (· + 1) hm.callDepth, hm.depth⟩
  have hback (m' : Machine) (h : m'.Fits limits (calls + 1)) :
      Machine.Fits limits calls { m' with callDepth := m'.callDepth - 1 } :=
    ⟨h.config, congrArg (· - 1) h.callDepth, h.depth⟩
  exact (hx.ends hcounted).counted (fun _ m' h ↦ ⟨hback m' h.1, h.2⟩) fun _ m' h ↦ hback m' h

theorem flushed {x : Exec α} (hx : Contained limits Q x) : Contained limits Q (flushed x) := by
  refine ⟨fun {calls m} hm ↦ (hx.ends hm).flushed (fun _ _ h ↦ ⟨h.1.congr rfl rfl rfl, h.2⟩)
    (fun _ _ h ↦ h.congr rfl rfl rfl) (fun _ h ↦ h) ?_⟩
  rintro reason m' (⟨_, h, _⟩ | ⟨_, h⟩) <;> exact h.congr rfl rfl rfl

theorem of_eq_ok {x : Exec α} (hx : Contained limits Q x) (hm : m.Fits limits calls) {a : α}
    (h : x m = .ok a m') : m'.Fits limits calls := by
  have hends := hx.ends hm
  rw [h] at hends
  cases hends with
  | ok h => exact h.1

end Contained

theorem rules_contained (limits : Config) :
    Rules (fun _ ↦ True) (fun _ ↦ True) (fun _ ↦ True) (Contained limits) where
  makes _ := trivial
  plain _ := trivial
  script _ := trivial
  home _ := trivial
  empty := trivial
  entry _ _ := trivial
  insert _ _ _ := trivial
  erase _ _ := trivial
  pure ha := ⟨fun hm ↦ .ok ⟨hm, ha⟩⟩
  bind := .bind
  fail _ := ⟨fun hm ↦ .error hm⟩
  outOfSteps := ⟨fun hm ↦ .error hm⟩
  get := ⟨fun hm ↦ .ok ⟨hm, fun _ _ _ _ ↦ trivial⟩⟩
  newScope _ := ⟨fun hm ↦ .ok ⟨hm.addChild _, trivial⟩⟩
  push _ _ _ := contained_push _ _
  pop _ := contained_pop _
  popOrNull _ := contained_popOrNull _
  takeTop _ := contained_takeTop _
  drain _ := contained_drain _
  declare _ name _ _ _ := contained_declare _ name _
  lookup _ name _ := contained_lookup _ name
  assign _ name _ _ _ := contained_assign _ name _
  remove _ name _ := contained_remove _ name
  ask _ := ⟨fun hm ↦ .ask ⟨hm.congr rfl rfl rfl, trivial⟩ fun _ ↦ hm.congr rfl rfl rfl⟩
  freshIdentity := ⟨fun hm ↦ .ok ⟨hm.congr rfl rfl rfl, trivial⟩⟩
  addLibrary _ := contained_modify (fun _ ↦ rfl) (fun _ ↦ rfl) fun _ ↦ rfl
  newIterator _ := ⟨fun hm ↦ .ok ⟨hm.congr rfl rfl rfl, trivial, trivial⟩⟩
  nextOfString _ := contained_nextPair _
  nextOfTable _ := contained_nextPair _
  mark _ := contained_modify (fun _ ↦ rfl) (fun _ ↦ rfl) fun _ ↦ rfl
  argumentCount := contained_argumentCount
  limited := .limited
  counted := .counted

end Exec

/-! ## What a run passes through -/

/-- What a machine is about to do. -/
inductive Activity where
  | run (s : ScopeId) (c : Stretch)
  | branch (block : ScopeId) (c : Stretch)
  | iterate (block : ScopeId) (body : Stretch)
  | call (s : ScopeId)
  | callScript (f : ScriptFunction) (caller : ScopeId) (marked : Option Nat)

/-- The states that a run passes through from a first one on: a machine with what it is about to do,
and how many calls of functions of the program are then under way. What comes after a block, a loop
or a call is reached where that ends without control leaving the code around it. -/
inductive Passes (a₀ : Activity) (m₀ : Machine) : Nat → Activity → Machine → Prop where
  | start : Passes a₀ m₀ 0 a₀ m₀
  | plain {n s position : Nat} {op : Opcode} {code : Code} {m m' : Machine}
    (h : Passes a₀ m₀ n (.run s ⟨position, .op op :: code⟩) m) (hrole : op.role = .plain)
    {operands : List String} {rest : Stretch}
    (hoperands : Stretch.operands ⟨position + 1, code⟩ op.operandCount = .ok (operands, rest))
    (hperform : perform s op operands m = .ok () m') : Passes a₀ m₀ n (.run s rest) m'
  | function {n s position : Nat} {op : Opcode} {code : Code} {m m' : Machine}
    (h : Passes a₀ m₀ n (.run s ⟨position, .op op :: code⟩) m) (hrole : op.role = .function)
    {rest : Stretch} (hmake : makeFunction s ⟨position + 1, code⟩ m = .ok rest m') :
    Passes a₀ m₀ n (.run s rest) m'
  | call {n s position : Nat} {op : Opcode} {code : Code} {m : Machine}
    (h : Passes a₀ m₀ n (.run s ⟨position, .op op :: code⟩) m) (hrole : op.role = .call) :
    Passes a₀ m₀ n (.call s) m
  | afterCall {n s position fuel : Nat} {op : Opcode} {code : Code} {m m' : Machine}
    (h : Passes a₀ m₀ n (.run s ⟨position, .op op :: code⟩) m) (hrole : op.role = .call)
    (hcall : call fuel s m = .ok () m') : Passes a₀ m₀ n (.run s ⟨position + 1, code⟩) m'
  | branch {n s block position : Nat} {op : Opcode} {code : Code} {m m' : Machine}
    (h : Passes a₀ m₀ n (.run s ⟨position, .op op :: code⟩) m) (hrole : op.role = .branch)
    (hblock : newScope s m = .ok block m') :
    Passes a₀ m₀ n (.branch block ⟨position + 1, code⟩) m'
  | afterBranch {n s block position fuel : Nat} {op : Opcode} {code : Code} {m m' m'' : Machine}
    (h : Passes a₀ m₀ n (.run s ⟨position, .op op :: code⟩) m) (hrole : op.role = .branch)
    (hblock : newScope s m = .ok block m') {rest : Stretch}
    (hbranch : branch fuel block ⟨position + 1, code⟩ m' = .ok (.ok rest) m'') :
    Passes a₀ m₀ n (.run s rest) m''
  | loop {n s block position : Nat} {op : Opcode} {code : Code} {m m' : Machine}
    (h : Passes a₀ m₀ n (.run s ⟨position, .op op :: code⟩) m) (hrole : op.role = .loop)
    {body rest : Stretch} (hbody : Stretch.block .loop ⟨position + 1, code⟩ = .ok (body, rest))
    (hblock : newScope s m = .ok block m') : Passes a₀ m₀ n (.iterate block body) m'
  | afterLoop {n s block position fuel : Nat} {op : Opcode} {code : Code} {m m' m'' : Machine}
    (h : Passes a₀ m₀ n (.run s ⟨position, .op op :: code⟩) m) (hrole : op.role = .loop)
    {body rest : Stretch} (hbody : Stretch.block .loop ⟨position + 1, code⟩ = .ok (body, rest))
    (hblock : newScope s m = .ok block m') (hloop : iterate fuel block body m' = .ok none m'') :
    Passes a₀ m₀ n (.run s rest) m''
  | condition {n block : Nat} {c condition afterThen body rest : Stretch} {m : Machine}
    (h : Passes a₀ m₀ n (.branch block c) m) (hcondition : c.condition = .ok (condition, afterThen))
    (hbody : afterThen.block .branch = .ok (body, rest)) :
    Passes a₀ m₀ n (.run block condition) m
  | chosen {n block fuel : Nat} {c condition afterThen body rest : Stretch} {m m' m'' : Machine}
    (h : Passes a₀ m₀ n (.branch block c) m) (hcondition : c.condition = .ok (condition, afterThen))
    (hbody : afterThen.block .branch = .ok (body, rest))
    (hrun : run fuel block condition m = .ok none m') {v : Value}
    (hpop : pop block m' = .ok v m'') (hv : v.isFalsy = false) :
    Passes a₀ m₀ n (.run block body) m''
  | elif {n block fuel : Nat} {c condition afterThen body rest : Stretch} {m m' m'' : Machine}
    (h : Passes a₀ m₀ n (.branch block c) m) (hcondition : c.condition = .ok (condition, afterThen))
    (hbody : afterThen.block .branch = .ok (body, rest))
    (hrun : run fuel block condition m = .ok none m') {v : Value}
    (hpop : pop block m' = .ok v m'') (hv : v.isFalsy = true) {code : Code}
    (hrest : rest.code = .op .elifOp :: code) :
    Passes a₀ m₀ n (.branch block ⟨rest.position + 1, code⟩) m''
  | otherwise {n block fuel : Nat} {c condition afterThen body rest : Stretch} {m m' m'' : Machine}
    (h : Passes a₀ m₀ n (.branch block c) m) (hcondition : c.condition = .ok (condition, afterThen))
    (hbody : afterThen.block .branch = .ok (body, rest))
    (hrun : run fuel block condition m = .ok none m') {v : Value}
    (hpop : pop block m' = .ok v m'') (hv : v.isFalsy = true) {code : Code}
    (hrest : rest.code = .op .elseOp :: code) {last after : Stretch}
    (hlast : Stretch.block .branch ⟨rest.position + 1, code⟩ = .ok (last, after)) :
    Passes a₀ m₀ n (.run block last) m''
  | pass {n block : Nat} {body : Stretch} {m : Machine}
    (h : Passes a₀ m₀ n (.iterate block body) m) : Passes a₀ m₀ n (.run block body) m
  | again {n block fuel : Nat} {body : Stretch} {m m' : Machine}
    (h : Passes a₀ m₀ n (.iterate block body) m) {left : Option Signal}
    (hrun : run fuel block body m = .ok left m') (hleft : left = none ∨ left = some .continued) :
    Passes a₀ m₀ n (.iterate block body) m'
  | script {n s : Nat} {m m' m'' : Machine} (h : Passes a₀ m₀ n (.call s) m) {f : ScriptFunction}
    (hpop : pop s m = .ok (.script f) m') {marked : Option Nat}
    (hcount : argumentCount s m' = .ok marked m'') : Passes a₀ m₀ n (.callScript f s marked) m''
  | enter {n caller frame : Nat} {f : ScriptFunction} {marked : Option Nat} {m m' : Machine}
    (h : Passes a₀ m₀ n (.callScript f caller marked) m)
    (hlimit : m.callDepth < m.config.maxCallDepth)
    (henter : enterFunction f caller marked m = .ok frame m') :
    Passes a₀ m₀ (n + 1) (.run frame f.body) { m' with callDepth := m'.callDepth + 1 }

theorem Exec.checkCode_eq_ok {α : Type} {r : Except CodeFault α} {m m' : Machine} {a : α}
    (h : checkCode r m = .ok a m') : r = .ok a ∧ m' = m := by
  cases r with
  | ok => cases h; exact ⟨rfl, rfl⟩
  | error => cases h

/-- A run that comes to the end of its code passes through the state that it leaves. -/
theorem Passes.ended {a₀ : Activity} {m₀ : Machine} {fuel n s : Nat} {c : Stretch} {m m' : Machine}
    (h : Passes a₀ m₀ n (.run s c) m) (hrun : run fuel s c m = .ok none m') :
    ∃ position, Passes a₀ m₀ n (.run s ⟨position, []⟩) m' := by
  induction fuel generalizing c m with
  | zero => cases hrun
  | succ fuel ih =>
    obtain ⟨position, code⟩ := c
    rw [run] at hrun
    rcases code with _ | ⟨op | _, code⟩
    · cases hrun
      exact ⟨position, h⟩
    · dsimp only at hrun
      cases hrole : op.role with
      | plain =>
        rw [hrole] at hrun
        obtain ⟨⟨operands, rest⟩, _, hchecked, hafter⟩ := bind_eq_ok.1 hrun
        obtain ⟨hoperands, rfl⟩ := checkCode_eq_ok hchecked
        obtain ⟨_, _, hperform, hrest⟩ := bind_eq_ok.1 hafter
        exact ih (h.plain hrole hoperands hperform) hrest
      | call =>
        rw [hrole] at hrun
        obtain ⟨_, _, hcall, hrun⟩ := bind_eq_ok.1 hrun
        exact ih (h.afterCall hrole hcall) hrun
      | leave =>
        rw [hrole] at hrun
        obtain ⟨_, _, _, hrun⟩ := bind_eq_ok.1 hrun
        cases hrun
      | breakLoop => rw [hrole] at hrun; cases hrun
      | nextPass => rw [hrole] at hrun; cases hrun
      | branch =>
        rw [hrole] at hrun
        obtain ⟨_, _, hblock, hrun⟩ := bind_eq_ok.1 hrun
        obtain ⟨_ | rest, _, hbranch, hrun⟩ := bind_eq_ok.1 hrun
        · cases hrun
        · exact ih (h.afterBranch hrole hblock hbranch) hrun
      | loop =>
        rw [hrole] at hrun
        obtain ⟨⟨body, rest⟩, _, hchecked, hafter⟩ := bind_eq_ok.1 hrun
        obtain ⟨hbody, rfl⟩ := checkCode_eq_ok hchecked
        obtain ⟨_, _, hblock, hentered⟩ := bind_eq_ok.1 hafter
        obtain ⟨_ | _, _, hloop, hrest⟩ := bind_eq_ok.1 hentered
        · exact ih (h.afterLoop hrole hbody hblock hloop) hrest
        · cases hrest
      | function =>
        rw [hrole] at hrun
        obtain ⟨_, _, hmake, hrun⟩ := bind_eq_ok.1 hrun
        exact ih (h.function hrole hmake) hrun
      | divider => rw [hrole] at hrun; cases hrun
    · cases hrun

theorem Passes.fits {a₀ a : Activity} {m₀ : Machine} (h : Passes a₀ m₀ calls a m)
    (h₀ : m₀.Fits limits 0) : m.Fits limits calls ∧ calls ≤ limits.maxCallDepth := by
  have hrules := rules_contained limits
  induction h with
  | start => exact ⟨h₀, Nat.zero_le _⟩
  | plain _ _ _ hperform ih =>
    exact ⟨(hrules.perform trivial _ _).of_eq_ok ih.1 hperform, ih.2⟩
  | function _ _ hmake ih => exact ⟨(hrules.makeFunction trivial _).of_eq_ok ih.1 hmake, ih.2⟩
  | call _ _ ih => exact ih
  | afterCall _ _ hcall ih => exact ⟨(hrules.call _ trivial).of_eq_ok ih.1 hcall, ih.2⟩
  | branch _ _ hblock ih => exact ⟨(hrules.newScope trivial).of_eq_ok ih.1 hblock, ih.2⟩
  | afterBranch _ _ hblock hbranch ih =>
    have hnew := (hrules.newScope trivial).of_eq_ok ih.1 hblock
    exact ⟨(hrules.branch _ trivial _).of_eq_ok hnew hbranch, ih.2⟩
  | loop _ _ _ hblock ih => exact ⟨(hrules.newScope trivial).of_eq_ok ih.1 hblock, ih.2⟩
  | afterLoop _ _ _ hblock hloop ih =>
    have hnew := (hrules.newScope trivial).of_eq_ok ih.1 hblock
    exact ⟨(hrules.iterate _ trivial _).of_eq_ok hnew hloop, ih.2⟩
  | condition _ _ _ ih => exact ih
  | chosen _ _ _ hrun hpop _ ih =>
    have hdone := (hrules.run _ trivial _).of_eq_ok ih.1 hrun
    exact ⟨(hrules.pop trivial).of_eq_ok hdone hpop, ih.2⟩
  | elif _ _ _ hrun hpop _ _ ih =>
    have hdone := (hrules.run _ trivial _).of_eq_ok ih.1 hrun
    exact ⟨(hrules.pop trivial).of_eq_ok hdone hpop, ih.2⟩
  | otherwise _ _ _ hrun hpop _ _ _ ih =>
    have hdone := (hrules.run _ trivial _).of_eq_ok ih.1 hrun
    exact ⟨(hrules.pop trivial).of_eq_ok hdone hpop, ih.2⟩
  | pass _ ih => exact ih
  | again _ hrun _ ih => exact ⟨(hrules.run _ trivial _).of_eq_ok ih.1 hrun, ih.2⟩
  | script _ hpop hcount ih =>
    have hpopped := (hrules.pop trivial).of_eq_ok ih.1 hpop
    exact ⟨(hrules.argumentCount _).of_eq_ok hpopped hcount, ih.2⟩
  | enter _ hlimit henter ih =>
    have hentered := (hrules.enterFunction trivial trivial _).of_eq_ok ih.1 henter
    rw [ih.1.config, ih.1.callDepth] at hlimit
    exact ⟨⟨hentered.config, congrArg (· + 1) hentered.callDepth, hentered.depth⟩, hlimit⟩

/-! ## Larger limits -/

/-- The configuration with these limits, where its own are not larger. -/
def Config.raised (maxCallDepth maxStack : Nat) (c : Config) : Config :=
  { c with
    maxCallDepth := max c.maxCallDepth maxCallDepth
    maxStack := max c.maxStack maxStack }

/-- An overflow of the stack, and the end of the steps. -/
inductive OwedToLimits : Stop → Prop where
  | overflow : OwedToLimits (.error .stackOverflow)
  | outOfSteps : OwedToLimits .outOfSteps

theorem relaxation_raised (maxCallDepth maxStack : Nat) :
    Relaxation (.raised maxCallDepth maxStack) OwedToLimits where
  maxStack _ := .inr ⟨Nat.le_max_left _ _, .overflow⟩
  maxCallDepth _ := .inr ⟨Nat.le_max_left _ _, .overflow⟩
  strict _ := .inl rfl

theorem raised_eq {limits larger : Config} (hstrict : larger.strict = limits.strict)
    (hcalls : limits.maxCallDepth ≤ larger.maxCallDepth)
    (hstack : limits.maxStack ≤ larger.maxStack) :
    limits.raised larger.maxCallDepth larger.maxStack = larger := by
  rw [Config.raised, Nat.max_eq_right hcalls, Nat.max_eq_right hstack, ← hstrict]

theorem ends_evaluate_start (limits : Config) (host : Host) (fuel : Nat) (text : String) :
    Exec.Ends (fun _ m ↦ m.Fits limits 0) (fun _ m ↦ m.Fits limits 0)
      (evaluate fuel text (.start limits host)) :=
  have hmarks : Contained limits (fun _ ↦ True) (modify ({ · with marks := [] })) :=
    contained_modify (fun _ ↦ rfl) (fun _ ↦ rfl) fun _ ↦ rfl
  have hends := (rules_contained limits).evaluate hmarks .flushed trivial fuel text
  (hends.ends (.start limits host)).mono (fun _ _ h ↦ h.1) fun _ _ h ↦ h

/-- A program that ends for another reason than the limits ends so with larger ones, too, if it is
not the writer that hides the reason. -/
theorem agrees_evaluate_start {limits larger : Config} (hstrict : larger.strict = limits.strict)
    (hcalls : limits.maxCallDepth ≤ larger.maxCallDepth)
    (hstack : limits.maxStack ≤ larger.maxStack) (host : Host) (text : String)
    (fuel extra : Nat) :
    Agrees (fun _ ↦ larger) (OwedOrHidden OwedToLimits fuel text (.start limits host))
      (evaluate fuel text (.start limits host))
      (evaluate (fuel + extra) text (.start larger host)) := by
  have hlarger := raised_eq hstrict hcalls hstack
  have hagrees := agrees_evaluate (relaxation_raised larger.maxCallDepth larger.maxStack)
    .outOfSteps (Nat.le_add_right fuel extra) text (.start limits host)
  have hstart : (Machine.start limits host).mapConfig
      (.raised larger.maxCallDepth larger.maxStack) = .start larger host :=
    congrArg (Machine.start · host) hlarger
  have hmap {m : Machine} (hm : m.Fits limits 0) :
      m.mapConfig (.raised larger.maxCallDepth larger.maxStack) = m.mapConfig fun _ ↦ larger := by
    rw [Machine.mapConfig, Machine.mapConfig, hm.config, hlarger]
  rw [hstart] at hagrees
  have hends := ends_evaluate_start limits host fuel text
  generalize evaluate fuel text (.start limits host) = first,
    evaluate (fuel + extra) text (.start larger host) = again at hagrees hends
  cases hagrees with
  | ok a m =>
    cases hends with
    | ok hm => exact hmap hm ▸ .ok a m
  | error e m =>
    cases hends with
    | error hm => exact hmap hm ▸ .error e m
  | excused he hprinted => exact .excused he hprinted

theorem Exec.Agrees.of_ok {α : Type} {t : Config → Config} {E : Stop → Prop} {a : α} {m : Machine}
    {r : Exec.Result α} (h : Agrees t E (.ok a m) r) : r = .ok a (m.mapConfig t) := by
  cases h with
  | ok => rfl

theorem Exec.Agrees.of_error {α : Type} {t : Config → Config} {E : Stop → Prop} {e : Stop}
    {m : Machine} {r : Exec.Result α} (h : Agrees t E (.error e m) r) (he : ¬E e) :
    r = .error e (m.mapConfig t) := by
  cases h with
  | error => rfl
  | excused howed => exact absurd howed he

/-- The error that an operation stops with, if with one. -/
def Exec.failure? (x : Exec Unit) (m : Machine) : Option Error :=
  match x m with
  | .error (.error e) _ => some e
  | _ => none

theorem Exec.failure?_eq_some {x : Exec Unit} {m : Machine} {e : Error}
    (h : x.failure? m = some e) : ∃ m', x m = .error (.error e) m' := by
  unfold failure? at h
  split at h
  · next e' m' heq =>
    cases h
    exact ⟨m', heq⟩
  · cases h

def Exec.endsWell (x : Exec Unit) (m : Machine) : Bool :=
  match x m with
  | .ok _ _ => true
  | .error _ _ => false

theorem Exec.endsWell_iff {x : Exec Unit} {m : Machine} :
    x.endsWell m = true ↔ ∃ m', x m = .ok () m' := by
  unfold endsWell
  cases x m <;> simp

/-- **Limits show only as an overflow of the stack.** A program that ends well on a new machine, or
with another error than such an overflow, ends likewise where the limits are larger, and leaves the
same machine, unless its run stopped with an overflow and this is hidden, since the writer failed to
flush. And in every state that its run passes through, no stack holds more values than the limit
says, and no more calls of functions of the program are under way; nor is any stack larger in the
end, whatever it is. -/
theorem limits_only_overflow (limits larger : Config) (hstrict : larger.strict = limits.strict)
    (hcalls : limits.maxCallDepth ≤ larger.maxCallDepth)
    (hstack : limits.maxStack ≤ larger.maxStack) (host : Host) (text : String) :
    (∀ fuel extra m, evaluate fuel text (.start limits host) = .ok () m →
      evaluate (fuel + extra) text (.start larger host) = .ok () { m with config := larger }) ∧
    (∀ fuel extra e m, evaluate fuel text (.start limits host) = .error (.error e) m →
      e ≠ .stackOverflow →
      (∀ m', ¬FlushFails fuel text (.start limits host) (.error (.error .stackOverflow) m')) →
      evaluate (fuel + extra) text (.start larger host) =
        .error (.error e) { m with config := larger }) ∧
    (∀ code calls a m, Bytecode.decode (text ++ callMain) = .ok code →
      Passes (.run Machine.root ⟨0, code⟩) (.start limits host) calls a m →
      (∀ s, m.heap.depth s ≤ limits.maxStack) ∧ m.callDepth = calls ∧
        calls ≤ limits.maxCallDepth) ∧
    ∀ fuel s,
      ((evaluate fuel text).stateAfter (.start limits host)).heap.depth s ≤ limits.maxStack := by
  refine ⟨fun fuel extra m heq ↦ ?_, fun fuel extra e m heq he hshown ↦ ?_,
    fun code calls a m _ hpasses ↦ ?_, fun fuel s ↦ ?_⟩
  · have hagrees := agrees_evaluate_start hstrict hcalls hstack host text fuel extra
    rw [heq] at hagrees
    exact hagrees.of_ok
  · have hagrees := agrees_evaluate_start hstrict hcalls hstack host text fuel extra
    rw [heq] at hagrees
    refine hagrees.of_error fun howed ↦ ?_
    cases howed with
    | owed howed =>
      cases howed with
      | overflow => exact he rfl
    | hidden howed hflush reason =>
      cases howed with
      | overflow => exact hshown _ hflush
      | outOfSteps => exact hflush.settled
  · obtain ⟨hfits, hle⟩ := hpasses.fits (.start limits host)
    exact ⟨hfits.depth, hfits.callDepth, hle⟩
  · have hends := ends_evaluate_start limits host fuel text
    exact (hends.mono (fun _ _ h ↦ h) fun _ _ h ↦ h).stateAfter.depth s

/-- One call is enough for a `main` that does nothing, and none is too few. It is also enough for a
`main` that breaks a loop where there is none. -/
theorem limits_only_overflow_one_call :
    let text := textOf (Lower.program true [])
    let breaking := textOf (Lower.program true [.break])
    (∃ m, evaluate 10 text (.start ⟨false, 0, 1⟩ .plain) = .error (.error .stackOverflow) m) ∧
    (∃ m, evaluate 10 text (.start ⟨false, 1, 1⟩ .plain) = .ok () m ∧
      (∀ extra, evaluate (10 + extra) text (.start (.standard false) .plain) =
        .ok () { m with config := .standard false }) ∧
      ∃ code a m', Bytecode.decode (text ++ callMain) = .ok code ∧
        Passes (.run Machine.root ⟨0, code⟩) (.start ⟨false, 1, 1⟩ .plain) 1 a m' ∧
        m'.callDepth = 1 ∧ ∀ s, m'.heap.depth s ≤ 1) ∧
    ∃ m, evaluate 10 breaking (.start ⟨false, 1, 1⟩ .plain) =
        .error (.error (.type (.escapedLoop (some "main")))) m ∧
      ∀ extra, evaluate (10 + extra) breaking (.start (.standard false) .plain) =
        .error (.error (.type (.escapedLoop (some "main"))))
          { m with config := .standard false } := by
  intro text breaking
  obtain ⟨hok, -, hkept, -⟩ := limits_only_overflow ⟨false, 1, 1⟩ (.standard false) rfl
    (by decide) (by decide) .plain text
  obtain ⟨-, herror, -⟩ := limits_only_overflow ⟨false, 1, 1⟩ (.standard false) rfl
    (by decide) (by decide) .plain breaking
  let code : Code := [.op .function, .operand "main", .op .colon, .op .endFunction,
    .op .declareLocal, .operand "main", .op .loadLocal, .operand "main", .op .call]
  have hdecode : Bytecode.decode (text ++ callMain) = .ok code := by
    have hspelled : (Spelling.writable (· < UInt64.size)).stmts [] := trivial
    rw [Lower.decode_program_append true hspelled decode_callMain]
    cbv
  have hfew : ∃ m, evaluate 10 text (.start ⟨false, 0, 1⟩ .plain) =
      .error (.error .stackOverflow) m := by
    refine failure?_eq_some ?_
    rw [evaluate_of_decode hdecode]
    cbv
  have henough : ∃ m, evaluate 10 text (.start ⟨false, 1, 1⟩ .plain) = .ok () m := by
    refine endsWell_iff.mp ?_
    rw [evaluate_of_decode hdecode]
    decide +kernel
  have hbreaks : ∃ m, evaluate 10 breaking (.start ⟨false, 1, 1⟩ .plain) =
      .error (.error (.type (.escapedLoop (some "main")))) m := by
    have hspelled : (Spelling.writable (· < UInt64.size)).stmts [.break] := by
      simp [Spelling.stmts, Spelling.stmt]
    refine failure?_eq_some ?_
    rw [evaluate_of_decode (Lower.decode_program_append true hspelled decode_callMain)]
    cbv
  have hstart : Passes (.run Machine.root ⟨0, code⟩) (.start ⟨false, 1, 1⟩ .plain) 0 _ _ := .start
  have hloaded := hstart.function rfl rfl |>.plain rfl rfl rfl |>.plain rfl rfl rfl
  have hcall := hloaded.call rfl |>.script rfl rfl
  have hentered := hcall.enter (by decide) rfl
  obtain ⟨hdepth, hcalls, -⟩ := hkept _ _ _ _ hdecode hentered
  obtain ⟨m, hm⟩ := henough
  obtain ⟨m', hm'⟩ := hbreaks
  refine ⟨hfew, ⟨m, hm, fun extra ↦ hok 10 extra m hm, _, _, _, hdecode, hentered, hcalls, hdepth⟩,
    m', hm', fun extra ↦ herror 10 extra _ m' hm' ?_ fun stopped ↦ ?_⟩
  · simp
  · exact not_flushFails (fun _ ↦ rfl) 10 breaking _

/-- With no call allowed the run overflows, and with one it does not. As the writer fails to flush,
both report the same error. -/
theorem limits_only_overflow_hidden :
    let text := textOf (Lower.program true [])
    let host : Host := ⟨.unflushable, .empty⟩
    (evaluate 10 text).leftAtFault? (.start ⟨false, 0, 1⟩ host) =
        some ("no space left on device", []) ∧
      (evaluate 10 text).leftAtFault? (.start ⟨false, 1, 1⟩ host) =
        some ("no space left on device", [.null]) := by
  intro text host
  have hspelled : (Spelling.writable (· < UInt64.size)).stmts [] := trivial
  rw [evaluate_of_decode (Lower.decode_program_append true hspelled decode_callMain)]
  exact ⟨by cbv, by cbv⟩

end GemLang
