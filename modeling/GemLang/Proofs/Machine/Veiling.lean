import GemLang.Proofs.Machine.Guarded

/-!
# Runs of veiled code

Whatever veiled code does, it leaves alone what is kept under the hidden name in the scopes around,
and it never gets hold of that. For where it loads the name, it is in a loop of its own, which has
bound the name in the scope right around the loop.

So a run of veiled code leaves a machine guarded, and what is known stays known (`runsGuard`). The
one exception is a `return` out of a loop over an iterator: its scope is left with the name bound.

A run may stand at four places of such a loop: before the name is bound, where it is like any code;
before the loop; at the top of a pass; and after the loop. There is a statement for each of them.
-/

namespace GemLang

open Bytecode
open Exec

/-! ## How code ends -/

/-- Code that ran in the scope `s` leaves the machine guarded; `left` says how control left it. -/
def Guard.Ends (g : Guard) (k : Known) (s : ScopeId) {α : Type} (left : α → Option Signal)
    (r : Exec.Result α) : Prop :=
  Exec.Ends (fun a m ↦ m.Guarded g (k.after s (left a)) ∧ Signal.Holds g.Holds (left a))
    (fun _ _ ↦ True) r

/-- All passes of a loop in the scope `t` leave the machine guarded, and control is left by nothing
but a `return`. -/
inductive Guard.Passed (g : Guard) (k : Known) (t : ScopeId) : Option Signal → Machine → Prop where
  | none {m : Machine} (hm : m.Guarded g k) : Passed g k t none m
  | returned {m : Machine} {v : Value} (hm : m.Guarded g (k.forget t)) (hv : g.Holds v) :
    Passed g k t (some (.returned v)) m

namespace Guard.Ends

variable {g : Guard} {k k' : Known} {m : Machine} {s t : ScopeId} {α : Type}
  {left : α → Option Signal}

theorem weaken {r : Exec.Result α} (h : g.Ends k' t left r) (hk : k.Part k')
    (ht : k.binding t = none) (s : ScopeId) : g.Ends k s left r :=
  Exec.Ends.mono h
    (fun _ _ h ↦ ⟨h.1.mono ((k.after_part s _).trans (hk.after ht _)), h.2⟩)
    fun _ _ h ↦ h

theorem mono {r : Exec.Result α} (h : g.Ends k' s left r) (hk : k.Part k') : g.Ends k s left r := by
  refine Exec.Ends.mono h (fun a _ h ↦ ⟨h.1.mono ?_, h.2⟩) fun _ _ h ↦ h
  match left a with
  | none | some .broke | some .continued => exact hk
  | some (.returned _) =>
    refine ⟨hk.scopes, fun {t x} ht ↦ ?_, hk.rest⟩
    obtain ⟨hne, ht⟩ := Known.binding_forget_eq_some.mp ht
    exact Known.binding_forget_eq_some.mpr ⟨hne, hk.binding ht⟩

theorem proceed {next : Exec (Option Signal)} {signal : Option Signal}
    (hm : m.Guarded g (k.after s signal)) (hsignal : Signal.Holds g.Holds signal)
    (hnext : m.Guarded g k → g.Ends k s id (next m)) :
    g.Ends k s id (GemLang.proceed next signal m) := by
  cases signal with
  | some signal => exact .ok ⟨hm, hsignal⟩
  | none => exact hnext hm

theorem inside (left : α → Option Signal) {x : ScopeId → Exec α} {next : Exec (Option Signal)}
    (hm : m.Guarded g k)
    (hx : ∀ {k' : Known}, k'.IsOpen m.heap.nextScope → (m.nest s).Guarded g k' →
      g.Ends k' m.heap.nextScope left (x m.heap.nextScope (m.nest s)))
    (hnext : ∀ {m' : Machine}, m'.Guarded g k → g.Ends k s id (next m')) :
    g.Ends k s id ((do
      let block ← newScope s
      let a ← x block
      GemLang.proceed next (left a)) m) := by
  have hblock := (hx hm.isOpen_covering (hm.nest s)).weaken hm.part_covering hm.fresh s
  exact Exec.Ends.bind (m := m.nest s) hblock fun a m' h ↦ proceed h.1 h.2 hnext

end Guard.Ends

/-! ## Runs -/

/-- Runs of veiled code with a number of steps leave a machine guarded. -/
structure RunsGuard (g : Guard) (fuel : Nat) : Prop where
  run {k : Known} {m : Machine} {s : ScopeId} (hs : k.IsOpen s) (position : Nat) {c : Code}
    (hc : Veiled g.name .whole c) (hm : m.Guarded g k) :
    g.Ends k s id (GemLang.run fuel s ⟨position, c⟩ m)
  branch {k : Known} {m : Machine} {s : ScopeId} (hs : k.IsOpen s) (position : Nat)
    {condition body chain : Code} (hcondition : Veiled g.name .whole condition)
    (hbody : Veiled g.name .whole body) (hchain : Veiled g.name .chain chain)
    (hm : m.Guarded g k) :
    g.Ends k s leftBy (GemLang.branch fuel s
      ⟨position, condition ++ .op .thenOp :: (body ++ .op .endIf :: chain)⟩ m)
  iterate {k : Known} {m : Machine} {s : ScopeId} (hs : k.IsOpen s) (position : Nat) {c : Code}
    (hc : Veiled g.name .whole c) (hm : m.Guarded g k) :
    g.Ends k s id (GemLang.iterate fuel s ⟨position, c⟩ m)
  call {k : Known} {m : Machine} (s : ScopeId) (hm : m.Guarded g k) :
    Ends (fun _ m' ↦ m'.Guarded g k) (fun _ _ ↦ True) (GemLang.call fuel s m)
  callScript {k : Known} {m : Machine} (s : ScopeId) {f : ScriptFunction}
    (hf : f.HasBody (Veiled g.name .whole)) (marked : Option Nat) (hm : m.Guarded g k) :
    Ends (fun v m' ↦ m'.Guarded g k ∧ g.Holds v) (fun _ _ ↦ True)
      (GemLang.callScript fuel f s marked m)
  /-- Before a loop over an iterator that is kept in `s`. -/
  kept {k : Known} {m : Machine} {s : ScopeId} (hs : s < k.scopes) {v : Value} (hv : g.Holds v)
    (hkept : k.binding s = some (some v)) (position : Nat) {body rest : Code}
    (hbody : Veiled g.name .whole body) (hrest : Veiled g.name .whole rest)
    (hm : m.Guarded g k) :
    g.Ends (k.learn s none) s id (GemLang.run fuel s ⟨position, .op .loop ::
      ((.op .loadLocal :: .operand g.name :: body) ++
        .op .endLoop :: .op .delete :: .operand g.name :: rest)⟩ m)
  /-- At the top of a pass, in the scope `t` of the loop. -/
  pass {k : Known} {m : Machine} {s t : ScopeId} {outer : List ScopeId} (ht : t < k.scopes)
    {v : Value} (hv : g.Holds v) (hkept : k.binding s = some (some v))
    (hfree : k.binding t = some none) (position : Nat) {body : Code}
    (hbody : Veiled g.name .whole body) (hm : m.Guarded g k)
    (houter : (m.heap.scope t).outer = s :: outer) :
    g.Ends k t id (GemLang.run fuel t ⟨position, .op .loadLocal :: .operand g.name :: body⟩ m)
  passes {k : Known} {m : Machine} {s t : ScopeId} {outer : List ScopeId} (ht : t < k.scopes)
    {v : Value} (hv : g.Holds v) (hkept : k.binding s = some (some v))
    (hfree : k.binding t = some none) (position : Nat) {body : Code}
    (hbody : Veiled g.name .whole body) (hm : m.Guarded g k)
    (houter : (m.heap.scope t).outer = s :: outer) :
    Ends (g.Passed k t) (fun _ _ ↦ True)
      (GemLang.iterate fuel t ⟨position, .op .loadLocal :: .operand g.name :: body⟩ m)
  /-- After the loop. -/
  closed {k : Known} {m : Machine} {s : ScopeId} (hs : s < k.scopes) {v : Value}
    (hkept : k.binding s = some (some v)) (position : Nat) {rest : Code}
    (hrest : Veiled g.name .whole rest) (hm : m.Guarded g k) :
    g.Ends (k.learn s none) s id
      (GemLang.run fuel s ⟨position, .op .delete :: .operand g.name :: rest⟩ m)

namespace RunsGuard

variable {g : Guard} {fuel : Nat} {k : Known} {m : Machine} {s t : ScopeId}

theorem zero : RunsGuard g 0 := by
  constructor <;> intros <;> exact Exec.Ends.error trivial

theorem run_succ (ih : RunsGuard g fuel) (hs : k.IsOpen s) (position : Nat) {c : Code}
    (hc : Veiled g.name .whole c) (hm : m.Guarded g k) :
    g.Ends k s id (GemLang.run (fuel + 1) s ⟨position, c⟩ m) := by
  have hsteps := stepRules_guards g k
  cases hc with
  | nil =>
    rw [run_nil]
    exact .ok ⟨hm, trivial⟩
  | plain hrole hcount hname hrest =>
    rw [run_plain hrole hcount]
    have hperform := hsteps.perform (s := s) trivial _ _ fun x hx heq ↦ hname (heq ▸ hx)
    exact (hperform.ends hm).bind fun _ m' h ↦ ih.run hs _ hrest h.1
  | @jump op rest hjump hrest =>
    cases op <;> simp [Opcode.isJump, Opcode.role] at hjump
    · rw [run_call]
      exact (ih.call s hm).bind fun _ m' h ↦ ih.run hs _ hrest h
    · rw [run_leave]
      refine ((hsteps.popOrNull (s := s) trivial).ends hm).bind fun v m' h ↦ .ok ⟨?_, h.2⟩
      exact h.1.mono (k.after_part s (some (.returned v)))
    · rw [run_breakLoop]
      exact .ok ⟨hm, trivial⟩
    · rw [run_nextPass]
      exact .ok ⟨hm, trivial⟩
  | @branch condition body chain rest hcondition hbody hchain hrest =>
    have hrun := run_branch ⟨hcondition.wellNested, hbody.wellNested, hchain.wellNested⟩ fuel s
      position hrest.wellNested.not_continues
    simp only [List.append_assoc, List.cons_append] at hrun
    rw [hrun]
    exact .inside _ hm (fun ht hm' ↦ ih.branch ht _ hcondition hbody hchain hm')
      fun hm' ↦ ih.run hs _ hrest hm'
  | loop hbody hrest =>
    rw [run_loop hbody.wellNested]
    exact .inside id hm (fun ht hm' ↦ ih.iterate ht _ hbody hm')
      fun hm' ↦ ih.run hs _ hrest hm'
  | each hbody hrest =>
    have hplain := @run_plain .declareLocal [g.name] rfl rfl fuel s position
    simp only [List.map_cons, List.map_nil, List.cons_append, List.nil_append] at hplain
    rw [hplain]
    refine Exec.Ends.bind (Q := fun _ m' ↦ ∃ v, g.Holds v ∧ m'.Guarded g (k.learn s (some v))) ?_ ?_
    · refine ((hsteps.pop (s := s) trivial).ends hm).bind ?_
      rintro v m' ⟨hm', hv⟩
      refine .ok ⟨v, hv, ?_⟩
      exact hm'.hide (hs.exists_.trans_le hm'.scopes) v
    · rintro _ m' ⟨v, hv, hm'⟩
      -- after the loop the scope binds nothing again, as far as that was known
      have hkept := ih.kept (k := k.learn s (some v)) hs.exists_ hv (k.binding_learn_self s _)
        (position + 1 + 1) hbody hrest hm'
      rw [Known.learn_learn] at hkept
      exact hkept.mono hs.part_learn
  | @function name params body rest hbody hrest =>
    have hfunction (identity position : Nat) :
        g.Holds (.script ⟨identity, name, params, ⟨position, body⟩, s⟩) := ⟨.script trivial, hbody⟩
    rw [run_function hbody.wellNested]
    refine (hsteps.freshIdentity.ends hm).bind ?_
    rintro identity m' ⟨hm', -⟩
    refine ((hsteps.push trivial (hfunction identity _)).ends hm').bind fun _ m'' h ↦ ?_
    exact ih.run hs _ hrest h.1

theorem branchOn (ih : RunsGuard g fuel) (hs : k.IsOpen s) (position : Nat) {chain : Code}
    (hchain : Veiled g.name .chain chain) (hm : m.Guarded g k) :
    g.Ends k s leftBy (GemLang.branchOn fuel s ⟨position, chain⟩ m) := by
  cases hchain with
  | chainEnd => exact .ok ⟨hm, trivial⟩
  | chainElse hbody =>
    rw [branchOn_else hbody.wellNested]
    refine Exec.Ends.bind (ih.run hs _ hbody hm) fun left m' h ↦ .ok ?_
    cases left <;> exact h
  | chainElif hcondition hbody hchain =>
    rw [branchOn_elif]
    exact ih.branch hs _ hcondition hbody hchain hm

theorem branch_succ (ih : RunsGuard g fuel) (hs : k.IsOpen s) (position : Nat)
    {condition body chain : Code} (hcondition : Veiled g.name .whole condition)
    (hbody : Veiled g.name .whole body) (hchain : Veiled g.name .chain chain)
    (hm : m.Guarded g k) :
    g.Ends k s leftBy (GemLang.branch (fuel + 1) s
      ⟨position, condition ++ .op .thenOp :: (body ++ .op .endIf :: chain)⟩ m) := by
  have hbranch := branch_eq hcondition.wellNested hbody.wellNested hchain.wellNested fuel s position
    not_continues_nil
  rw [List.append_nil] at hbranch
  rw [hbranch]
  refine Exec.Ends.bind (ih.run hs _ hcondition hm) fun left m' h ↦ ?_
  cases left with
  | some signal => exact .ok h
  | none =>
    refine (((stepRules_guards g k).pop trivial).ends h.1).bind fun v m'' ⟨hm'', _⟩ ↦ ?_
    split
    · exact ih.branchOn hs _ hchain hm''
    · refine Exec.Ends.bind (ih.run hs _ hbody hm'') fun left m₃ h ↦ .ok ?_
      cases left <;> exact h

theorem iterate_succ (ih : RunsGuard g fuel) (hs : k.IsOpen s) (position : Nat) {c : Code}
    (hc : Veiled g.name .whole c) (hm : m.Guarded g k) :
    g.Ends k s id (GemLang.iterate (fuel + 1) s ⟨position, c⟩ m) := by
  rw [GemLang.iterate]
  refine Exec.Ends.bind (ih.run hs _ hc hm) fun left m' h ↦ ?_
  rcases left with _ | v | _ | _
  · exact ih.iterate hs _ hc h.1
  · exact .ok h
  · exact .ok ⟨h.1, trivial⟩
  · exact ih.iterate hs _ hc h.1

/-! ### Calls -/

theorem ends_callNative {f : Native} (hf : g.Holds (.native f)) (s : ScopeId) (marked : Option Nat)
    (hm : m.Guarded g k) :
    Ends (fun _ m' ↦ m'.Guarded g k) (fun _ _ ↦ True) (callNative f s marked m) := by
  cases marked with
  | none =>
    have hnative := (stepRules_guards g k).native (s := s) hf trivial
    exact (hnative.ends hm).mono (fun _ _ h ↦ h.1) fun _ _ h ↦ h
  | some count =>
    have hsteps := stepRules_guards g (k.covering (m.heap.nextScope + 1))
    have hinside := hsteps.nativeInside (s := s) hf trivial m.heap.nextScope trivial count
    refine (hinside.ends (hm.nest s)).mono (fun _ _ h ↦ ?_) fun _ _ h ↦ h
    exact h.1.mono hm.part_covering

theorem call_succ (ih : RunsGuard g fuel) (s : ScopeId) (hm : m.Guarded g k) :
    Ends (fun _ m' ↦ m'.Guarded g k) (fun _ _ ↦ True) (GemLang.call (fuel + 1) s m) := by
  have hsteps := stepRules_guards g k
  rw [GemLang.call]
  refine ((hsteps.pop (s := s) trivial).ends hm).bind ?_
  rintro callee m₁ ⟨hm₁, hcallee⟩
  refine ((hsteps.argumentCount s).ends hm₁).bind ?_
  rintro marked m₂ ⟨hm₂, -⟩
  split
  · exact ends_callNative hcallee s marked hm₂
  · refine (ih.callScript s hcallee.2 marked hm₂).bind ?_
    rintro v m₃ ⟨hm₃, hv⟩
    exact ((hsteps.push trivial hv).ends hm₃).mono (fun _ _ h ↦ h.1) fun _ _ h ↦ h
  · exact ((hsteps.callForeign _ trivial marked).ends hm₂).mono (fun _ _ h ↦ h.1) fun _ _ h ↦ h
  · exact .error trivial

theorem callScript_succ (ih : RunsGuard g fuel) (s : ScopeId) {f : ScriptFunction}
    (hf : f.HasBody (Veiled g.name .whole)) (marked : Option Nat) (hm : m.Guarded g k) :
    Ends (fun v m' ↦ m'.Guarded g k ∧ g.Holds v) (fun _ _ ↦ True)
      (GemLang.callScript (fuel + 1) f s marked m) := by
  have hsteps := stepRules_guards g (k.covering (m.heap.nextScope + 1))
  have hdeclare (name : String) (v : Value) (hv : g.Holds v) :
      Guards g (k.covering (m.heap.nextScope + 1)) (fun _ ↦ True)
        (declare m.heap.nextScope name v) :=
    ⟨fun hm' ↦ .ok ⟨hm'.declare _ (fun _ ↦ hm.fresh) fun _ ↦ hv, trivial⟩⟩
  have hbound := hsteps.bindArguments s trivial hdeclare f marked
  refine Ends.limited (Ends.bind (m := m.nest f.home) (hbound.ends (hm.nest f.home)) ?_) trivial
  rintro _ m₁ ⟨hm₁, rfl⟩
  have hcounted : Machine.Guarded g (k.covering (m.heap.nextScope + 1))
      { m₁ with callDepth := m₁.callDepth + 1 } := hm₁.congr rfl rfl
  refine Ends.bind (Q := fun left m' ↦ m'.Guarded g k ∧ Signal.Holds g.Holds left) ?_ ?_
  · refine Ends.counted (ih.run hm.isOpen_covering f.body.position hf hcounted) ?_ fun _ _ h ↦ h
    rintro left m₂ ⟨hm₂, hleft⟩
    exact ⟨(hm₂.mono (hm.part_covering.after hm.fresh left)).congr rfl rfl, hleft⟩
  · rintro left m₂ ⟨hm₂, hleft⟩
    exact ((stepRules_guards g k).callResult f trivial hleft).ends hm₂

/-! ### Loops over iterators -/

theorem pass_succ (ih : RunsGuard g fuel) {outer : List ScopeId} (ht : t < k.scopes) {v : Value}
    (hv : g.Holds v) (hkept : k.binding s = some (some v)) (hfree : k.binding t = some none)
    (position : Nat) {body : Code} (hbody : Veiled g.name .whole body) (hm : m.Guarded g k)
    (houter : (m.heap.scope t).outer = s :: outer) :
    g.Ends k t id (GemLang.run (fuel + 1) t ⟨position, .op .loadLocal :: .operand g.name :: body⟩ m)
    := by
  have hopen : k.IsOpen t := ⟨ht, fun w hw ↦ nomatch hfree.symm.trans hw⟩
  have hplain := @run_plain .loadLocal [g.name] rfl rfl fuel t position body
  simp only [List.map_cons, List.map_nil, List.cons_append, List.nil_append] at hplain
  rw [hplain]
  refine Exec.Ends.bind (Q := fun _ m' ↦ m'.Guarded g k) ?_ fun _ m' hm' ↦ ?_
  · rw [perform_loadLocal (hm.lookup_kept hkept hfree houter)]
    exact .push (fun _ ↦ hm.push t hv) trivial
  · exact ih.run hopen _ hbody hm'

theorem passes_succ (ih : RunsGuard g fuel) {outer : List ScopeId} (ht : t < k.scopes) {v : Value}
    (hv : g.Holds v) (hkept : k.binding s = some (some v)) (hfree : k.binding t = some none)
    (position : Nat) {body : Code} (hbody : Veiled g.name .whole body) (hm : m.Guarded g k)
    (houter : (m.heap.scope t).outer = s :: outer) :
    Ends (g.Passed k t) (fun _ _ ↦ True)
      (GemLang.iterate (fuel + 1) t ⟨position, .op .loadLocal :: .operand g.name :: body⟩ m) := by
  rw [GemLang.iterate]
  have hpass := ih.pass ht hv hkept hfree position hbody hm houter
  -- the scope of the loop stays inside the one that keeps the iterator
  have hlater := (rules_advances.run fuel (s := t) trivial
    ⟨position, .op .loadLocal :: .operand g.name :: body⟩).ends m
  refine Exec.Ends.bind ((Exec.Ends.and hpass hlater).mono (fun _ _ h ↦ h) fun _ _ _ ↦ trivial) ?_
  rintro left m' ⟨⟨hm', hleft⟩, hlater, -⟩
  have houter' : (m'.heap.scope t).outer = s :: outer :=
    (hlater.outer (hm.known hfree).1).trans houter
  rcases left with _ | w | _ | _
  · exact ih.passes ht hv hkept hfree position hbody hm' houter'
  · exact .ok (.returned hm' hleft)
  · exact .ok (.none hm')
  · exact ih.passes ht hv hkept hfree position hbody hm' houter'

theorem closed_succ (ih : RunsGuard g fuel) (hs : s < k.scopes) {v : Value}
    (hkept : k.binding s = some (some v)) (position : Nat) {rest : Code}
    (hrest : Veiled g.name .whole rest) (hm : m.Guarded g k) :
    g.Ends (k.learn s none) s id
      (GemLang.run (fuel + 1) s ⟨position, .op .delete :: .operand g.name :: rest⟩ m) := by
  have hopen : (k.learn s none).IsOpen s :=
    ⟨hs, fun w hw ↦ nomatch (k.binding_learn_self s none).symm.trans hw⟩
  obtain ⟨hexists, hown⟩ := hm.known hkept
  have howner : m.heap.owner? s g.name = some s :=
    Heap.owner?_of_own? [] _ rfl (List.forall_mem_nil _) hown
  have hplain := @run_plain .delete [g.name] rfl rfl fuel s position rest
  simp only [List.map_cons, List.map_nil, List.cons_append, List.nil_append] at hplain
  rw [hplain]
  refine Exec.Ends.bind (Q := fun _ m' ↦ m'.Guarded g (k.learn s none)) ?_ fun _ m' hm' ↦ ?_
  · refine .remove (fun o ho ↦ ?_) trivial
    obtain rfl := Option.some.inj (howner.symm.trans ho)
    exact hm.reveal hexists
  · exact ih.run hopen _ hrest hm'

theorem kept_succ (ih : RunsGuard g fuel) (hs : s < k.scopes) {v : Value} (hv : g.Holds v)
    (hkept : k.binding s = some (some v)) (position : Nat) {body rest : Code}
    (hbody : Veiled g.name .whole body) (hrest : Veiled g.name .whole rest) (hm : m.Guarded g k) :
    g.Ends (k.learn s none) s id (GemLang.run (fuel + 1) s ⟨position, .op .loop ::
      ((.op .loadLocal :: .operand g.name :: body) ++
        .op .endLoop :: .op .delete :: .operand g.name :: rest)⟩ m) := by
  obtain ⟨hexists, hown⟩ := hm.known hkept
  have hpart : k.Part (k.covering (m.heap.nextScope + 1)) := hm.part_covering
  have hlearn := hm.isOpen_covering.part_learn
  have hinside : (m.nest s).Guarded g ((k.covering (m.heap.nextScope + 1)).learn m.heap.nextScope
      none) :=
    (hm.nest s).learn (by simp [Machine.nest]) (Heap.own?_addChild_self ..)
  have houter : ((m.nest s).heap.scope m.heap.nextScope).outer = s :: (m.heap.scope s).outer := by
    simp [Machine.nest, Heap.scope_addChild, Scope.empty]
  rw [run_loop (hbody.wellNested.load g.name)]
  refine Exec.Ends.bind (m := m.nest s) (ih.passes (Nat.lt_succ_self _) hv
    ((hpart.trans hlearn).binding hkept) (Known.binding_learn_self ..) _ hbody hinside houter) ?_
  intro left m' hleft
  cases hleft with
  | none hm' => exact ih.closed hs hkept _ hrest (hm'.mono (hpart.trans hlearn))
  | @returned _ w hm' hw =>
    -- a `return` leaves the name bound, so what is bound is known no longer
    refine .ok ⟨hm'.mono ?_, hw⟩
    change ((k.learn s none).forget s).Part _
    rw [Known.forget_learn]
    exact (k.forget_part s).trans ((hpart.trans hlearn).after hm.fresh (some (.returned w)))

end RunsGuard

/-- **Runs of veiled code leave a machine guarded**, however many steps they take and however they
end. -/
theorem runsGuard (g : Guard) (fuel : Nat) : RunsGuard g fuel := by
  induction fuel with
  | zero => exact .zero
  | succ fuel ih =>
    exact ⟨ih.run_succ, ih.branch_succ, ih.iterate_succ, ih.call_succ, ih.callScript_succ,
      ih.kept_succ, ih.pass_succ, ih.passes_succ, ih.closed_succ⟩

theorem Machine.Guarded.of_code {g : Guard} {k : Known} {m m' : Machine} {s : ScopeId}
    (hm : m.Guarded g k) (hs : k.IsOpen s) {position : Nat} {c : Code}
    (hc : Veiled g.name .whole c) {left : Option Signal}
    (h : Behavior.code s ⟨position, c⟩ m (.ok left m')) :
    m'.Guarded g (k.after s left) := by
  obtain ⟨fuel, hrun, -⟩ := h
  have hends := (runsGuard g fuel).run hs position hc hm
  replace hrun : run fuel s ⟨position, c⟩ m = .ok left m' := hrun
  rw [hrun] at hends
  obtain ⟨h, -⟩ | - := hends
  exact h

end GemLang
