import GemLang.Proofs.Machine.Session
import GemLang.Proofs.Machine.Tidy

/-!
# The arguments of a call

A call takes the values above its mark, and how many these are is not written down: it is what the
arguments and the callee have left on the stack by then. If each argument left one value and the
callee nothing but a function, they are the values of the arguments, in order, and the parameters of
the function are bound to them. Tidy arguments and callees do.

Others need not. Reading a method, as in `o.k`, leaves the value it was found for below the method.
Where such a reading is an argument, that value is taken for an argument too, and the arguments
after it are shifted by one. `callExpr_bound` says what the parameters are bound to in every case,
and just when these are the values of the arguments. What is below the mark is safe in any case.
-/

namespace GemLang

open Bytecode
open Exec
open Ending

/-! ## Binding parameters -/

/-- Parameters with what they are bound to: the values in order, and `null` when these run out. -/
def bound : List String → List Value → List (String × Value)
  | [], _ => []
  | param :: params, [] => (param, .null) :: bound params []
  | param :: params, v :: vs => (param, v) :: bound params vs

/-- A machine with other values on the stack of one scope, and names bound in another one. -/
structure Machine.Bound (m : Machine) (caller frame : Nat) (rest : List Value)
    (entries : List (String × Value)) (m' : Machine) : Prop where
  nextScope : m'.heap.nextScope = m.heap.nextScope
  marks : m'.marks = m.marks
  stack : m'.heap.stack caller = rest
  scope : m'.heap.scope frame = { m.heap.scope frame with
    bindings := entries.foldl (fun es e ↦ Assoc.insert es e.1 e.2) (m.heap.scope frame).bindings }

namespace Exec

variable {α β : Type} {x y : Exec α} {m m' : Machine}

/-- What comes next depends on how an operation ends, and on nothing else. -/
theorem bind_congr_left (h : x m = y m') (f : α → Exec β) : (x >>= f) m = (y >>= f) m' := by
  change EStateM.bind x f m = EStateM.bind y f m'
  unfold EStateM.bind
  rw [h]

theorem bind_of_eq_ok {a : α} (h : x m = .ok a m') (f : α → Exec β) : (x >>= f) m = f a m' :=
  bind_congr_left (y := pure a) h f

end Exec

theorem Heap.scope_declare_self {h : Heap} {s : Nat} (hs : s < h.nextScope) (name : String)
    (v : Value) : (h.declare s name v).scope s =
      { h.scope s with bindings := Assoc.insert (h.scope s).bindings name v } := by
  simp [Heap.declare, Heap.scope_modify, hs]

theorem Heap.scope_setStack_of_ne {h : Heap} {s t : Nat} (hne : s ≠ t) (values : List Value) :
    (h.setStack s values).scope t = h.scope t := by
  simp [Heap.setStack, Heap.scope_modify, hne]

theorem Heap.outer_setStack (h : Heap) (s t : Nat) (values : List Value) :
    ((h.setStack s values).scope t).outer = (h.scope t).outer := by
  simp only [Heap.setStack, Heap.scope_modify]
  split <;> rfl

/-- Parameters are bound to the values on top of the stack of the caller, as far as there are
any. -/
theorem bindParams_bound {caller frame : Nat} (hne : caller ≠ frame) (params : List String)
    {vs rest : List Value} {m : Machine} (hcaller : caller < m.heap.nextScope)
    (hframe : frame < m.heap.nextScope) (hstack : m.heap.stack caller = vs ++ rest) :
    ∃ m', bindParams caller frame (min params.length vs.length) params m = .ok () m' ∧
      m.Bound caller frame (vs.drop params.length ++ rest) (bound params vs) m' := by
  induction params generalizing vs m with
  | nil =>
    refine ⟨m, ?_, rfl, rfl, hstack, rfl⟩
    cases vs <;> rfl
  | cons param params ih =>
    cases vs with
    | nil =>
      have hkept : (m.heap.declare frame param .null).stack caller = [] ++ rest := by
        simpa using hstack
      obtain ⟨m', hbind, hbound⟩ := ih (m := { m with heap := m.heap.declare frame param .null })
        (by simpa using hcaller) (by simpa using hframe) hkept
      rw [List.length_nil, Nat.min_zero] at hbind ⊢
      refine ⟨m', hbind, by simpa using hbound.nextScope, hbound.marks, ?_, ?_⟩
      · simpa using hbound.stack
      · rw [hbound.scope, Heap.scope_declare_self hframe]
        rfl
    | cons v vs =>
      have hpop : pop caller m = .ok v { m with heap := m.heap.setStack caller (vs ++ rest) } := by
        unfold pop
        rw [hstack]
        rfl
      have hframe' : frame < (m.heap.setStack caller (vs ++ rest)).nextScope := by
        simpa using hframe
      have hkept : ((m.heap.setStack caller (vs ++ rest)).declare frame param v).stack caller =
          vs ++ rest := by
        rw [Heap.stack_declare, Heap.stack_setStack_self hcaller]
      obtain ⟨m', hbind, hbound⟩ := ih
        (m := { m with heap := (m.heap.setStack caller (vs ++ rest)).declare frame param v })
        (by simpa using hcaller) (by simpa using hframe) hkept
      rw [List.length_cons, List.length_cons, Nat.add_min_add_right]
      refine ⟨m', ?_, by simpa using hbound.nextScope, hbound.marks, ?_, ?_⟩
      · exact (bind_of_eq_ok hpop _).trans hbind
      · simpa using hbound.stack
      · rw [hbound.scope, Heap.scope_declare_self hframe', Heap.scope_setStack_of_ne hne]
        rfl

/-- The scope that a call with marked arguments runs in has nothing but its parameters in it. -/
theorem enterFunction_bound (f : ScriptFunction) {caller : Nat} {vs rest : List Value} {m : Machine}
    (hcaller : caller < m.heap.nextScope) (hstack : m.heap.stack caller = vs ++ rest) :
    ∃ m', enterFunction f caller (some vs.length) m = .ok m.heap.nextScope m' ∧
      m'.heap.scope m.heap.nextScope =
        ⟨[], Assoc.ofList (bound f.params vs), f.home :: (m.heap.scope f.home).outer⟩ ∧
      m'.heap.stack caller = rest ∧ m'.marks = m.marks := by
  have hne : caller ≠ m.heap.nextScope := Nat.ne_of_lt hcaller
  have hcaller' : caller < (m.heap.addChild f.home).nextScope := by
    simpa using Nat.lt_succ_of_lt hcaller
  have hstack' : (m.heap.addChild f.home).stack caller = vs ++ rest :=
    (Heap.stack_addChild_of_lt f.home hcaller).trans hstack
  obtain ⟨m₁, hbind, hbound⟩ := bindParams_bound (m := { m with heap := m.heap.addChild f.home })
    hne f.params hcaller' (by simp) hstack'
  have hlength : vs.length - min f.params.length vs.length = (vs.drop f.params.length).length := by
    rw [List.length_drop]
    omega
  -- what is left of the arguments is dropped
  have htake : takeTop caller (vs.length - min f.params.length vs.length) m₁ =
      .ok (vs.drop f.params.length).reverse { m₁ with heap := m₁.heap.setStack caller rest } := by
    unfold takeTop
    rw [hlength]
    simp [hbound.stack]
  refine ⟨{ m₁ with heap := m₁.heap.setStack caller rest }, ?_, ?_, ?_, hbound.marks⟩
  · refine bind_eq_ok.mpr ⟨m.heap.nextScope, _, rfl, bind_eq_ok.mpr ⟨_, _, rfl, ?_⟩⟩
    exact bind_eq_ok.mpr ⟨(), m₁, hbind, bind_eq_ok.mpr ⟨_, _, htake, rfl⟩⟩
  · change (m₁.heap.setStack caller rest).scope _ = _
    rw [Heap.scope_setStack_of_ne hne, hbound.scope, Heap.scope_addChild]
    simp [Scope.empty, Assoc.ofList]
  · have hcaller₁ : caller < m₁.heap.nextScope := hbound.nextScope ▸ hcaller'
    exact Heap.stack_setStack_self hcaller₁ rest

/-- Calling the function `f` on top of the stack of `s` is running its body from the machine `m'`
on: in a new scope inside the one where `f` was made, with nothing in it but the parameters of `f`,
bound to `vs`. -/
structure Machine.Enters (s : Nat) (f : ScriptFunction) (vs : List Value) (m m' : Machine) :
    Prop where
  call (fuel : Nat) : call (fuel + 2) s m = (do
    let left ← counted (run fuel m.heap.nextScope f.body)
    push s (← callResult f m.heap.nextScope left)) m'
  scope : m'.heap.scope m.heap.nextScope =
    ⟨[], Assoc.ofList (bound f.params vs), f.home :: (m.heap.scope f.home).outer⟩

/-- **A call of a function of the program binds its parameters to the values above the mark**, the
top one first. The values below the mark stay where they are. -/
theorem call_bound {s : Nat} {m : Machine} {f : ScriptFunction} {vs rest : List Value}
    {marks : List (ScopeId × Nat)} (hs : s < m.heap.nextScope)
    (hstack : m.heap.stack s = .script f :: (vs ++ rest))
    (hmarks : m.marks = (s, rest.length) :: marks)
    (hdepth : m.callDepth < m.config.maxCallDepth) :
    ∃ m', m.Enters s f vs m' ∧ m'.heap.stack s = rest ∧ m'.marks = marks := by
  have hpop : pop s m = .ok (.script f) { m with heap := m.heap.setStack s (vs ++ rest) } := by
    unfold pop
    rw [hstack]
  have hkept : (m.heap.setStack s (vs ++ rest)).stack s = vs ++ rest :=
    Heap.stack_setStack_self hs _
  have hcount := argumentCount_of_marked
    (m := { m with heap := m.heap.setStack s (vs ++ rest) }) hkept hmarks
  obtain ⟨m', henter, hscope, hrest, hmarks'⟩ := enterFunction_bound f
    (m := { m with heap := m.heap.setStack s (vs ++ rest), marks := marks })
    (by simpa using hs) hkept
  simp only [Heap.nextScope_setStack] at henter hscope
  rw [Heap.outer_setStack] at hscope
  refine ⟨m', ⟨fun fuel ↦ ?_, hscope⟩, hrest, hmarks'⟩
  have hscript : callScript (fuel + 1) f s (some vs.length)
      { m with heap := m.heap.setStack s (vs ++ rest), marks := marks } =
        (counted (run fuel m.heap.nextScope f.body) >>= callResult f m.heap.nextScope) m' := by
    rw [callScript]
    refine (bind_of_eq_ok (x := get) rfl _).trans ?_
    rw [if_neg (Nat.not_le.mpr hdepth), bind_of_eq_ok henter]
  rw [call_succ, bind_of_eq_ok hpop, bind_of_eq_ok hcount]
  exact (bind_congr_left hscript (push s)).trans (congrFun (bind_assoc _ _ _) m')

/-! ## Evaluating arguments -/

/-- An expression, run in the scope `s`, leaves values on the stack, the top one first. The top one
is its value. The lowering had used `n` hidden names before it. -/
structure ExprLeaves (optimize : Bool) (n s : Nat) (e : Expr) (m : Machine) (vs : List Value)
    (m' : Machine) : Prop where
  run : ∃ fuel position,
    run fuel s ⟨position, codeOf ((Lower.expr optimize e).run n).1⟩ m = .ok none m'
  stack : m'.heap.stack s = vs ++ m.heap.stack s

/-- Arguments, run last one first, leave values on the stack: a list for each of them. -/
inductive ArgumentsLeave (optimize : Bool) (n s : Nat) :
    List Expr → Machine → List (List Value) → Machine → Prop where
  | nil {m : Machine} : ArgumentsLeave optimize n s [] m [] m
  | cons {e : Expr} {es : List Expr} {m m₁ m' : Machine} {vs : List Value} {vss : List (List Value)}
      (hlater : ArgumentsLeave optimize n s es m vss m₁)
      (h : ExprLeaves optimize ((Lower.arguments optimize es).run n).2 s e m₁ vs m') :
      ArgumentsLeave optimize n s (e :: es) m (vs :: vss) m'

/-- The value of each argument. -/
def tops (vss : List (List Value)) : List Value := vss.map (·.headD .null)

section

variable {optimize : Bool} {n fuel position s : Nat} {m m' : Machine} {left : Option Signal}

theorem grown_arguments (N : Nat) (optimize : Bool) (n : Nat) (es : List Expr) :
    Achieves N (Grown false es.length) (codeOf ((Lower.arguments optimize es).run n).1) := by
  rw [codeOf_eq_flatten]
  exact Shape.behaves (fun k _ ↦ bodiesKeepMarks k)
    ((Lower.shaped_arguments optimize es (t := false) (by simp)).run n)

/-- An expression leaves a value, perhaps with others below it unless it is tidy. -/
theorem exprLeaves_of_run {e : Expr} (hm : m.Ready s)
    (h : run fuel s ⟨position, codeOf ((Lower.expr optimize e).run n).1⟩ m = .ok left m') :
    left = none ∧ m'.Ready s ∧ m'.marks = m.marks ∧ ∃ vs, ExprLeaves optimize n s e m vs m' ∧
      1 ≤ vs.length ∧ (Tidy.expr e = true → vs.length = 1) := by
  obtain ⟨hready, hgrown⟩ := (grown_expr optimize n (t := false) (by simp)).of_ok
    (Nat.le_refl fuel) hm h
  obtain ⟨rfl, hmarks, -, taken, vs, rest, hstack, hlength, hstack', hvs, -⟩ := hgrown
  obtain rfl := List.eq_nil_of_length_eq_zero hlength
  obtain rfl : m.heap.stack s = rest := hstack
  refine ⟨rfl, hready, hmarks, vs, ⟨⟨fuel, position, h⟩, hstack'⟩, hvs, fun he ↦ ?_⟩
  obtain ⟨-, htidy⟩ := (grown_expr optimize n fun _ ↦ he).of_ok (Nat.le_refl fuel) hm h
  obtain ⟨v, hv⟩ := htidy.exists_cons
  obtain rfl : vs = [v] := List.append_cancel_right (hstack'.symm.trans hv)
  rfl

theorem argumentsLeave_of_run {es : List Expr} (hm : m.Ready s)
    (h : run fuel s ⟨position, codeOf ((Lower.arguments optimize es).run n).1⟩ m = .ok left m') :
    left = none ∧ m'.Ready s ∧ m'.marks = m.marks ∧ ∃ vss, ArgumentsLeave optimize n s es m vss m' ∧
      m'.heap.stack s = vss.flatten ++ m.heap.stack s ∧ (∀ vs ∈ vss, 1 ≤ vs.length) ∧
      (Tidy.arguments es = true → ∀ vs ∈ vss, vs.length = 1) := by
  induction es generalizing fuel position left m' with
  | nil =>
    obtain ⟨rfl, rfl⟩ := run_nil_eq_ok h
    exact ⟨rfl, hm, rfl, [], .nil, rfl, by simp, by simp⟩
  | cons e es ih =>
    have hlines : ((Lower.arguments optimize (e :: es)).run n).1 =
        ((Lower.arguments optimize es).run n).1 ++
          ((Lower.expr optimize e).run ((Lower.arguments optimize es).run n).2).1 := by
      rw [Lower.arguments]
      rfl
    rw [hlines, codeOf_append] at h
    have hnested := (grown_arguments fuel optimize n es).nested
    have hnested' := (grown_expr (N := fuel) (t := false) (e := e) optimize
      ((Lower.arguments optimize es).run n).2 (by simp)).nested
    obtain ⟨first, m₁, hfirst, taken, later, hrest⟩ := run_append_eq_ok hnested hnested' h
    obtain ⟨rfl, hready, hmarks, vss, hleave, hstack, hlengths, htidy⟩ := ih hfirst
    obtain ⟨rfl, hready', hmarks', vs, hleave', hlength, htidy'⟩ := exprLeaves_of_run hready hrest
    refine ⟨rfl, hready', hmarks'.trans hmarks, vs :: vss, .cons hleave hleave', ?_, ?_,
      fun hes ↦ ?_⟩
    · rw [hleave'.stack, hstack, List.flatten_cons, List.append_assoc]
    · exact List.forall_mem_cons.mpr ⟨hlength, hlengths⟩
    · rw [Tidy.arguments, Bool.and_eq_true] at hes
      exact List.forall_mem_cons.mpr ⟨htidy' hes.1, htidy hes.2⟩

end

/-- No value is left but those of the arguments, if there are no more than arguments. -/
theorem length_eq_one_of_flatten {vss : List (List Value)} (hlengths : ∀ vs ∈ vss, 1 ≤ vs.length) :
    vss.length ≤ vss.flatten.length ∧
      (vss.flatten.length = vss.length → ∀ vs ∈ vss, vs.length = 1) := by
  induction vss with
  | nil => simp
  | cons vs vss ih =>
    rw [List.forall_mem_cons] at hlengths
    obtain ⟨hle, heq⟩ := ih hlengths.2
    rw [List.flatten_cons, List.length_append, List.length_cons, List.forall_mem_cons]
    exact ⟨by omega, fun h ↦ ⟨by omega, heq (by omega)⟩⟩

theorem flatten_eq_tops {vss : List (List Value)} (h : ∀ vs ∈ vss, vs.length = 1) :
    vss.flatten = tops vss := by
  induction vss with
  | nil => rfl
  | cons vs vss ih =>
    rw [List.forall_mem_cons] at h
    obtain ⟨v, rfl⟩ := List.length_eq_one_iff.mp h.1
    rw [List.flatten_cons, ih h.2]
    rfl

/-- What is above the mark is the values of the arguments just if each argument left one value and
the callee left nothing else. -/
theorem append_flatten_eq_tops_iff {extra : List Value} {vss : List (List Value)}
    (hlengths : ∀ vs ∈ vss, 1 ≤ vs.length) :
    extra ++ vss.flatten = tops vss ↔ extra = [] ∧ ∀ vs ∈ vss, vs.length = 1 := by
  constructor
  · intro h
    obtain ⟨hle, heq⟩ := length_eq_one_of_flatten hlengths
    have hlength := congrArg List.length h
    rw [tops, List.length_append, List.length_map] at hlength
    exact ⟨List.eq_nil_of_length_eq_zero (by omega), heq (by omega)⟩
  · rintro ⟨rfl, h⟩
    exact flatten_eq_tops h

/-! ## Call expressions -/

/-- The code of a call before the instruction that calls: the mark, the arguments and the callee. -/
def callPrelude (optimize : Bool) (callee : Expr) (args : List Expr) (n : Nat) : List Line :=
  bare .args ++ ((Lower.arguments optimize args).run n).1 ++
    ((Lower.expr optimize callee).run ((Lower.arguments optimize args).run n).2).1

theorem lower_call (optimize : Bool) (callee : Expr) (args : List Expr) (n : Nat) :
    ((Lower.expr optimize (.call callee args)).run n).1 =
      callPrelude optimize callee args n ++ bare .call := by
  rw [Lower.expr]
  rfl

/-- A call expression leaves one value, whatever its parts leave. -/
theorem grown_callExpr {N : Nat} (optimize : Bool) (callee : Expr) (args : List Expr) (n : Nat) :
    Achieves N (Grown true 1) (codeOf ((Lower.expr optimize (.call callee args)).run n).1) := by
  have hbodies (k : Nat) (_ : k < N) : BodiesKeepMarks k := bodiesKeepMarks k
  have hcallee : Achieves N (Grown false 1) _ :=
    Shape.behaves hbodies ((Lower.shaped_callee optimize callee (t := false) (by simp)).run
      ((Lower.arguments optimize args).run n).2)
  have h : Achieves N (Grown true 1) _ :=
    grown_call hbodies (grown_arguments N optimize n args) hcallee
  rw [lower_call, callPrelude]
  simpa [← codeOf_eq_flatten] using h

/-- When control comes to the instruction that calls, the values above its mark are what the callee
and the arguments left. -/
theorem callPrelude_eq_ok {optimize : Bool} {callee : Expr} {args : List Expr}
    {n fuel position s : Nat} {m m' : Machine} (hm : m.Ready s)
    (h : run fuel s ⟨position, codeOf (callPrelude optimize callee args n)⟩ m = .ok none m') :
    m'.Ready s ∧ m'.marks = (s, m.heap.depth s) :: m.marks ∧ ∃ vss m₁ ws,
      ArgumentsLeave optimize n s args { m with marks := (s, m.heap.depth s) :: m.marks } vss m₁ ∧
      ExprLeaves optimize ((Lower.arguments optimize args).run n).2 s callee m₁ ws m' ∧
      m'.heap.stack s = ws ++ vss.flatten ++ m.heap.stack s ∧ 1 ≤ ws.length ∧
      (∀ vs ∈ vss, 1 ≤ vs.length) ∧ (Tidy.expr callee = true → ws.length = 1) ∧
      (Tidy.arguments args = true → ∀ vs ∈ vss, vs.length = 1) := by
  have hargs := (grown_arguments fuel optimize n args).nested
  have hcallee := (grown_expr (N := fuel) (t := false) (e := callee) optimize
    ((Lower.arguments optimize args).run n).2 (by simp)).nested
  have hmark := achieves_mark fuel
  rw [callPrelude, codeOf_append, codeOf_append] at h
  obtain ⟨first, m₂, hfirst, _, _, hlast⟩ := run_append_eq_ok (hmark.nested.append hargs) hcallee h
  obtain ⟨start, m₁, hstart, _, _, hrest⟩ := run_append_eq_ok hmark.nested hargs hfirst
  obtain ⟨hmarked, rfl, rfl⟩ := hmark.of_ok (Nat.le_refl fuel) hm hstart
  obtain ⟨rfl, hready, hmarks, vss, hleave, hstack, hlengths, htidy⟩ :=
    argumentsLeave_of_run hmarked hrest
  obtain ⟨-, hready', hmarks', ws, hleave', hlength, htidy'⟩ := exprLeaves_of_run hready hlast
  refine ⟨hready', hmarks'.trans hmarks, vss, m₂, ws, hleave, hleave', ?_, hlength, hlengths,
    htidy', htidy⟩
  rw [hleave'.stack, hstack, List.append_assoc]

/-- **What the parameters of a function are bound to in a call**: the values above the mark, which
are what the callee left below the function, and then what the arguments left, the first one on top.
These are the values of the arguments just if each part of the call left one value, as the tidy
parts do. On return there is the result on top of what was there before, in any case. -/
theorem callExpr_bound {m m' : Machine} {s : Nat} (hfunctions : m.All (·.HasBody IsLoweredBody))
    (hs : s < m.heap.nextScope) (hmarks : ∀ mark ∈ m.marks, mark.1 < m.heap.nextScope)
    {optimize : Bool} {callee : Expr} {args : List Expr} {n fuel position : Nat}
    {f : ScriptFunction} {below : List Value}
    (hrun : run fuel s ⟨position, codeOf (callPrelude optimize callee args n)⟩ m = .ok none m')
    (hstack : m'.heap.stack s = .script f :: below)
    (hdepth : m'.callDepth < m'.config.maxCallDepth) :
    ∃ vss m₁ extra,
      ArgumentsLeave optimize n s args { m with marks := (s, m.heap.depth s) :: m.marks } vss m₁ ∧
      ExprLeaves optimize ((Lower.arguments optimize args).run n).2 s callee m₁
        (.script f :: extra) m' ∧
      below = extra ++ vss.flatten ++ m.heap.stack s ∧
      (∃ entered, m'.Enters s f (extra ++ vss.flatten) entered ∧
        entered.heap.stack s = m.heap.stack s ∧ entered.marks = m.marks) ∧
      (extra ++ vss.flatten = tops vss ↔ extra = [] ∧ ∀ vs ∈ vss, vs.length = 1) ∧
      (Tidy.expr callee = true → extra = []) ∧
      (Tidy.arguments args = true → ∀ vs ∈ vss, vs.length = 1) ∧
      ∀ fuel position left m',
        run fuel s ⟨position, codeOf ((Lower.expr optimize (.call callee args)).run n).1⟩ m =
          .ok left m' →
        left = none ∧ (∃ v, m'.heap.stack s = v :: m.heap.stack s) ∧ m'.marks = m.marks := by
  have hready : m.Ready s :=
    ⟨hfunctions.mono fun f hf ↦ IsLoweredBody.anyBody hf, hs, hmarks⟩
  obtain ⟨hready', hmarks', vss, m₁, ws, hargs, hcallee, hstack', hlength, hlengths, htidy',
    htidy⟩ := callPrelude_eq_ok hready hrun
  obtain ⟨w, extra, rfl⟩ := List.exists_cons_of_length_pos hlength
  rw [hstack', List.cons_append, List.cons_append] at hstack
  obtain ⟨rfl, rfl⟩ := List.cons.inj hstack
  refine ⟨vss, m₁, extra, hargs, hcallee, rfl, ?_, append_flatten_eq_tops_iff hlengths, fun hc ↦ ?_,
    htidy, fun fuel position left m' h ↦ ?_⟩
  · exact call_bound hready'.scope hstack' hmarks' hdepth
  · exact List.eq_nil_of_length_eq_zero (Nat.succ.inj (htidy' hc))
  · obtain ⟨-, hgrown⟩ := (grown_callExpr optimize callee args n).of_ok (Nat.le_refl fuel) hready h
    exact ⟨hgrown.atEnd, hgrown.exists_cons, hgrown.marks⟩

/-- Whether control comes to the end of what is run with a function of the program on top of the
stack of `s`, which can be called. -/
def Exec.comesToFunction (x : Exec (Option Signal)) (s : ScopeId) (m : Machine) : Bool :=
  match x m with
  | .ok none m' =>
    match m'.heap.stack s with
    | .script _ :: _ => m'.callDepth < m'.config.maxCallDepth
    | _ => false
  | _ => false

theorem Exec.exists_of_comesToFunction {x : Exec (Option Signal)} {s : ScopeId} {m : Machine}
    (h : x.comesToFunction s m = true) : ∃ m' f below, x m = .ok none m' ∧
      m'.heap.stack s = .script f :: below ∧ m'.callDepth < m'.config.maxCallDepth := by
  unfold comesToFunction at h
  split at h
  · next m' heq =>
    split at h
    · next f below hstack => exact ⟨m', f, below, heq, hstack, by simpa using h⟩
    · cases h
  · cases h

/-- A function of two parameters is called with two arguments on a new machine. -/
theorem callExpr_bound_two :
    ∃ m' f below, run 20 Machine.root ⟨0, codeOf (callPrelude true (.function "f" ["a", "b"] [])
        [.text "x", .text "y"] 0)⟩ (.start (.standard false) .plain) = .ok none m' ∧
      m'.heap.stack Machine.root = .script f :: below ∧
      ∃ vss entered, vss.length = 2 ∧ m'.Enters Machine.root f (tops vss) entered ∧
        entered.heap.stack Machine.root = [] := by
  have hend : (run 20 Machine.root ⟨0, codeOf (callPrelude true (.function "f" ["a", "b"] [])
      [.text "x", .text "y"] 0)⟩).comesToFunction Machine.root
        (.start (.standard false) .plain) = true := by cbv
  obtain ⟨m', f, below, hrun, hstack, hdepth⟩ := exists_of_comesToFunction hend
  obtain ⟨vss, m₁, extra, hargs, -, -, ⟨entered, henters, hrest, -⟩, hiff, hcallee, htidy, -⟩ :=
    callExpr_bound (all_start _ _) (by decide) (by simp [Machine.start]) hrun hstack hdepth
  rw [hiff.mpr ⟨hcallee rfl, htidy rfl⟩] at henters
  refine ⟨m', f, below, hrun, hstack, vss, entered, ?_, henters, hrest⟩
  cases hargs with
  | cons hlater _ =>
    cases hlater with
    | cons hlater _ =>
      cases hlater
      rfl

/-- What a program has printed, if it came to its end. -/
def Exec.printed? (x : Exec Unit) (m : Machine) : Option String :=
  match x m with
  | .ok () m' => some m'.output
  | .error _ _ => none

/-- The method that is the first argument brings its text along, and the text is taken for the
second argument: `b` is bound to `'abc'`, and not to `'x'`. -/
theorem callExpr_bound_shifted :
    let source := "fn f(a, b) \x7b console.out(b) \x7d\nf('abc'.length, 'x')"
    let body : Program := [
      .function "f" ["a", "b"]
        [.expr (.call (.member (.name "console") (.text "out") false) [.name "b"])],
      .expr (.call (.name "f") [.member (.text "abc") (.text "length") false, .text "x"])]
    parseSource source "" = .ok body ∧
      (evaluate 60 (textOf (Lower.program true body))).printed?
        (.start (.standard false) .plain) = some "abc\n" := by
  intro source body
  have hparse : parseSource source "" = .ok body := by
    unfold source body
    with_unfolding_all rfl
  refine ⟨hparse, ?_⟩
  have hspelled : (Spelling.writable (· < UInt64.size)).stmts body := by
    have hf : IsName "f" := by decide
    have ha : IsName "a" := by decide
    have hb : IsName "b" := by decide
    have hconsole : IsName "console" := by decide
    simp [body, Spelling.stmts, Spelling.stmt, Spelling.expr, Spelling.arguments, Spelling.writable,
      hf, ha, hb, hconsole]
  unfold evaluate
  rw [Lower.decode_program_append true hspelled decode_callMain]
  simp only [checkCode_ok, pure_bind]
  cbv

end GemLang
