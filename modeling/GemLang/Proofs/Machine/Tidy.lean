import GemLang.Proofs.Machine.Balance

/-!
# Tidy statements

What shapes of code do to the stack, said of trees. A statement that reads members only to call them
leaves the stack of its scope and the marks as they were, and an expression that does leaves one
value more. The functions that are called on the way may be anything that was lowered, tidy or not:
they run in scopes of their own.

It follows that a function of tidy statements has nothing on its stack when control comes to its
end. Such a call gives `null`, where one of other statements gives what happens to lie on top.
-/

namespace GemLang

open Bytecode
open Exec
open Ending

/-- Code of lowered statements, as the bodies of functions are. -/
def IsLoweredBody (c : Code) : Prop :=
  ∃ optimize body n, c = codeOf ((Lower.stmts optimize body).run n).1

theorem IsLoweredBody.anyBody {c : Code} (h : IsLoweredBody c) : AnyBody c := by
  obtain ⟨optimize, body, n, rfl⟩ := h
  rw [codeOf_eq_flatten]
  exact Shape.anyBody ((Lower.shaped_stmts optimize body (by simp)).run n)

/-- Whether control comes to the end of what is run. -/
def Exec.comesToEnd (x : Exec (Option Signal)) (m : Machine) : Bool :=
  match x m with
  | .ok none _ => true
  | _ => false

theorem Exec.comesToEnd_iff {x : Exec (Option Signal)} {m : Machine} :
    x.comesToEnd m = true ↔ ∃ m', x m = .ok none m' := by
  unfold comesToEnd
  constructor
  · intro h
    split at h
    · next m' heq => exact ⟨m', heq⟩
    · cases h
  · rintro ⟨m', h⟩
    rw [h]

/-! ## Trees -/

section

variable {N : Nat} (optimize : Bool) (n : Nat)

theorem balanced_stmt {x : Stmt} (h : Tidy.stmt x = true) :
    Achieves N (Balanced true) (codeOf ((Lower.stmt optimize x).run n).1) := by
  rw [codeOf_eq_flatten]
  exact Shape.behaves (fun k _ ↦ bodiesKeepMarks k)
    ((Lower.shaped_stmt optimize x fun _ ↦ h).run n)

theorem balanced_stmts {xs : List Stmt} (h : Tidy.stmts xs = true) :
    Achieves N (Balanced true) (codeOf ((Lower.stmts optimize xs).run n).1) := by
  rw [codeOf_eq_flatten]
  exact Shape.behaves (fun k _ ↦ bodiesKeepMarks k)
    ((Lower.shaped_stmts optimize xs fun _ ↦ h).run n)

theorem grown_expr {t : Bool} {e : Expr} (h : t = true → Tidy.expr e = true) :
    Achieves N (Grown t 1) (codeOf ((Lower.expr optimize e).run n).1) := by
  rw [codeOf_eq_flatten]
  exact Shape.behaves (fun k _ ↦ bodiesKeepMarks k) ((Lower.shaped_expr optimize e h).run n)

end

theorem Ending.Grown.exists_cons {s : Nat} {m m' : Machine} {left : Option Signal}
    (h : Grown true 1 s m left m') : ∃ v, m'.heap.stack s = v :: m.heap.stack s := by
  obtain ⟨-, -, -, taken, put, rest, hstack, hlength, hstack', -, hput⟩ := h
  obtain rfl := List.eq_nil_of_length_eq_zero hlength
  obtain ⟨v, rfl⟩ := List.length_eq_one_iff.mp (hput rfl)
  exact ⟨v, hstack ▸ hstack'⟩

/-! ## The end of a function -/

/-- A function that leaves its stack as it was gives `null` when control comes to its end. -/
theorem callScript_of_balanced {fuel caller frame : Nat} {f : ScriptFunction} {marked : Option Nat}
    {m m₁ m₂ : Machine} (hm : m.Ready caller) (hf : Achieves fuel (Balanced true) f.body.code)
    (hdepth : m.callDepth < m.config.maxCallDepth)
    (henter : enterFunction f caller marked m = .ok frame m₁)
    (hrun : counted (run fuel frame f.body) m₁ = .ok none m₂) :
    callScript (fuel + 1) f caller marked m = .ok .null m₂ := by
  obtain ⟨-, hexists, hempty⟩ := enterFunction_eq_ok hm.scope henter
  obtain ⟨hentered, -⟩ := (keeps_enterFunction (T := True) f (.inl rfl) marked).of_eq_ok
    hm.functions henter
  have hready := (hm.of_within hentered (hentered.marks trivial)).other hexists
  have hstack : m₂.heap.stack frame = [] := by
    obtain ⟨m₃, hran, rfl⟩ := counted_eq_ok.mp hrun
    obtain ⟨-, hbalanced⟩ := hf.of_ok (Nat.le_refl fuel) (hready.withCallDepth _) hran
    exact (hbalanced.stack rfl).trans hempty
  have hresult : callResult f frame none m₂ = .ok .null m₂ := by
    change popOrNull frame m₂ = _
    unfold popOrNull
    rw [hstack]
  rw [callScript]
  refine bind_eq_ok.mpr ⟨m, m, rfl, ?_⟩
  rw [if_neg (Nat.not_le.mpr hdepth)]
  exact bind_eq_ok.mpr ⟨frame, m₁, henter, bind_eq_ok.mpr ⟨none, m₂, hrun, hresult⟩⟩

/-- **Tidy statements leave the stack and the marks as they were, tidy expressions put one value on
the stack, and functions of tidy statements that control comes to the end of give `null`**, in every
machine whose functions were lowered. -/
theorem tidy_balanced {m : Machine} {s : Nat} (hfunctions : m.All (·.HasBody IsLoweredBody))
    (hs : s < m.heap.nextScope) (hmarks : ∀ mark ∈ m.marks, mark.1 < m.heap.nextScope)
    (optimize : Bool) (n fuel : Nat) :
    (∀ (x : Stmt) (position : Nat) (m' : Machine), Tidy.stmt x = true →
      run fuel s ⟨position, codeOf ((Lower.stmt optimize x).run n).1⟩ m = .ok none m' →
      m'.heap.stack s = m.heap.stack s ∧ m'.marks = m.marks) ∧
    (∀ (e : Expr) (position : Nat) (left : Option Signal) (m' : Machine), Tidy.expr e = true →
      run fuel s ⟨position, codeOf ((Lower.expr optimize e).run n).1⟩ m = .ok left m' →
      left = none ∧ (∃ v, m'.heap.stack s = v :: m.heap.stack s) ∧ m'.marks = m.marks) ∧
    (∀ (f : ScriptFunction) (body : List Stmt) (marked : Option Nat) (frame : Nat)
      (m₁ m₂ : Machine), Tidy.stmts body = true →
      f.body.code = codeOf ((Lower.stmts optimize body).run n).1 →
      m.callDepth < m.config.maxCallDepth → enterFunction f s marked m = .ok frame m₁ →
      counted (run fuel frame f.body) m₁ = .ok none m₂ →
      callScript (fuel + 1) f s marked m = .ok .null m₂) := by
  have hready : m.Ready s :=
    ⟨hfunctions.mono fun f hf ↦ IsLoweredBody.anyBody hf, hs, hmarks⟩
  refine ⟨fun x position m' hx hrun ↦ ?_, fun e position left m' he hrun ↦ ?_, ?_⟩
  · obtain ⟨-, hbalanced⟩ := (balanced_stmt optimize n hx).of_ok (Nat.le_refl fuel) hready hrun
    exact ⟨hbalanced.stack rfl, hbalanced.marks⟩
  · obtain ⟨-, hgrown⟩ := (grown_expr optimize n fun _ ↦ he).of_ok (Nat.le_refl fuel) hready hrun
    exact ⟨hgrown.atEnd, hgrown.exists_cons, hgrown.marks⟩
  · intro f body marked frame m₁ m₂ hbody hf hdepth henter hrun
    have hbalanced := balanced_stmts (N := fuel) optimize n hbody
    rw [← hf] at hbalanced
    exact callScript_of_balanced hready hbalanced hdepth henter hrun

/-- Printing a text on a new machine, as a statement, as an expression and in a function. -/
theorem tidy_balanced_print :
    let m := Machine.start (.standard false) .plain
    let print : Expr := .call (.member (.name "console") (.text "out") false) [.text "a"]
    let f : ScriptFunction :=
      ⟨0, "f", ["x"], ⟨0, codeOf ((Lower.stmts true [.expr print]).run 0).1⟩, Machine.root⟩
    (∃ m', run 20 Machine.root ⟨0, codeOf ((Lower.stmt true (.expr print)).run 0).1⟩ m =
        .ok none m' ∧
      m'.heap.stack Machine.root = m.heap.stack Machine.root ∧ m'.marks = m.marks) ∧
    (∃ m', run 20 Machine.root ⟨0, codeOf ((Lower.expr true print).run 0).1⟩ m = .ok none m' ∧
      ∃ v, m'.heap.stack Machine.root = v :: m.heap.stack Machine.root) ∧
    ∃ m', callScript 21 f Machine.root none m = .ok .null m' := by
  intro m print f
  have hbalanced := tidy_balanced (m := m) (s := Machine.root)
    (all_start _ _) (by decide) (by simp [m, Machine.start]) true 0 20
  obtain ⟨hstmt, hexpr, hfunction⟩ := hbalanced
  refine ⟨?_, ?_, ?_⟩
  · have hend : (run 20 Machine.root
        ⟨0, codeOf ((Lower.stmt true (.expr print)).run 0).1⟩).comesToEnd m = true := by
      decide +kernel
    obtain ⟨m', hrun⟩ := comesToEnd_iff.mp hend
    exact ⟨m', hrun, hstmt _ 0 m' rfl hrun⟩
  · have hend : (run 20 Machine.root
        ⟨0, codeOf ((Lower.expr true print).run 0).1⟩).comesToEnd m = true := by decide +kernel
    obtain ⟨m', hrun⟩ := comesToEnd_iff.mp hend
    exact ⟨m', hrun, (hexpr _ 0 none m' rfl hrun).2.1⟩
  · have hend : (do
        let frame ← enterFunction f Machine.root none
        counted (run 20 frame f.body)).comesToEnd m = true := by decide +kernel
    obtain ⟨m₂, hrun⟩ := comesToEnd_iff.mp hend
    obtain ⟨frame, m₁, henter, hrun⟩ := bind_eq_ok.mp hrun
    exact ⟨m₂, hfunction f [.expr print] none frame m₁ m₂ rfl rfl (by decide) henter hrun⟩

end GemLang
