import GemLang.Proofs.Machine.Evaluation
import GemLang.Proofs.Machine.Recovery

/-!
# Constants computed beforehand

Arithmetic over literals may be carried out when an expression is lowered. One number then stands in
the code where operands and operators stood before, and a run cannot tell: from any machine, the
shorter code comes to the same end as the longer one (`code_folded`). The one exception is that the
longer code needs more room, and so may overflow a stack where the shorter one does not.

What is computed beforehand is what the machine would have computed (`binary_of_compute?`), and the
number is finite, so that its text stands for exactly it. All other code is the same up to where it
stands; and where it stands matters to functions only, which carry the position of their code.
-/

namespace GemLang

open Bytecode
open Behavior (code seq)
open Exec

/-! ## Constants -/

theorem binary_of_compute? {op : BinaryOp} {a b v : Float} (h : op.compute? a b = some v) :
    Direct.binary op (.number a) (.number b) = .ok (.number v) ∧ v.isFinite = true := by
  unfold BinaryOp.compute? at h
  obtain ⟨hv, hfinite⟩ := Option.filter_eq_some_iff.mp h
  refine ⟨?_, hfinite⟩
  cases op with
  | add | sub | mul | pow =>
    cases hv
    rfl
  | div | mod =>
    dsimp only at hv
    split at hv
    · cases hv
    · next hb =>
      cases hv
      simp only [Direct.binary, Direct.arithmetic, if_neg hb]
      rfl
  | _ => cases hv

theorem isFinite_of_constant? {e : Expr} (he : Simple.expr true e = true) {v : Float}
    (h : e.constant? = some v) : v.isFinite = true := by
  fun_induction Expr.constant? e generalizing v with
  | case1 value =>
    cases h
    exact he
  | case2 operand ih =>
    rw [Simple.expr] at he
    obtain ⟨x, hx, rfl⟩ := Option.map_eq_some_iff.mp h
    exact Number.isFinite_zero_sub (ih he hx)
  | case3 op left right a b ha hb => exact (binary_of_compute? h).2
  | case4 | case5 => cases h

/-- A constant is lowered to one number. -/
theorem Lower.lines_constant {e : Expr} {v : Float} (h : e.constant? = some v) (n : Nat) :
    (Lower.expr true e n).1 = Lower.pushNumber v := by
  cases e with
  | number value =>
    cases h
    rfl
  | binary op left right =>
    rw [Lower.expr, Lower.constantOr, if_pos rfl, h]
    rfl
  | unary op operand =>
    rw [Lower.expr, Lower.constantOr, if_pos rfl, h]
    rfl
  | _ => cases h

theorem computes_constant {m : Machine} {s : ScopeId} (hs : s < m.heap.nextScope) {e : Expr}
    (he : Simple.expr true e = true) {v : Float} (h : e.constant? = some v) {vs : List Value}
    {peak : Nat} (hpeak : vs.length + Direct.height e ≤ peak) (n position : Nat) :
    Computes (code s ⟨position, codeOf (Lower.expr false e n).1⟩) s m vs peak
      (.ok (.number v :: vs)) := by
  fun_induction Expr.constant? e generalizing v vs n position with
  | case1 value =>
    cases h
    exact computes_pushNumber hs hpeak he position
  | case2 operand ih =>
    rw [Simple.expr] at he
    rw [Direct.height] at hpeak
    obtain ⟨x, hx, rfl⟩ := Option.map_eq_some_iff.mp h
    rw [Lower.lines_negate false (by simp)]
    refine computes_negate hs (x := .ok (.number x)) (Structured.nested_expr false operand n)
      (by omega) ?_ position
    intro a position
    exact ih he hx (by rw [List.length_cons]; omega) n position
  | case3 op left right a b hb ha iha ihb =>
    simp only [Simple.expr, Bool.and_eq_true] at he
    rw [Direct.height] at hpeak
    have hvalue : (.ok (.number v :: vs) : Except Error (List Value)) =
        (· :: vs) <$> Direct.binary op (.number a) (.number b) := by
      rw [(binary_of_compute? h).1]
      rfl
    rw [Lower.lines_binary false (by simp), hvalue]
    refine computes_binary hs op (x := .ok (.number a)) (y := .ok (.number b))
      (Structured.nested_expr false left n) (Structured.nested_expr false right _) (by omega) ?_ ?_
      position
    · exact iha he.1 ha (by omega) n
    · intro c
      exact ihb he.2 hb (by rw [List.length_cons]; omega) _
  | case4 | case5 => cases h

/-! ## Better code -/

/-- Running came to an end because a stack was full, or too many calls were under way. -/
def Overflows (r : Exec.Result (Option Signal)) : Prop :=
  ∃ m, r = .error (.error .stackOverflow) m

/-- Wherever they stand, the lines `b` come to the same end as the lines `a` do, from any machine
that has the scope `s`, unless `a` overflows. -/
structure Improves (s : ScopeId) (a b : List Line) : Prop where
  nested : Structured.NestedLines .whole a
  nested' : Structured.NestedLines .whole b
  follows {m : Machine} {r : Exec.Result (Option Signal)} (position position' : Nat)
    (hs : s < m.heap.nextScope) (h : code s ⟨position, codeOf a⟩ m r) (hr : ¬Overflows r) :
    code s ⟨position', codeOf b⟩ m r

/-- Scopes are never taken away. -/
theorem nextScope_code {s : ScopeId} {c : Stretch} {m m' : Machine} {left : Option Signal}
    (h : code s c m (.ok left m')) : m.heap.nextScope ≤ m'.heap.nextScope := by
  obtain ⟨fuel, hrun, -⟩ := h
  have htame : Tame m s (fun _ ↦ True) (run fuel s c) := tame_run (.inl rfl) fuel c
  have hwithin := htame.ends_within
  replace hrun : run fuel s c m = .ok left m' := hrun
  rw [hrun] at hwithin
  cases hwithin with
  | ok h => exact h.nextScope

section

variable {s : ScopeId}

theorem Improves.append {a a' b b' : List Line} (ha : Improves s a a') (hb : Improves s b b') :
    Improves s (a ++ b) (a' ++ b') where
  nested := ha.nested.append hb.nested
  nested' := ha.nested'.append hb.nested'
  follows {m r} position position' hs h hr := by
    rw [Structured.code_lines_append ha.nested hb.nested] at h
    rw [Structured.code_lines_append ha.nested' hb.nested']
    cases h with
    | passed h h' =>
      -- the first part may have made scopes, but `s` is still there
      have hfirst := ha.follows position position' hs h (by rintro ⟨m, hm⟩; cases hm)
      exact .passed hfirst (hb.follows _ _ (Nat.lt_of_lt_of_le hs (nextScope_code h)) h' hr)
    | left h => exact .left (ha.follows position position' hs h hr)
    | stopped h => exact .stopped (ha.follows position position' hs h hr)

theorem improves_unary (op : Opcode) (x : String) (hrole : op.role = .plain := by rfl)
    (hcount : 1 = op.operandCount := by rfl) : Improves s (unary op x) (unary op x) where
  nested := Structured.nested_unary op x hrole hcount
  nested' := Structured.nested_unary op x hrole hcount
  follows position position' _ h _ := by
    have hcode (p : Nat) := Behavior.code_plain [x] hrole hcount s p
    exact (hcode position').symm ▸ (hcode position) ▸ h

theorem improves_bare (op : Opcode) (hrole : op.role = .plain := by rfl)
    (hcount : 0 = op.operandCount := by rfl) : Improves s (bare op) (bare op) where
  nested := Structured.nested_bare op hrole hcount
  nested' := Structured.nested_bare op hrole hcount
  follows position position' _ h _ := by
    have hcode (p : Nat) := Behavior.code_plain [] hrole hcount s p
    exact (hcode position').symm ▸ (hcode position) ▸ h

theorem improves_call : Improves s (bare .call) (bare .call) where
  nested := Structured.nested_jump .call
  nested' := Structured.nested_jump .call
  follows position position' _ h _ := by
    rw [codeOf_bare, Behavior.code_call] at h ⊢
    exact h

theorem improves_nil : Improves s [] [] where
  nested := .nil
  nested' := .nil
  follows position position' _ h _ := by
    rw [codeOf_nil, Behavior.code_nil] at h ⊢
    exact h

theorem improves_constant {e : Expr} (he : Simple.expr true e = true) {v : Float}
    (h : e.constant? = some v) (n : Nat) :
    Improves s (Lower.expr false e n).1 (Lower.pushNumber v) where
  nested := Structured.nested_expr false e n
  nested' := Structured.nested_pushNumber v
  follows {m r} position position' hs hcode hr := by
    have hlong := computes_constant hs he h (Nat.le_refl (m.heap.depth s + Direct.height e)) n
      position
    rw [← withStack_stack m s] at hcode ⊢
    -- a stack on which the longer code left the number has room for it
    cases hlong with
    | overflow _ hlong =>
      rw [Behavior.code_unique hcode hlong] at hr
      exact absurd ⟨_, rfl⟩ hr
    | passed hroom hlong =>
      rw [Behavior.code_unique hcode hlong]
      cases computes_pushNumber hs hroom (isFinite_of_constant? he h) position' with
      | passed _ hshort => exact hshort
      | overflow hpeak _ => exact absurd hpeak (Nat.lt_irrefl _)

end

/-! ## Expressions -/

variable {s : ScopeId}

mutual

theorem improves_expr (e : Expr) (he : Simple.expr true e = true) (n n' : Nat) :
    Improves s (Lower.expr false e n).1 (Lower.expr true e n').1 := by
  match e with
  | .number value => exact improves_unary .push _
  | .text value => exact improves_unary .push _
  | .bool value => exact improves_unary .loadLocal _
  | .name x => exact improves_unary .loadLocal x
  | .binary op left right =>
    cases hconstant : (Expr.binary op left right).constant? with
    | some v =>
      rw [Lower.lines_constant hconstant]
      exact improves_constant he hconstant n
    | none =>
      simp only [Simple.expr, Bool.and_eq_true] at he
      rw [Lower.lines_binary false (by simp), Lower.lines_binary true fun _ ↦ hconstant]
      have hop : Improves s (bare op.opcode) (bare op.opcode) :=
        improves_bare op.opcode (role_operator op) (operandCount_operator op)
      exact (improves_expr left he.1 n n').append ((improves_expr right he.2 _ _).append hop)
  | .unary .negate operand =>
    cases hconstant : (Expr.unary .negate operand).constant? with
    | some v =>
      rw [Lower.lines_constant hconstant]
      exact improves_constant he hconstant n
    | none =>
      rw [Simple.expr] at he
      rw [Lower.lines_negate false (by simp), Lower.lines_negate true fun _ ↦ hconstant]
      exact (improves_unary .push "0").append
        ((improves_expr operand he n n').append (improves_bare .sub))
  | .unary .not operand =>
    rw [Simple.expr] at he
    rw [Lower.lines_not, Lower.lines_not]
    exact (improves_expr operand he n n').append (improves_bare .not)
  | .call callee args =>
    simp only [Simple.expr, Bool.and_eq_true] at he
    have hargs := improves_arguments args he.2 n n'
    have hcallee := improves_expr callee he.1.2 (Lower.arguments false args n).2
      (Lower.arguments true args n').2
    exact (((improves_bare .args).append hargs).append hcallee).append improves_call
  | .member object property _ =>
    simp only [Simple.expr, Bool.and_eq_true] at he
    have hobject := improves_expr object he.1.2 n n'
    have hproperty := improves_expr property he.2 (Lower.expr false object n).2
      (Lower.expr true object n').2
    exact (hobject.append hproperty).append (improves_bare .loadKey)
  | .table es =>
    rw [Simple.expr] at he
    exact (improves_bare .newTable).append (improves_entries es he n n')
  | .function _ _ _ => cases he

theorem improves_arguments (es : List Expr) (he : Simple.arguments true es = true) (n n' : Nat) :
    Improves s (Lower.arguments false es n).1 (Lower.arguments true es n').1 := by
  match es with
  | [] => exact improves_nil
  | e :: es =>
    simp only [Simple.arguments, Bool.and_eq_true] at he
    have hlater := improves_arguments es he.2 n n'
    exact hlater.append (improves_expr e he.1 (Lower.arguments false es n).2
      (Lower.arguments true es n').2)

theorem improves_entries (es : List (Expr × Expr)) (he : Simple.entries true es = true)
    (n n' : Nat) : Improves s (Lower.entries false es n).1 (Lower.entries true es n').1 := by
  match es with
  | [] => exact improves_nil
  | (key, value) :: es =>
    simp only [Simple.entries, Bool.and_eq_true] at he
    obtain ⟨k, l, hlong⟩ := Lower.lines_entry false key value es n
    obtain ⟨k', l', hshort⟩ := Lower.lines_entry true key value es n'
    rw [hlong, hshort]
    exact (improves_expr value he.1.2 n n').append ((improves_expr key he.1.1 k k').append
      ((improves_bare .storeKey).append (improves_entries es he.2 l l')))

end

/-- **Computing constants beforehand changes nothing.** Both texts of an expression are read as the
code they were written from, if the names in it are names. And wherever the two codes stand: if a
run of the longer one ends without an overflow, a run of the shorter one from the same machine ends
the same way, in the same machine. -/
theorem code_folded {e : Expr} (he : Simple.expr true e = true) (n n' : Nat) :
    ((Spelling.writable fun _ ↦ True).expr e → ∀ optimize,
      decode (textOf (Lower.expr optimize e n).1) = .ok (codeOf (Lower.expr optimize e n).1)) ∧
    ∀ (m : Machine) (s : ScopeId) (position position' : Nat) (r : Exec.Result (Option Signal)),
      s < m.heap.nextScope → code s ⟨position, codeOf (Lower.expr false e n).1⟩ m r →
      (∀ m', r ≠ .error (.error .stackOverflow) m') →
      code s ⟨position', codeOf (Lower.expr true e n').1⟩ m r := by
  refine ⟨fun hspelling optimize ↦ decode_expr optimize hspelling n, ?_⟩
  intro m s position position' r hs h hr
  refine (improves_expr e he n n').follows position position' hs h ?_
  rintro ⟨m', hm'⟩
  exact hr m' hm'

/-- `0 * -1` is the number `-0` in the shorter code. -/
theorem code_folded_negativeZero :
    ∃ (e : Expr) (m m' : Machine), e = .binary .mul (.number 0) (.unary .negate (.number 1)) ∧
      m = Machine.start (.standard true) .plain ∧
      m' = { m with heap := m.heap.push Machine.root (.number (-0)) } ∧
      Simple.expr true e = true ∧ codeOf (Lower.expr true e 0).1 = [.op .push, .operand "-0"] ∧
      code Machine.root ⟨0, codeOf (Lower.expr false e 0).1⟩ m (.ok none m') ∧
      code Machine.root ⟨0, codeOf (Lower.expr true e 0).1⟩ m (.ok none m') := by
  let e : Expr := .binary .mul (.number 0) (.unary .negate (.number 1))
  let m := Machine.start (.standard true) .plain
  have he : Simple.expr true e = true := rfl
  have hroot : Machine.root < m.heap.nextScope := Nat.one_pos
  have hconstant : e.constant? = some (-0) := by decide +kernel
  have hcode : codeOf (Lower.expr true e 0).1 = [.op .push, .operand "-0"] := by
    have htext : Number.text (-0) = "-0" := by decide +kernel
    rw [Lower.lines_constant hconstant, Lower.pushNumber, htext]
    rfl
  have hlong : code Machine.root ⟨0, codeOf (Lower.expr false e 0).1⟩ m
      (.ok none { m with heap := m.heap.push Machine.root (.number (-0)) }) := by
    have h := computes_constant hroot he hconstant (Nat.le_refl (m.heap.depth 0 + 3)) 0 0
    rw [Heap.push_eq_setStack]
    cases h with
    | passed _ h => exact h
    | overflow hpeak _ => exact absurd hpeak (by decide)
  have hshort := (code_folded he 0 0).2 m Machine.root 0 0 _ hroot hlong (fun _ h ↦ by cases h)
  exact ⟨e, m, _, rfl, rfl, rfl, he, hcode, hlong, hshort⟩

end GemLang
