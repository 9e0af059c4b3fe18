import GemLang.Proofs.Compile.Lowered
import GemLang.Proofs.Machine.Ending
import GemLang.Proofs.Number.Whole

/-!
# The balance of the stack

Tidy statements leave the stack of their scope as it was, and tidy expressions put one value on it;
marks that were set for calls are gone when the calls are over. Code that is not tidy keeps the
marks too, but it may leave more on the stack: the values that methods were found for.

## Calls

How many arguments a call has is not in the code. Its arguments are marked, and the call takes what
is above the mark. That this is right whatever the arguments have left there is what makes untidy
code inside a call harmless to what is below the mark (`grown_call`).

The loop over an iterator calls without a mark. This is no call of its own arguments only, but it is
made in a scope that is new, so that none of the marks there are is taken for its own.
-/

namespace GemLang

open Bytecode
open Exec

/-- Whether a construct that is to leave `n` values may leave `k`: only if `k` is `n` where it is
tidy, and at least that many otherwise. -/
def IsYield (t : Bool) (n k : Nat) : Prop := n ≤ k ∧ (t = true → k = n)

namespace Ending

/-- Control came to the end, with `n` values more on the stack, or even more if the code is not
tidy. -/
structure Grown (t : Bool) (n s : Nat) (m : Machine) (left : Option Signal) (m' : Machine) :
    Prop where
  atEnd : left = none
  marks : m'.marks = m.marks
  stack : m.Traded s 0 (IsYield t n) m'

/-- However control left, the marks are those before, and so is the stack if the code is tidy. -/
structure Balanced (t : Bool) (s : Nat) (m : Machine) (left : Option Signal) (m' : Machine) :
    Prop where
  marks : m'.marks = m.marks
  stack (ht : t = true) : m'.heap.stack s = m.heap.stack s

/-- The marks are those before, if none of them was made in the scope. -/
def Passed (s : Nat) (m : Machine) (_ : Option Signal) (m' : Machine) : Prop :=
  (∀ mark ∈ m.marks, mark.1 ≠ s) → m'.marks = m.marks

section

variable {s n k : Nat} {t : Bool} {m m₁ m' : Machine} {left : Option Signal}

theorem Grown.one {v : Value} (hs : s < m'.heap.nextScope) (hmarks : m'.marks = m.marks)
    (hstack : m'.heap.stack s = v :: m.heap.stack s) : Grown t 1 s m none m' :=
  ⟨rfl, hmarks, hs, [], [v], m.heap.stack s, rfl, rfl, hstack, Nat.le_refl 1, fun _ ↦ rfl⟩

theorem Grown.loosen (h : Grown t n s m left m') : Grown false n s m left m' := by
  obtain ⟨hend, hmarks, hscope, taken, put, rest, hstack, hlength, hstack', hput⟩ := h
  exact ⟨hend, hmarks, hscope, taken, put, rest, hstack, hlength, hstack', hput.1, by simp⟩

theorem Grown.of_then (h : Then (Grown t n) (Grown t k) s m left m') :
    Grown t (n + k) s m left m' := by
  cases h with
  | left h => exact absurd h.atEnd (by simp)
  | passed h _ h' =>
    refine ⟨h'.atEnd, h'.marks.trans h.marks, h.stack.trans h'.stack ?_⟩
    rintro a b ⟨hle, heq⟩ ⟨hle', heq'⟩
    refine ⟨Nat.zero_le a, by omega, fun ht ↦ ?_⟩
    rw [heq ht, heq' ht]
    omega

theorem Grown.balanced (h : Grown t 0 s m left m') : Balanced t s m left m' := by
  obtain ⟨-, hmarks, -, taken, put, rest, hstack, hlength, hstack', -, hput⟩ := h
  refine ⟨hmarks, fun ht ↦ ?_⟩
  obtain rfl := List.eq_nil_of_length_eq_zero (hput ht)
  obtain rfl := List.eq_nil_of_length_eq_zero hlength
  rw [hstack, hstack']

theorem Balanced.of_then (h : Then (Balanced t) (Balanced t) s m left m') :
    Balanced t s m left m' := by
  cases h with
  | left h => exact h
  | passed h _ h' => exact ⟨h'.marks.trans h.marks, fun ht ↦ (h'.stack ht).trans (h.stack ht)⟩

theorem Balanced.passed (h : Balanced t s m left m') : Passed s m left m' := fun _ ↦ h.marks

theorem Passed.of_then (h : Then Passed Passed s m left m') : Passed s m left m' := by
  intro hmarks
  cases h with
  | left h => exact h hmarks
  | passed h _ h' =>
    have heq := h hmarks
    exact (h' (heq ▸ hmarks)).trans heq

end

end Ending

open Ending

variable {N : Nat} {t : Bool}

/-! ## Values -/

theorem grown_nil (N : Nat) (t : Bool) : Achieves N (Grown t 0) [] := by
  refine achieves_nil fun {s m} hm ↦ ⟨rfl, rfl, ?_⟩
  exact ⟨hm.scope, [], [], m.heap.stack s, rfl, rfl, rfl, Nat.le_refl 0, fun _ ↦ rfl⟩

/-- An instruction that takes values from those put before, and puts others in their place. -/
theorem Achieves.perform {t' : Bool} {n n' i : Nat} {c : Code} (hc : Achieves N (Grown t n) c)
    (op : Opcode) (operands : List String) {R : Nat → Prop} (hrole : op.role = .plain)
    (hcount : operands.length = op.operandCount) (hop : op ≠ .args)
    (htrades : ∀ s, Trades s i R (perform s op operands))
    (hR : ∀ k put, IsYield t n k → R put → i ≤ k ∧ IsYield t' n' (put + (k - i))) :
    Achieves N (Grown t' n') (c ++ Atom.op op :: operands.map .operand) := by
  have hplain : Achieves N
      (fun s m left m' ↦ left = none ∧ m'.marks = m.marks ∧ m.Traded s i R m')
      (.op op :: operands.map .operand) := by
    refine achieves_plain op operands hrole hcount fun hm h ↦
      ⟨rfl, ?_, (htrades _).of_ok hm.scope h⟩
    exact (marks_perform hrole hcount hm h).resolve_right fun h ↦ hop h.1
  refine (hc.append hplain).mono fun _ h ↦ ?_
  cases h with
  | left h => exact absurd h.atEnd (by simp)
  | passed h _ h' =>
    obtain ⟨hend, hmarks, htraded⟩ := h'
    exact ⟨hend, hmarks.trans h.marks, h.stack.trans htraded hR⟩

theorem Achieves.effect {n i o : Nat} {c : Code} (hc : Achieves N (Grown t n) c) (op : Opcode)
    (operands : List String) (heffect : op.effect? = some (i, o)) (hle : i ≤ n)
    (hrole : op.role = .plain := by rfl) (hcount : operands.length = op.operandCount := by rfl)
    (hop : op ≠ .args := by decide) :
    Achieves N (Grown t (n - i + o)) (c ++ Atom.op op :: operands.map .operand) := by
  refine hc.perform op operands hrole hcount hop (trades_perform heffect · operands) ?_
  rintro k put ⟨hk, heq⟩ rfl
  refine ⟨Nat.le_trans hle hk, by omega, fun ht ↦ ?_⟩
  rw [heq ht]
  omega

/-- A member that is read is a value, perhaps with another below it. -/
theorem grown_member {object key : Code} (hobject : Achieves N (Grown t 1) object)
    (hkey : Achieves N (Grown t 1) key) :
    Achieves N (Grown false 1) (object ++ key ++ [Atom.op .loadKey]) := by
  have hboth := (hobject.append hkey).mono fun _ ↦ Grown.of_then
  refine hboth.perform .loadKey [] rfl rfl (by decide) trades_loadKey ?_
  rintro k put ⟨hk, -⟩ hput
  exact ⟨hk, by omega, by simp⟩

theorem achieves_mark (N : Nat) : Achieves N
    (fun s m left m' ↦ left = none ∧ m' = { m with marks := (s, m.heap.depth s) :: m.marks })
    [.op .args] := by
  refine achieves_plain .args [] rfl rfl fun _ h ↦ ⟨rfl, ?_⟩
  cases h
  rfl

/-- A call whose arguments are marked leaves one value, whatever its arguments and its callee have
left. -/
theorem grown_call (hbodies : ∀ k < N, BodiesKeepMarks k) {n : Nat} {t' : Bool} {args callee : Code}
    (hargs : Achieves N (Grown t n) args) (hcallee : Achieves N (Grown false 1) callee) :
    Achieves N (Grown t' 1) (.op .args :: (args ++ callee ++ [Atom.op .call])) := by
  have hcall : Achieves N
      (fun s m left m' ↦ left = none ∧ ∀ callee taken rest marks,
        m.heap.stack s = callee :: (taken ++ rest) → m.marks = (s, rest.length) :: marks →
        m'.marks = marks ∧ ∃ v, m'.heap.stack s = v :: rest)
      [.op .call] := by
    refine achieves_call hbodies fun hlt hm h ↦ ⟨rfl, ?_⟩
    intro callee taken rest marks hstack hmarks
    exact call_of_marked (fun k hk ↦ hbodies k (Nat.lt_trans hk hlt)) hm hstack hmarks h
  have hinside := ((hargs.mono fun _ ↦ Grown.loosen).append hcallee).mono fun _ ↦ Grown.of_then
  refine (((achieves_mark N).append hinside).append hcall).mono fun {s m m' left} hready h ↦ ?_
  cases h with
  | left h =>
    cases h with
    | left h => exact absurd h.1 (by simp)
    | passed _ _ h => exact absurd h.atEnd (by simp)
  | passed h _ h' =>
    obtain ⟨hend, hcalled⟩ := h'
    cases h with
    | passed h _ hgrown =>
      obtain ⟨-, rfl⟩ := h
      obtain ⟨-, hmarks, -, taken, put, rest, hstack, hlength, hstack', hput, -⟩ := hgrown
      obtain rfl := List.eq_nil_of_length_eq_zero hlength
      obtain ⟨callee, more, rfl⟩ :=
        List.exists_cons_of_length_pos (Nat.lt_of_lt_of_le n.succ_pos hput)
      obtain rfl : m.heap.stack s = rest := hstack
      obtain ⟨hmarks', v, hleft⟩ := hcalled callee more _ m.marks hstack' hmarks
      rw [hend]
      exact .one hready.scope hmarks' hleft

theorem grown_function {body : Code} (hbody : AnyBody body) (name : String) (params : List String) :
    Achieves N (Grown t 1) (.op .function :: .operand name ::
      (params.map .operand ++ Atom.op .colon :: (body ++ [Atom.op .endFunction]))) := by
  have hnested := hbody.wellNested
  refine .of_run (.function hnested hbody .nil) fun {fuel position s m m' left} _ hm hok ↦ ?_
  cases fuel with
  | zero =>
    rw [run_zero] at hok
    cases hok
  | succ fuel =>
    rw [run_function hnested] at hok
    obtain ⟨identity, m₁, hfresh, hok⟩ := bind_eq_ok.mp hok
    cases hfresh
    obtain ⟨_, m₂, hpush, hend⟩ := bind_eq_ok.mp hok
    obtain ⟨rfl, rfl⟩ := run_nil_eq_ok hend
    obtain ⟨-, rfl⟩ := push_eq_ok hpush
    have hscope (v : Value) : s < (m.heap.push s v).nextScope := by simpa using hm.scope
    exact ⟨fun _ ↦ .inl, .one (hscope _) rfl (Heap.stack_push_self hm.scope _)⟩

/-! ## Blocks -/

theorem Machine.Ready.newScope {m : Machine} {s : Nat} (hm : m.Ready s) :
    Machine.Ready { m with heap := m.heap.addChild s } m.heap.nextScope where
  functions := hm.functions.addChild s
  scope := by simp
  marks mark hmark := by
    rw [Heap.nextScope_addChild]
    exact Nat.lt_succ_of_lt (hm.marks mark hmark)

/-- Work in a new scope leaves the stack of the scope around it. -/
theorem balanced_of_within {T : Prop} {s : Nat} {m m' : Machine} {left : Option Signal}
    (hm : m.Ready s)
    (hwithin : Machine.Within (·.HasBody AnyBody) T { m with heap := m.heap.addChild s }
      m.heap.nextScope m')
    (hmarks : m'.marks = m.marks) : Balanced t s m left m' := by
  refine ⟨hmarks, fun _ ↦ ?_⟩
  have hlt : s < (m.heap.addChild s).nextScope := by simpa using Nat.lt_succ_of_lt hm.scope
  rw [hwithin.stack hlt (Nat.ne_of_lt hm.scope)]
  exact Heap.stack_addChild_of_lt s hm.scope

/-- What follows the first branch of a conditional keeps the marks, if it is run. -/
structure ChainKeeps (N : Nat) (c : Code) : Prop where
  nested : Nested .chain c
  of_ok {fuel position s : Nat} {m m' : Machine} {r : Except Signal Stretch} : fuel ≤ N →
    m.Ready s → branchOn fuel s ⟨position, c⟩ m = .ok r m' → m'.marks = m.marks

theorem marks_branch {condition body chain : Code} (hcondition : Achieves N (Grown t 1) condition)
    (hbody : Achieves N (Balanced t) body) (hchain : ChainKeeps N chain) {fuel position s : Nat}
    {m m' : Machine} {r : Except Signal Stretch} (hle : fuel ≤ N) (hm : m.Ready s)
    (h : branch fuel s
      ⟨position, condition ++ Atom.op .thenOp :: (body ++ Atom.op .endIf :: chain)⟩ m = .ok r m') :
    m'.marks = m.marks := by
  cases fuel with
  | zero =>
    rw [branch] at h
    cases h
  | succ fuel =>
    have hle' : fuel ≤ N := Nat.le_of_succ_le hle
    have hbranch := branch_eq hcondition.nested hbody.nested hchain.nested fuel s position
      not_continues_nil
    rw [List.append_nil] at hbranch
    rw [hbranch] at h
    obtain ⟨left, m₁, htest, h⟩ := bind_eq_ok.mp h
    obtain ⟨hready, hgrown⟩ := hcondition.of_ok hle' hm htest
    obtain rfl := hgrown.atEnd
    obtain ⟨v, m₂, hpop, h⟩ := bind_eq_ok.mp h
    obtain ⟨hwithin, -⟩ := (keeps_pop (T := True) (.inl rfl)).of_eq_ok hready.functions hpop
    have hmarks := hwithin.marks trivial
    have hready' := hready.of_within hwithin hmarks
    have hmarks' : m'.marks = m₂.marks := by
      split at h
      · exact hchain.of_ok hle' hready' h
      · obtain ⟨left, m₃, hrun, hresult⟩ := bind_eq_ok.mp h
        cases hresult
        exact (hbody.of_ok hle' hready' hrun).2.marks
    rw [hmarks', hmarks, hgrown.marks]

theorem balanced_branch {condition body chain : Code}
    (hcondition : Achieves N (Grown t 1) condition) (hbody : Achieves N (Balanced t) body)
    (hchain : ChainKeeps N chain) :
    Achieves N (Balanced t)
      (.op .ifOp :: (condition ++ Atom.op .thenOp :: (body ++ Atom.op .endIf :: chain))) := by
  have hbranches : IsBranches (fun _ _ ↦ True) AnyBody _ :=
    ⟨hcondition.nested, hbody.nested, hchain.nested⟩
  have hnested := WellNested.branch hcondition.nested hbody.nested hchain.nested .nil
  rw [List.append_nil] at hnested
  refine .of_run hnested fun {fuel position s m m' left} hle hm hok ↦ ?_
  cases fuel with
  | zero =>
    rw [run_zero] at hok
    cases hok
  | succ fuel =>
    have hrun := run_branch hbranches fuel s position not_continues_nil
    rw [List.append_nil] at hrun
    rw [hrun] at hok
    obtain ⟨block, m₁, hnew, hok⟩ := bind_eq_ok.mp hok
    cases hnew
    obtain ⟨r, m₂, hbranch, hok⟩ := bind_eq_ok.mp hok
    have hblock := hm.newScope
    have hmarks := marks_branch hcondition hbody hchain (Nat.le_of_succ_le hle) hblock hbranch
    obtain ⟨hwithin, -⟩ := ((runsKeep discipline_anyBody fuel).branch (.inl rfl) _
      hbranches).of_eq_ok hblock.functions hbranch
    obtain rfl : m' = m₂ := by
      cases r with
      | error signal =>
        cases hok
        rfl
      | ok rest => exact (run_nil_eq_ok hok).2
    exact ⟨fun mark hmark ↦ .inl (hmarks ▸ hmark), balanced_of_within hm hwithin hmarks⟩

theorem chainKeeps_nil : ChainKeeps N [] := by
  refine ⟨.chainEnd, fun {fuel position s m m' r} _ _ hok ↦ ?_⟩
  rw [branchOn_of_not_continues fuel s not_continues_nil] at hok
  cases hok
  rfl

theorem chainKeeps_else {body : Code} (hbody : Achieves N (Balanced t) body) :
    ChainKeeps N (.op .elseOp :: (body ++ [Atom.op .endIf])) := by
  refine ⟨.chainElse hbody.nested, fun hle hm hok ↦ ?_⟩
  rw [branchOn_else hbody.nested] at hok
  obtain ⟨left, m₁, hrun, hresult⟩ := bind_eq_ok.mp hok
  cases hresult
  exact (hbody.of_ok hle hm hrun).2.marks

theorem chainKeeps_elif {condition body chain : Code}
    (hcondition : Achieves N (Grown t 1) condition) (hbody : Achieves N (Balanced t) body)
    (hchain : ChainKeeps N chain) :
    ChainKeeps N
      (.op .elifOp :: (condition ++ Atom.op .thenOp :: (body ++ Atom.op .endIf :: chain))) := by
  refine ⟨.chainElif hcondition.nested hbody.nested hchain.nested, fun hle hm hok ↦ ?_⟩
  rw [branchOn_elif] at hok
  exact marks_branch hcondition hbody hchain hle hm hok

/-- Passes of a loop keep the marks, if there is none in the scope of the loop. -/
theorem marks_iterate {c : Code} (hc : Achieves N Passed c) {fuel position s : Nat}
    {m m' : Machine} {left : Option Signal} (hle : fuel ≤ N) (hm : m.Ready s)
    (hmarks : ∀ mark ∈ m.marks, mark.1 ≠ s) (h : iterate fuel s ⟨position, c⟩ m = .ok left m') :
    m'.marks = m.marks := by
  induction fuel generalizing m with
  | zero =>
    rw [iterate] at h
    cases h
  | succ fuel ih =>
    have hle' : fuel ≤ N := Nat.le_of_succ_le hle
    rw [iterate] at h
    obtain ⟨first, m₁, hpass, h⟩ := bind_eq_ok.mp h
    obtain ⟨hready, hpassed⟩ := hc.of_ok hle' hm hpass
    have heq := hpassed hmarks
    rcases first with _ | v | _ | _
    · exact (ih hle' hready (heq ▸ hmarks) h).trans heq
    · cases h
      exact heq
    · cases h
      exact heq
    · exact (ih hle' hready (heq ▸ hmarks) h).trans heq

theorem balanced_loop {c : Code} (hc : Achieves N Passed c) :
    Achieves N (Balanced t) (.op .loop :: (c ++ [Atom.op .endLoop])) := by
  refine .of_run (.loop hc.nested .nil) fun {fuel position s m m' left} hle hm hok ↦ ?_
  cases fuel with
  | zero =>
    rw [run_zero] at hok
    cases hok
  | succ fuel =>
    rw [run_loop hc.nested] at hok
    obtain ⟨block, m₁, hnew, hok⟩ := bind_eq_ok.mp hok
    cases hnew
    obtain ⟨stop, m₂, hiterate, hok⟩ := bind_eq_ok.mp hok
    have hblock := hm.newScope
    have hfresh (mark : ScopeId × Nat) (hmark : mark ∈ m.marks) : mark.1 ≠ m.heap.nextScope :=
      Nat.ne_of_lt (hm.marks mark hmark)
    have hmarks := marks_iterate hc (Nat.le_of_succ_le hle) hblock hfresh hiterate
    obtain ⟨hwithin, -⟩ := ((runsKeep discipline_anyBody fuel).iterate (.inl rfl) _
      hc.nested).of_eq_ok hblock.functions hiterate
    obtain rfl : m' = m₂ := by
      cases stop with
      | some signal =>
        cases hok
        rfl
      | none => exact (run_nil_eq_ok hok).2
    exact ⟨fun mark hmark ↦ .inl (hmarks ▸ hmark), balanced_of_within hm hwithin hmarks⟩

theorem passed_call (hbodies : ∀ k < N, BodiesKeepMarks k) : Achieves N Passed [.op .call] := by
  refine achieves_call hbodies fun hlt hm h hmarks ↦ ?_
  rcases call_eq_ok (fun k hk ↦ hbodies k (Nat.lt_trans hk hlt)) hm h with heq | ⟨depth, heq⟩
  · exact heq
  · exact absurd rfl (hmarks _ (heq ▸ List.mem_cons_self))

theorem passed_plain (op : Opcode) (operands : List String) (hrole : op.role = .plain := by rfl)
    (hcount : operands.length = op.operandCount := by rfl) (hop : op ≠ .args := by decide) :
    Achieves N Passed (.op op :: operands.map .operand) :=
  achieves_plain op operands hrole hcount fun hm h _ ↦
    (marks_perform hrole hcount hm h).resolve_right fun h ↦ hop h.1

theorem passed_each (hbodies : ∀ k < N, BodiesKeepMarks k) (hidden key value : String) {body : Code}
    (hbody : Achieves N Passed body) :
    Achieves N Passed (.op .loadLocal :: .operand hidden :: .op .call ::
      .op .declareLocal :: .operand key :: .op .declareLocal :: .operand value :: body) := by
  have hload : Achieves N Passed _ := passed_plain .loadLocal [hidden]
  have hcall := (hload.append (passed_call hbodies)).mono fun _ ↦ Passed.of_then
  have hkey := (hcall.append (passed_plain .declareLocal [key])).mono fun _ ↦ Passed.of_then
  have hvalue := (hkey.append (passed_plain .declareLocal [value])).mono fun _ ↦ Passed.of_then
  simpa using (hvalue.append hbody).mono fun _ ↦ Passed.of_then

/-! ## Other statements -/

theorem trades_storePath_toString (n s : Nat) :
    Trades s (1 + (n + 1)) (· = 1) (perform s .storePath [toString n]) := by
  by_cases h : n < UInt64.size
  · exact trades_storePath ((keyCount?_toString n).trans (if_pos h)) s
  · have hcount := (keyCount?_toString n).trans (if_neg h)
    change Trades s _ _ (storePath s (toString n))
    unfold storePath
    rw [hcount]
    exact .fail _

theorem balanced_storePath (root : String) {count : Nat} {x keys : Code}
    (hx : Achieves N (Grown t 1) x) (hkeys : Achieves N (Grown t (count + 1)) keys) :
    Achieves N (Balanced t) (x ++ keys ++ [Atom.op .loadLocal, .operand root, .op .storePath,
      .operand (toString (count + 1)), .op .storeLocal, .operand root]) := by
  have hpath := (hx.append hkeys).mono fun _ ↦ Grown.of_then
  have hload := hpath.effect .loadLocal [root] rfl (Nat.zero_le _)
  have htaken (k put : Nat) (hk : IsYield t (1 + (count + 1) - 0 + 1) k) (hput : put = 1) :
      1 + (count + 1 + 1) ≤ k ∧ IsYield t 1 (put + (k - (1 + (count + 1 + 1)))) := by
    obtain ⟨hle, heq⟩ := hk
    refine ⟨by omega, by omega, fun ht ↦ ?_⟩
    rw [heq ht]
    omega
  have hstore := hload.perform .storePath [toString (count + 1)] rfl rfl (by decide)
    (trades_storePath_toString (count + 1)) htaken
  have h := hstore.effect .storeLocal [root] rfl (Nat.le_refl 1)
  simpa using h.mono fun _ ↦ Grown.balanced

theorem balanced_leave {c : Code} (hc : Achieves N (Grown t 1) c) :
    Achieves N (Balanced t) (c ++ [Atom.op .returnOp]) := by
  have hleave : Achieves N
      (fun s m _ m' ↦ m'.marks = m.marks ∧ m'.heap.stack s = (m.heap.stack s).tail)
      [.op .returnOp] := by
    refine .of_run (.jump rfl .nil) fun {fuel position s m m' left} _ hm hok ↦ ?_
    cases fuel with
    | zero =>
      rw [run_zero] at hok
      cases hok
    | succ fuel =>
      rw [run_leave] at hok
      obtain ⟨v, m₁, hpop, hok⟩ := bind_eq_ok.mp hok
      cases hok
      unfold popOrNull at hpop
      split at hpop
      · next heq =>
        cases hpop
        refine ⟨fun _ ↦ .inl, rfl, ?_⟩
        rw [heq]
        exact Heap.stack_setStack_self hm.scope _
      · next heq =>
        cases hpop
        refine ⟨fun _ ↦ .inl, rfl, ?_⟩
        rw [heq]
        rfl
  refine (hc.append hleave).mono fun _ h ↦ ?_
  cases h with
  | left h => exact absurd h.atEnd (by simp)
  | passed h _ h' =>
    obtain ⟨-, hmarks, -, taken, put, rest, hstack, hlength, hstack₁, -, hput⟩ := h
    refine ⟨h'.1.trans hmarks, fun ht ↦ ?_⟩
    obtain rfl := List.eq_nil_of_length_eq_zero hlength
    obtain ⟨v, rfl⟩ := List.length_eq_one_iff.mp (hput ht)
    rw [h'.2, hstack₁, hstack]
    rfl

theorem balanced_jump {op : Opcode} (hop : op = .breakOp ∨ op = .continueOp) :
    Achieves N (Balanced t) [.op op] := by
  have hjump : op.isJump = true := by rcases hop with rfl | rfl <;> rfl
  refine .of_run (.jump hjump .nil) fun {fuel position s m m' left} _ hm hok ↦ ?_
  obtain rfl : m' = m := by
    cases fuel with
    | zero =>
      rw [run_zero] at hok
      cases hok
    | succ fuel =>
      rcases hop with rfl | rfl
      · rw [run_breakLoop] at hok
        cases hok
        rfl
      · rw [run_nextPass] at hok
        cases hok
        rfl
  exact ⟨fun _ ↦ .inl, rfl, fun _ ↦ rfl⟩

theorem grown_pushes (N : Nat) (xs : List String) :
    Achieves N (Grown true xs.length) (flatten (xs.map fun x ↦ Instruction.plain .push [x])) := by
  induction xs with
  | nil => exact grown_nil N true
  | cons x xs ih =>
    have hpush := (grown_nil N true).effect .push [x] rfl (Nat.zero_le 0)
    have h := (hpush.append ih).mono fun _ ↦ Grown.of_then
    simpa [Nat.add_comm] using h

/-- The number of types that is pushed is the number of types that are taken, if floats can hold
it. -/
theorem balanced_foreign (name library returnType : String) {argTypes : List String}
    (hcount : t = true → argTypes.length < 2 ^ 53) :
    Achieves N (Balanced t) (flatten (argTypes.map (fun x ↦ Instruction.plain .push [x]) ++
      [.plain .push [returnType], .plain .push [toString argTypes.length],
        .plain .define [name, library]])) := by
  have htypes := (grown_pushes N argTypes).effect .push [returnType] rfl
    (Nat.zero_le _)
  have hnumber : Achieves N
      (fun s m left m' ↦ left = none ∧ m'.marks = m.marks ∧
        m'.heap.stack s = .number (Number.ofDecimal argTypes.length 0) :: m.heap.stack s)
      [.op .push, .operand (toString argTypes.length)] := by
    refine achieves_plain .push [_] rfl rfl fun {s m m'} hm h ↦ ?_
    obtain ⟨v, m₁, hcheck, hpush⟩ := bind_eq_ok.mp h
    rw [literal_toString] at hcheck
    cases hcheck
    obtain ⟨-, rfl⟩ := push_eq_ok hpush
    exact ⟨rfl, rfl, Heap.stack_push_self hm.scope _⟩
  have hdefine : Achieves N
      (fun s m _ m' ↦ m'.marks = m.marks ∧ ∀ count returnType (types rest : List Value),
        m.heap.stack s = .number count :: returnType :: (types ++ rest) →
        (Number.clampToInt 0 (UInt64.size - 1 : Nat) count).toNat = types.length →
        m'.heap.stack s = rest)
      [.op .define, .operand name, .operand library] := by
    refine achieves_plain .define [name, library] rfl rfl fun hm h ↦ ⟨?_, ?_⟩
    · exact (marks_perform rfl rfl hm h).resolve_right (by simp)
    · intro count returnType types rest hstack hlength
      exact stack_define hm.scope hstack hlength h
  have hthrough := (htypes.append hnumber).append hdefine
  have hall : Achieves N (Balanced t) _ := hthrough.mono fun _ h ↦ by
    cases h with
    | left h =>
      cases h with
      | left h => exact absurd h.atEnd (by simp)
      | passed _ _ h => exact absurd h.1 (by simp)
    | passed h _ hdefined =>
      cases h with
      | passed h _ hcounted =>
        obtain ⟨-, hmarks, -, taken, put, rest, hstack, hlength, hstack₁, -, hput⟩ := h
        obtain ⟨-, hmarks₂, hstack₂⟩ := hcounted
        obtain ⟨result, types, rfl⟩ := List.exists_cons_of_length_eq_add_one (hput rfl)
        have htypes : types.length = argTypes.length := Nat.succ.inj (hput rfl)
        rw [hstack₁] at hstack₂
        refine ⟨hdefined.1.trans (hmarks₂.trans hmarks), fun ht ↦ ?_⟩
        have hclamp := Number.clampToInt_ofDecimal (hcount ht)
        obtain rfl := List.eq_nil_of_length_eq_zero hlength
        rw [hstack, hdefined.2 _ _ _ _ hstack₂ (by rw [hclamp, htypes, Int.toNat_natCast])]
        rfl
  simpa using hall

/-! ## Shapes -/

/-- What the runs of code of a form come to. -/
@[simp] def Form.Behaves (N : Nat) : Form → Code → Prop
  | .value t => Achieves N (Grown t 1)
  | .callee _ => Achieves N (Grown false 1)
  | .values t n => Achieves N (Grown t n)
  | .body t => Achieves N (Balanced t)
  | .chain _ => ChainKeeps N

theorem Shape.anyBody {is : List Instruction} (h : Shape (.body false) is) :
    AnyBody (flatten is) := by
  refine ⟨is, h, fun i _ ↦ ?_, rfl⟩
  cases i <;> trivial

/-- **Compiled code behaves as its form says**, if the bodies of functions keep the marks when they
run with fewer steps. -/
theorem Shape.behaves (hbodies : ∀ k < N, BodiesKeepMarks k) {form : Form} {is : List Instruction}
    (h : Shape form is) : form.Behaves N (flatten is) := by
  induction h with
  | operand hop =>
    rcases hop with rfl | rfl
    · exact (grown_nil N _).effect .push [_] rfl (Nat.zero_le 0)
    · exact (grown_nil N _).effect .loadLocal [_] rfl (Nat.zero_le 0)
  | newTable => exact (grown_nil N _).effect .newTable [] rfl (Nat.zero_le 0)
  | binary op _ _ ihl ihr =>
    have hboth := (Achieves.append ihl ihr).mono fun _ ↦ Grown.of_then
    have hrole : op.opcode.role = .plain := by cases op <;> rfl
    have hcount : ([] : List String).length = op.opcode.operandCount := by cases op <;> rfl
    have heffect : op.opcode.effect? = some (2, 1) := by cases op <;> rfl
    have hargs : op.opcode ≠ .args := by cases op <;> simp [BinaryOp.opcode]
    simpa using hboth.effect op.opcode [] heffect (Nat.le_refl 2) hrole hcount hargs
  | not _ ih => simpa using Achieves.effect ih .not [] rfl (Nat.le_refl 1)
  | entry _ _ _ iht ihv ihk =>
    have htwo := (Achieves.append iht ihv).mono fun _ ↦ Grown.of_then
    have hthree := (htwo.append ihk).mono fun _ ↦ Grown.of_then
    simpa using hthree.effect .storeKey [] rfl (Nat.le_refl 3)
  | member _ _ iho ihk => simpa using grown_member iho ihk
  | call _ _ iha ihf => simpa using grown_call hbodies iha ihf
  | function name params hbody _ => simpa using grown_function hbody.anyBody name params
  | calleeValue _ ih => exact Achieves.mono ih fun _ ↦ Grown.loosen
  | calleeMember _ _ iho ihk => simpa using grown_member iho ihk
  | noValues => exact grown_nil N _
  | moreValues _ _ ihl ih =>
    have hboth := (Achieves.append ihl ih).mono fun _ ↦ Grown.of_then
    simpa using hboth
  | nothing => exact (grown_nil N _).mono fun _ ↦ Grown.balanced
  | sequence _ _ iha ihb =>
    have hboth := (Achieves.append iha ihb).mono fun _ ↦ Balanced.of_then
    simpa using hboth
  | bind name hop _ ih =>
    rcases hop with rfl | rfl
    · have h := Achieves.effect ih .declareLocal [name] rfl (Nat.le_refl 1)
      simpa using h.mono fun _ ↦ Grown.balanced
    · have h := Achieves.effect ih .storeLocal [name] rfl (Nat.le_refl 1)
      simpa using h.mono fun _ ↦ Grown.balanced
  | discard _ ih =>
    have h := Achieves.effect ih .pop [] rfl (Nat.le_refl 1)
    simpa using h.mono fun _ ↦ Grown.balanced
  | storePath root _ _ ihx ihk => simpa using balanced_storePath root ihx ihk
  | branch _ _ _ ihc ihb ihrest => simpa using balanced_branch ihc ihb ihrest
  | loop _ ih => simpa using balanced_loop (Achieves.mono ih fun _ ↦ Balanced.passed)
  | each hidden key value _ ih =>
    have hbody : Achieves N Passed _ := Achieves.mono ih fun _ ↦ Balanced.passed
    simpa using balanced_loop (passed_each hbodies hidden key value hbody)
  | leave _ ih => simpa using balanced_leave ih
  | jump hop => exact balanced_jump hop
  | @delete t name =>
    have h := (grown_nil N t).effect .delete [name] rfl (Nat.zero_le 0)
    exact h.mono fun _ ↦ Grown.balanced
  | foreign name library returnType hcount =>
    exact balanced_foreign name library returnType hcount
  | chainEnd => exact chainKeeps_nil
  | chainElse _ ih => simpa using chainKeeps_else ih
  | chainElif _ _ _ ihc ihb ihrest => simpa using chainKeeps_elif ihc ihb ihrest

/-- Bodies of functions keep the marks, however many steps they take. -/
theorem bodiesKeepMarks (N : Nat) : BodiesKeepMarks N := by
  induction N using Nat.strongRecOn with
  | ind N ih =>
    intro m m' s position c left hm hc h
    obtain ⟨is, hshape, -, rfl⟩ := hc
    have hbalanced : Achieves N (Balanced false) (flatten is) := hshape.behaves ih
    exact (hbalanced.of_ok (Nat.le_refl N) hm h).2.marks

end GemLang
