import GemLang.Proofs.Machine.Steps

/-!
# The behavior of code

What code does, with no steps, jumps or searches for the ends of blocks in sight: a relation between
the machine before and the end that a run comes to. Behaviors are put together by a few combinators,
one for each way in which control moves:

```text
A.seq B          A, then B if control came to the end of A
inside s A       A in a new scope inside s
test s C T E     C, then T or E by the value that C left on the stack of s
loop A           A again and again, until control leaves by a break or a return
```

Well-nested code has the behavior that its nesting shows: `code_append`, `code_branch` and
`code_loop` say so, one equation for each construct. A loop that never ends has no end in its
behavior, and so has code that never ends.
-/

namespace GemLang

open Bytecode
open Exec

/-- What a piece of a program does: the ends that it comes to, from each machine. -/
abbrev Behavior := Machine → Exec.Result (Option Signal) → Prop

namespace Behavior

/-! ## Combinators -/

def code (s : ScopeId) (c : Stretch) : Behavior := Eventual (run · s c)

def skip : Behavior := fun m r ↦ r = .ok none m

def leave (signal : Signal) : Behavior := fun m r ↦ r = .ok (some signal) m

/-- Control leaves the function with the value on top of the stack of `s`, or with `null` when there
is none. -/
def giveBack (s : ScopeId) : Behavior := fun m r ↦
  ∃ v m', popOrNull s m = .ok v m' ∧ r = .ok (some (.returned v)) m'

/-- One after the other. The second is left out when control leaves the first. -/
inductive seq (A B : Behavior) : Behavior where
  | passed {m m₁ : Machine} {r : Exec.Result (Option Signal)} (h : A m (.ok none m₁))
      (h' : B m₁ r) : seq A B m r
  | left {m m' : Machine} {signal : Signal} (h : A m (.ok (some signal) m')) :
      seq A B m (.ok (some signal) m')
  | stopped {m m' : Machine} {e : Stop} (h : A m (.error e m')) : seq A B m (.error e m')

/-- In a new scope inside `s`. -/
def inside (s : ScopeId) (A : ScopeId → Behavior) : Behavior := fun m r ↦
  A m.heap.nextScope { m with heap := m.heap.addChild s } r

/-- Takes a value off the stack of `s` and goes on by whether it counts as true. -/
inductive choose (s : ScopeId) (T E : Behavior) : Behavior where
  | holds {m m₁ : Machine} {v : Value} {r : Exec.Result (Option Signal)} (hpop : pop s m = .ok v m₁)
      (hv : v.isFalsy = false) (h : T m₁ r) : choose s T E m r
  | fails {m m₁ : Machine} {v : Value} {r : Exec.Result (Option Signal)} (hpop : pop s m = .ok v m₁)
      (hv : v.isFalsy = true) (h : E m₁ r) : choose s T E m r
  | stopped {m m' : Machine} {e : Stop} (hpop : pop s m = .error e m') :
      choose s T E m (.error e m')

/-- A condition that leaves a value on the stack of `s`, and then one of two ways to go on. -/
def test (s : ScopeId) (C T E : Behavior) : Behavior := C.seq (choose s T E)

/-- Pass after pass. A `continue` ends a pass and a `break` the loop; a return goes through it. -/
inductive loop (A : Behavior) : Behavior where
  | passed {m m₁ : Machine} {r : Exec.Result (Option Signal)} (h : A m (.ok none m₁))
      (h' : loop A m₁ r) : loop A m r
  | continued {m m₁ : Machine} {r : Exec.Result (Option Signal)}
      (h : A m (.ok (some .continued) m₁)) (h' : loop A m₁ r) : loop A m r
  | broke {m m' : Machine} (h : A m (.ok (some .broke) m')) : loop A m (.ok none m')
  | returned {m m' : Machine} {v : Value} (h : A m (.ok (some (.returned v)) m')) :
      loop A m (.ok (some (.returned v)) m')
  | stopped {m m' : Machine} {e : Stop} (h : A m (.error e m')) : loop A m (.error e m')

/-- A loop is left at its end or by a return, never by a signal that is meant for a loop. -/
theorem loop_left {A : Behavior} {m m' : Machine} {left : Option Signal}
    (h : loop A m (.ok left m')) : left = none ∨ ∃ v, left = some (.returned v) := by
  generalize hr : EStateM.Result.ok left m' = r at h
  induction h with
  | passed _ _ ih => exact ih hr
  | continued _ _ ih => exact ih hr
  | broke =>
    cases hr
    exact .inl rfl
  | returned =>
    cases hr
    exact .inr ⟨_, rfl⟩
  | stopped => cases hr

theorem seq_skip (A : Behavior) : A.seq skip = A := by
  funext m r
  refine propext ⟨?_, ?_⟩
  · intro h
    cases h with
    | passed h h' =>
      cases h'
      exact h
    | left h => exact h
    | stopped h => exact h
  · intro h
    match r with
    | .ok none _ => exact .passed h rfl
    | .ok (some _) _ => exact .left h
    | .error _ _ => exact .stopped h

/-! ## Settled ends -/

theorem settled_code {s : ScopeId} {c : Stretch} {m : Machine} {r : Exec.Result (Option Signal)}
    (h : code s c m r) : Settled r :=
  let ⟨_, _, hr⟩ := h
  hr

theorem code_unique {s : ScopeId} {c : Stretch} {m : Machine} {r r' : Exec.Result (Option Signal)}
    (h : code s c m r) (h' : code s c m r') : r = r' :=
  Eventual.unique (grows_run s c) h h'

/-! ## Code one after the other -/

variable {P : Opcode → List String → Prop} {B : Code → Prop}

theorem grows_proceed {next : Nat → Exec (Option Signal)} (h : Grows next) (left : Option Signal) :
    Grows fun fuel ↦ proceed (next fuel) left := by
  cases left with
  | none => exact h
  | some signal => exact .const _

theorem grows_run_sub (s : ScopeId) (c : Stretch) (taken : Nat) :
    Grows fun fuel ↦ run (fuel - taken) s c :=
  ⟨fun _ ↦ run_extends (by omega) s c⟩

theorem eventual_proceed {x next : Nat → Exec (Option Signal)} (hx : Grows x) (hnext : Grows next) :
    Eventual (fun fuel ↦ x fuel >>= proceed (next fuel)) = seq (Eventual x) (Eventual next) := by
  funext m r
  refine propext ((eventual_bind hx (grows_proceed hnext)).trans ⟨?_, ?_⟩)
  · rintro (⟨e, m', h, rfl⟩ | ⟨left, m', h, h'⟩)
    · exact .stopped h
    · cases left with
      | none => exact .passed h h'
      | some signal =>
        obtain ⟨heq, -⟩ := eventual_const.mp h'
        cases heq
        exact .left h
  · intro h
    cases h with
    | passed h h' => exact .inr ⟨none, _, h, h'⟩
    | left h => exact .inr ⟨some _, _, h, eventual_const.mpr ⟨rfl, trivial⟩⟩
    | stopped h => exact .inl ⟨_, _, h, rfl⟩

/-- **Code one after the other behaves so**, if the first is well nested and the second does not go
on with a conditional. -/
theorem code_append {a b : Code} (ha : WellNested P B .whole a) (hb : ¬Continues b) (s : ScopeId)
    (position : Nat) : code s ⟨position, a ++ b⟩ =
      (code s ⟨position, a⟩).seq (code s ⟨position + a.length, b⟩) := by
  obtain ⟨taken, hrun⟩ := run_append ha hb
  have hsub : Eventual (fun fuel ↦ run (fuel - taken) s ⟨position + a.length, b⟩) =
      code s ⟨position + a.length, b⟩ := by
    funext m r
    exact propext (eventual_sub (x := (run · s ⟨position + a.length, b⟩)) taken)
  rw [← hsub, code, code, ← eventual_proceed (grows_run s _) (grows_run_sub s _ taken)]
  simp only [hrun]

/-! ## Single instructions -/

theorem code_eq_of_succ {s : ScopeId} {c : Stretch} {x : Nat → Exec (Option Signal)}
    (h : ∀ fuel, run (fuel + 1) s c = x fuel) : code s c = Eventual x := by
  funext m r
  rw [code, ← propext (eventual_succ (grows_run s c))]
  simp only [h]

theorem eventual_pure (left : Option Signal) :
    Eventual (fun _ ↦ (pure left : Exec (Option Signal))) = fun m r ↦ r = .ok left m := by
  funext m r
  refine propext (eventual_const.trans ⟨?_, ?_⟩)
  · rintro ⟨rfl, -⟩
    rfl
  · rintro rfl
    exact ⟨rfl, trivial⟩

theorem code_nil (s : ScopeId) (position : Nat) : code s ⟨position, []⟩ = skip := by
  rw [code_eq_of_succ (run_nil · s position)]
  exact eventual_pure _

theorem code_break (s : ScopeId) (position : Nat) (rest : Code) :
    code s ⟨position, .op .breakOp :: rest⟩ = leave .broke := by
  rw [code_eq_of_succ (run_breakLoop · s position rest)]
  exact eventual_pure _

theorem code_continue (s : ScopeId) (position : Nat) (rest : Code) :
    code s ⟨position, .op .continueOp :: rest⟩ = leave .continued := by
  rw [code_eq_of_succ (run_nextPass · s position rest)]
  exact eventual_pure _

theorem code_return (s : ScopeId) (position : Nat) (rest : Code) :
    code s ⟨position, .op .returnOp :: rest⟩ = giveBack s := by
  rw [code_eq_of_succ (run_leave · s position rest)]
  funext m r
  have hpop : ∃ v m', popOrNull s m = .ok v m' := by
    unfold popOrNull
    split
    · exact ⟨_, _, rfl⟩
    · exact ⟨_, _, rfl⟩
  obtain ⟨v, m', hpop⟩ := hpop
  refine propext (eventual_const.trans ⟨?_, ?_⟩)
  · rintro ⟨rfl, -⟩
    rw [bind_apply, hpop]
    exact ⟨v, m', hpop, rfl⟩
  · rintro ⟨w, m'', hpop', rfl⟩
    rw [bind_apply, hpop']
    exact ⟨rfl, trivial⟩

theorem code_plain {op : Opcode} (operands : List String) (hrole : op.role = .plain)
    (hcount : operands.length = op.operandCount) (s : ScopeId) (position : Nat) :
    code s ⟨position, .op op :: operands.map .operand⟩ =
      Eventual fun _ ↦ perform s op operands >>= fun _ ↦ pure none := by
  have hrun (fuel : Nat) := run_plain hrole hcount fuel s position []
  have hgrows (c : Stretch) : Grows fun fuel ↦ perform s op operands >>= fun _ ↦ run fuel s c :=
    (Grows.const _).bind fun _ ↦ grows_run s c
  simp only [List.append_nil] at hrun
  rw [code_eq_of_succ hrun]
  funext m r
  rw [← propext (eventual_succ (hgrows _))]
  simp only [run_nil]

theorem code_call (s : ScopeId) (position : Nat) : code s ⟨position, [.op .call]⟩ =
    Eventual fun fuel ↦ call fuel s >>= fun _ ↦ pure none := by
  have hcall : Grows (call · s) := ⟨(stepsExtend · |>.call s)⟩
  rw [code_eq_of_succ (run_call · s position [])]
  funext m r
  refine propext ((eventual_bind hcall fun _ ↦ grows_run s _).trans ?_)
  refine Iff.trans ?_ (eventual_bind hcall fun _ ↦ .const _).symm
  have hdone (m : Machine) : Eventual (run · s ⟨position + 1, []⟩) m r ↔
      Eventual (fun _ ↦ pure none) m r := by
    rw [← eventual_succ (grows_run s _)]
    simp only [run_nil]
  simp only [hdone]

/-! ## Blocks -/

theorem eventual_newScope {x : ScopeId → Nat → Exec (Option Signal)} (hx : ∀ block, Grows (x block))
    (s : ScopeId) : Eventual (fun fuel ↦ newScope s >>= fun block ↦ x block fuel) =
      inside s fun block ↦ Eventual (x block) := by
  funext m r
  refine propext ((eventual_bind (.const _) hx).trans ⟨?_, ?_⟩)
  · rintro (⟨e, m', h, rfl⟩ | ⟨block, m', h, h'⟩)
    · obtain ⟨heq, -⟩ := eventual_const.mp h
      cases heq
    · obtain ⟨heq, -⟩ := eventual_const.mp h
      cases heq
      exact h'
  · intro h
    exact .inr ⟨_, _, eventual_const.mpr ⟨rfl, trivial⟩, h⟩

theorem grows_iterate (block : ScopeId) (c : Stretch) : Grows (iterate · block c) :=
  ⟨(stepsExtend · |>.iterate block c)⟩

theorem eventual_iterate (block : ScopeId) (c : Stretch) :
    Eventual (iterate · block c) = loop (code block c) := by
  funext m r
  refine propext ⟨?_, ?_⟩
  · -- by induction on the steps, of which every pass takes one
    rintro ⟨fuel, h, hr⟩
    induction fuel generalizing m with
    | zero =>
      change iterate 0 block c m = r at h
      rw [iterate] at h
      cases h
      exact absurd hr id
    | succ fuel ih =>
      change iterate (fuel + 1) block c m = r at h
      rw [iterate, bind_apply] at h
      cases hrun : run fuel block c m with
      | error e m' =>
        rw [hrun] at h
        cases h
        exact .stopped ⟨fuel, hrun, hr⟩
      | ok left m' =>
        rw [hrun] at h
        rcases left with _ | v | _ | _
        · exact .passed ⟨fuel, hrun, trivial⟩ (ih m' h)
        · cases h
          exact .returned ⟨fuel, hrun, trivial⟩
        · cases h
          exact .broke ⟨fuel, hrun, trivial⟩
        · exact .continued ⟨fuel, hrun, trivial⟩ (ih m' h)
  · -- a pass and what comes after it are given the larger number of steps
    have hpass {m m' : Machine} {left : Option Signal} {fuel fuel' : Nat}
        (h : run fuel block c m = .ok left m') :
        run (max fuel fuel') block c m = .ok left m' :=
      Eventual.of_le (grows_run block c) h trivial (Nat.le_max_left _ _)
    have hlater {m : Machine} {r : Exec.Result (Option Signal)} {fuel fuel' : Nat}
        (h : iterate fuel' block c m = r) (hr : Settled r) :
        iterate (max fuel fuel') block c m = r :=
      Eventual.of_le (grows_iterate block c) h hr (Nat.le_max_right _ _)
    have hagain {m m₁ : Machine} {left : Option Signal} {r : Exec.Result (Option Signal)}
        (hleft : left = none ∨ left = some .continued) (h : code block c m (.ok left m₁))
        (h' : Eventual (iterate · block c) m₁ r) : Eventual (iterate · block c) m r := by
      obtain ⟨fuel, hrun, -⟩ := h
      obtain ⟨fuel', hiterate, hr⟩ := h'
      refine ⟨max fuel fuel' + 1, ?_, hr⟩
      change iterate _ block c _ = _
      rw [iterate, bind_apply, hpass hrun]
      rcases hleft with rfl | rfl <;> exact hlater hiterate hr
    intro h
    induction h with
    | passed h _ ih => exact hagain (.inl rfl) h ih
    | continued h _ ih => exact hagain (.inr rfl) h ih
    | broke h =>
      obtain ⟨fuel, hrun, -⟩ := h
      replace hrun : run fuel block c _ = _ := hrun
      refine ⟨fuel + 1, ?_, trivial⟩
      change iterate _ block c _ = _
      rw [iterate, bind_apply, hrun]
      rfl
    | returned h =>
      obtain ⟨fuel, hrun, -⟩ := h
      replace hrun : run fuel block c _ = _ := hrun
      refine ⟨fuel + 1, ?_, trivial⟩
      change iterate _ block c _ = _
      rw [iterate, bind_apply, hrun]
      rfl
    | stopped h =>
      obtain ⟨fuel, hrun, hr⟩ := h
      replace hrun : run fuel block c _ = _ := hrun
      refine ⟨fuel + 1, ?_, hr⟩
      change iterate _ block c _ = _
      rw [iterate, bind_apply, hrun]

/-- **A loop behaves as its nesting shows.** -/
theorem code_loop {body : Code} (hbody : WellNested P B .whole body) (s : ScopeId)
    (position : Nat) : code s ⟨position, .op .loop :: (body ++ [Atom.op .endLoop])⟩ =
      inside s fun block ↦ loop (code block ⟨position + 1, body⟩) := by
  rw [code_eq_of_succ (run_loop hbody · s position []),
    eventual_newScope fun block ↦ (grows_iterate block _).bind (grows_proceed (grows_run s _))]
  congr 1
  funext block
  rw [eventual_proceed (grows_iterate block _) (grows_run s _), eventual_iterate]
  exact (congrArg _ (code_nil s _)).trans (seq_skip _)

/-! ## Conditionals -/

theorem grows_branch (block : ScopeId) (c : Stretch) : Grows (branch · block c) :=
  ⟨(stepsExtend · |>.branch block c)⟩

/-- A chain of branches, from a condition on. -/
def chain (block : ScopeId) (c : Stretch) : Behavior :=
  Eventual fun fuel ↦ branch fuel block c >>= fun r ↦ pure (leftBy r)

theorem grows_chain (block : ScopeId) (c : Stretch) :
    Grows fun fuel ↦ branch fuel block c >>= fun r ↦ pure (leftBy r) :=
  (grows_branch block c).bind fun _ ↦ .const _

def otherwise (block : ScopeId) (c : Stretch) : Behavior :=
  Eventual fun fuel ↦ branchOn fuel block c >>= fun r ↦ pure (leftBy r)

theorem leftBy_chainResult (c : Stretch) (left : Option Signal) :
    leftBy (chainResult c left) = left := by
  cases left <;> rfl

theorem eventual_choose {t e : Nat → Exec (Option Signal)} (ht : Grows t) (he : Grows e)
    (s : ScopeId) :
    Eventual (fun fuel ↦ pop s >>= fun v ↦ if v.isFalsy then e fuel else t fuel) =
      choose s (Eventual t) (Eventual e) := by
  have hgrows (v : Value) : Grows fun fuel ↦ if v.isFalsy then e fuel else t fuel := by
    by_cases hv : v.isFalsy
    · simpa only [if_pos hv] using he
    · simpa only [if_neg hv] using ht
  funext m r
  refine propext ((eventual_bind (.const _) hgrows).trans ⟨?_, ?_⟩)
  · rintro (⟨e, m', h, rfl⟩ | ⟨v, m', h, h'⟩)
    · exact .stopped (eventual_const.mp h).1
    · have hpop := (eventual_const.mp h).1
      by_cases hv : v.isFalsy
      · simp only [if_pos hv] at h'
        exact .fails hpop hv h'
      · simp only [if_neg hv] at h'
        exact .holds hpop (by simpa using hv) h'
  · intro h
    cases h with
    | holds hpop hv h =>
      refine .inr ⟨_, _, eventual_const.mpr ⟨hpop, trivial⟩, ?_⟩
      simpa [hv] using h
    | fails hpop hv h =>
      refine .inr ⟨_, _, eventual_const.mpr ⟨hpop, trivial⟩, ?_⟩
      simpa [hv] using h
    | stopped hpop =>
      refine .inl ⟨_, _, eventual_const.mpr ⟨hpop, ?_⟩, rfl⟩
      unfold pop at hpop
      split at hpop
      · cases hpop
      · cases hpop
        trivial

theorem grows_branchOn (block : ScopeId) (c : Stretch) : Grows (branchOn · block c) := by
  obtain ⟨position, code⟩ := c
  refine ⟨fun fuel ↦ ?_⟩
  unfold branchOn
  dsimp only
  split
  · exact (grows_branch block _).succ fuel
  · exact (Extends.refl _).bind fun p ↦ ((grows_run block p.1).succ fuel).bind fun left ↦ .refl _
  · exact .refl _

/-- The branch that is run is the first one whose condition holds. -/
theorem chain_eq {condition body later : Code} (hcondition : WellNested P B .whole condition)
    (hbody : WellNested P B .whole body) (hlater : WellNested P B .chain later) (block : ScopeId)
    (position : Nat) :
    chain block ⟨position, condition ++ Atom.op .thenOp :: (body ++ Atom.op .endIf :: later)⟩ =
      test block (code block ⟨position, condition⟩)
        (code block ⟨position + condition.length + 1, body⟩)
        (otherwise block ⟨position + condition.length + 1 + body.length + 1, later⟩) := by
  have hbranch (fuel : Nat) := branch_eq hcondition hbody hlater fuel block position
    not_continues_nil
  simp only [List.append_nil] at hbranch
  have hgrows (c : Stretch) : Grows fun fuel ↦ branchOn fuel block c >>= fun r ↦ pure (leftBy r) :=
    (grows_branchOn block c).bind fun _ ↦ .const _
  have hchoose (c d : Stretch) : Grows fun fuel ↦ pop block >>= fun v ↦
      if v.isFalsy then branchOn fuel block c >>= fun r ↦ pure (leftBy r)
      else run fuel block d := by
    refine (Grows.const _).bind fun v ↦ ?_
    by_cases hv : v.isFalsy
    · simpa only [if_pos hv] using hgrows c
    · simpa only [if_neg hv] using grows_run block d
  -- both sides are put together from the same operations, with one step more on the left
  rw [chain, test, code, otherwise, code, ← eventual_choose (grows_run block _) (hgrows _),
    ← eventual_proceed (grows_run block _) (hchoose _ _)]
  funext m r
  rw [← propext (eventual_succ (grows_chain block _))]
  simp only [hbranch, bind_assoc]
  congr 1
  funext fuel
  refine bind_congr fun left ↦ ?_
  cases left with
  | some signal => rfl
  | none =>
    simp only [bind_assoc, proceed_none]
    refine bind_congr fun v ↦ ?_
    split
    · rfl
    · simp only [bind_assoc, pure_bind, leftBy_chainResult, bind_pure]

theorem otherwise_nil (block : ScopeId) (position : Nat) :
    otherwise block ⟨position, []⟩ = skip := by
  rw [← code_nil block position, code_eq_of_succ (run_nil · block position)]
  rfl

theorem otherwise_elif (block : ScopeId) (position : Nat) (c : Code) :
    otherwise block ⟨position, .op .elifOp :: c⟩ = chain block ⟨position + 1, c⟩ := rfl

theorem otherwise_else {body : Code} (hbody : WellNested P B .whole body) (block : ScopeId)
    (position : Nat) : otherwise block ⟨position, .op .elseOp :: (body ++ [Atom.op .endIf])⟩ =
      code block ⟨position + 1, body⟩ := by
  unfold otherwise code
  congr 1
  funext fuel
  simp only [branchOn_else hbody, bind_assoc, pure_bind, leftBy_chainResult, bind_pure]

/-- **A conditional behaves as its nesting shows.** -/
theorem code_branch {c : Code} (hc : IsBranches P B c) (s : ScopeId) (position : Nat) :
    code s ⟨position, .op .ifOp :: c⟩ = inside s fun block ↦ chain block ⟨position + 1, c⟩ := by
  have hrun (fuel : Nat) := run_branch hc fuel s position not_continues_nil
  simp only [List.append_nil] at hrun
  have hassoc (fuel : Nat) : run (fuel + 1) s ⟨position, .op .ifOp :: c⟩ = (do
      let block ← newScope s
      (branch fuel block ⟨position + 1, c⟩ >>= fun r ↦ pure (leftBy r)) >>=
        proceed (run fuel s ⟨position + 1 + c.length, []⟩)) := by
    simp only [hrun, bind_assoc, pure_bind]
  rw [code_eq_of_succ hassoc,
    eventual_newScope fun block ↦ (grows_chain block _).bind (grows_proceed (grows_run s _))]
  congr 1
  funext block
  rw [eventual_proceed (grows_chain block _) (grows_run s _)]
  exact (congrArg _ (code_nil s _)).trans (seq_skip _)

/-! ## Functions -/

/-- Puts a new function on the stack of `s`, which is also the scope around its calls. -/
def make (s : ScopeId) (name : String) (params : List String) (body : Stretch) : Behavior :=
  fun m r ↦ r = (do
    let identity ← freshIdentity
    push s (.script ⟨identity, name, params, body, s⟩)
    return none : Exec (Option Signal)) m

/-- A call of a function whose body does `A` in the scope of the call. A return ends the call and
nothing else; a signal that is meant for a loop does not get out of it. -/
inductive calling (f : ScriptFunction) (caller : ScopeId) (marked : Option Nat)
    (A : ScopeId → Behavior) : Machine → Exec.Result Value → Prop where
  | tooDeep {m : Machine} (h : m.config.maxCallDepth ≤ m.callDepth) :
      calling f caller marked A m (.error (.error .stackOverflow) m)
  | refused {m m' : Machine} {e : Error} (hdepth : m.callDepth < m.config.maxCallDepth)
      (h : enterFunction f caller marked m = .error (.error e) m') :
      calling f caller marked A m (.error (.error e) m')
  | returned {m m₁ m₂ : Machine} {frame : ScopeId} {v : Value}
      (hdepth : m.callDepth < m.config.maxCallDepth)
      (henter : enterFunction f caller marked m = .ok frame m₁)
      (h : A frame { m₁ with callDepth := m₁.callDepth + 1 } (.ok (some (.returned v)) m₂)) :
      calling f caller marked A m (.ok v { m₂ with callDepth := m₂.callDepth - 1 })
  | ended {m m₁ m₂ : Machine} {frame : ScopeId} {r : Exec.Result Value}
      (hdepth : m.callDepth < m.config.maxCallDepth)
      (henter : enterFunction f caller marked m = .ok frame m₁)
      (h : A frame { m₁ with callDepth := m₁.callDepth + 1 } (.ok none m₂))
      (hr : popOrNull frame { m₂ with callDepth := m₂.callDepth - 1 } = r) :
      calling f caller marked A m r
  | escaped {m m₁ m₂ : Machine} {frame : ScopeId} {signal : Signal}
      (hdepth : m.callDepth < m.config.maxCallDepth)
      (henter : enterFunction f caller marked m = .ok frame m₁)
      (hsignal : signal = .broke ∨ signal = .continued)
      (h : A frame { m₁ with callDepth := m₁.callDepth + 1 } (.ok (some signal) m₂)) :
      calling f caller marked A m (.error (.error (.type (.escapedLoop (some f.name))))
        { m₂ with callDepth := m₂.callDepth - 1 })
  | stopped {m m₁ m₂ : Machine} {frame : ScopeId} {e : Stop}
      (hdepth : m.callDepth < m.config.maxCallDepth)
      (henter : enterFunction f caller marked m = .ok frame m₁)
      (h : A frame { m₁ with callDepth := m₁.callDepth + 1 } (.error e m₂)) :
      calling f caller marked A m (.error e { m₂ with callDepth := m₂.callDepth - 1 })

theorem code_function {body : Code} (hbody : WellNested P B .whole body) (s : ScopeId)
    (position : Nat) (name : String) (params : List String) :
    code s ⟨position, .op .function :: .operand name ::
        (params.map .operand ++ Atom.op .colon :: (body ++ [Atom.op .endFunction]))⟩ =
      make s name params ⟨position + 1 + params.length + 2, body⟩ := by
  have hgrows (c : Stretch) : Grows fun fuel ↦ freshIdentity >>= fun identity ↦
      push s (.script ⟨identity, name, params, ⟨position + 1 + params.length + 2, body⟩, s⟩) >>=
        fun _ ↦ run fuel s c :=
    (Grows.const _).bind fun _ ↦ (Grows.const _).bind fun _ ↦ grows_run s c
  rw [code_eq_of_succ (run_function hbody · s position name params [])]
  funext m r
  rw [← propext (eventual_succ (hgrows _))]
  simp only [run_nil]
  refine propext (eventual_const.trans ⟨fun h ↦ h.1.symm, fun h ↦ ⟨h.symm, ?_⟩⟩)
  rw [h, bind_apply]
  change Settled ((push s _ >>= fun _ ↦ pure none : Exec (Option Signal)) _)
  rw [bind_apply]
  unfold push
  by_cases hroom : m.heap.depth s < m.config.maxStack
  · rw [if_pos hroom]
    trivial
  · rw [if_neg hroom]
    trivial

theorem grows_callScript (f : ScriptFunction) (caller : ScopeId) (marked : Option Nat) :
    Grows (callScript · f caller marked) :=
  ⟨(stepsExtend · |>.callScript f caller marked)⟩

/-- What a call comes to when the body of the function has come to an end. -/
def callEnd (f : ScriptFunction) (frame : ScopeId) : Exec.Result (Option Signal) → Exec.Result Value
  | .ok left m => callResult f frame left { m with callDepth := m.callDepth - 1 }
  | .error e m => .error e { m with callDepth := m.callDepth - 1 }

section

variable {f : ScriptFunction} {caller frame : ScopeId} {marked : Option Nat} {m m₁ : Machine}

/-- A call first looks at how many are under way. -/
theorem callScript_apply (fuel : Nat) : callScript (fuel + 1) f caller marked m =
    if m.config.maxCallDepth ≤ m.callDepth then .error (.error .stackOverflow) m
    else (enterFunction f caller marked >>= fun frame ↦
      counted (run fuel frame f.body) >>= callResult f frame) m := by
  rw [callScript, bind_apply]
  change (if m.config.maxCallDepth ≤ m.callDepth then _ else _ : Exec Value) m = _
  split <;> rfl

theorem callScript_of_refused {e : Stop} (hdepth : m.callDepth < m.config.maxCallDepth)
    (henter : enterFunction f caller marked m = .error e m₁) (fuel : Nat) :
    callScript (fuel + 1) f caller marked m = .error e m₁ := by
  rw [callScript_apply, if_neg (by omega), bind_apply, henter]

theorem callScript_of_enter (hdepth : m.callDepth < m.config.maxCallDepth)
    (henter : enterFunction f caller marked m = .ok frame m₁) (fuel : Nat) :
    callScript (fuel + 1) f caller marked m =
      callEnd f frame (run fuel frame f.body { m₁ with callDepth := m₁.callDepth + 1 }) := by
  rw [callScript_apply, if_neg (by omega), bind_apply, henter]
  change (counted (run fuel frame f.body) >>= callResult f frame) m₁ = _
  rw [bind_apply, counted]
  cases run fuel frame f.body { m₁ with callDepth := m₁.callDepth + 1 } <;> rfl

end

/-- **A call behaves as its body shows.** -/
theorem eventual_callScript (f : ScriptFunction) (caller : ScopeId) (marked : Option Nat) :
    Eventual (callScript · f caller marked) =
      calling f caller marked fun frame ↦ code frame f.body := by
  funext m r
  rw [← propext (eventual_succ (grows_callScript f caller marked))]
  refine propext ⟨?_, ?_⟩
  · rintro ⟨fuel, h, hr⟩
    change callScript (fuel + 1) f caller marked m = r at h
    by_cases hdepth : m.config.maxCallDepth ≤ m.callDepth
    · rw [callScript_apply, if_pos hdepth] at h
      cases h
      exact .tooDeep hdepth
    · rw [Nat.not_le] at hdepth
      cases henter : enterFunction f caller marked m with
      | error e m' =>
        rw [callScript_of_refused hdepth henter] at h
        cases h
        cases e with
        | error e => exact .refused hdepth henter
        | outOfSteps => exact absurd hr id
      | ok frame m₁ =>
        rw [callScript_of_enter hdepth henter] at h
        cases hrun : run fuel frame f.body { m₁ with callDepth := m₁.callDepth + 1 } with
        | error e m₂ =>
          rw [hrun] at h
          cases h
          refine .stopped hdepth henter ⟨fuel, hrun, ?_⟩
          cases e with
          | error e => trivial
          | outOfSteps => exact hr
        | ok left m₂ =>
          rw [hrun] at h
          have hbody : code frame f.body { m₁ with callDepth := m₁.callDepth + 1 } (.ok left m₂) :=
            ⟨fuel, hrun, trivial⟩
          match left with
          | none => exact .ended hdepth henter hbody h
          | some (.returned v) =>
            cases h
            exact .returned hdepth henter hbody
          | some .broke =>
            cases h
            exact .escaped hdepth henter (.inl rfl) hbody
          | some .continued =>
            cases h
            exact .escaped hdepth henter (.inr rfl) hbody
  · -- with the steps that the body takes, and one for the call
    have hcall {frame : ScopeId} {m m₁ : Machine} {r : Exec.Result (Option Signal)}
        (hdepth : m.callDepth < m.config.maxCallDepth)
        (henter : enterFunction f caller marked m = .ok frame m₁)
        (h : code frame f.body { m₁ with callDepth := m₁.callDepth + 1 } r) :
        ∃ fuel, callScript (fuel + 1) f caller marked m = callEnd f frame r := by
      obtain ⟨fuel, hrun, -⟩ := h
      replace hrun : run fuel frame f.body _ = _ := hrun
      refine ⟨fuel, ?_⟩
      rw [callScript_of_enter hdepth henter, hrun]
    intro h
    cases h with
    | tooDeep hdepth =>
      exact ⟨0, (callScript_apply 0).trans (if_pos hdepth), trivial⟩
    | refused hdepth henter =>
      exact ⟨0, callScript_of_refused hdepth henter 0, trivial⟩
    | returned hdepth henter h =>
      obtain ⟨fuel, hfuel⟩ := hcall hdepth henter h
      exact ⟨fuel, hfuel, trivial⟩
    | ended hdepth henter h hr =>
      obtain ⟨fuel, hfuel⟩ := hcall hdepth henter h
      refine ⟨fuel, hfuel.trans hr, ?_⟩
      rw [← hr, popOrNull]
      split <;> trivial
    | escaped hdepth henter hsignal h =>
      obtain ⟨fuel, hfuel⟩ := hcall hdepth henter h
      refine ⟨fuel, hfuel.trans ?_, trivial⟩
      rcases hsignal with rfl | rfl <;> rfl
    | stopped hdepth henter h =>
      obtain ⟨fuel, hfuel⟩ := hcall hdepth henter h
      refine ⟨fuel, hfuel, ?_⟩
      have hsettled := settled_code h
      next e =>
      cases e with
      | error e => trivial
      | outOfSteps => exact hsettled

end Behavior

end GemLang
