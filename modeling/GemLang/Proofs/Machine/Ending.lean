import GemLang.Proofs.Machine.Calls

/-!
# What a run of code comes to

What is shown here about code has the form: if a run of it gives a result, then the machine before
and the machine after are related in some way (`Achieves`). Such facts are put together as code is.
Two pieces of code one after the other are related by the two relations one after the other, unless
control left the first (`Ending.Then`).

The number of steps is bounded throughout. A call runs with fewer steps than the code it stands in,
so that facts about the bodies of functions may be assumed for all smaller numbers.
-/

namespace GemLang

open Bytecode
open Exec

/-- Well-nested code, of whatever instructions. -/
abbrev Nested : Part → Code → Prop := WellNested (fun _ _ ↦ True) AnyBody

/-- A relation between the machine before a run in a scope, the signal that control left by, and the
machine after. -/
abbrev Ending := (s : Nat) → Machine → Option Signal → Machine → Prop

/-- What comes of code in two parts: what came of the first, if control left there, or what comes of
the second after it. -/
inductive Ending.Then (Q R : Ending) : Ending where
  | left {s : Nat} {m m' : Machine} {signal : Signal} (h : Q s m (some signal) m') :
      Then Q R s m (some signal) m'
  | passed {s : Nat} {m m₁ m' : Machine} {left : Option Signal} (h : Q s m none m₁)
      (hready : m₁.Ready s) (h' : R s m₁ left m') : Then Q R s m left m'

/-- Runs of `c` with at most `N` steps, if they give a result, have the outcome `Q`, and other code
can be run in the scope after them. -/
structure Achieves (N : Nat) (Q : Ending) (c : Code) : Prop where
  nested : Nested .whole c
  of_ok {fuel position s : Nat} {m m' : Machine} {left : Option Signal} : fuel ≤ N → m.Ready s →
    run fuel s ⟨position, c⟩ m = .ok left m' → m'.Ready s ∧ Q s m left m'

variable {N : Nat} {Q R : Ending}

/-! ## Single instructions -/

theorem run_nil_eq_ok {fuel position s : Nat} {m m' : Machine} {left : Option Signal}
    (h : run fuel s ⟨position, []⟩ m = .ok left m') : left = none ∧ m' = m := by
  cases fuel with
  | zero =>
    rw [run_zero] at h
    cases h
  | succ fuel =>
    rw [run_nil] at h
    cases h
    exact ⟨rfl, rfl⟩

/-- A run of code in two parts is a run of the first, and if control came to its end, then one of
the second. -/
theorem run_append_eq_ok {a b : Code} (ha : Nested .whole a) (hb : Nested .whole b)
    {fuel position s : Nat} {m m' : Machine} {left : Option Signal}
    (h : run fuel s ⟨position, a ++ b⟩ m = .ok left m') :
    ∃ first m₁, run fuel s ⟨position, a⟩ m = .ok first m₁ ∧
      ∃ taken later, proceed (run (fuel - taken) s ⟨later, b⟩) first m₁ = .ok left m' := by
  obtain ⟨taken, hrun⟩ := run_append ha hb.not_continues
  rw [hrun] at h
  obtain ⟨first, m₁, hfirst, hrest⟩ := bind_eq_ok.mp h
  exact ⟨first, m₁, hfirst, taken, _, hrest⟩

/-- It is enough to see that a run sets no marks in other scopes. -/
theorem Achieves.of_run {c : Code} (hc : Nested .whole c)
    (h : ∀ {fuel position s : Nat} {m m' : Machine} {left : Option Signal}, fuel ≤ N → m.Ready s →
      run fuel s ⟨position, c⟩ m = .ok left m' →
      (∀ mark ∈ m'.marks, mark ∈ m.marks ∨ mark.1 = s) ∧ Q s m left m') :
    Achieves N Q c := by
  refine ⟨hc, fun {fuel position s m m' left} hle hm hok ↦ ?_⟩
  obtain ⟨hmarks, hdone⟩ := h hle hm hok
  have hwithin := hm.within_run hc hok
  have hscope := Nat.lt_of_lt_of_le hm.scope hwithin.nextScope
  refine ⟨⟨hwithin.functions, hscope, fun mark hmark ↦ ?_⟩, hdone⟩
  rcases hmarks mark hmark with hmark | rfl
  · exact Nat.lt_of_lt_of_le (hm.marks mark hmark) hwithin.nextScope
  · exact hscope

theorem achieves_nil (h : ∀ {s : Nat} {m : Machine}, m.Ready s → Q s m none m) :
    Achieves N Q [] := by
  refine ⟨.nil, fun _ hm hok ↦ ?_⟩
  obtain ⟨rfl, rfl⟩ := run_nil_eq_ok hok
  exact ⟨hm, h hm⟩

/-- Only one instruction sets a mark, in the scope it is carried out in. -/
theorem marks_perform {op : Opcode} {operands : List String} (hrole : op.role = .plain)
    (hcount : operands.length = op.operandCount) {s : Nat} {m m' : Machine} (hm : m.Ready s)
    (h : perform s op operands m = .ok () m') :
    m'.marks = m.marks ∨ op = .args ∧ m'.marks = (s, m.heap.depth s) :: m.marks := by
  by_cases hop : op = .args
  · subst hop
    obtain rfl := List.eq_nil_of_length_eq_zero hcount
    cases h
    exact .inr ⟨rfl, rfl⟩
  · obtain ⟨hwithin, -⟩ := (keeps_perform (T := True) (.inl rfl) hrole hcount fun _ ↦ hop).of_eq_ok
      hm.functions h
    exact .inl (hwithin.marks trivial)

theorem achieves_plain (op : Opcode) (operands : List String) (hrole : op.role = .plain)
    (hcount : operands.length = op.operandCount)
    (h : ∀ {s : Nat} {m m' : Machine}, m.Ready s → perform s op operands m = .ok () m' →
      Q s m none m') :
    Achieves N Q (.op op :: operands.map .operand) := by
  refine .of_run (WellNested.nil.append_plain trivial hrole hcount)
    fun {fuel position s m m' left} _ hm hok ↦ ?_
  cases fuel with
  | zero =>
    rw [run_zero] at hok
    cases hok
  | succ fuel =>
    have hrun := run_plain hrole hcount fuel s position []
    rw [List.append_nil] at hrun
    rw [hrun] at hok
    obtain ⟨_, m₁, hperform, hend⟩ := bind_eq_ok.mp hok
    obtain ⟨rfl, rfl⟩ := run_nil_eq_ok hend
    refine ⟨fun mark hmark ↦ ?_, h hm hperform⟩
    rcases marks_perform hrole hcount hm hperform with heq | ⟨-, heq⟩
    · exact .inl (heq ▸ hmark)
    · rw [heq, List.mem_cons] at hmark
      exact hmark.symm.imp_right (congrArg Prod.fst)

theorem achieves_call (hbodies : ∀ k < N, BodiesKeepMarks k)
    (h : ∀ {fuel s : Nat} {m m' : Machine}, fuel < N → m.Ready s → call fuel s m = .ok () m' →
      Q s m none m') :
    Achieves N Q [.op .call] := by
  refine .of_run (.jump rfl .nil) fun {fuel position s m m' left} hle hm hok ↦ ?_
  cases fuel with
  | zero =>
    rw [run_zero] at hok
    cases hok
  | succ fuel =>
    rw [run_call] at hok
    obtain ⟨_, m₁, hcall, hend⟩ := bind_eq_ok.mp hok
    obtain ⟨rfl, rfl⟩ := run_nil_eq_ok hend
    refine ⟨fun mark hmark ↦ ?_, h hle hm hcall⟩
    have hfewer (k : Nat) (hk : k < fuel) : BodiesKeepMarks k := hbodies k (Nat.lt_trans hk hle)
    rcases call_eq_ok hfewer hm hcall with heq | ⟨depth, heq⟩
    · exact .inl (heq ▸ hmark)
    · exact .inl (heq ▸ List.mem_cons_of_mem _ hmark)

namespace Achieves

theorem mono {c : Code} (hc : Achieves N Q c)
    (h : ∀ {s : Nat} {m m' : Machine} {left : Option Signal}, m'.Ready s → Q s m left m' →
      R s m left m') :
    Achieves N R c := by
  refine ⟨hc.nested, fun hle hm hok ↦ ?_⟩
  obtain ⟨hready, hdone⟩ := hc.of_ok hle hm hok
  exact ⟨hready, h hready hdone⟩

/-- **Code one after the other has the outcomes one after the other.** -/
theorem append {a b : Code} (ha : Achieves N Q a) (hb : Achieves N R b) :
    Achieves N (Q.Then R) (a ++ b) := by
  refine ⟨ha.nested.append hb.nested, fun {fuel position s m m' left} hle hm hok ↦ ?_⟩
  obtain ⟨first, m₁, hfirst, taken, later, hrest⟩ := run_append_eq_ok ha.nested hb.nested hok
  obtain ⟨hready, hdone⟩ := ha.of_ok hle hm hfirst
  cases first with
  | some signal =>
    cases hrest
    exact ⟨hready, .left hdone⟩
  | none =>
    obtain ⟨hready', hdone'⟩ := hb.of_ok (Nat.le_trans (Nat.sub_le fuel taken) hle) hready hrest
    exact ⟨hready', .passed hdone hready hdone'⟩

end Achieves

end GemLang
