import GemLang.Proofs.Machine.Holding
import GemLang.Proofs.Machine.Session

/-!
# What any program can bring about

A property of values that is closed under the ways to make values (`Value.Closed`) is kept by every
instruction, every call and every run. The code need not come from the compiler, nor be well formed,
and a run may stop anywhere. So the property holds of all values in every machine that has run
programs (`Machine.Reached.holds`).

Since a run may be cut short after any number of steps, the machines reached include those in the
middle of a program.
-/

namespace GemLang

open Exec

variable {P : Value → Prop}

/-- Machines that have run programs, one after the other. These may be any bytecode texts. -/
inductive Machine.Reached : Machine → Prop where
  | start (config : Config) (host : Host) : Machine.Reached (.start config host)
  | evaluate {m : Machine} (hm : Machine.Reached m) (fuel : Nat) (text : String) :
    Machine.Reached ((evaluate fuel text).stateAfter m)

theorem maintains_evaluate (h : Value.Closed P) (fuel : Nat) (text : String) :
    Maintains P (fun _ ↦ True) (evaluate fuel text) :=
  (rules_maintains h).evaluate (.modify (fun _ ↦ rfl) fun _ ↦ rfl) .flushed trivial
    fuel text

theorem Exec.Maintains.stateAfter {α : Type} {Q : α → Prop} {x : Exec α} {m : Machine}
    (hx : Maintains P Q x) (hm : m.Holds P) : (x.stateAfter m).Holds P :=
  ((hx.ends hm).mono (fun _ _ h ↦ h.1) fun _ _ h ↦ h).stateAfter

theorem Value.Closed.globals (h : Value.Closed P) : ∀ e ∈ globals, P e.2 := by
  have hnatives {functions : List (String × Native)}
      (hdistinct : nativeTable functions = .table (Assoc.ofList (functions.map fun f ↦
        (.text f.1, .native f.2)))) : P (nativeTable functions) := by
    rw [hdistinct]
    refine h.sealed.ofList ?_
    rw [List.forall_mem_map]
    exact fun f _ ↦ ⟨trivial, h.plain (by simp)⟩
  simp only [GemLang.globals, List.forall_mem_cons]
  refine ⟨h.plain ?_, h.plain ?_, h.plain ?_, hnatives rfl, hnatives rfl, hnatives rfl, h.plain ?_,
    List.forall_mem_nil _⟩
  all_goals
    intro t ht
    cases ht

/-- **A closed property holds of every value** that any programs can bring about. -/
theorem Machine.Reached.holds (h : Value.Closed P) {m : Machine} (hm : m.Reached) : m.Holds P := by
  induction hm with
  | start config host => exact Machine.holds_start h.globals config host
  | evaluate _ fuel text ih => exact (maintains_evaluate h fuel text).stateAfter ih

end GemLang
