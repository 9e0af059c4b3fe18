import GemLang.Proofs.Machine.Effect
import GemLang.Proofs.Machine.Runs

/-!
# Calls take their own arguments

A call with marked arguments takes them all off the stack, whatever the function does with them, and
leaves one value. A call keeps the marks of the calls around it, if the function it runs does.

A function of the program runs in a scope that is new, so what happens there cannot reach the stack
of the caller. This is where it matters that work in a scope stays there (`Machine.Within`).
-/

namespace GemLang

open Bytecode
open Exec

/-! ## Operations that gave a result -/

namespace Exec

variable {α : Type} {F : ScriptFunction → Prop} {T : Prop} {E : Stop → Prop} {Q : α → Prop}
  {s t : Nat}

/-- What an operation in the scope `s` keeps when it gives a result. -/
theorem Keeps.of_eq_ok {m m' : Machine} {x : Exec α} {a : α} (hx : Keeps F T m s E Q x)
    (hm : m.All F) (h : x m = .ok a m') : Machine.Within F T m s m' ∧ Q a := by
  have hends := hx.ends (.refl hm s)
  rw [h] at hends
  cases hends with
  | ok h => exact h

theorem counted_eq_ok {m m' : Machine} {x : Exec α} {a : α} : counted x m = .ok a m' ↔
    ∃ m₁, x { m with callDepth := m.callDepth + 1 } = .ok a m₁ ∧
      m' = { m₁ with callDepth := m₁.callDepth - 1 } := by
  unfold Exec.counted
  cases hx : x { m with callDepth := m.callDepth + 1 } with
  | ok b m₁ =>
    constructor
    · intro h
      cases h
      exact ⟨m₁, rfl, rfl⟩
    · rintro ⟨m₂, h, rfl⟩
      cases h
      rfl
  | error e m₁ => simp

theorem Trades.of_keeps {x : Exec α} (hx : ∀ m : Machine, m.IsOpen t t →
    Keeps (fun _ ↦ True) False m t E Q x) (hne : s ≠ t) : Trades s 0 (· = 0) x := by
  refine .of_stack_eq fun {m m' a} hs hok ↦ ?_
  obtain ⟨hwithin, -⟩ := (hx m (.inl rfl)).of_eq_ok m.all_true hok
  exact ⟨hwithin.stack hs hne, Nat.lt_of_lt_of_le hs hwithin.nextScope⟩

/-! ## Functions of the machine and of C -/

/-- A function of the machine that is called with marked arguments takes them, and leaves a
value. -/
theorem trades_callNative (f : Native) (s count : Nat) :
    Trades s count (· = 1) (callNative f s (some count)) := by
  refine ⟨fun {m m'} _ hs hok ↦ ?_⟩
  obtain ⟨frame, m₁, hnew, hok⟩ := bind_eq_ok.mp hok
  cases hnew
  have hne : s ≠ m.heap.nextScope := Nat.ne_of_lt hs
  have hrest : Trades s count (· = 1) (do
      pushAll m.heap.nextScope (← takeTop s count)
      f.call m.heap.nextScope
      push s (← popOrNull m.heap.nextScope)) := by
    refine (trades_takeTop s count).bind (j := 0) fun values ↦ ?_
    have hpush : Trades s 0 (· = 0) (pushAll m.heap.nextScope values) :=
      .of_keeps (fun m h ↦ keeps_pushAll h fun v _ ↦ v.all_of_forall fun _ ↦ trivial) hne
    have hcall : Trades s 0 (· = 0) (f.call m.heap.nextScope) :=
      .of_keeps (fun m h ↦ keeps_native h f) hne
    have hpop : Trades s 0 (· = 0) (popOrNull m.heap.nextScope) :=
      .of_keeps (fun m h ↦ keeps_popOrNull h) hne
    exact hpush.bind_still fun _ ↦ hcall.bind_still fun _ ↦ hpop.bind_still fun v ↦ trades_push s v
  have hs' : s < (m.heap.addChild s).nextScope := by simpa using Nat.lt_succ_of_lt hs
  obtain ⟨hscope, taken, put, rest, hstack, htraded⟩ := hrest.of_ok hs' hok
  refine ⟨hscope, taken, put, rest, ?_, htraded⟩
  rw [← hstack]
  exact (Heap.stack_addChild_of_lt s hs).symm

/-- So does a C function; it is called only with as many arguments as it is declared with. -/
theorem trades_callForeign (f : ForeignFunction) (s count : Nat) :
    Trades s count (· = 1) (callForeign f s (some count)) := by
  unfold callForeign
  dsimp only [Option.getD_some]
  split
  · exact .fail _
  · next heq =>
    obtain rfl := Decidable.not_not.mp heq
    refine (trades_popMany s f.argTypes.length).bind (j := 0) fun args ↦ ?_
    exact (Trades.check _).bind_still fun v ↦ trades_push s v

/-! ## Functions of the program -/

theorem trades_bindParams (caller frame provided : Nat) {params : List String}
    (h : provided ≤ params.length) :
    Trades caller provided (· = 0) (bindParams caller frame provided params) := by
  induction params generalizing provided with
  | nil =>
    obtain rfl := Nat.eq_zero_of_le_zero h
    exact .pure ()
  | cons param params ih =>
    cases provided with
    | zero =>
      exact (trades_declare caller frame param .null).bind_still fun _ ↦ ih 0 (Nat.zero_le _)
    | succ provided =>
      have hbind := (trades_pop caller).bind fun v ↦
        (trades_declare caller frame param v).bind_still fun _ ↦
          ih provided (Nat.le_of_succ_le_succ h)
      rwa [Nat.add_comm] at hbind

/-- Marked arguments are all taken off the stack of the caller. -/
theorem trades_enterFunction (f : ScriptFunction) (caller count : Nat) :
    Trades caller count (· = 0) (enterFunction f caller (some count)) := by
  have htotal : min f.params.length count + (count - min f.params.length count) = count := by omega
  refine (trades_newScope caller f.home).bind_still fun frame ↦ ?_
  refine (trades_depth caller caller).bind_still fun depth ↦ ?_
  dsimp only [Option.getD_some]
  have h := (trades_bindParams caller frame _ (Nat.min_le_left f.params.length count)).bind fun _ ↦
    (trades_takeTop caller (count - min f.params.length count)).bind (j := 0) fun _ ↦
      Trades.pure (s := caller) frame
  rwa [Nat.add_zero, htotal] at h

/-- The scope that a call runs in is new, and nothing is on its stack. -/
theorem enterFunction_eq_ok {f : ScriptFunction} {caller : Nat} {marked : Option Nat}
    {m m' : Machine} {frame : Nat} (hcaller : caller < m.heap.nextScope)
    (h : enterFunction f caller marked m = .ok frame m') :
    frame = m.heap.nextScope ∧ frame < m'.heap.nextScope ∧ m'.heap.stack frame = [] := by
  obtain ⟨frame', m₁, hnew, h⟩ := bind_eq_ok.mp h
  cases hnew
  have hentered : Machine.Within (fun _ ↦ True) False
      { m with heap := m.heap.addChild f.home } caller m' ∧ frame = m.heap.nextScope := by
    refine Keeps.of_eq_ok (E := NotMalformed) (Q := (· = m.heap.nextScope)) ?_
      (Machine.all_true _) h
    refine (keeps_depth caller).bind fun depth _ ↦ ?_
    refine (keeps_bindParams (.inl rfl) m.heap.nextScope _ f.params).bind fun _ _ ↦ ?_
    cases marked with
    | some count => exact (keeps_takeTop (.inl rfl) _).bind fun _ _ ↦ .pure rfl
    | none => exact .pure rfl
  obtain ⟨hwithin, rfl⟩ := hentered
  have hnew : m.heap.nextScope < (m.heap.addChild f.home).nextScope := by simp
  refine ⟨rfl, Nat.lt_of_lt_of_le hnew hwithin.nextScope, ?_⟩
  rw [hwithin.stack hnew (Nat.ne_of_gt hcaller)]
  exact Heap.stack_addChild_self m.heap f.home

end Exec

/-! ## Machines to run in -/

/-- Bodies of compiled functions, of whatever instructions. -/
abbrev AnyBody : Code → Prop := IsFunctionBody fun _ _ ↦ True

theorem discipline_anyBody : Discipline (fun _ _ ↦ True) AnyBody fun _ ↦ True where
  body h := h.wellNested
  plain _ _ := trivial
  other _ := trivial

/-- A machine in which the scope `s` and the marked scopes exist, and functions have compiled
bodies. -/
structure Machine.Ready (m : Machine) (s : Nat) : Prop where
  functions : m.All (·.HasBody AnyBody)
  scope : s < m.heap.nextScope
  marks : ∀ mark ∈ m.marks, mark.1 < m.heap.nextScope

namespace Machine.Ready

variable {m m' : Machine} {s t : Nat}

/-- Work in a scope leaves a machine to run in, if it leaves the marks. -/
theorem of_within {T : Prop} (h : m.Ready s) (hwithin : Machine.Within (·.HasBody AnyBody) T m t m')
    (hmarks : m'.marks = m.marks) : m'.Ready s where
  functions := hwithin.functions
  scope := Nat.lt_of_lt_of_le h.scope hwithin.nextScope
  marks mark hmark := Nat.lt_of_lt_of_le (h.marks mark (hmarks ▸ hmark)) hwithin.nextScope

theorem other (h : m.Ready s) (ht : t < m.heap.nextScope) : m.Ready t :=
  ⟨h.functions, ht, h.marks⟩

theorem withCallDepth (h : m.Ready s) (depth : Nat) :
    Machine.Ready { m with callDepth := depth } s :=
  ⟨⟨h.functions.stack, h.functions.bindings, h.functions.iterators⟩, h.scope, h.marks⟩

theorem withMarks (h : m.Ready s) {marks : List (ScopeId × Nat)} (hsubset : marks ⊆ m.marks) :
    Machine.Ready { m with marks := marks } s :=
  ⟨⟨h.functions.stack, h.functions.bindings, h.functions.iterators⟩, h.scope,
    fun mark hmark ↦ h.marks mark (hsubset hmark)⟩

theorem within_run (h : m.Ready s) {c : Code} (hc : WellNested (fun _ _ ↦ True) AnyBody .whole c)
    {fuel position : Nat} {left : Option Signal} (hok : run fuel s ⟨position, c⟩ m = .ok left m') :
    Machine.Within (·.HasBody AnyBody) False m s m' :=
  (((runsKeep discipline_anyBody fuel).run (.inl rfl) position hc).of_eq_ok h.functions hok).1

end Machine.Ready

/-! ## Calls -/

/-- Bodies of functions keep the marks, if they are run with a number of steps to their end. -/
def BodiesKeepMarks (fuel : Nat) : Prop :=
  ∀ {m m' : Machine} {s position : Nat} {c : Code} {left : Option Signal}, m.Ready s → AnyBody c →
    run fuel s ⟨position, c⟩ m = .ok left m' → m'.marks = m.marks

/-- A call of a function of the program keeps the marks, and takes the marked arguments. -/
theorem callScript_eq_ok {fuel : Nat} (hbodies : BodiesKeepMarks fuel) {m m' : Machine}
    {caller : Nat} (hm : m.Ready caller) {f : ScriptFunction} (hf : f.HasBody AnyBody)
    {marked : Option Nat} {v : Value} (h : callScript (fuel + 1) f caller marked m = .ok v m') :
    m'.marks = m.marks ∧ ∀ count, marked = some count → m.Traded caller count (· = 0) m' := by
  rw [callScript] at h
  obtain ⟨m₀, _, hget, h⟩ := bind_eq_ok.mp h
  cases hget
  split at h
  · cases h
  obtain ⟨frame, m₁, henter, h⟩ := bind_eq_ok.mp h
  obtain ⟨left, m₂, hcounted, h⟩ := bind_eq_ok.mp h
  obtain ⟨hframe, hexists, -⟩ := enterFunction_eq_ok hm.scope henter
  have hne : caller ≠ frame := hframe ▸ Nat.ne_of_lt hm.scope
  obtain ⟨hentered, -⟩ := (keeps_enterFunction (T := True) f (.inl rfl) marked).of_eq_ok
    hm.functions henter
  have hready := (hm.of_within hentered (hentered.marks trivial)).other hexists
  obtain ⟨m₃, hrun, rfl⟩ := counted_eq_ok.mp hcounted
  have hdeeper := hready.withCallDepth (m₁.callDepth + 1)
  have hmarks := hbodies hdeeper hf hrun
  have hran := hdeeper.within_run hf.wellNested hrun
  have hleft : Signal.All (fun _ ↦ True) left := by
    rcases left with _ | v | _ | _
    · trivial
    · exact v.all_of_forall fun _ ↦ trivial
    · trivial
    · trivial
  obtain ⟨hresult, -⟩ := (keeps_callResult (T := True) f (.inl rfl) hleft).of_eq_ok
    (Machine.all_true _) h
  have hcaller : caller < m₁.heap.nextScope := Nat.lt_of_lt_of_le hm.scope hentered.nextScope
  have hcaller' : caller < m₃.heap.nextScope := Nat.lt_of_lt_of_le hcaller hran.nextScope
  refine ⟨?_, ?_⟩
  · rw [hresult.marks trivial]
    exact hmarks.trans (hentered.marks trivial)
  · rintro count rfl
    obtain ⟨-, taken, put, rest, hstack, htraded⟩ :=
      (trades_enterFunction f caller count).of_ok hm.scope henter
    have hkept : m'.heap.stack caller = m₁.heap.stack caller :=
      (hresult.stack hcaller' hne).trans (hran.stack hcaller hne)
    refine ⟨Nat.lt_of_lt_of_le hcaller' hresult.nextScope, taken, put, rest, hstack, ?_⟩
    rwa [hkept]

/-- Calls a function that has been popped. -/
def callPopped (fuel : Nat) (s : ScopeId) (callee : Value) (marked : Option Nat) : Exec Unit :=
  match callee with
  | .native f => callNative f s marked
  | .script f => do
    push s (← callScript fuel f s marked)
  | .foreign f => callForeign f s marked
  | other => fail (.notCallable other.kind)

theorem call_succ (fuel : Nat) (s : ScopeId) : call (fuel + 1) s = (do
    let callee ← pop s
    let marked ← argumentCount s
    callPopped fuel s callee marked) := by
  rw [call]
  rfl

/-- A call keeps the marks, and takes the marked arguments and leaves a value. -/
theorem callPopped_eq_ok {fuel : Nat} (hbodies : ∀ k < fuel, BodiesKeepMarks k) {m m' : Machine}
    {s : Nat} (hm : m.Ready s) {callee : Value} (hcallee : callee.All (·.HasBody AnyBody))
    {marked : Option Nat} (h : callPopped fuel s callee marked m = .ok () m') :
    m'.marks = m.marks ∧ ∀ count, marked = some count → m.Traded s count (· = 1) m' := by
  unfold callPopped at h
  split at h
  · next f =>
    obtain ⟨hwithin, -⟩ := (keeps_callNative (T := True) (.inl rfl) f marked).of_eq_ok
      hm.functions h
    refine ⟨hwithin.marks trivial, ?_⟩
    rintro count rfl
    exact (trades_callNative f s count).of_ok hm.scope h
  · next f =>
    obtain ⟨v, m₁, hcall, hpush⟩ := bind_eq_ok.mp h
    cases fuel with
    | zero =>
      rw [callScript] at hcall
      cases hcall
    | succ fuel =>
      obtain ⟨hmarks, htraded⟩ := callScript_eq_ok (hbodies fuel fuel.lt_succ_self) hm hcallee hcall
      have hput (hs : s < m₁.heap.nextScope) := (trades_push s v).of_ok hs hpush
      obtain ⟨-, rfl⟩ := push_eq_ok hpush
      refine ⟨hmarks, fun count hcount ↦ ?_⟩
      exact (htraded count hcount).trans (hput (htraded count hcount).scope) (by omega)
  · next f =>
    obtain ⟨hwithin, -⟩ := (keeps_callForeign (T := True) (.inl rfl) f marked).of_eq_ok
      hm.functions h
    refine ⟨hwithin.marks trivial, ?_⟩
    rintro count rfl
    exact (trades_callForeign f s count).of_ok hm.scope h
  · cases h

theorem argumentCount_of_marked {m : Machine} {s : Nat} {taken rest : List Value}
    {marks : List (ScopeId × Nat)} (hstack : m.heap.stack s = taken ++ rest)
    (hmarks : m.marks = (s, rest.length) :: marks) :
    argumentCount s m = .ok (some taken.length) { m with marks := marks } := by
  unfold argumentCount
  simp [hmarks, Heap.depth, hstack]

/-- A call that no arguments were marked for, although they may have been for calls around it. -/
theorem argumentCount_of_unmarked {m : Machine} {s : Nat} (hmarks : ∀ mark ∈ m.marks, mark.1 ≠ s) :
    argumentCount s m = .ok none m := by
  unfold argumentCount
  split
  · next marked depth rest heq =>
    have hne : marked ≠ s := hmarks (marked, depth) (heq ▸ List.mem_cons_self)
    rw [if_neg fun h ↦ hne h.1]
  · rfl

/-- Counting arguments uses up the innermost mark, if that was made in the scope. -/
theorem argumentCount_eq_ok {m m' : Machine} {s : Nat} {marked : Option Nat}
    (h : argumentCount s m = .ok marked m') :
    ∃ marks, m' = { m with marks := marks } ∧
      (marks = m.marks ∨ ∃ depth, m.marks = (s, depth) :: marks) := by
  unfold argumentCount at h
  split at h
  · next scope depth marks heq =>
    split at h
    · next hcount =>
      cases h
      obtain ⟨rfl, -⟩ := hcount
      exact ⟨marks, rfl, .inr ⟨depth, heq⟩⟩
    · cases h
      exact ⟨m.marks, rfl, .inl rfl⟩
  · cases h
    exact ⟨m.marks, rfl, .inl rfl⟩

/-- **A call takes the arguments that were marked for it**, all of them and no other value, and
leaves its result. -/
theorem call_of_marked {fuel : Nat} (hbodies : ∀ k < fuel, BodiesKeepMarks k) {m m' : Machine}
    {s : Nat} (hm : m.Ready s) {callee : Value} {taken rest : List Value}
    {marks : List (ScopeId × Nat)} (hstack : m.heap.stack s = callee :: (taken ++ rest))
    (hmarks : m.marks = (s, rest.length) :: marks) (h : call fuel s m = .ok () m') :
    m'.marks = marks ∧ ∃ v, m'.heap.stack s = v :: rest := by
  cases fuel with
  | zero =>
    rw [call] at h
    cases h
  | succ fuel =>
    rw [call_succ] at h
    obtain ⟨f, m₁, hpop, h⟩ := bind_eq_ok.mp h
    obtain ⟨hwithin, hf⟩ := (keeps_pop (T := True) (.inl rfl)).of_eq_ok hm.functions hpop
    obtain ⟨htop, -⟩ := pop_eq_ok hm.scope hpop
    rw [hstack] at htop
    obtain ⟨rfl, hrest⟩ := List.cons.inj htop
    have hmarks₁ := hwithin.marks trivial
    have hready := hm.of_within hwithin hmarks₁
    obtain ⟨marked, m₂, hcount, h⟩ := bind_eq_ok.mp h
    rw [argumentCount_of_marked hrest.symm (hmarks₁.trans hmarks)] at hcount
    cases hcount
    have hsubset : marks ⊆ m₁.marks := by
      rw [hmarks₁, hmarks]
      exact List.subset_cons_self _ _
    have hused := hready.withMarks hsubset
    obtain ⟨hkept, htraded⟩ :=
      callPopped_eq_ok (fun k hk ↦ hbodies k (Nat.lt_succ_of_lt hk)) hused hf h
    refine ⟨hkept, ?_⟩
    obtain ⟨-, taken', put, rest', hstack', hlength, hleft, hput⟩ := htraded _ rfl
    obtain ⟨-, rfl⟩ := List.append_inj (hrest.trans hstack') hlength.symm
    obtain ⟨v, rfl⟩ := List.length_eq_one_iff.mp hput
    exact ⟨v, hleft⟩

/-- A call keeps the marks, except that it may use up the innermost one if that was made in the
scope. -/
theorem call_eq_ok {fuel : Nat} (hbodies : ∀ k < fuel, BodiesKeepMarks k) {m m' : Machine} {s : Nat}
    (hm : m.Ready s) (h : call fuel s m = .ok () m') :
    m'.marks = m.marks ∨ ∃ depth, m.marks = (s, depth) :: m'.marks := by
  cases fuel with
  | zero =>
    rw [call] at h
    cases h
  | succ fuel =>
    rw [call_succ] at h
    obtain ⟨f, m₁, hpop, h⟩ := bind_eq_ok.mp h
    obtain ⟨hwithin, hf⟩ := (keeps_pop (T := True) (.inl rfl)).of_eq_ok hm.functions hpop
    have hmarks₁ := hwithin.marks trivial
    have hready := hm.of_within hwithin hmarks₁
    obtain ⟨marked, m₂, hcount, h⟩ := bind_eq_ok.mp h
    obtain ⟨marks, rfl, hmarks⟩ := argumentCount_eq_ok hcount
    have hused : Machine.Ready { m₁ with marks := marks } s := by
      refine hready.withMarks ?_
      rcases hmarks with rfl | ⟨depth, heq⟩
      · exact List.Subset.refl _
      · rw [heq]
        exact List.subset_cons_self _ _
    obtain ⟨hkept, -⟩ :=
      callPopped_eq_ok (fun k hk ↦ hbodies k (Nat.lt_succ_of_lt hk)) hused hf h
    rw [hkept, ← hmarks₁]
    exact hmarks

end GemLang
