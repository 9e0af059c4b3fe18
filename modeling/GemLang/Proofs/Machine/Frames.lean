import GemLang.Proofs.Machine.Arguments
import GemLang.Proofs.Machine.Behavior

/-!
# The scope of a call

A call of a function of the program has a contract with its caller. It runs the body in a scope that
did not exist before, inside the one where the function was made, and what is there at first is the
parameters and nothing else. From the stack of the caller it takes the marked arguments, all of
them, or as many values as there are parameters to fill when none are marked. No other scope is
touched before the body starts, and what the body came to decides what the call comes to.
`callScript_contract` says all of this in one equation for the whole call.

The scope of the caller and the scope where the function was made may be the same one or not;
nothing here depends on it.
-/

namespace GemLang

open Exec

/-! ## What parameters mean -/

theorem bound_cons (param : String) (params : List String) (vs : List Value) :
    bound (param :: params) vs = (param, vs.headD .null) :: bound params vs.tail := by
  cases vs with
  | nil => rfl
  | cons v vs => rfl

theorem map_fst_bound (params : List String) (vs : List Value) :
    (bound params vs).map (·.1) = params := by
  induction params generalizing vs with
  | nil => rfl
  | cons param params ih => rw [bound_cons, List.map_cons, ih]

namespace Assoc

variable {κ α : Type} [BEq κ] [LawfulBEq κ]

theorem get?_foldl_insert {es : List (κ × α)} {key : κ} (h : key ∉ es.map (·.1)) (m : Assoc κ α) :
    get? (es.foldl (fun m e ↦ insert m e.1 e.2) m) key = get? m key := by
  induction es generalizing m with
  | nil => rfl
  | cons e es ih =>
    rw [List.map_cons, List.mem_cons, not_or] at h
    rw [List.foldl_cons, ih h.2, get?_insert, if_neg]
    simpa using fun heq ↦ h.1 heq.symm

end Assoc

/-- A parameter is bound to the value in its place; of two with one name the later one counts. -/
theorem get?_foldl_bound {params : List String} {i : Nat} {param : String}
    (h : params[i]? = some param) (hlast : param ∉ params.drop (i + 1)) (vs : List Value)
    (m : Assoc String Value) :
    Assoc.get? ((bound params vs).foldl (fun m e ↦ Assoc.insert m e.1 e.2) m) param =
      some (vs[i]?.getD .null) := by
  induction params generalizing i vs m with
  | nil => simp at h
  | cons p params ih =>
    rw [bound_cons, List.foldl_cons]
    cases i with
    | zero =>
      obtain rfl : p = param := by simpa using h
      have hnotin : p ∉ (bound params vs.tail).map (·.1) := by
        rw [map_fst_bound]
        simpa using hlast
      rw [Assoc.get?_foldl_insert hnotin]
      cases vs <;> simp [Assoc.get?_insert]
    | succ i =>
      rw [ih (by simpa using h) (by simpa using hlast)]
      cases vs <;> simp

/-! ## Work on one stack and in one new scope -/

/-- From `m` to `m'` values have been taken off the stack of `caller`, and names have been bound in
`frame`; nothing else has happened. -/
structure Machine.Touched (caller frame : ScopeId) (m m' : Machine) : Prop where
  nextScope : m'.heap.nextScope = m.heap.nextScope
  taken : m'.heap.scope caller = { m.heap.scope caller with stack := m'.heap.stack caller }
  others : ∀ t, t ≠ caller → t ≠ frame → m'.heap.scope t = m.heap.scope t
  rest : m' = { m with heap := m'.heap }

namespace Machine.Touched

variable {m m₁ m₂ : Machine} {caller frame : ScopeId}

theorem refl (caller frame : ScopeId) (m : Machine) : m.Touched caller frame m :=
  ⟨rfl, rfl, fun _ _ _ ↦ rfl, rfl⟩

theorem trans (h : m.Touched caller frame m₁) (h' : m₁.Touched caller frame m₂) :
    m.Touched caller frame m₂ where
  nextScope := h'.nextScope.trans h.nextScope
  taken := by rw [h'.taken, h.taken]
  others t hcaller hframe := (h'.others t hcaller hframe).trans (h.others t hcaller hframe)
  rest := by rw [h'.rest, h.rest]

theorem setStack (hcaller : caller < m.heap.nextScope) (values : List Value) :
    m.Touched caller frame { m with heap := m.heap.setStack caller values } where
  nextScope := Heap.nextScope_setStack ..
  taken := by
    change (m.heap.setStack caller values).scope caller =
      { m.heap.scope caller with stack := (m.heap.setStack caller values).stack caller }
    rw [Heap.stack_setStack_self hcaller]
    simp [Heap.setStack, Heap.scope_modify, hcaller]
  others t hne _ := Heap.scope_setStack_of_ne (Ne.symm hne) values
  rest := rfl

theorem declare (hne : caller ≠ frame) (name : String) (v : Value) :
    m.Touched caller frame { m with heap := m.heap.declare frame name v } := by
  have hother (t : ScopeId) (ht : t ≠ frame) :
      (m.heap.declare frame name v).scope t = m.heap.scope t := by
    simp [Heap.declare, Heap.scope_modify, ht.symm]
  refine ⟨Heap.nextScope_declare .., ?_, fun t _ ht ↦ hother t ht, rfl⟩
  change (m.heap.declare frame name v).scope caller = _
  rw [Heap.stack_declare, hother caller hne]
  rfl

end Machine.Touched

namespace Exec

theorem touched_pop {caller frame : ScopeId} {v : Value} {m m' : Machine}
    (hcaller : caller < m.heap.nextScope) (h : pop caller m = .ok v m') :
    m.Touched caller frame m' := by
  unfold pop at h
  split at h
  · cases h
    exact .setStack hcaller _
  · cases h

/-- Binding parameters takes values from the caller and binds names in the new scope, no more. -/
theorem touched_bindParams {caller frame : ScopeId} (hne : caller ≠ frame) {provided : Nat}
    {params : List String} {m m' : Machine} (hcaller : caller < m.heap.nextScope)
    (h : bindParams caller frame provided params m = .ok () m') : m.Touched caller frame m' := by
  induction params generalizing provided m with
  | nil =>
    cases h
    exact .refl ..
  | cons param params ih =>
    cases provided with
    | zero =>
      have hbound := ih (m := { m with heap := m.heap.declare frame param .null })
        (by simpa using hcaller) h
      exact (Machine.Touched.declare hne param .null).trans hbound
    | succ provided =>
      obtain ⟨v, m₁, hpop, h⟩ := bind_eq_ok.mp h
      have htaken : m.Touched caller frame m₁ := touched_pop hcaller hpop
      have hcaller₁ : caller < m₁.heap.nextScope := htaken.nextScope ▸ hcaller
      have hbound := ih (m := { m₁ with heap := m₁.heap.declare frame param v })
        (by simpa using hcaller₁) h
      exact htaken.trans ((Machine.Touched.declare hne param v).trans hbound)

theorem touched_takeTop {caller frame : ScopeId} {count : Nat} {values : List Value}
    {m m' : Machine} (hcaller : caller < m.heap.nextScope)
    (h : takeTop caller count m = .ok values m') : m.Touched caller frame m' := by
  unfold takeTop at h
  dsimp only at h
  split at h
  · cases h
  · cases h
    exact .setStack hcaller _

/-- Entering a function makes a scope, and then works on the stack of the caller and in that
scope. -/
theorem touched_enterFunction {f : ScriptFunction} {caller frame : ScopeId} {marked : Option Nat}
    {m m' : Machine} (hcaller : caller < m.heap.nextScope)
    (h : enterFunction f caller marked m = .ok frame m') :
    Machine.Touched caller m.heap.nextScope { m with heap := m.heap.addChild f.home } m' := by
  obtain ⟨_, _, hnew, h⟩ := bind_eq_ok.mp h
  cases hnew
  obtain ⟨_, _, hdepth, h⟩ := bind_eq_ok.mp h
  cases hdepth
  obtain ⟨_, m₁, hbind, h⟩ := bind_eq_ok.mp h
  have hcaller' : caller < (m.heap.addChild f.home).nextScope := by
    simpa using Nat.lt_succ_of_lt hcaller
  have hbound := touched_bindParams (m := { m with heap := m.heap.addChild f.home })
    (Nat.ne_of_lt hcaller) hcaller' hbind
  cases marked with
  | none =>
    cases h
    exact hbound
  | some count =>
    obtain ⟨_, m₂, htake, h⟩ := bind_eq_ok.mp h
    cases h
    exact hbound.trans (touched_takeTop (hbound.nextScope ▸ hcaller') htake)

/-- Where no arguments are marked, every parameter takes a value as long as there are any. -/
theorem enterFunction_bare (f : ScriptFunction) {caller : ScopeId} {m : Machine}
    (hcaller : caller < m.heap.nextScope) :
    ∃ m', enterFunction f caller none m = .ok m.heap.nextScope m' ∧
      m'.heap.scope m.heap.nextScope = ⟨[], Assoc.ofList (bound f.params (m.heap.stack caller)),
        f.home :: (m.heap.scope f.home).outer⟩ ∧
      m'.heap.stack caller = (m.heap.stack caller).drop f.params.length := by
  have hstack : (m.heap.addChild f.home).stack caller = m.heap.stack caller ++ [] := by
    rw [List.append_nil, Heap.stack_addChild_of_lt f.home hcaller]
  obtain ⟨m', hbind, hbound⟩ := bindParams_bound (m := { m with heap := m.heap.addChild f.home })
    (Nat.ne_of_lt hcaller) f.params (by simpa using Nat.lt_succ_of_lt hcaller) (by simp) hstack
  have hdepth : depth caller { m with heap := m.heap.addChild f.home } =
      .ok (m.heap.stack caller).length { m with heap := m.heap.addChild f.home } := by
    rw [← Heap.stack_addChild_of_lt f.home hcaller]
    rfl
  refine ⟨m', ?_, ?_, by simpa using hbound.stack⟩
  · refine bind_eq_ok.mpr ⟨m.heap.nextScope, _, rfl, bind_eq_ok.mpr ⟨_, _, hdepth, ?_⟩⟩
    exact bind_eq_ok.mpr ⟨(), m', hbind, rfl⟩
  · rw [hbound.scope, Heap.scope_addChild]
    simp [Scope.empty, Assoc.ofList]

end Exec

/-! ## The contract -/

/-- From `m` a call of `f` has come to the start of the body: `vs` are what its parameters are bound
to, as far as they go, and `rest` is what is left on the stack of the caller. -/
structure Machine.Entered (m : Machine) (f : ScriptFunction) (caller : ScopeId)
    (vs rest : List Value) (m' : Machine) : Prop where
  scope : m'.heap.scope m.heap.nextScope =
    ⟨[], Assoc.ofList (bound f.params vs), f.home :: (m.heap.scope f.home).outer⟩
  taken : m'.heap.scope caller = { m.heap.scope caller with stack := rest }
  others : ∀ t, t ≠ caller → t ≠ m.heap.nextScope → m'.heap.scope t = m.heap.scope t
  nextScope : m'.heap.nextScope = m.heap.nextScope + 1
  rest : m' = { m with heap := m'.heap, callDepth := m.callDepth + 1 }

namespace Machine.Entered

variable {m m' : Machine} {f : ScriptFunction} {caller : ScopeId} {vs rest : List Value}

/-- A parameter means the value in its place, or `null` when there is none; of two with one name the
later one counts. -/
theorem lookup (h : m.Entered f caller vs rest m') {i : Nat} {param : String}
    (hparam : f.params[i]? = some param) (hlast : param ∉ f.params.drop (i + 1)) :
    m'.heap.lookup m.heap.nextScope param = some (vs[i]?.getD .null) := by
  have hget : Assoc.get? (m'.heap.scope m.heap.nextScope).bindings param =
      some (vs[i]?.getD .null) := by
    rw [h.scope]
    exact get?_foldl_bound hparam hlast vs []
  have howner : m'.heap.owner? m.heap.nextScope param = some m.heap.nextScope := by
    simp [Heap.owner?, Heap.chain, Heap.binds, Assoc.has, hget]
  rw [Heap.lookup, howner]
  exact hget

end Machine.Entered

/-- A function is entered with the marked arguments, or with all values of the caller when none are
marked. -/
theorem enterFunction_entered (f : ScriptFunction) {caller : ScopeId} {m : Machine}
    {marked : Option Nat} (hcaller : caller < m.heap.nextScope)
    (hmarked : ∀ n, marked = some n → n ≤ (m.heap.stack caller).length) :
    ∃ m', enterFunction f caller marked m = .ok m.heap.nextScope m' ∧
      m.Entered f caller ((m.heap.stack caller).take (marked.getD (m.heap.stack caller).length))
        ((m.heap.stack caller).drop (marked.getD f.params.length))
        { m' with callDepth := m'.callDepth + 1 } := by
  have hne : caller ≠ m.heap.nextScope := Nat.ne_of_lt hcaller
  obtain ⟨m', henter, hscope, hrest⟩ : ∃ m',
      enterFunction f caller marked m = .ok m.heap.nextScope m' ∧
      m'.heap.scope m.heap.nextScope = ⟨[], Assoc.ofList (bound f.params
        ((m.heap.stack caller).take (marked.getD (m.heap.stack caller).length))),
        f.home :: (m.heap.scope f.home).outer⟩ ∧
      m'.heap.stack caller = (m.heap.stack caller).drop (marked.getD f.params.length) := by
    cases marked with
    | none => simpa using enterFunction_bare f hcaller
    | some n =>
      have hn : ((m.heap.stack caller).take n).length = n :=
        List.length_take_of_le (hmarked n rfl)
      obtain ⟨m', henter, hscope, hrest, -⟩ := enterFunction_bound f hcaller
        (List.take_append_drop n (m.heap.stack caller)).symm
      rw [hn] at henter
      exact ⟨m', henter, hscope, hrest⟩
  have htouched := touched_enterFunction hcaller henter
  refine ⟨m', henter, hscope, ?_, fun t htcaller htframe ↦ ?_, ?_, ?_⟩
  · change m'.heap.scope caller = _
    rw [htouched.taken, Heap.scope_addChild, if_neg hne, hrest]
  · change m'.heap.scope t = _
    rw [htouched.others t htcaller htframe, Heap.scope_addChild, if_neg htframe]
  · exact htouched.nextScope.trans (Heap.nextScope_addChild ..)
  · rw [htouched.rest]

/-- **The contract of a call of a function of the program.** Where as many calls are under way as
may be, it is refused and nothing has changed. Otherwise the body runs in a new scope inside the one
where the function was made. As many of its parameters as there are arguments are bound to them, the
top one first, and the rest to `null`; there are as many arguments as were marked, and without marks
every value of the caller is one. Marked arguments leave the stack of the caller, all of them, and
unmarked ones as far as there are parameters. The result is what the body returned, or else the top
of the stack of its scope, or else `null`; a `break` or `continue` that leaves the body is an
error. -/
theorem callScript_contract (f : ScriptFunction) (m : Machine) (caller : ScopeId)
    (marked : Option Nat) (hcaller : caller < m.heap.nextScope)
    (hmarked : ∀ n, marked = some n → n ≤ (m.heap.stack caller).length) :
    let σ := m.heap.stack caller
    let frame := m.heap.nextScope
    let provided := min f.params.length (marked.getD σ.length)
    (m.config.maxCallDepth ≤ m.callDepth → ∀ fuel,
      callScript (fuel + 1) f caller marked m = .error (.error .stackOverflow) m) ∧
    (m.callDepth < m.config.maxCallDepth →
      provided ≤ marked.getD provided ∧ ∃ m',
        m.Entered f caller (σ.take (marked.getD σ.length)) (σ.drop (marked.getD provided)) m' ∧
        (∀ i param, f.params[i]? = some param → param ∉ f.params.drop (i + 1) →
          m'.heap.lookup frame param = some (if i < provided then σ[i]?.getD .null else .null)) ∧
        ∀ fuel, callScript (fuel + 1) f caller marked m =
          match run fuel frame f.body m' with
          | .ok (some (.returned v)) m'' => .ok v { m'' with callDepth := m''.callDepth - 1 }
          | .ok none m'' =>
            match m''.heap.stack frame with
            | v :: rest => .ok v { m'' with
                heap := m''.heap.setStack frame rest, callDepth := m''.callDepth - 1 }
            | [] => .ok .null { m'' with callDepth := m''.callDepth - 1 }
          | .ok (some .broke) m'' | .ok (some .continued) m'' =>
            .error (.error (.type (.escapedLoop (some f.name))))
              { m'' with callDepth := m''.callDepth - 1 }
          | .error e m'' => .error e { m'' with callDepth := m''.callDepth - 1 }) := by
  intro σ frame provided
  refine ⟨fun hdepth fuel ↦ (Behavior.callScript_apply fuel).trans (if_pos hdepth), fun hdepth ↦ ?_⟩
  obtain ⟨m', henter, hentered⟩ := enterFunction_entered f hcaller hmarked
  have hleft : σ.drop (marked.getD f.params.length) = σ.drop (marked.getD provided) := by
    cases marked with
    | none => simp [provided, List.drop_eq_drop_iff]
    | some n => rfl
  rw [hleft] at hentered
  refine ⟨?_, _, hentered, fun i param hparam hlast ↦ ?_, fun fuel ↦ ?_⟩
  · cases marked with
    | none => exact Nat.le_refl _
    | some n => exact Nat.min_le_right _ _
  · have hi : i < f.params.length := (List.getElem?_eq_some_iff.mp hparam).1
    rw [hentered.lookup hparam hlast, List.getElem?_take]
    by_cases hgiven : i < marked.getD σ.length
    · rw [if_pos hgiven, if_pos (Nat.lt_min.mpr ⟨hi, hgiven⟩)]
    · rw [if_neg hgiven, if_neg fun h ↦ hgiven (Nat.lt_min.mp h).2]
      rfl
  · rw [Behavior.callScript_of_enter hdepth henter]
    cases run fuel frame f.body { m' with callDepth := m'.callDepth + 1 } with
    | error e m'' => rfl
    | ok left m'' =>
      match left with
      | some (.returned v) | some .broke | some .continued => rfl
      | none =>
        change popOrNull frame { m'' with callDepth := m''.callDepth - 1 } = _
        unfold popOrNull
        rfl

/-- Of three pending values two are arguments of a function with three parameters, of which two have
one name. That name means `null`, as no argument is left for the later one, and the value below the
arguments stays where it is. -/
theorem callScript_contract_repeated :
    let start := Machine.start (.standard false) .plain
    let m := { start with
      heap := start.heap.setStack Machine.root [.bool true, .bool false, .text "kept"] }
    let f : ScriptFunction := ⟨0, "f", ["a", "b", "a"], ⟨0, []⟩, Machine.root⟩
    (∀ n, some 2 = some n → n ≤ (m.heap.stack Machine.root).length) ∧ ∃ m',
      m.Entered f Machine.root [.bool true, .bool false] [.text "kept"] m' ∧
      m'.heap.lookup 1 "a" = some .null ∧ m'.heap.lookup 1 "b" = some (.bool false) := by
  intro start m f
  have hmarked : ∀ n, some 2 = some n → n ≤ (m.heap.stack Machine.root).length := by
    rintro n ⟨rfl⟩
    decide
  obtain ⟨-, hgo⟩ := callScript_contract f m Machine.root (some 2) (by decide) hmarked
  obtain ⟨-, m', hentered, hparam, -⟩ := hgo (by decide)
  refine ⟨hmarked, m', hentered, ?_, ?_⟩
  · exact hparam 2 "a" rfl (by decide)
  · exact hparam 1 "b" rfl (by decide)

end GemLang
