import GemLang.Proofs.Machine.Arguments
import GemLang.Proofs.Machine.Folding
import GemLang.Proofs.Machine.Rules

/-!
# Passes of a loop

What loops of all kinds have in common. Passes are numbered (`Behavior.Pass`), and a loop ends in
the first pass that control does not come out of by its end or by a `continue`
(`Behavior.pass_of_loop`).

Between passes any code may run. It leaves the limits of the machine and the places of scopes as
they are, and takes no scope away (`Machine.Later`). Which names it binds is up to the code, so what
is needed of them is said for one name at a time, by what each scope binds it to itself
(`Heap.own?`).

A run that is not to be followed further once a stack overflows is described by `Behavior.Comes`,
which goes through sequences.
-/

namespace GemLang

open Bytecode
open Behavior (code seq inside loop choose)
open Exec

/-! ## What a scope binds itself -/

namespace Heap

/-- What a scope itself binds a name to. -/
def own? (h : Heap) (s : ScopeId) (name : String) : Option Value :=
  Assoc.get? (h.scope s).bindings name

section

variable {h : Heap} {s t : Nat} {name : String}

theorem own?_modify {f : Scope → Scope} (hf : ∀ scope, (f scope).bindings = scope.bindings)
    (h : Heap) (s t : Nat) (name : String) : (h.modify s f).own? t name = h.own? t name := by
  simp only [own?, scope_modify]
  split
  · rw [hf]
  · rfl

@[simp] theorem own?_setStack (h : Heap) (s t : Nat) (values : List Value) (name : String) :
    (h.setStack s values).own? t name = h.own? t name :=
  own?_modify (f := ({ · with stack := values })) (fun _ ↦ rfl) h s t name

@[simp] theorem own?_push (h : Heap) (s t : Nat) (v : Value) (name : String) :
    (h.push s v).own? t name = h.own? t name := by
  rw [push_eq_setStack, own?_setStack]

theorem own?_declare_self (hs : s < h.nextScope) (name : String) (v : Value) :
    (h.declare s name v).own? s name = some v := by
  simp [own?, declare, scope_modify, hs, Assoc.get?_insert]

theorem own?_declare_of_ne (hne : s ≠ t) (name name' : String) (v : Value) :
    (h.declare s name v).own? t name' = h.own? t name' := by
  simp [own?, declare, scope_modify, hne]

theorem own?_declare (h : Heap) (s t : Nat) (name name' : String) (v : Value) :
    (h.declare s name v).own? t name' =
      if s = t ∧ t < h.nextScope ∧ name = name' then some v else h.own? t name' := by
  simp only [own?, declare, scope_modify]
  by_cases hst : s = t ∧ t < h.nextScope
  · simp [hst, Assoc.get?_insert]
  · simp [hst, ← and_assoc]

theorem own?_eq_none_of_le (ht : h.nextScope ≤ t) (name : String) : h.own? t name = none := by
  have hscope : h.scope t = Scope.empty [] := by
    rw [scope, Array.getD_eq_getD_getElem?, Array.getElem?_eq_none ht, Option.getD_none]
  rw [own?, hscope]
  rfl

theorem lt_of_own? {name : String} {v : Value} (hv : h.own? t name = some v) :
    t < h.nextScope := by
  refine Nat.lt_of_not_le fun hle ↦ ?_
  rw [own?_eq_none_of_le hle] at hv
  cases hv

theorem own?_undeclare (hdistinct : Assoc.Distinct (h.scope t).bindings) (name name' : String) :
    (h.undeclare s name).own? t name' =
      if s = t ∧ name = name' then none else h.own? t name' := by
  by_cases ht : t < h.nextScope
  · by_cases hst : s = t
    · simp [own?, undeclare, scope_modify, hst, ht, hdistinct.get?_erase]
    · simp [own?, undeclare, scope_modify, hst]
  · rw [Nat.not_lt] at ht
    rw [own?_eq_none_of_le ht, own?_eq_none_of_le (by simpa using ht), ite_self]

theorem own?_addChild_self (h : Heap) (parent : Nat) (name : String) :
    (h.addChild parent).own? h.nextScope name = none := by
  simp [own?, scope_addChild, Scope.empty, Assoc.get?]

theorem own?_addChild_of_lt (parent : Nat) (ht : t < h.nextScope) (name : String) :
    (h.addChild parent).own? t name = h.own? t name := by
  simp [own?, scope_addChild, Nat.ne_of_lt ht]

@[simp] theorem own?_addChild (h : Heap) (parent t : Nat) (name : String) :
    (h.addChild parent).own? t name = h.own? t name := by
  by_cases ht : t = h.nextScope
  · subst ht
    rw [own?_addChild_self, own?_eq_none_of_le (Nat.le_refl _)]
  · simp [own?, scope_addChild, ht]

theorem binds_eq_isSome (h : Heap) (s : Nat) (name : String) :
    h.binds s name = (h.own? s name).isSome := rfl

theorem owner?_of_own? (before after : List ScopeId) {o : ScopeId} {v : Value}
    (hchain : h.chain s = before ++ o :: after) (hbefore : ∀ t ∈ before, h.own? t name = none)
    (ho : h.own? o name = some v) : h.owner? s name = some o := by
  rw [owner?, hchain, List.find?_append, List.find?_eq_none.mpr, Option.none_or,
    List.find?_cons_of_pos]
  · rw [binds_eq_isSome, ho]
    rfl
  · intro t ht
    rw [binds_eq_isSome, hbefore t ht]
    simp

/-- Which scope holds a name depends on what scopes bind and on how they stand in each other. -/
theorem owner?_congr {h' : Heap} (houter : (h'.scope s).outer = (h.scope s).outer)
    (hown : ∀ t, h'.own? t name = h.own? t name) : h'.owner? s name = h.owner? s name := by
  simp only [owner?, chain, houter]
  congr 1
  funext t
  rw [binds_eq_isSome, binds_eq_isSome, hown]

@[simp] theorem owner?_setStack (h : Heap) (s t : Nat) (values : List Value) (name : String) :
    (h.setStack s values).owner? t name = h.owner? t name :=
  owner?_congr (outer_setStack h s t values) fun u ↦ own?_setStack h s u values name

theorem lookup_of_owner? {o : ScopeId} (ho : h.owner? s name = some o) :
    h.lookup s name = h.own? o name := by
  rw [lookup, ho]
  rfl

theorem owner?_self {v : Value} (hv : h.own? s name = some v) : h.owner? s name = some s :=
  owner?_of_own? [] _ rfl (List.forall_mem_nil _) hv

theorem lookup_self {v : Value} (hv : h.own? s name = some v) : h.lookup s name = some v := by
  rw [lookup_of_owner? (owner?_self hv), hv]

/-- What a name means depends on what scopes bind it to and on how they stand in each other. -/
theorem lookup_eq_of_own? {h' : Heap} (houter : (h'.scope s).outer = (h.scope s).outer)
    (hown : ∀ t, h'.own? t name = h.own? t name) : h'.lookup s name = h.lookup s name := by
  rw [lookup, lookup, owner?_congr houter hown]
  cases h.owner? s name with
  | none => rfl
  | some o => exact hown o

@[simp] theorem lookup_push (h : Heap) (s t : Nat) (v : Value) (name : String) :
    (h.push s v).lookup t name = h.lookup t name := by
  rw [push_eq_setStack, lookup_setStack]

theorem lookup_declare_of_ne {name' : String} (hne : name ≠ name') (h : Heap) (s t : Nat)
    (v : Value) : (h.declare s name v).lookup t name' = h.lookup t name' := by
  refine lookup_eq_of_own? ?_ fun u ↦ ?_
  · simp only [declare, scope_modify]
    split <;> rfl
  · rw [own?_declare, if_neg fun heq ↦ hne heq.2.2]

theorem lookup_addChild_of_lt (parent : Nat) (ht : t < h.nextScope) (name : String) :
    (h.addChild parent).lookup t name = h.lookup t name :=
  lookup_eq_of_own? (by simp [scope_addChild, Nat.ne_of_lt ht]) fun u ↦
    own?_addChild h parent u name

/-- In a new scope, names mean what they mean around it. -/
theorem lookup_addChild_self (h : Heap) (s : Nat) (name : String) :
    (h.addChild s).lookup h.nextScope name = h.lookup s name := by
  have howner : (h.addChild s).owner? h.nextScope name = h.owner? s name := by
    have hchain : (h.addChild s).chain h.nextScope = h.nextScope :: h.chain s := by
      simp [chain, scope_addChild, Scope.empty]
    rw [owner?, hchain, List.find?_cons_of_neg (by simp [binds_eq_isSome, own?_eq_none_of_le])]
    simp only [owner?, binds_eq_isSome, own?_addChild]
  rw [lookup, lookup, howner]
  cases h.owner? s name with
  | none => rfl
  | some o => exact own?_addChild h s o name

end

end Heap

/-! ## Later machines -/

/-- The machine with a new scope inside `s`. -/
def Machine.nest (m : Machine) (s : ScopeId) : Machine := { m with heap := m.heap.addChild s }

/-- A machine that may come later in a run: the limits are the same, and so are the places of all
scopes that there are. -/
structure Machine.Later (m m' : Machine) : Prop where
  config : m'.config = m.config
  nextScope : m.heap.nextScope ≤ m'.heap.nextScope
  outer {s : ScopeId} (hs : s < m.heap.nextScope) :
    (m'.heap.scope s).outer = (m.heap.scope s).outer

namespace Machine.Later

variable {m m' m'' : Machine}

theorem refl (m : Machine) : m.Later m := ⟨rfl, Nat.le_refl _, fun _ ↦ rfl⟩

theorem trans (h : m.Later m') (h' : m'.Later m'') : m.Later m'' where
  config := h'.config.trans h.config
  nextScope := h.nextScope.trans h'.nextScope
  outer hs := (h'.outer (hs.trans_le h.nextScope)).trans (h.outer hs)

theorem congr (hheap : m'.heap = m.heap) (hconfig : m'.config = m.config) : m.Later m' :=
  ⟨hconfig, hheap ▸ Nat.le_refl _, fun _ ↦ hheap ▸ rfl⟩

theorem withCallDepth (m : Machine) (depth : Nat) : m.Later { m with callDepth := depth } :=
  .congr rfl rfl

theorem modify (m : Machine) (s : ScopeId) {f : Scope → Scope}
    (hf : ∀ scope, (f scope).outer = scope.outer) :
    m.Later { m with heap := m.heap.modify s f } where
  config := rfl
  nextScope := (Heap.nextScope_modify ..).ge
  outer _ := by
    simp only [Heap.scope_modify]
    split
    · exact hf _
    · rfl

theorem setStack (m : Machine) (s : ScopeId) (values : List Value) :
    m.Later { m with heap := m.heap.setStack s values } :=
  modify m s fun _ ↦ rfl

theorem push (m : Machine) (s : ScopeId) (v : Value) :
    m.Later { m with heap := m.heap.push s v } :=
  modify m s fun _ ↦ rfl

theorem declare (m : Machine) (s : ScopeId) (name : String) (v : Value) :
    m.Later { m with heap := m.heap.declare s name v } :=
  modify m s fun _ ↦ rfl

theorem undeclare (m : Machine) (s : ScopeId) (name : String) :
    m.Later { m with heap := m.heap.undeclare s name } :=
  modify m s fun _ ↦ rfl

theorem nest (m : Machine) (parent : ScopeId) : m.Later (m.nest parent) where
  config := rfl
  nextScope := by
    rw [Machine.nest, Heap.nextScope_addChild]
    exact Nat.le_succ _
  outer hs := by simp only [Machine.nest, Heap.scope_addChild, Nat.ne_of_lt hs, ↓reduceIte]

end Machine.Later

/-- The machine has changed, but not what scopes bind a name to themselves, except some. -/
structure Machine.Spares (name : String) (except : ScopeId → Prop) (m m' : Machine) : Prop
    extends Machine.Later m m' where
  own {t : ScopeId} (ht : t < m.heap.nextScope) (hexcept : ¬except t) :
    m'.heap.own? t name = m.heap.own? t name

namespace Machine.Spares

variable {name : String} {E E' : ScopeId → Prop} {m m' m'' : Machine}

theorem trans (h : Machine.Spares name E m m') (h' : Machine.Spares name E m' m'') :
    Machine.Spares name E m m'' where
  toLater := h.toLater.trans h'.toLater
  own ht hE := (h'.own (ht.trans_le h.nextScope) hE).trans (h.own ht hE)

theorem mono (h : Machine.Spares name E m m') (hE : ∀ t, E t → E' t) :
    Machine.Spares name E' m m' where
  toLater := h.toLater
  own ht hE' := h.own ht fun hE'' ↦ hE' (hE _ hE'')

theorem nest (m : Machine) (s : ScopeId) : Machine.Spares name E m (m.nest s) where
  toLater := .nest m s
  own ht _ := Heap.own?_addChild_of_lt s ht name

theorem setStack (m : Machine) (s : ScopeId) (values : List Value) :
    Machine.Spares name E m { m with heap := m.heap.setStack s values } where
  toLater := .setStack m s values
  own _ _ := Heap.own?_setStack ..

theorem push (m : Machine) (s : ScopeId) (v : Value) :
    Machine.Spares name E m { m with heap := m.heap.push s v } where
  toLater := .push m s v
  own _ _ := Heap.own?_push ..

theorem declare (m : Machine) {s : ScopeId} (hs : E s) (v : Value) :
    Machine.Spares name E m { m with heap := m.heap.declare s name v } where
  toLater := .declare m s name v
  own _ hE := by
    refine Heap.own?_declare_of_ne ?_ name name v
    rintro rfl
    exact hE hs

end Machine.Spares

/-- A judgment on operations: however they end, a later machine is left. -/
structure Exec.Advances {α : Type} (Q : α → Prop) (x : Exec α) : Prop where
  ends (m : Machine) : Ends (fun a m' ↦ m.Later m' ∧ Q a) (fun _ m' ↦ m.Later m') (x m)

theorem rules_advances : Rules (fun _ ↦ True) (fun _ ↦ True) (fun _ ↦ True) Advances where
  plain _ := trivial
  script _ := trivial
  home _ := trivial
  empty := trivial
  entry _ _ := trivial
  insert _ _ _ := trivial
  erase _ _ := trivial
  makes _ := trivial
  pure ha := ⟨fun m ↦ .ok ⟨.refl m, ha⟩⟩
  bind hx hf := ⟨fun m ↦ (hx.ends m).bind fun a m' ⟨hm, ha⟩ ↦
    ((hf a ha).ends m').mono (fun _ _ h ↦ ⟨hm.trans h.1, h.2⟩) fun _ _ h ↦ hm.trans h⟩
  fail _ := ⟨fun m ↦ .error (.refl m)⟩
  outOfSteps := ⟨fun m ↦ .error (.refl m)⟩
  get := ⟨fun m ↦ .ok ⟨.refl m, fun _ _ _ _ ↦ trivial⟩⟩
  newScope _ := ⟨fun m ↦ .ok ⟨.nest m _, trivial⟩⟩
  push _ _ _ := ⟨fun m ↦ .push (fun _ ↦ ⟨.push m _ _, trivial⟩) (.refl m)⟩
  pop _ := ⟨fun m ↦ .pop (fun _ _ _ ↦ ⟨.setStack m _ _, trivial⟩) (.refl m)⟩
  popOrNull _ := ⟨fun m ↦ .popOrNull (fun _ _ _ ↦ ⟨.setStack m _ _, trivial⟩) ⟨.refl m, trivial⟩⟩
  takeTop _ _ := ⟨fun m ↦ .takeTop ⟨.setStack m _ _, fun _ _ ↦ trivial⟩ (.refl m)⟩
  drain _ := ⟨fun m ↦ .ok ⟨.setStack m _ _, trivial⟩⟩
  declare _ _ _ _ _ := ⟨fun m ↦ .ok ⟨.declare m _ _ _, trivial⟩⟩
  lookup _ _ _ := ⟨fun m ↦ .lookup (fun _ _ ↦ ⟨.refl m, trivial⟩) (.refl m)⟩
  assign _ _ _ _ _ := ⟨fun m ↦ .assign (fun _ _ ↦ ⟨.declare m _ _ _, trivial⟩) ⟨.refl m, trivial⟩⟩
  remove _ _ _ := ⟨fun m ↦ .remove (fun _ _ ↦ ⟨.undeclare m _ _, trivial⟩) (.refl m)⟩
  ask _ := ⟨fun _ ↦ .ask ⟨.congr rfl rfl, trivial⟩ fun _ ↦ .congr rfl rfl⟩
  freshIdentity := ⟨fun _ ↦ .ok ⟨.congr rfl rfl, trivial⟩⟩
  addLibrary _ := ⟨fun _ ↦ .ok ⟨.congr rfl rfl, trivial⟩⟩
  newIterator _ := ⟨fun _ ↦ .ok ⟨.congr rfl rfl, trivial, trivial⟩⟩
  nextOfString _ := ⟨fun m ↦ .nextPair (fun _ _ _ ↦ ⟨.congr rfl rfl, trivial, trivial⟩)
    ⟨.refl m, trivial, trivial⟩⟩
  nextOfTable _ := ⟨fun m ↦ .nextPair (fun _ _ _ ↦ ⟨.congr rfl rfl, trivial, trivial⟩)
    ⟨.refl m, trivial, trivial⟩⟩
  mark _ := ⟨fun _ ↦ .ok ⟨.congr rfl rfl, trivial⟩⟩
  argumentCount _ := ⟨fun m ↦ .argumentCount (fun _ _ ↦ ⟨.congr rfl rfl, trivial⟩)
    ⟨.refl m, trivial⟩⟩
  limited hx := ⟨fun m ↦ (hx.ends m).limited (.refl m)⟩
  counted hx := ⟨fun m ↦ (hx.ends _).counted
    (fun _ m' h ↦ ⟨(Machine.Later.withCallDepth m _).trans (h.1.trans (.withCallDepth m' _)), h.2⟩)
    fun _ m' h ↦ (Machine.Later.withCallDepth m _).trans (h.trans (.withCallDepth m' _))⟩

/-- **Running code leaves a later machine.** -/
theorem later_code {s : ScopeId} {c : Stretch} {m m' : Machine} {left : Option Signal}
    (h : code s c m (.ok left m')) : m.Later m' := by
  obtain ⟨fuel, hrun, -⟩ := h
  have hends := (rules_advances.run fuel (s := s) trivial c).ends m
  replace hrun : run fuel s c m = .ok left m' := hrun
  rw [hrun] at hends
  cases hends with
  | ok h => exact h.1

theorem later_perform {s : ScopeId} {op : Opcode} {operands : List String} {m m' : Machine}
    (h : perform s op operands m = .ok () m') : m.Later m' := by
  have hends := (rules_advances.perform (s := s) trivial op operands).ends m
  rw [h] at hends
  cases hends with
  | ok h => exact h.1

/-! ## Passes -/

namespace Behavior

variable {A : Behavior} {m m' p : Machine} {k : Nat} {r : Exec.Result (Option Signal)}

/-- The machine `p` in which a pass of a loop starts, `k` passes after the machine `m`. -/
inductive Pass (A : Behavior) (m : Machine) : Nat → Machine → Prop where
  | first : Pass A m 0 m
  | next {k : Nat} {p p' : Machine} {left : Option Signal} (h : Pass A m k p)
    (hpass : A p (.ok left p')) (hleft : left = none ∨ left = some .continued) :
    Pass A m (k + 1) p'

/-- How a loop ends in a pass that starts in `p`. -/
inductive Last (A : Behavior) (p : Machine) : Exec.Result (Option Signal) → Prop where
  | broke {m' : Machine} (h : A p (.ok (some .broke) m')) : Last A p (.ok none m')
  | returned {m' : Machine} {v : Value} (h : A p (.ok (some (.returned v)) m')) :
    Last A p (.ok (some (.returned v)) m')
  | stopped {m' : Machine} {e : Stop} (h : A p (.error e m')) : Last A p (.error e m')

theorem Pass.after {left : Option Signal} (hpass : A m (.ok left m'))
    (hleft : left = none ∨ left = some .continued) (h : Pass A m' k p) : Pass A m (k + 1) p := by
  induction h with
  | first => exact .next .first hpass hleft
  | next _ hpass' hleft' ih => exact .next ih hpass' hleft'

theorem Pass.before (h : Pass A m k p) {j : Nat} (hj : j < k) :
    ∃ q q' left, Pass A m j q ∧ A q (.ok left q') ∧ (left = none ∨ left = some .continued) := by
  induction h with
  | first => exact absurd hj (Nat.not_lt_zero j)
  | next h hpass hleft ih =>
    rcases Nat.lt_succ_iff_lt_or_eq.mp hj with hlt | rfl
    · exact ih hlt
    · exact ⟨_, _, _, h, hpass, hleft⟩

theorem loop_of_pass (h : Pass A m k p) (h' : loop A p r) : loop A m r := by
  induction h with
  | first => exact h'
  | next _ hpass hleft ih =>
    rcases hleft with rfl | rfl
    · exact ih (.passed hpass h')
    · exact ih (.continued hpass h')

/-- **A loop ends in its last pass**, and some passes come before that. -/
theorem loop_iff : loop A m r ↔ ∃ k p, Pass A m k p ∧ Last A p r := by
  constructor
  · intro h
    induction h with
    | passed h _ ih =>
      obtain ⟨k, p, hpass, hlast⟩ := ih
      exact ⟨k + 1, p, hpass.after h (.inl rfl), hlast⟩
    | continued h _ ih =>
      obtain ⟨k, p, hpass, hlast⟩ := ih
      exact ⟨k + 1, p, hpass.after h (.inr rfl), hlast⟩
    | broke h => exact ⟨0, _, .first, .broke h⟩
    | returned h => exact ⟨0, _, .first, .returned h⟩
    | stopped h => exact ⟨0, _, .first, .stopped h⟩
  · rintro ⟨k, p, hpass, hlast⟩
    refine loop_of_pass hpass ?_
    cases hlast with
    | broke h => exact .broke h
    | returned h => exact .returned h
    | stopped h => exact .stopped h

/-! ## Runs that may overflow -/

/-- From the machine `m`, the behavior comes to an end as in `Q`, unless it overflows. -/
inductive Comes (A : Behavior) (m : Machine) (Q : Option Signal → Machine → Prop) : Prop where
  | overflow {m' : Machine} (h : A m (.error (.error .stackOverflow) m')) : Comes A m Q
  | ends {left : Option Signal} {m' : Machine} (h : A m (.ok left m')) (hQ : Q left m') :
    Comes A m Q

namespace Comes

variable {B : Behavior} {Q R : Option Signal → Machine → Prop} {P : Machine → Prop}

theorem mono (h : Comes A m Q) (hQ : ∀ left m', Q left m' → R left m') : Comes A m R := by
  cases h with
  | overflow h => exact .overflow h
  | ends h h' => exact .ends h (hQ _ _ h')

theorem mem (h : Comes A m Q) : Comes A m fun left m' ↦ Q left m' ∧ A m (.ok left m') := by
  cases h with
  | overflow h => exact .overflow h
  | ends h hQ => exact .ends h ⟨hQ, h⟩

theorem inside {s : ScopeId} {C : ScopeId → Behavior}
    (h : Comes (C m.heap.nextScope) (m.nest s) Q) : Comes (inside s C) m Q := by
  cases h with
  | overflow h => exact .overflow h
  | ends h hQ => exact .ends h hQ

theorem seq (hA : Comes A m Q) (hB : ∀ m', Q none m' → Comes B m' R)
    (hleft : ∀ signal m', Q (some signal) m' → R (some signal) m') : Comes (A.seq B) m R := by
  cases hA with
  | overflow h => exact .overflow (.stopped h)
  | ends h hQ =>
    next left m' =>
    cases left with
    | some signal => exact .ends (.left h) (hleft _ _ hQ)
    | none =>
      cases hB _ hQ with
      | overflow h' => exact .overflow (.passed h h')
      | ends h' hR => exact .ends (.passed h h') hR

theorem thenComes (hA : Comes A m fun left m' ↦ left = none ∧ P m')
    (hB : ∀ m', P m' → Comes B m' R) : Comes (A.seq B) m R :=
  hA.seq (fun m' h ↦ hB m' h.2) fun _ _ h ↦ nomatch h.1

/-- What comes after an overflow does not matter. -/
theorem overflow_seq (h : Comes A m fun _ _ ↦ False) (B : Behavior) :
    Comes (A.seq B) m fun _ _ ↦ False :=
  h.seq (fun _ h ↦ h.elim) fun _ _ h ↦ h

theorem of_code {s : ScopeId} {c : Stretch} (h : Comes (code s c) m Q) (hr : code s c m r) :
    Overflows r ∨ ∃ left m', r = .ok left m' ∧ Q left m' := by
  cases h with
  | overflow h => exact .inl ⟨_, code_unique hr h⟩
  | ends h hQ => exact .inr ⟨_, _, code_unique hr h, hQ⟩

theorem of_code_ok {s : ScopeId} {c : Stretch} {left : Option Signal} (h : Comes (code s c) m Q)
    (hr : code s c m (.ok left m')) : Q left m' := by
  obtain ⟨_, hover⟩ | ⟨left', m'', heq, hQ⟩ := h.of_code hr
  · cases hover
  · cases heq
    exact hQ

theorem choose {s : ScopeId} {v : Value} {vs : List Value} (hstack : m.heap.stack s = v :: vs)
    (hA : v.isFalsy = false → Comes A (m.withStack s vs) Q)
    (hB : v.isFalsy = true → Comes B (m.withStack s vs) Q) : Comes (choose s A B) m Q := by
  have hpop : pop s m = .ok v (m.withStack s vs) := by rw [pop, hstack, Machine.withStack]
  cases hv : v.isFalsy with
  | false =>
    cases hA hv with
    | overflow h => exact .overflow (.holds hpop hv h)
    | ends h hQ => exact .ends (.holds hpop hv h) hQ
  | true =>
    cases hB hv with
    | overflow h => exact .overflow (.fails hpop hv h)
    | ends h hQ => exact .ends (.fails hpop hv h) hQ

theorem of_ends {x : Exec Unit}
    (hA : ∀ r, Settled r → (x >>= fun _ ↦ pure none) m = r → A m r)
    (h : Ends (fun _ ↦ Q none) (fun e _ ↦ e = .error .stackOverflow) (x m)) : Comes A m Q := by
  cases hx : x m with
  | ok a m' =>
    rw [hx] at h
    cases h with
    | ok hQ => exact .ends (hA _ trivial (by rw [bind_apply, hx]; rfl)) hQ
  | error e m' =>
    rw [hx] at h
    cases h with
    | error he =>
      cases he
      exact .overflow (hA _ trivial (by rw [bind_apply, hx]))

theorem plain (op : Opcode) (operands : List String) (hrole : op.role = .plain)
    (hcount : operands.length = op.operandCount) {s : ScopeId} {position : Nat}
    (h : Ends (fun _ ↦ Q none) (fun e _ ↦ e = .error .stackOverflow) (perform s op operands m)) :
    Comes (code s ⟨position, .op op :: operands.map .operand⟩) m Q := by
  refine of_ends (fun r hsettled hr ↦ ?_) h
  rw [code_plain operands hrole hcount]
  exact eventual_const.mpr ⟨hr, hsettled⟩

theorem call {s : ScopeId} {position : Nat}
    (h : Ends (fun _ ↦ Q none) (fun e _ ↦ e = .error .stackOverflow) (GemLang.call 1 s m)) :
    Comes (code s ⟨position, [.op .call]⟩) m Q := by
  refine of_ends (fun r hsettled hr ↦ ?_) h
  rw [code_call]
  exact ⟨1, hr, hsettled⟩

end Comes

end Behavior

namespace Behavior

/-! ## Loops with a head -/

/-- In every pass of a loop that starts in the machine `m`, the head `c` comes to its end or breaks
the loop, and the body `d` comes to its end, to a `continue` or to a `break`. Overflows are
excepted. -/
structure Orderly (s : ScopeId) (c d : Stretch) (m : Machine) : Prop where
  head {k : Nat} {p : Machine} (h : Pass ((code s c).seq (code s d)) m k p) :
    Comes (code s c) p fun left _ ↦ left = none ∨ left = some .broke
  body {k : Nat} {p b : Machine} (h : Pass ((code s c).seq (code s d)) m k p)
    (hhead : code s c p (.ok none b)) :
    Comes (code s d) b fun left _ ↦
      (left = none ∨ left = some .continued) ∨ left = some .broke

namespace Orderly

variable {s : ScopeId} {c d : Stretch} {m p : Machine} {k : Nat}

/-- A pass that is followed by another one has run the body. -/
theorem started (h : Orderly s c d m) (hp : Pass ((code s c).seq (code s d)) m k p)
    {left : Option Signal} {p' : Machine}
    (hrun : (code s c).seq (code s d) p (.ok left p'))
    (hleft : left = none ∨ left = some .continued) :
    ∃ b, code s c p (.ok none b) ∧ code s d b (.ok left p') := by
  cases hrun with
  | passed hhead hbody => exact ⟨_, hhead, hbody⟩
  | left hhead =>
    obtain hnone | hbroke := (h.head hp).of_code_ok hhead
    · cases hnone
    · rw [hbroke] at hleft
      obtain hnone | hcontinued := hleft
      · cases hnone
      · cases hcontinued

theorem started_of_lt (h : Orderly s c d m)
    (hp : Pass ((code s c).seq (code s d)) m k p) {j : Nat} (hj : j < k) :
    ∃ q b, Pass ((code s c).seq (code s d)) m j q ∧ code s c q (.ok none b) := by
  obtain ⟨q, q', left, hq, hrun, hleft⟩ := hp.before hj
  obtain ⟨b, hb, -⟩ := h.started hq hrun hleft
  exact ⟨q, b, hq, hb⟩

theorem last_or_next (h : Orderly s c d m)
    (hp : Pass ((code s c).seq (code s d)) m k p) :
    (∃ r, Last ((code s c).seq (code s d)) p r) ∨
      ∃ p', Pass ((code s c).seq (code s d)) m (k + 1) p' := by
  cases h.head hp with
  | overflow hhead => exact .inl ⟨_, .stopped (.stopped hhead)⟩
  | ends hhead hleft =>
    obtain rfl | rfl := hleft
    · cases h.body hp hhead with
      | overflow hbody => exact .inl ⟨_, .stopped (.passed hhead hbody)⟩
      | ends hbody hleft =>
        obtain hleft | rfl := hleft
        · exact .inr ⟨_, .next hp (.passed hhead hbody) hleft⟩
        · exact .inl ⟨_, .broke (.passed hhead hbody)⟩
    · exact .inl ⟨_, .broke (.left hhead)⟩

/-- The loop comes to an end, or to any number of passes. -/
theorem exists_end_or_pass (h : Orderly s c d m) (n : Nat) :
    (∃ r, loop ((code s c).seq (code s d)) m r) ∨
      ∃ p, Pass ((code s c).seq (code s d)) m n p := by
  induction n with
  | zero => exact .inr ⟨m, .first⟩
  | succ n ih =>
    obtain hend | ⟨p, hp⟩ := ih
    · exact .inl hend
    · exact (h.last_or_next hp).imp_left fun ⟨r, hr⟩ ↦ ⟨r, loop_iff.mpr ⟨n, p, hp, hr⟩⟩

theorem last_cases (h : Orderly s c d m)
    (hp : Pass ((code s c).seq (code s d)) m k p) {r : Exec.Result (Option Signal)}
    (hlast : Last ((code s c).seq (code s d)) p r) :
    Overflows r ∨ ∃ m', r = .ok none m' ∧ (code s c).seq (code s d) p (.ok (some .broke) m') := by
  cases hlast with
  | broke hrun => exact .inr ⟨_, rfl, hrun⟩
  | returned hrun =>
    cases hrun with
    | passed hhead hbody =>
      obtain (hleft | hleft) | hleft := (h.body hp hhead).of_code_ok hbody <;> cases hleft
    | left hhead =>
      obtain hleft | hleft := (h.head hp).of_code_ok hhead <;> cases hleft
  | stopped hrun =>
    cases hrun with
    | passed hhead hbody =>
      obtain hover | ⟨_, _, heq, -⟩ := (h.body hp hhead).of_code hbody
      · exact .inl hover
      · cases heq
    | stopped hhead =>
      obtain hover | ⟨_, _, heq, -⟩ := (h.head hp).of_code hhead
      · exact .inl hover
      · cases heq

end Orderly

end Behavior

/-! ## Instructions on a stack that is known -/

open Behavior (Comes)

section

variable {m : Machine} {s : ScopeId} {v : Value} {vs : List Value}

theorem pop_of_stack (hstack : m.heap.stack s = v :: vs) :
    pop s m = .ok v { m with heap := m.heap.setStack s vs } := by
  rw [pop, hstack]

theorem perform_loadLocal {x : String} (h : m.heap.lookup s x = some v) :
    perform s .loadLocal [x] m = push s v m := by
  rw [perform, bind_apply, lookup, h]

theorem perform_declareLocal (hstack : m.heap.stack s = v :: vs) (x : String) :
    perform s .declareLocal [x] m =
      .ok () { m with heap := (m.heap.setStack s vs).declare s x v } := by
  rw [perform, bind_apply, pop_of_stack hstack]
  rfl

theorem perform_delete {x : String} {o : ScopeId} (ho : m.heap.owner? s x = some o) :
    perform s .delete [x] m = .ok () { m with heap := m.heap.undeclare o x } := by
  change remove s x m = _
  rw [remove, ho]

theorem perform_storeLocal (hstack : m.heap.stack s = v :: vs) {x : String} {o : ScopeId}
    (ho : m.heap.owner? s x = some o) :
    perform s .storeLocal [x] m =
      .ok () { m with heap := (m.heap.setStack s vs).declare o x v } := by
  have hassign : assign s x v { m with heap := m.heap.setStack s vs } =
      .ok true { m with heap := (m.heap.setStack s vs).declare o x v } := by
    simp only [assign, Heap.owner?_setStack, ho]
  rw [perform, bind_apply, pop_of_stack hstack]
  change (assign s x v >>= _) _ = _
  rw [bind_apply, hassign]
  rfl

theorem perform_binary (hs : s < m.heap.nextScope) {a b : Value}
    (hstack : m.heap.stack s = b :: a :: vs) {op : BinaryOp} (h : Direct.binary op a b = .ok v) :
    perform s op.opcode [] m = push s v (m.withStack s vs) := by
  have hleaves := leaves_binary hs vs op a b
  rw [h, ← hstack, withStack_stack] at hleaves
  exact hleaves

end

section

variable {m : Machine} {s : ScopeId} {Q : Option Signal → Machine → Prop}

theorem comes_push {text : String} {v : Value} (htext : literal text = .ok v)
    (hroom : m.heap.depth s < m.config.maxStack → Q none { m with heap := m.heap.push s v })
    (position : Nat) : Comes (code s ⟨position, codeOf (unary .push text)⟩) m Q := by
  refine .plain .push [text] rfl rfl ?_
  rw [perform_push htext]
  exact .push hroom rfl

theorem code_of_perform (op : Opcode) (operands : List String) {m' : Machine}
    (hrole : op.role = .plain) (hcount : operands.length = op.operandCount)
    (h : perform s op operands m = .ok () m') (position : Nat) :
    code s ⟨position, .op op :: operands.map .operand⟩ m (.ok none m') := by
  rw [Behavior.code_plain operands hrole hcount]
  refine eventual_const.mpr ⟨?_, trivial⟩
  rw [bind_apply, h]
  rfl

theorem code_of_perform_error (op : Opcode) (operands : List String) {m' : Machine} {e : Error}
    (hrole : op.role = .plain) (hcount : operands.length = op.operandCount)
    (h : perform s op operands m = .error (.error e) m') (position : Nat) :
    code s ⟨position, .op op :: operands.map .operand⟩ m (.error (.error e) m') := by
  rw [Behavior.code_plain operands hrole hcount]
  refine eventual_const.mpr ⟨?_, trivial⟩
  rw [bind_apply, h]

theorem code_push {text : String} {v : Value} (htext : literal text = .ok v)
    (hroom : m.heap.depth s < m.config.maxStack) (position : Nat) :
    code s ⟨position, codeOf (unary .push text)⟩ m
      (.ok none { m with heap := m.heap.push s v }) := by
  refine code_of_perform .push [text] rfl rfl ?_ position
  rw [perform_push htext, push, if_pos hroom]

theorem comes_loadLocal {x : String} {v : Value} (hx : m.heap.lookup s x = some v)
    (hload : perform s .loadLocal [x] m = .ok () { m with heap := m.heap.push s v } →
      Q none { m with heap := m.heap.push s v })
    (position : Nat) : Comes (code s ⟨position, codeOf (unary .loadLocal x)⟩) m Q := by
  refine .plain .loadLocal [x] rfl rfl ?_
  rw [perform_loadLocal hx]
  refine .push (fun hroom ↦ hload ?_) rfl
  rw [perform_loadLocal hx, push, if_pos hroom]

theorem comes_declareLocal {v : Value} {vs : List Value} (hstack : m.heap.stack s = v :: vs)
    {x : String} (hQ : Q none { m with heap := (m.heap.setStack s vs).declare s x v })
    (position : Nat) : Comes (code s ⟨position, codeOf (unary .declareLocal x)⟩) m Q := by
  refine .plain .declareLocal [x] rfl rfl ?_
  rw [perform_declareLocal hstack]
  exact .ok hQ

/-- An operator puts its value in place of its operands. -/
theorem comes_binary (hs : s < m.heap.nextScope) {a b v : Value} {vs : List Value}
    (hstack : m.heap.stack s = b :: a :: vs) {op : BinaryOp} (h : Direct.binary op a b = .ok v)
    (hroom : vs.length < m.config.maxStack → Q none (m.withStack s (v :: vs))) (position : Nat) :
    Comes (code s ⟨position, codeOf (bare op.opcode)⟩) m Q := by
  refine .plain op.opcode [] (role_operator op) (operandCount_operator op) ?_
  rw [perform_binary hs hstack h, push_withStack hs]
  split
  · next hlt => exact .ok (hroom hlt)
  · exact .error rfl

end

end GemLang
