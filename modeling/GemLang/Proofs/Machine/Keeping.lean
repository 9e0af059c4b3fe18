import GemLang.Proofs.Machine.Ends

/-!
# What the machine keeps

Two things hold from the start of an operation to its end, however it ends.

The functions of a program live on as values: on stacks, in bindings, inside tables and in what is
left of iterators, from one run to the next. `Machine.All F` says that every function anywhere in
the machine satisfies `F`. Operations move values around but make no functions, so they keep it.

An operation in a scope works on the stack of that scope, and on those of scopes that it makes. The
stacks of all other scopes stay as they are (`Machine.Within`), which is what a caller relies on
while another function runs. The marks of pending calls stay too, except where an operation is there
to set or to use one; whether they are watched is a parameter.

Along with these goes why an operation stops: a basic operation never finds a fault of the code.
-/

namespace GemLang

variable {F : ScriptFunction → Prop} {T : Prop}

/-! ## Values -/

mutual

/-- Every function of the program inside a value satisfies `F`. -/
def Value.All (F : ScriptFunction → Prop) : Value → Prop
  | .table es => Value.AllEntries F es
  | .script f => F f
  | _ => True

/-- Every function of the program inside a table satisfies `F`. -/
def Value.AllEntries (F : ScriptFunction → Prop) : List (Key × Value) → Prop
  | [] => True
  | (_, v) :: es => v.All F ∧ Value.AllEntries F es

end

mutual

theorem Value.All.mono {G : ScriptFunction → Prop} (h : ∀ f, F f → G f) {v : Value}
    (hv : v.All F) : v.All G := by
  match v with
  | .number _ | .bool _ | .text _ | .native _ | .foreign _ => trivial
  | .table es => exact Value.AllEntries.mono h hv
  | .script f => exact h f hv

theorem Value.AllEntries.mono {G : ScriptFunction → Prop} (h : ∀ f, F f → G f)
    {es : List (Key × Value)} (hes : Value.AllEntries F es) : Value.AllEntries G es := by
  match es with
  | [] => trivial
  | (_, v) :: es => exact ⟨Value.All.mono h hes.1, Value.AllEntries.mono h hes.2⟩

end

mutual

theorem Value.all_of_forall (h : ∀ f, F f) (v : Value) : v.All F := by
  match v with
  | .number _ | .bool _ | .text _ | .native _ | .foreign _ => trivial
  | .table es => exact Value.allEntries_of_forall h es
  | .script f => exact h f

theorem Value.allEntries_of_forall (h : ∀ f, F f) (es : List (Key × Value)) :
    Value.AllEntries F es := by
  match es with
  | [] => trivial
  | (_, v) :: es => exact ⟨v.all_of_forall h, Value.allEntries_of_forall h es⟩

end

theorem Value.allEntries_iff {t : Table} : AllEntries F t ↔ ∀ e ∈ t, e.2.All F := by
  induction t with
  | nil => simp [AllEntries]
  | cons e t ih => simp [AllEntries, ih]

theorem Value.all_table {t : Table} : (Value.table t).All F ↔ ∀ e ∈ t, e.2.All F := by
  rw [Value.All, allEntries_iff]

theorem Value.all_null : Value.null.All F := trivial

theorem Value.all_ofKey (key : Key) : (Value.ofKey key).All F := by
  cases key <;> trivial

theorem Table.all_storePath {t u : Table} {keys : List Key} {v : Value}
    (ht : ∀ e ∈ t, e.2.All F) (hv : v.All F) (h : Table.storePath t keys v = .ok u) :
    ∀ e ∈ u, e.2.All F := by
  fun_induction Table.storePath t keys v generalizing u with
  | case1 => simp at h
  | case2 t key =>
    obtain rfl := Except.ok.inj h
    exact Assoc.forall_insert ht hv
  | case3 t key keys hkeys inner w hinner =>
    rename_i ih
    have hw : ∀ e ∈ w, e.2.All F := by
      rw [← Value.all_table, ← hinner]
      change ((Assoc.get? t key).getD (.table [])).All F
      cases hget : Assoc.get? t key with
      | none => trivial
      | some x => exact Assoc.forall_of_get? ht hget
    cases hstore : Table.storePath w keys v with
    | error e =>
      rw [hstore] at h
      cases h
    | ok w' =>
      rw [hstore] at h
      obtain rfl := Except.ok.inj h
      exact Assoc.forall_insert ht (Value.all_table.mpr (ih hw hstore))
  | case4 => simp at h

/-! ## Machines -/

/-- Every function of the program in the machine satisfies `F`. -/
structure Machine.All (F : ScriptFunction → Prop) (m : Machine) : Prop where
  stack (s : Nat) : ∀ v ∈ m.heap.stack s, v.All F
  bindings (s : Nat) : ∀ e ∈ (m.heap.scope s).bindings, e.2.All F
  iterators (i : Nat) : ∀ p ∈ m.iterators.getD i [], p.1.All F ∧ p.2.All F

namespace Machine.All

variable {m : Machine}

theorem mono {G : ScriptFunction → Prop} (h : ∀ f, F f → G f) (hm : m.All F) : m.All G where
  stack s v hv := (hm.stack s v hv).mono h
  bindings s e he := (hm.bindings s e he).mono h
  iterators i p hp := ⟨(hm.iterators i p hp).1.mono h, (hm.iterators i p hp).2.mono h⟩

theorem iff_holds : m.All F ↔ m.Holds (Value.All F) :=
  ⟨fun h ↦ ⟨h.stack, h.bindings, h.iterators⟩, fun h ↦ ⟨h.stack, h.bindings, h.iterators⟩⟩

/-- Changing one scope keeps it if the scope is as it should be afterwards. -/
theorem modify (h : m.All F) (s : Nat) {f : Scope → Scope}
    (hstack : ∀ v ∈ (f (m.heap.scope s)).stack, v.All F)
    (hbindings : ∀ e ∈ (f (m.heap.scope s)).bindings, e.2.All F) :
    Machine.All F { m with heap := m.heap.modify s f } :=
  iff_holds.mpr ((iff_holds.mp h).modify s hstack hbindings)

theorem declare (h : m.All F) (s : Nat) (name : String) {v : Value} (hv : v.All F) :
    Machine.All F { m with heap := m.heap.declare s name v } :=
  h.modify s (h.stack s) (Assoc.forall_insert (h.bindings s) hv)

theorem undeclare (h : m.All F) (s : Nat) (name : String) :
    Machine.All F { m with heap := m.heap.undeclare s name } :=
  h.modify s (h.stack s) (Assoc.forall_erase (h.bindings s) name)

theorem addChild (h : m.All F) (parent : Nat) :
    Machine.All F { m with heap := m.heap.addChild parent } :=
  iff_holds.mpr ((iff_holds.mp h).addChild parent)

theorem lookup (h : m.All F) {s : Nat} {name : String} {v : Value}
    (hv : m.heap.lookup s name = some v) : v.All F :=
  (iff_holds.mp h).lookup hv

end Machine.All

theorem Machine.all_true (m : Machine) : m.All fun _ ↦ True where
  stack _ v _ := v.all_of_forall fun _ ↦ trivial
  bindings _ e _ := e.2.all_of_forall fun _ ↦ trivial
  iterators _ p _ := ⟨p.1.all_of_forall fun _ ↦ trivial, p.2.all_of_forall fun _ ↦ trivial⟩

theorem all_start (config : Config) (host : Host) :
    (Machine.start config host).All F := by
  have hglobals : ∀ e ∈ globals, e.2.All F := by
    simp [globals, nativeTable, Value.All, Value.AllEntries, Value.null]
  exact Machine.All.iff_holds.mpr (Machine.holds_start hglobals config host)

/-! ## Working in a scope -/

/-- A machine that came from `m₀` by work in the scope `s` and in new scopes. All of its functions
satisfy `F`, and if `T` holds, no call has started taking arguments and none has taken them. -/
structure Machine.Within (F : ScriptFunction → Prop) (T : Prop) (m₀ : Machine) (s : Nat)
    (m : Machine) : Prop where
  functions : m.All F
  config : m.config = m₀.config
  host : m.host = m₀.host
  callDepth : m.callDepth = m₀.callDepth
  nextScope : m₀.heap.nextScope ≤ m.heap.nextScope
  stack {t : Nat} (ht : t < m₀.heap.nextScope) (hne : t ≠ s) : m.heap.stack t = m₀.heap.stack t
  marks (hT : T) : m.marks = m₀.marks

/-- The scopes that work in the scope `s`, begun in the machine `m₀`, may take place in. -/
def Machine.IsOpen (m₀ : Machine) (s t : Nat) : Prop := t = s ∨ m₀.heap.nextScope ≤ t

namespace Machine.Within

variable {m₀ m : Machine} {s : Nat}

theorem refl (h : m.All F) (s : Nat) : Machine.Within F T m s m :=
  ⟨h, rfl, rfl, rfl, Nat.le_refl _, fun _ _ ↦ rfl, fun _ ↦ rfl⟩

theorem modify (h : Machine.Within F T m₀ s m) {t : Nat} (ht : m₀.IsOpen s t) {f : Scope → Scope}
    (hstack : ∀ v ∈ (f (m.heap.scope t)).stack, v.All F)
    (hbindings : ∀ e ∈ (f (m.heap.scope t)).bindings, e.2.All F) :
    Machine.Within F T m₀ s { m with heap := m.heap.modify t f } where
  functions := h.functions.modify t hstack hbindings
  config := h.config
  host := h.host
  callDepth := h.callDepth
  nextScope := by simpa using h.nextScope
  stack {u} hu hne := by
    have hclosed : t ≠ u := by
      rintro rfl
      rcases ht with heq | hle
      · exact hne heq
      · exact Nat.not_lt.mpr hle hu
    rw [← h.stack hu hne]
    simp [Heap.stack, Heap.scope_modify, hclosed]
  marks := h.marks

theorem setStack (h : Machine.Within F T m₀ s m) {t : Nat} (ht : m₀.IsOpen s t)
    {values : List Value} (hvalues : ∀ v ∈ values, v.All F) :
    Machine.Within F T m₀ s { m with heap := m.heap.setStack t values } :=
  h.modify ht hvalues (h.functions.bindings t)

theorem push (h : Machine.Within F T m₀ s m) {t : Nat} (ht : m₀.IsOpen s t) {v : Value}
    (hv : v.All F) : Machine.Within F T m₀ s { m with heap := m.heap.push t v } :=
  h.modify ht (List.forall_mem_cons.mpr ⟨hv, h.functions.stack t⟩) (h.functions.bindings t)

theorem pop (h : Machine.Within F T m₀ s m) {t : Nat} (ht : m₀.IsOpen s t) {v : Value}
    {rest : List Value} (hstack : m.heap.stack t = v :: rest) :
    Machine.Within F T m₀ s { m with heap := m.heap.setStack t rest } ∧ v.All F := by
  have hall := h.functions.stack t
  rw [hstack, List.forall_mem_cons] at hall
  exact ⟨h.setStack ht hall.2, hall.1⟩

/-- Names may be bound in any scope. -/
theorem declare (h : Machine.Within F T m₀ s m) (t : Nat) (name : String) {v : Value}
    (hv : v.All F) : Machine.Within F T m₀ s { m with heap := m.heap.declare t name v } where
  functions := h.functions.declare t name hv
  config := h.config
  host := h.host
  callDepth := h.callDepth
  nextScope := by simpa using h.nextScope
  stack hu hne := by simpa using h.stack hu hne
  marks := h.marks

theorem undeclare (h : Machine.Within F T m₀ s m) (t : Nat) (name : String) :
    Machine.Within F T m₀ s { m with heap := m.heap.undeclare t name } where
  functions := h.functions.undeclare t name
  config := h.config
  host := h.host
  callDepth := h.callDepth
  nextScope := by simpa using h.nextScope
  stack hu hne := by simpa using h.stack hu hne
  marks := h.marks

theorem addChild (h : Machine.Within F T m₀ s m) (parent : Nat) :
    Machine.Within F T m₀ s { m with heap := m.heap.addChild parent } where
  functions := h.functions.addChild parent
  config := h.config
  host := h.host
  callDepth := h.callDepth
  nextScope := by
    rw [Heap.nextScope_addChild]
    exact Nat.le_succ_of_le h.nextScope
  stack {u} hu hne := by
    have hlt : u < m.heap.nextScope := Nat.lt_of_lt_of_le hu h.nextScope
    rw [← h.stack hu hne]
    exact Heap.stack_addChild_of_lt parent hlt
  marks := h.marks

/-- What is neither a scope, a function nor a mark does not matter. -/
theorem congr (h : Machine.Within F T m₀ s m) {m' : Machine} (hheap : m'.heap = m.heap)
    (hiterators : m'.iterators = m.iterators) (hconfig : m'.config = m.config)
    (hhost : m'.host = m.host) (hdepth : m'.callDepth = m.callDepth)
    (hmarks : T → m'.marks = m.marks) : Machine.Within F T m₀ s m' := by
  obtain ⟨hall, hc, hh, hd, hn, hs, hm⟩ := h
  refine ⟨⟨?_, ?_, ?_⟩, hconfig.trans hc, hhost.trans hh, hdepth.trans hd, ?_, ?_, fun hT ↦
    (hmarks hT).trans (hm hT)⟩
  · exact hheap ▸ hall.stack
  · exact hheap ▸ hall.bindings
  · exact hiterators ▸ hall.iterators
  · exact hheap ▸ hn
  · exact hheap ▸ hs

end Machine.Within

/-! ## Operations -/

/-- Whether a run stopped for another reason than a fault of its code. -/
def NotMalformed : Stop → Prop
  | .error (.malformed _) => False
  | _ => True

/-- An operation is work in the scope `s` on a machine that came from `m₀` so. It gives a result
that satisfies `Q`, or stops for a reason that satisfies `E`. -/
structure Exec.Keeps (F : ScriptFunction → Prop) (T : Prop) (m₀ : Machine) (s : Nat)
    (E : Stop → Prop) {α : Type} (Q : α → Prop) (x : Exec α) : Prop where
  ends {m : Machine} : Machine.Within F T m₀ s m →
    Exec.Ends (fun a m' ↦ Machine.Within F T m₀ s m' ∧ Q a)
      (fun e m' ↦ Machine.Within F T m₀ s m' ∧ E e) (x m)

namespace Exec

variable {m₀ : Machine} {s : Nat}

namespace Keeps

variable {α β : Type} {E : Stop → Prop} {Q : α → Prop} {R : β → Prop}

theorem pure {a : α} (h : Q a) : Keeps F T m₀ s E Q (pure a) := ⟨fun hm ↦ .ok ⟨hm, h⟩⟩

theorem bind {x : Exec α} {f : α → Exec β} (hx : Keeps F T m₀ s E Q x)
    (hf : ∀ a, Q a → Keeps F T m₀ s E R (f a)) : Keeps F T m₀ s E R (x >>= f) :=
  ⟨fun hm ↦ (hx.ends hm).bind fun a _ h ↦ (hf a h.2).ends h.1⟩

theorem mono {E' : Stop → Prop} {Q' : α → Prop} {x : Exec α} (hx : Keeps F T m₀ s E Q x)
    (hE : ∀ e, E e → E' e) (hQ : ∀ a, Q a → Q' a) : Keeps F T m₀ s E' Q' x :=
  ⟨fun hm ↦ (hx.ends hm).mono (fun a _ h ↦ ⟨h.1, hQ a h.2⟩) fun e _ h ↦ ⟨h.1, hE e h.2⟩⟩

theorem fail {e : Error} (h : E (.error e)) : Keeps F T m₀ s E Q (fail e) :=
  ⟨fun hm ↦ .error ⟨hm, h⟩⟩

theorem check {r : Except Error α} (hok : ∀ a, r = .ok a → Q a)
    (herror : ∀ e, r = .error e → E (.error e)) : Keeps F T m₀ s E Q (check r) := by
  cases r with
  | ok a => exact .pure (hok a rfl)
  | error e => exact .fail (herror e rfl)

theorem checkType {r : Except TypeFault α} (hok : ∀ a, r = .ok a → Q a)
    (herror : ∀ e, E (.error (.type e))) : Keeps F T m₀ s E Q (checkType r) := by
  cases r with
  | ok a => exact .pure (hok a rfl)
  | error e => exact .fail (herror e)

theorem counted {x : Exec α}
    (hx : Keeps F T { m₀ with callDepth := m₀.callDepth + 1 } s E Q x) :
    Keeps F T m₀ s E Q (counted x) := by
  refine ⟨fun {m} hm ↦ ?_⟩
  have hends := hx.ends (m := { m with callDepth := m.callDepth + 1 })
    ⟨⟨hm.functions.stack, hm.functions.bindings, hm.functions.iterators⟩, hm.config,
      hm.host, congrArg (· + 1) hm.callDepth, hm.nextScope, hm.stack, hm.marks⟩
  have hback (m' : Machine)
      (h : Machine.Within F T { m₀ with callDepth := m₀.callDepth + 1 } s m') :
      Machine.Within F T m₀ s { m' with callDepth := m'.callDepth - 1 } :=
    ⟨⟨h.functions.stack, h.functions.bindings, h.functions.iterators⟩, h.config,
      h.host, by simp [h.callDepth], h.nextScope, h.stack, h.marks⟩
  exact hends.counted (fun _ m' h ↦ ⟨hback m' h.1, h.2⟩) fun _ m' h ↦ ⟨hback m' h.1, h.2⟩

end Keeps

/-! ## The operations of the machine -/

/-- Keeping, with no fault of the code. -/
abbrev KeepsWell (F : ScriptFunction → Prop) (T : Prop) (m₀ : Machine) (s : Nat) {α : Type}
    (Q : α → Prop) (x : Exec α) : Prop :=
  Keeps F T m₀ s NotMalformed Q x

variable {t : Nat}

theorem keeps_get : KeepsWell F T m₀ s (Machine.Within F T m₀ s) get := ⟨fun hm ↦ .ok ⟨hm, hm⟩⟩

theorem keeps_newScope (parent : Nat) : KeepsWell F T m₀ s (m₀.IsOpen s) (newScope parent) :=
  ⟨fun hm ↦ .ok ⟨hm.addChild parent, .inr hm.nextScope⟩⟩

theorem keeps_depth (t : Nat) : KeepsWell F T m₀ s (fun _ ↦ True) (depth t) :=
  ⟨fun hm ↦ .ok ⟨hm, trivial⟩⟩

theorem keeps_push (ht : m₀.IsOpen s t) {v : Value} (hv : v.All F) :
    KeepsWell F T m₀ s (fun _ ↦ True) (push t v) :=
  ⟨fun hm ↦ .push (fun _ ↦ ⟨hm.push ht hv, trivial⟩) ⟨hm, trivial⟩⟩

theorem keeps_pop (ht : m₀.IsOpen s t) : KeepsWell F T m₀ s (Value.All F) (pop t) :=
  ⟨fun hm ↦ .pop (fun _ _ ↦ hm.pop ht) ⟨hm, trivial⟩⟩

theorem keeps_popOrNull (ht : m₀.IsOpen s t) :
    KeepsWell F T m₀ s (Value.All F) (popOrNull t) :=
  ⟨fun hm ↦ .popOrNull (fun _ _ ↦ hm.pop ht) ⟨hm, Value.all_null⟩⟩

theorem keeps_popNumber (ht : m₀.IsOpen s t) :
    KeepsWell F T m₀ s (fun _ ↦ True) (popNumber t) := by
  refine (keeps_pop ht).bind fun v _ ↦ ?_
  split
  · exact .pure trivial
  · exact .fail trivial

theorem keeps_popTable (ht : m₀.IsOpen s t) :
    KeepsWell F T m₀ s (fun t : Table ↦ ∀ e ∈ t, e.2.All F) (popTable t) := by
  refine (keeps_pop ht).bind fun v hv ↦ ?_
  split
  · exact .pure (Value.all_table.mp hv)
  · exact .fail trivial

theorem keeps_popKey (ht : m₀.IsOpen s t) : KeepsWell F T m₀ s (fun _ ↦ True) (popKey t) :=
  (keeps_pop ht).bind fun _ _ ↦ .checkType (fun _ _ ↦ trivial) fun _ ↦ trivial

theorem keeps_popText (ht : m₀.IsOpen s t) : KeepsWell F T m₀ s (fun _ ↦ True) (popText t) := by
  refine (keeps_pop ht).bind fun v _ ↦ ?_
  split
  · split
    · exact .pure trivial
    · exact .fail trivial
  · exact .fail trivial

theorem keeps_takeTop (ht : m₀.IsOpen s t) (count : Nat) :
    KeepsWell F T m₀ s (fun vs ↦ ∀ v ∈ vs, v.All F) (takeTop t count) := by
  refine ⟨fun {m} hm ↦ .takeTop ⟨hm.setStack ht fun v hv ↦ ?_, fun v hv ↦ ?_⟩ ⟨hm, trivial⟩⟩
  · exact hm.functions.stack t v (List.mem_of_mem_drop hv)
  · exact hm.functions.stack t v (List.mem_of_mem_take (List.mem_reverse.mp hv))

theorem keeps_drain (ht : m₀.IsOpen s t) :
    KeepsWell F T m₀ s (fun vs ↦ ∀ v ∈ vs, v.All F) (drain t) :=
  ⟨fun hm ↦ .ok ⟨hm.setStack ht (List.forall_mem_nil _), hm.functions.stack t⟩⟩

theorem keeps_declare (t : Nat) (name : String) {v : Value} (hv : v.All F) :
    KeepsWell F T m₀ s (fun _ ↦ True) (declare t name v) :=
  ⟨fun hm ↦ .ok ⟨hm.declare t name hv, trivial⟩⟩

theorem keeps_lookup (t : Nat) (name : String) :
    KeepsWell F T m₀ s (Value.All F) (lookup t name) :=
  ⟨fun hm ↦ .lookup (fun _ hv ↦ ⟨hm, hm.functions.lookup hv⟩) ⟨hm, trivial⟩⟩

theorem keeps_assign (t : Nat) (name : String) {v : Value} (hv : v.All F) :
    KeepsWell F T m₀ s (fun _ ↦ True) (assign t name v) :=
  ⟨fun hm ↦ .assign (fun _ _ ↦ ⟨hm.declare _ name hv, trivial⟩) ⟨hm, trivial⟩⟩

theorem keeps_remove (t : Nat) (name : String) :
    KeepsWell F T m₀ s (fun _ ↦ True) (remove t name) :=
  ⟨fun hm ↦ .remove (fun _ _ ↦ ⟨hm.undeclare _ name, trivial⟩) ⟨hm, trivial⟩⟩

theorem keeps_ask (request : Writer.Request) :
    KeepsWell F T m₀ s (fun _ ↦ True) (ask request) := by
  refine ⟨fun {m} hm ↦ ?_⟩
  have hasked : Machine.Within F T m₀ s (m.asked request) :=
    hm.congr rfl rfl rfl rfl rfl fun _ ↦ rfl
  exact .ask ⟨hasked, trivial⟩ fun _ ↦ ⟨hasked, trivial⟩

theorem keeps_freshIdentity : KeepsWell F T m₀ s (fun _ ↦ True) freshIdentity :=
  ⟨fun hm ↦ .ok ⟨hm.congr rfl rfl rfl rfl rfl fun _ ↦ rfl, trivial⟩⟩

theorem keeps_newIterator {pairs : List (Value × Value)}
    (hpairs : ∀ p ∈ pairs, p.1.All F ∧ p.2.All F) :
    KeepsWell F T m₀ s (fun _ ↦ True) (newIterator pairs) := by
  refine ⟨fun {m} hm ↦ ?_⟩
  have hfunctions := (Machine.All.iff_holds.mp hm.functions).pushIterator hpairs
  exact .ok ⟨⟨Machine.All.iff_holds.mpr hfunctions, hm.config, hm.host, hm.callDepth,
    hm.nextScope, hm.stack, hm.marks⟩, trivial⟩

theorem keeps_nextPair (iterator : Nat) :
    KeepsWell F T m₀ s (fun p ↦ p.1.All F ∧ p.2.All F) (nextPair iterator) := by
  refine ⟨fun {m} hm ↦ .nextPair (fun p rest hiterator ↦ ?_) ⟨hm, Value.all_null, Value.all_null⟩⟩
  have hpairs := hm.functions.iterators iterator
  rw [hiterator, List.forall_mem_cons] at hpairs
  have hfunctions := (Machine.All.iff_holds.mp hm.functions).setIterator iterator hpairs.2
  exact ⟨⟨Machine.All.iff_holds.mpr hfunctions, hm.config, hm.host, hm.callDepth,
    hm.nextScope, hm.stack, hm.marks⟩, hpairs.1⟩

theorem keeps_mark (hT : ¬T) (t : Nat) : KeepsWell F T m₀ s (fun _ ↦ True) (mark t) :=
  ⟨fun hm ↦ .ok ⟨hm.congr rfl rfl rfl rfl rfl fun h ↦ absurd h hT, trivial⟩⟩

theorem keeps_argumentCount (hT : ¬T) (t : Nat) :
    KeepsWell F T m₀ s (fun _ ↦ True) (argumentCount t) := by
  refine ⟨fun hm ↦ .argumentCount (fun count marks ↦ ?_) ⟨hm, trivial⟩⟩
  exact ⟨hm.congr rfl rfl rfl rfl rfl fun h ↦ absurd h hT, trivial⟩

theorem Keeps.flushed {α : Type} {E : Stop → Prop} {Q : α → Prop} {x : Exec α}
    (hx : Keeps F T m₀ s E Q x) (hE : ∀ reason, E (.error (.output reason))) :
    Keeps F T m₀ s E Q (flushed x) := by
  have hasked {m : Machine} (hm : Machine.Within F T m₀ s m) :
      Machine.Within F T m₀ s (m.asked .flush) := hm.congr rfl rfl rfl rfl rfl fun _ ↦ rfl
  refine ⟨fun {m} hm ↦ (hx.ends hm).flushed (fun _ _ h ↦ ⟨hasked h.1, h.2⟩)
    (fun _ _ h ↦ ⟨hasked h.1, h.2⟩) (fun _ h ↦ h) ?_⟩
  rintro reason m' (⟨_, h, _⟩ | ⟨_, h, _⟩) <;> exact ⟨hasked h, hE reason⟩

end Exec

end GemLang
