import GemLang.Proofs.Machine.Rules
import GemLang.Proofs.Machine.Session

/-!
# What a run can get at

A function of a program keeps the scope that it was made in, and that scope keeps what was bound
there. Nobody else gets at these bindings, unless some way leads to them: through the scopes around,
or through functions, in names and on stacks, inside tables, and among what iterators have still to
give. The scopes that such ways lead to from a scope are those that it `Reaches`.

A run in a scope touches only what is reached from there or from the outermost scope, and what it
makes itself (`captured_state_private`). So two functions that were made by two calls have state of
their own, even if the calls were of one function.

A `Region` is a part of a machine, and it is enclosed if no way leads out of it (`Encloses`). What
is reached is the least enclosed region. A run goes from one enclosed region to another, larger by
the scopes and iterators that it made, and leaves the scopes outside as they are (`Confined`).
-/

namespace GemLang

open Bytecode (Stretch)
open Exec

/-! ## Reaching -/

/-- The iterator that a function of the machine goes through. -/
def Native.iterator? : Native → Option Nat
  | .nextOfString i | .nextOfTable i => some i
  | _ => none

mutual

/-- The scopes that ways lead to from the scopes `S` and the values `U`. -/
inductive Machine.Reaches (m : Machine) (S : ScopeId → Prop) (U : Value → Prop) :
    ScopeId → Prop where
  | start {s : ScopeId} (hs : S s) : m.Reaches S U s
  | outer {s t : ScopeId} (hs : m.Reaches S U s) (ht : t ∈ (m.heap.scope s).outer) :
    m.Reaches S U t
  | home {f : ScriptFunction} (hf : m.Finds S U (.script f)) : m.Reaches S U f.home

/-- The values that are found on these ways. -/
inductive Machine.Finds (m : Machine) (S : ScopeId → Prop) (U : Value → Prop) : Value → Prop where
  | start {v : Value} (hv : U v) : m.Finds S U v
  | stack {s : ScopeId} (hs : m.Reaches S U s) {v : Value} (hv : v ∈ m.heap.stack s) :
    m.Finds S U v
  | binding {s : ScopeId} (hs : m.Reaches S U s) {e : String × Value}
    (he : e ∈ (m.heap.scope s).bindings) : m.Finds S U e.2
  | entry {t : Table} (ht : m.Finds S U (.table t)) {e : Key × Value} (he : e ∈ t) :
    m.Finds S U e.2
  | pairKey {f : Native} (hf : m.Finds S U (.native f)) {i : Nat} (hi : f.iterator? = some i)
    {p : Value × Value} (hp : p ∈ m.iterators.getD i []) : m.Finds S U p.1
  | pairValue {f : Native} (hf : m.Finds S U (.native f)) {i : Nat} (hi : f.iterator? = some i)
    {p : Value × Value} (hp : p ∈ m.iterators.getD i []) : m.Finds S U p.2

end

/-! ## Regions -/

/-- Some scopes and some iterators. -/
structure Region where
  scopes : ScopeId → Prop
  iterators : Nat → Prop

/-- The value does not lead out of a region. -/
inductive Value.Within (r : Region) : Value → Prop where
  | plain {v : Value} (hv : v.IsPlain) : Within r v
  | table {t : Table} (ht : ∀ e ∈ t, Within r e.2) : Within r (.table t)
  | script {f : ScriptFunction} (hf : r.scopes f.home) : Within r (.script f)
  | native {f : Native} (hf : ∀ i, f.iterator? = some i → r.iterators i) : Within r (.native f)

/-- No way leads from the scope out of a region. -/
structure Scope.Within (scope : Scope) (r : Region) : Prop where
  outer : ∀ s ∈ scope.outer, r.scopes s
  stack : ∀ v ∈ scope.stack, v.Within r
  bindings : ∀ e ∈ scope.bindings, e.2.Within r

/-- No way leads out of the region. -/
structure Machine.Encloses (m : Machine) (r : Region) : Prop where
  scope {s : ScopeId} (hs : r.scopes s) : (m.heap.scope s).Within r
  pairs {i : Nat} (hi : r.iterators i) :
    ∀ p ∈ m.iterators.getD i [], p.1.Within r ∧ p.2.Within r

variable {r r' : Region} {m m₀ : Machine} {S : ScopeId → Prop} {U : Value → Prop}

namespace Value.Within

theorem mono (hscopes : ∀ s, r.scopes s → r'.scopes s)
    (hiterators : ∀ i, r.iterators i → r'.iterators i) {v : Value} (hv : v.Within r) :
    v.Within r' := by
  induction hv with
  | plain hv => exact .plain hv
  | table _ ih => exact .table ih
  | script hf => exact .script (hscopes _ hf)
  | native hf => exact .native fun i hi ↦ hiterators i (hf i hi)

theorem home {f : ScriptFunction} (hf : (Value.script f).Within r) : r.scopes f.home := by
  cases hf with
  | plain hv => exact hv.elim
  | script hf => exact hf

theorem entry {t : Table} (ht : (Value.table t).Within r) : ∀ e ∈ t, e.2.Within r := by
  cases ht with
  | plain hv => exact hv.elim
  | table ht => exact ht

theorem iterator {f : Native} (hf : (Value.native f).Within r) {i : Nat}
    (hi : f.iterator? = some i) : r.iterators i := by
  cases hf with
  | plain hv => exact hv.elim
  | native hf => exact hf i hi

theorem sealed (r : Region) : Value.Sealed r.scopes (Value.Within r) where
  plain := .plain
  script := .script
  home := home
  empty := .table (List.forall_mem_nil _)
  entry ht he := ht.entry _ he
  insert ht _ hv := .table (Assoc.forall_insert ht.entry hv)
  erase ht key := .table (Assoc.forall_erase ht.entry key)

end Value.Within

/-- The functions of a new machine go through no iterator. -/
theorem within_globals (r : Region) : ∀ e ∈ globals, e.2.Within r := by
  have hnative {f : Native} (hf : f.iterator? = none) : (Value.native f).Within r :=
    .native fun i hi ↦ nomatch hf.symm.trans hi
  have hnatives {functions : List (String × Native)}
      (hfunctions : ∀ f ∈ functions, f.2.iterator? = none) : (nativeTable functions).Within r := by
    refine .table ?_
    rw [List.forall_mem_map]
    exact fun f hf ↦ hnative (hfunctions f hf)
  simp only [globals, List.forall_mem_cons]
  exact ⟨.plain trivial, .plain trivial, .plain trivial, hnatives (by decide), hnatives (by decide),
    hnatives (by decide), hnative rfl, List.forall_mem_nil _⟩

theorem Scope.Within.mono (hscopes : ∀ s, r.scopes s → r'.scopes s)
    (hiterators : ∀ i, r.iterators i → r'.iterators i) {scope : Scope} (h : scope.Within r) :
    scope.Within r' where
  outer s hs := hscopes s (h.outer s hs)
  stack v hv := (h.stack v hv).mono hscopes hiterators
  bindings e he := (h.bindings e he).mono hscopes hiterators

/-! ### The region that is reached -/

/-- What is reached from the scopes `S` and the values `U`. -/
def Machine.reached (m : Machine) (S : ScopeId → Prop) (U : Value → Prop) : Region where
  scopes := m.Reaches S U
  iterators i := ∃ f : Native, f.iterator? = some i ∧ m.Finds S U (.native f)

theorem Value.within_of_forall (hscopes : ∀ s, r.scopes s) (hiterators : ∀ i, r.iterators i)
    (v : Value) : v.Within r := by
  match v with
  | .number _ | .bool _ | .text _ | .foreign _ => exact .plain trivial
  | .script f => exact .script (hscopes f.home)
  | .native _ => exact .native fun i _ ↦ hiterators i
  | .table t => exact .table fun e he ↦ Value.within_of_forall hscopes hiterators e.2
termination_by v
decreasing_by exact Value.sizeOf_entry_lt he

theorem Machine.Finds.within {v : Value} (h : m.Finds S U v) : v.Within (m.reached S U) := by
  match v with
  | .number _ | .bool _ | .text _ | .foreign _ => exact .plain trivial
  | .script f => exact .script (.home h)
  | .native f => exact .native fun i hi ↦ ⟨f, hi, h⟩
  | .table t => exact .table fun e he ↦ Machine.Finds.within (h.entry he)
termination_by v
decreasing_by exact Value.sizeOf_entry_lt he

theorem Machine.encloses_reached (m : Machine) (S : ScopeId → Prop) (U : Value → Prop) :
    m.Encloses (m.reached S U) where
  scope hs :=
    ⟨fun _ ht ↦ .outer hs ht, fun _ hv ↦ (Finds.stack hs hv).within,
      fun _ he ↦ (Finds.binding hs he).within⟩
  pairs := by
    rintro i ⟨f, hi, hf⟩ p hp
    exact ⟨(hf.pairKey hi hp).within, (hf.pairValue hi hp).within⟩

mutual

/-- No way leads out of an enclosed region. -/
theorem Machine.Reaches.of_encloses (hm : m.Encloses r) (hS : ∀ s, S s → r.scopes s)
    (hU : ∀ v, U v → v.Within r) {s : ScopeId} (h : m.Reaches S U s) : r.scopes s :=
  match h with
  | .start hs => hS s hs
  | .outer hs ht => (hm.scope (hs.of_encloses hm hS hU)).outer s ht
  | .home hf => (hf.of_encloses hm hS hU).home

theorem Machine.Finds.of_encloses (hm : m.Encloses r) (hS : ∀ s, S s → r.scopes s)
    (hU : ∀ v, U v → v.Within r) {v : Value} (h : m.Finds S U v) : v.Within r :=
  match h with
  | .start hv => hU v hv
  | .stack hs hv => (hm.scope (hs.of_encloses hm hS hU)).stack v hv
  | .binding hs he => (hm.scope (hs.of_encloses hm hS hU)).bindings _ he
  | .entry ht he => (ht.of_encloses hm hS hU).entry _ he
  | .pairKey hf hi hp => (hm.pairs ((hf.of_encloses hm hS hU).iterator hi) _ hp).1
  | .pairValue hf hi hp => (hm.pairs ((hf.of_encloses hm hS hU).iterator hi) _ hp).2

end

/-! ### Changes inside -/

namespace Machine.Encloses

theorem congr {m' : Machine} (h : m.Encloses r) (hheap : m'.heap = m.heap)
    (hiterators : m'.iterators = m.iterators) : m'.Encloses r :=
  ⟨hheap ▸ h.scope, hiterators ▸ h.pairs⟩

theorem modify (h : m.Encloses r) {s : ScopeId} {f : Scope → Scope}
    (hscope : (f (m.heap.scope s)).Within r) :
    Machine.Encloses { m with heap := m.heap.modify s f } r where
  scope {t} ht := by
    simp only [Heap.scope_modify]
    split
    · next heq => exact heq.1 ▸ hscope
    · exact h.scope ht
  pairs := h.pairs

theorem chain (h : m.Encloses r) {s : ScopeId} (hs : r.scopes s) :
    ∀ t ∈ m.heap.chain s, r.scopes t :=
  List.forall_mem_cons.mpr ⟨hs, (h.scope hs).outer⟩

theorem owner (h : m.Encloses r) {s o : ScopeId} (hs : r.scopes s) {name : String}
    (ho : m.heap.owner? s name = some o) : r.scopes o :=
  h.chain hs o (List.mem_of_find?_eq_some ho)

theorem lookup (h : m.Encloses r) {s : ScopeId} (hs : r.scopes s) {name : String} {v : Value}
    (hv : m.heap.lookup s name = some v) : v.Within r := by
  obtain ⟨o, ho, hget⟩ := Option.bind_eq_some_iff.mp hv
  exact Assoc.forall_of_get? (h.scope (h.owner hs ho)).bindings hget

theorem pushIterator (h : m.Encloses r) {pairs : List (Value × Value)}
    (hpairs : ∀ p ∈ pairs, p.1.Within r ∧ p.2.Within r) :
    Machine.Encloses { m with iterators := m.iterators.push pairs } r where
  scope := h.scope
  pairs hi := forall_mem_getD_push (h.pairs hi) hpairs

theorem setIterator (h : m.Encloses r) (iterator : Nat) {pairs : List (Value × Value)}
    (hpairs : ∀ p ∈ pairs, p.1.Within r ∧ p.2.Within r) :
    Machine.Encloses { m with iterators := m.iterators.setIfInBounds iterator pairs } r where
  scope := h.scope
  pairs hi := forall_mem_getD_set iterator (h.pairs hi) hpairs

end Machine.Encloses

/-! ## Runs that stay inside -/

/-- The region with the scopes made since the machine was `m₀`, where there are `n` by now, and with
the iterators made since. -/
def Region.grown (r : Region) (m₀ : Machine) (n : Nat) : Region where
  scopes s := r.scopes s ∨ m₀.heap.nextScope ≤ s ∧ s < n
  iterators i := r.iterators i ∨ m₀.iterators.size ≤ i

theorem Region.grown_scopes {n k : Nat} (hle : n ≤ k) {s : ScopeId}
    (hs : (r.grown m₀ n).scopes s) : (r.grown m₀ k).scopes s :=
  hs.imp_right fun ⟨hnew, hlt⟩ ↦ ⟨hnew, hlt.trans_le hle⟩

theorem Value.Within.grown {n k : Nat} (hle : n ≤ k) {v : Value} (hv : v.Within (r.grown m₀ n)) :
    v.Within (r.grown m₀ k) :=
  hv.mono (fun _ ↦ Region.grown_scopes hle) fun _ ↦ id

/-- The machine has `n` scopes and comes from `m₀`, with nothing changed outside the region, which
has grown but is still enclosed. -/
structure Machine.Confined (m : Machine) (r : Region) (m₀ : Machine) (n : Nat) : Prop where
  nextScope : m.heap.nextScope = n
  le : m₀.heap.nextScope ≤ n
  size : m₀.iterators.size ≤ m.iterators.size
  kept {s : ScopeId} (hs : s < m₀.heap.nextScope) (hout : ¬r.scopes s) :
    m.heap.scope s = m₀.heap.scope s
  encloses : m.Encloses (r.grown m₀ n)

/-- A judgment on instructions: where the machine is confined, it still is afterwards. -/
structure Exec.Confines (r : Region) (m₀ : Machine) (n : Nat) {α : Type} (Q : α → Prop)
    (x : Exec α) : Prop where
  ends {m : Machine} : m.Confined r m₀ n →
    Exec.Ends (fun a m' ↦ m'.Confined r m₀ n ∧ Q a) (fun _ m' ↦ m'.Confined r m₀ n) (x m)

/-- The same for runs, which may have made scopes. -/
structure Exec.ConfinesRun (r : Region) (m₀ : Machine) (n : Nat) {α : Type} (Q : Nat → α → Prop)
    (x : Exec α) : Prop where
  ends {m : Machine} : m.Confined r m₀ n →
    Exec.Ends (fun a m' ↦ ∃ k, n ≤ k ∧ m'.Confined r m₀ k ∧ Q k a)
      (fun _ m' ↦ ∃ k, n ≤ k ∧ m'.Confined r m₀ k) (x m)

variable {n : Nat}

namespace Machine.Confined

theorem congr {m' : Machine} (h : m.Confined r m₀ n) (hheap : m'.heap = m.heap)
    (hiterators : m'.iterators = m.iterators) : m'.Confined r m₀ n where
  nextScope := hheap ▸ h.nextScope
  le := h.le
  size := hiterators ▸ h.size
  kept := hheap ▸ h.kept
  encloses := h.encloses.congr hheap hiterators

theorem modify (h : m.Confined r m₀ n) {s : ScopeId} (hs : (r.grown m₀ n).scopes s)
    {f : Scope → Scope} (hscope : (f (m.heap.scope s)).Within (r.grown m₀ n)) :
    Machine.Confined { m with heap := m.heap.modify s f } r m₀ n where
  nextScope := (Heap.nextScope_modify ..).trans h.nextScope
  le := h.le
  size := h.size
  kept {t} ht hout := by
    have hne : s ≠ t := by
      rintro rfl
      obtain hin | ⟨hnew, -⟩ := hs
      · exact hout hin
      · exact absurd ht (Nat.not_lt.mpr hnew)
    simp only [Heap.scope_modify, hne, false_and, ↓reduceIte]
    exact h.kept ht hout
  encloses := h.encloses.modify hscope

theorem setStack (h : m.Confined r m₀ n) {s : ScopeId} (hs : (r.grown m₀ n).scopes s)
    {values : List Value} (hvalues : ∀ v ∈ values, v.Within (r.grown m₀ n)) :
    Machine.Confined { m with heap := m.heap.setStack s values } r m₀ n :=
  have hscope := h.encloses.scope hs
  h.modify hs ⟨hscope.outer, hvalues, hscope.bindings⟩

theorem pop (h : m.Confined r m₀ n) {s : ScopeId} (hs : (r.grown m₀ n).scopes s) {v : Value}
    {rest : List Value} (hstack : m.heap.stack s = v :: rest) :
    Machine.Confined { m with heap := m.heap.setStack s rest } r m₀ n ∧
      v.Within (r.grown m₀ n) := by
  have hall : ∀ v ∈ m.heap.stack s, v.Within (r.grown m₀ n) := (h.encloses.scope hs).stack
  rw [hstack, List.forall_mem_cons] at hall
  exact ⟨h.setStack hs hall.2, hall.1⟩

theorem declare (h : m.Confined r m₀ n) {s : ScopeId} (hs : (r.grown m₀ n).scopes s)
    (name : String) {v : Value} (hv : v.Within (r.grown m₀ n)) :
    Machine.Confined { m with heap := m.heap.declare s name v } r m₀ n :=
  have hscope := h.encloses.scope hs
  h.modify hs ⟨hscope.outer, hscope.stack, Assoc.forall_insert hscope.bindings hv⟩

theorem undeclare (h : m.Confined r m₀ n) {s : ScopeId} (hs : (r.grown m₀ n).scopes s)
    (name : String) :
    Machine.Confined { m with heap := m.heap.undeclare s name } r m₀ n :=
  have hscope := h.encloses.scope hs
  h.modify hs ⟨hscope.outer, hscope.stack, Assoc.forall_erase hscope.bindings name⟩

theorem addChild (h : m.Confined r m₀ n) {parent : ScopeId}
    (hparent : (r.grown m₀ n).scopes parent) :
    Machine.Confined { m with heap := m.heap.addChild parent } r m₀ (n + 1) where
  nextScope := (Heap.nextScope_addChild ..).trans (congrArg (· + 1) h.nextScope)
  le := Nat.le_succ_of_le h.le
  size := h.size
  kept {t} ht hout := by
    have hne : t ≠ m.heap.nextScope := h.nextScope ▸ Nat.ne_of_lt (ht.trans_le h.le)
    simp only [Heap.scope_addChild, hne, ↓reduceIte]
    exact h.kept ht hout
  encloses := by
    refine ⟨fun {t} ht ↦ ?_, fun hi p hp ↦ ?_⟩
    · simp only [Heap.scope_addChild]
      split
      · have hchain := h.encloses.chain hparent
        exact ⟨fun u hu ↦ Region.grown_scopes (Nat.le_succ n) (hchain u hu), nofun, nofun⟩
      · next hne =>
        -- a scope that is inside now and is not the new one was inside before
        rw [h.nextScope] at hne
        have hold : (r.grown m₀ n).scopes t := ht.imp_right fun ⟨hnew, hlt⟩ ↦
          ⟨hnew, Nat.lt_of_le_of_ne (Nat.le_of_lt_succ hlt) hne⟩
        exact (h.encloses.scope hold).mono (fun _ ↦ Region.grown_scopes (Nat.le_succ n)) fun _ ↦ id
    · exact (h.encloses.pairs hi p hp).imp (.grown (Nat.le_succ n)) (.grown (Nat.le_succ n))

end Machine.Confined

namespace Exec

theorem confines_push {s : ScopeId} (hs : (r.grown m₀ n).scopes s) {v : Value}
    (hv : v.Within (r.grown m₀ n)) : Confines r m₀ n (fun _ ↦ True) (push s v) := by
  refine ⟨fun {m} hm ↦ .push (fun _ ↦ ⟨?_, trivial⟩) hm⟩
  have hscope := hm.encloses.scope hs
  exact hm.modify hs ⟨hscope.outer, List.forall_mem_cons.mpr ⟨hv, hscope.stack⟩, hscope.bindings⟩

theorem confines_pop {s : ScopeId} (hs : (r.grown m₀ n).scopes s) :
    Confines r m₀ n (Value.Within (r.grown m₀ n)) (pop s) :=
  ⟨fun hm ↦ .pop (fun _ _ ↦ hm.pop hs) hm⟩

theorem confines_popOrNull {s : ScopeId} (hs : (r.grown m₀ n).scopes s) :
    Confines r m₀ n (Value.Within (r.grown m₀ n)) (popOrNull s) :=
  ⟨fun hm ↦ .popOrNull (fun _ _ ↦ hm.pop hs) ⟨hm, .plain trivial⟩⟩

theorem confines_takeTop {s : ScopeId} (hs : (r.grown m₀ n).scopes s) (count : Nat) :
    Confines r m₀ n (fun vs ↦ ∀ v ∈ vs, v.Within (r.grown m₀ n)) (takeTop s count) := by
  refine ⟨fun {m} hm ↦ .takeTop ⟨hm.setStack hs fun v hv ↦ ?_, fun v hv ↦ ?_⟩ hm⟩
  · exact (hm.encloses.scope hs).stack v (List.mem_of_mem_drop hv)
  · exact (hm.encloses.scope hs).stack v (List.mem_of_mem_take (List.mem_reverse.mp hv))

theorem confines_lookup {s : ScopeId} (hs : (r.grown m₀ n).scopes s) (name : String) :
    Confines r m₀ n (Value.Within (r.grown m₀ n)) (lookup s name) :=
  ⟨fun hm ↦ .lookup (fun _ hv ↦ ⟨hm, hm.encloses.lookup hs hv⟩) hm⟩

/-- The scope that holds the binding is inside, since the scopes around are. -/
theorem confines_assign {s : ScopeId} (hs : (r.grown m₀ n).scopes s) (name : String) {v : Value}
    (hv : v.Within (r.grown m₀ n)) : Confines r m₀ n (fun _ ↦ True) (assign s name v) :=
  ⟨fun hm ↦ .assign (fun _ ho ↦ ⟨hm.declare (hm.encloses.owner hs ho) name hv, trivial⟩)
    ⟨hm, trivial⟩⟩

theorem confines_remove {s : ScopeId} (hs : (r.grown m₀ n).scopes s) (name : String) :
    Confines r m₀ n (fun _ ↦ True) (remove s name) :=
  ⟨fun hm ↦ .remove (fun _ ho ↦ ⟨hm.undeclare (hm.encloses.owner hs ho) name, trivial⟩) hm⟩

theorem confines_newIterator {pairs : List (Value × Value)}
    (hpairs : ∀ p ∈ pairs, p.1.Within (r.grown m₀ n) ∧ p.2.Within (r.grown m₀ n)) :
    Confines r m₀ n (fun i ↦ (Value.native (.nextOfString i)).Within (r.grown m₀ n) ∧
      (Value.native (.nextOfTable i)).Within (r.grown m₀ n)) (newIterator pairs) := by
  refine ⟨fun {m} hm ↦ ?_⟩
  have hnew : (r.grown m₀ n).iterators m.iterators.size := .inr hm.size
  have hsize : m₀.iterators.size ≤ (m.iterators.push pairs).size := by
    rw [Array.size_push]
    exact Nat.le_succ_of_le hm.size
  have hm' : Machine.Confined { m with iterators := m.iterators.push pairs } r m₀ n :=
    ⟨hm.nextScope, hm.le, hsize, hm.kept, hm.encloses.pushIterator hpairs⟩
  exact .ok ⟨hm', .native fun i hi ↦ Option.some.inj hi ▸ hnew,
    .native fun i hi ↦ Option.some.inj hi ▸ hnew⟩

theorem confines_nextPair {i : Nat} (hi : (r.grown m₀ n).iterators i) :
    Confines r m₀ n (fun p ↦ p.1.Within (r.grown m₀ n) ∧ p.2.Within (r.grown m₀ n))
      (nextPair i) := by
  refine ⟨fun {m} hm ↦ .nextPair (fun p rest hiterator ↦ ?_) ⟨hm, .plain trivial, .plain trivial⟩⟩
  have hpairs := hm.encloses.pairs hi
  rw [hiterator, List.forall_mem_cons] at hpairs
  have hsize : m₀.iterators.size ≤ (m.iterators.setIfInBounds i rest).size := by
    rw [Array.size_setIfInBounds]
    exact hm.size
  exact ⟨⟨hm.nextScope, hm.le, hsize, hm.kept, hm.encloses.setIterator i hpairs.2⟩, hpairs.1⟩

theorem confines_argumentCount (s : ScopeId) :
    Confines r m₀ n (fun _ ↦ True) (argumentCount s) :=
  ⟨fun hm ↦ .argumentCount (fun _ _ ↦ ⟨hm.congr rfl rfl, trivial⟩) ⟨hm, trivial⟩⟩

theorem confines_modify {f : Machine → Machine} (hheap : ∀ m, (f m).heap = m.heap)
    (hiterators : ∀ m, (f m).iterators = m.iterators) :
    Confines r m₀ n (fun _ ↦ True) (modify f) :=
  ⟨fun {m} hm ↦ .ok ⟨hm.congr (hheap m) (hiterators m), trivial⟩⟩

/-- Methods are looked up in the outermost scope, so it has to be inside. -/
theorem stepRules_confines (hroot : r.scopes Machine.root) (m₀ : Machine) (n : Nat) :
    StepRules (fun _ ↦ True) (r.grown m₀ n).scopes (Value.Within (r.grown m₀ n))
      (Confines r m₀ n) where
  toMade := (Value.Within.sealed _).toMade
  pure ha := ⟨fun hm ↦ .ok ⟨hm, ha⟩⟩
  bind hx hf := ⟨fun hm ↦ (hx.ends hm).bind fun a _ h ↦ (hf a h.2).ends h.1⟩
  fail _ := ⟨fun hm ↦ .error hm⟩
  get := ⟨fun hm ↦ .ok ⟨hm, fun _ _ _ hv ↦ hm.encloses.lookup (.inl hroot) hv⟩⟩
  push := confines_push
  pop := confines_pop
  popOrNull := confines_popOrNull
  takeTop := confines_takeTop
  drain hs := ⟨fun hm ↦ .ok ⟨hm.setStack hs (List.forall_mem_nil _), trivial⟩⟩
  declare hs name _ _ hv := ⟨fun hm ↦ .ok ⟨hm.declare hs name hv, trivial⟩⟩
  lookup hs name _ := confines_lookup hs name
  assign hs name _ _ := confines_assign hs name
  remove hs name _ := confines_remove hs name
  ask _ := ⟨fun hm ↦ .ask ⟨hm.congr rfl rfl, trivial⟩ fun _ ↦ hm.congr rfl rfl⟩
  freshIdentity := ⟨fun hm ↦ .ok ⟨hm.congr rfl rfl, trivial⟩⟩
  addLibrary _ := confines_modify (fun _ ↦ rfl) fun _ ↦ rfl
  newIterator := confines_newIterator
  nextOfString hi := confines_nextPair (hi.iterator rfl)
  nextOfTable hi := confines_nextPair (hi.iterator rfl)
  mark _ := confines_modify (fun _ ↦ rfl) fun _ ↦ rfl
  argumentCount := confines_argumentCount

theorem confinesRun_newScope {parent : ScopeId} (hparent : (r.grown m₀ n).scopes parent) :
    ConfinesRun r m₀ n (fun k ↦ (r.grown m₀ k).scopes) (newScope parent) := by
  refine ⟨fun {m} hm ↦ .ok ⟨n + 1, Nat.le_succ n, hm.addChild hparent, .inr ?_⟩⟩
  rw [hm.nextScope]
  exact ⟨hm.le, Nat.lt_succ_self n⟩

namespace ConfinesRun

variable {α β : Type} {Q : Nat → α → Prop} {R : Nat → β → Prop}

theorem bind {x : Exec α} {f : α → Exec β} (hx : ConfinesRun r m₀ n Q x)
    (hf : ∀ k, n ≤ k → ∀ a, Q k a → ConfinesRun r m₀ k R (f a)) :
    ConfinesRun r m₀ n R (x >>= f) := by
  refine ⟨fun {m} hm ↦ (hx.ends hm).bind fun a m' ⟨k, hk, hm', ha⟩ ↦ ?_⟩
  refine ((hf k hk a ha).ends hm').mono ?_ ?_
  · exact fun b m'' ⟨l, hl, hm'', hb⟩ ↦ ⟨l, hk.trans hl, hm'', hb⟩
  · exact fun e m'' ⟨l, hl, hm''⟩ ↦ ⟨l, hk.trans hl, hm''⟩

theorem limited {x : Exec α} (hx : ConfinesRun r m₀ n Q x) :
    ConfinesRun r m₀ n Q (limited x) :=
  ⟨fun hm ↦ (hx.ends hm).limited ⟨n, Nat.le_refl n, hm⟩⟩

theorem counted {x : Exec α} (hx : ConfinesRun r m₀ n Q x) :
    ConfinesRun r m₀ n Q (counted x) := by
  refine ⟨fun {m} hm ↦ ?_⟩
  have hcounted : Machine.Confined { m with callDepth := m.callDepth + 1 } r m₀ n :=
    hm.congr rfl rfl
  refine (hx.ends hcounted).counted ?_ ?_
  · exact fun a m' ⟨k, hk, hm', ha⟩ ↦ ⟨k, hk, hm'.congr rfl rfl, ha⟩
  · exact fun e m' ⟨k, hk, hm'⟩ ↦ ⟨k, hk, hm'.congr rfl rfl⟩

end ConfinesRun

theorem runRules_confines (hroot : r.scopes Machine.root) (m₀ : Machine) :
    RunRules (fun k ↦ (r.grown m₀ k).scopes) (fun k ↦ (r.grown m₀ k).scopes)
      (fun k ↦ Value.Within (r.grown m₀ k)) (fun k ↦ Confines r m₀ k)
      fun k ↦ ConfinesRun r m₀ k where
  steps := stepRules_confines hroot m₀
  values _ := Value.Within.sealed _
  makes := id
  scope_mono hle := Region.grown_scopes hle
  value_mono hle := Value.Within.grown hle
  step {k} _ _ _ hx := ⟨fun hm ↦ (hx.ends hm).mono (fun _ _ h ↦ ⟨k, Nat.le_refl k, h⟩)
    fun _ _ h ↦ ⟨k, Nat.le_refl k, h⟩⟩
  bind := .bind
  outOfSteps {k} _ _ := ⟨fun hm ↦ .error ⟨k, Nat.le_refl k, hm⟩⟩
  newScope := confinesRun_newScope
  limited := .limited
  counted := .counted

end Exec

theorem Machine.confined_reached (m : Machine) (S : ScopeId → Prop) (U : Value → Prop) :
    m.Confined (m.reached S U) m m.heap.nextScope where
  nextScope := rfl
  le := Nat.le_refl _
  size := Nat.le_refl _
  kept _ _ := rfl
  encloses := by
    have hencloses := m.encloses_reached S U
    refine ⟨fun {s} hs ↦ ?_, fun {i} hi p hp ↦ ?_⟩
    · have hold : m.Reaches S U s :=
        hs.resolve_right fun ⟨hnew, hlt⟩ ↦ absurd hlt (Nat.not_lt.mpr hnew)
      exact (hencloses.scope hold).mono (fun _ ↦ Or.inl) fun _ ↦ Or.inl
    · obtain hi | hnew := hi
      · have hin {v : Value} (hv : v.Within (m.reached S U)) :
            v.Within ((m.reached S U).grown m m.heap.nextScope) :=
          hv.mono (fun _ ↦ Or.inl) fun _ ↦ Or.inl
        exact (hencloses.pairs hi p hp).imp hin hin
      · rw [Array.getD_eq_getD_getElem?, Array.getElem?_eq_none hnew] at hp
        cases hp

/-- After a run, the machine is confined to what was reached and what is new, and so is the value
that the run returned. -/
theorem exists_confined_run (m : Machine) (s : ScopeId) (c : Stretch) (fuel : Nat)
    (hs : r.scopes s) (hroot : r.scopes Machine.root) (hm : m.Confined r m₀ n) :
    ∃ k, ((run fuel s c).stateAfter m).Confined r m₀ k ∧
      ∀ v m', run fuel s c m = .ok (some (.returned v)) m' → v.Within (r.grown m₀ k) := by
  have hrun := (runRules_confines hroot m₀).runs fuel
  have hends := (hrun.run (.inl hs) c).ends hm
  unfold Exec.stateAfter
  cases hxm : run fuel s c m with
  | ok left m' =>
    rw [hxm] at hends
    obtain ⟨k, -, hm', hleft⟩ | - := hends
    refine ⟨k, hm', fun v _ heq ↦ ?_⟩
    cases heq
    exact hleft
  | error e m' =>
    rw [hxm] at hends
    obtain - | ⟨k, -, hm'⟩ := hends
    exact ⟨k, hm', nofun⟩

/-- **State that is captured is private.** Code that runs in a scope leaves all scopes as they are
that are reached neither from there nor from the outermost scope, however it ends. And the functions
that are found afterwards, in scopes that are reached or that the run made and in what it returned,
were made in such scopes too. -/
theorem captured_state_private (m : Machine) (s : ScopeId) (c : Stretch) (fuel : Nat) :
    let reached := m.Reaches (fun t ↦ t = s ∨ t = Machine.root) fun _ ↦ False
    let after := (run fuel s c).stateAfter m
    let inside t := reached t ∨ m.heap.nextScope ≤ t ∧ t < after.heap.nextScope
    let returned v := run fuel s c m = .ok (some (.returned v)) after
    (∀ t < m.heap.nextScope, ¬reached t → after.heap.scope t = m.heap.scope t) ∧
    ∀ f, after.Finds inside returned (.script f) → inside f.home := by
  intro reached after inside returned
  have hs : reached s := .start (.inl rfl)
  have hroot : reached Machine.root := .start (.inr rfl)
  obtain ⟨k, hafter, hreturned⟩ :=
    exists_confined_run m s c fuel hs hroot (m.confined_reached _ fun _ ↦ False)
  obtain rfl := hafter.nextScope
  refine ⟨fun t ht hout ↦ hafter.kept ht hout, fun f hf ↦ ?_⟩
  exact (hf.of_encloses hafter.encloses (fun _ ↦ id) fun v hv ↦ hreturned v _ hv).home

/-! Scopes beside each other have bindings of their own. -/

example :
    let heap : Heap := ⟨#[.empty [], ⟨[], [("n", .text "a")], [0]⟩, ⟨[], [("n", .text "b")], [0]⟩]⟩
    let m := { Machine.start (.standard false) .plain with heap := heap }
    let code : Stretch := ⟨0, [.op .push, .operand "c", .op .storeLocal, .operand "n"]⟩
    let after := (run 3 1 code).stateAfter m
    after.heap.lookup 1 "n" = some (.text "c") ∧ after.heap.lookup 2 "n" = some (.text "b") := by
  cbv

end GemLang
