import GemLang.Proofs.Compile.Operand
import GemLang.Proofs.Machine.Passes
import GemLang.Proofs.Machine.Region
import GemLang.Proofs.Machine.Runs

/-!
# What is kept under a hidden name

A loop keeps its iterator under a hidden name while its body runs, and the body may be anything,
down to other loops that keep theirs under the same name. What has to stay as it is while other code
runs is said by a `Guard` and by what is `Known`.

* The guard is about one hidden name and about some iterators. Nothing in the machine refers to
  these, except what scopes bind the hidden name to.
* It is known what is left of the iterators, and of some scopes what they bind the hidden name to
  themselves, if anything. Of a scope that was made later on, and of one that code is about to bind
  the name in, nothing need be known.

Instructions on other names leave a machine guarded (`Exec.stepRules_guards`). Where a scope binds
the hidden name, or unbinds it, it is known afterwards what the scope binds it to.
-/

namespace GemLang

open Bytecode
open Exec

/-! ## Guards -/

/-- A hidden name, and the iterators that are watched. -/
structure Guard where
  name : String
  hidden : ¬IsName name
  watched : Nat → Prop

/-- How many scopes there are at least, what scopes bind the hidden name to, as far as it is known,
and what is left of the iterators that are watched. -/
structure Known where
  scopes : Nat
  binding : ScopeId → Option (Option Value)
  rest : Nat → List (Value × Value)

namespace Known

/-- There are some scopes, and it is known what is left of iterators. -/
def start (scopes : Nat) (rest : Nat → List (Value × Value)) : Known := ⟨scopes, fun _ ↦ none, rest⟩

/-- It becomes known what a scope binds the name to. -/
def learn (k : Known) (s : ScopeId) (x : Option Value) : Known :=
  { k with binding := Function.update k.binding s (some x) }

/-- It is no longer known what a scope binds the name to. -/
def forget (k : Known) (s : ScopeId) : Known :=
  { k with binding := Function.update k.binding s none }

/-- It is known what is left of an iterator. -/
def moving (k : Known) (i : Nat) (rest : List (Value × Value)) : Known :=
  { k with rest := Function.update k.rest i rest }

/-- There are more scopes. -/
def covering (k : Known) (scopes : Nat) : Known := { k with scopes := scopes }

/-- What is known after code has run in a scope. If control returned from inside of a loop, then the
scope still binds the name. -/
def after (k : Known) (s : ScopeId) : Option Signal → Known
  | some (.returned _) => k.forget s
  | _ => k

/-- Code may bind the name in a scope that exists, where it is not known to be bound. -/
structure IsOpen (k : Known) (s : ScopeId) : Prop where
  exists_ : s < k.scopes
  free (v : Value) : k.binding s ≠ some (some v)

/-- All that is known is known there as well. -/
structure Part (k k' : Known) : Prop where
  scopes : k.scopes ≤ k'.scopes
  binding {t : ScopeId} {x : Option Value} (h : k.binding t = some x) : k'.binding t = some x
  rest : k.rest = k'.rest

variable {k k' k'' : Known} {s t : ScopeId} {x : Option Value}

theorem Part.refl (k : Known) : k.Part k := ⟨Nat.le_refl _, id, rfl⟩

theorem Part.trans (h : k.Part k') (h' : k'.Part k'') : k.Part k'' :=
  ⟨h.scopes.trans h'.scopes, fun hk ↦ h'.binding (h.binding hk), h.rest.trans h'.rest⟩

@[simp] theorem binding_learn_self (k : Known) (s : ScopeId) (x : Option Value) :
    (k.learn s x).binding s = some x :=
  Function.update_self ..

@[simp] theorem learn_learn (k : Known) (s : ScopeId) (x y : Option Value) :
    (k.learn s x).learn s y = k.learn s y := by
  simp [learn]

@[simp] theorem forget_learn (k : Known) (s : ScopeId) (x : Option Value) :
    (k.learn s x).forget s = k.forget s := by
  simp [learn, forget]

theorem binding_learn_of_ne (hne : t ≠ s) (x : Option Value) :
    (k.learn s x).binding t = k.binding t :=
  Function.update_of_ne hne ..

@[simp] theorem binding_forget_self (k : Known) (s : ScopeId) : (k.forget s).binding s = none :=
  Function.update_self ..

theorem binding_forget_eq_some :
    (k.forget s).binding t = some x ↔ t ≠ s ∧ k.binding t = some x := by
  simp only [forget, Function.update_apply]
  split
  · next heq => simp [heq]
  · next hne => simp [hne]

theorem forget_part (k : Known) (s : ScopeId) : (k.forget s).Part k :=
  ⟨Nat.le_refl _, fun h ↦ (binding_forget_eq_some.mp h).2, rfl⟩

theorem after_part (k : Known) (s : ScopeId) (left : Option Signal) : (k.after s left).Part k := by
  match left with
  | some (.returned _) => exact k.forget_part s
  | none | some .broke | some .continued => exact .refl k

/-- Nothing is known of what a scope binds that is open to code, or nothing is bound. -/
theorem IsOpen.part_learn (h : k.IsOpen s) : k.Part (k.learn s none) where
  scopes := Nat.le_refl _
  binding {t x} ht := by
    by_cases hts : t = s
    · subst hts
      cases x with
      | none => exact binding_learn_self ..
      | some v => exact absurd ht (h.free v)
    · rw [binding_learn_of_ne hts, ht]
  rest := rfl

/-- After work in a scope that nothing was known of, all is known that was. -/
theorem Part.after (h : k.Part k') (ht : k.binding t = none) (left : Option Signal) :
    k.Part (k'.after t left) := by
  match left with
  | none | some .broke | some .continued => exact h
  | some (.returned _) =>
    refine ⟨h.scopes, fun {u x} hu ↦ binding_forget_eq_some.mpr ⟨?_, h.binding hu⟩, h.rest⟩
    rintro rfl
    rw [ht] at hu
    cases hu

end Known

namespace Guard

variable (g : Guard)

/-- Everything but the iterators that are watched. -/
def region : Region := ⟨fun _ ↦ True, fun i ↦ ¬g.watched i⟩

/-- A value that does not lead to an iterator that is watched, with functions whose bodies use the
hidden name only to keep iterators of their own. -/
def Holds (v : Value) : Prop := v.Within g.region ∧ v.All (·.HasBody (Veiled g.name .whole))

end Guard

/-- The machine is as the guard says, and as it is known. -/
structure Machine.Guarded (g : Guard) (k : Known) (m : Machine) : Prop where
  stack (s : ScopeId) : ∀ v ∈ m.heap.stack s, g.Holds v
  own {s : ScopeId} {name : String} {v : Value} (hname : name ≠ g.name)
    (hv : m.heap.own? s name = some v) : g.Holds v
  pairs (i : Nat) : ∀ p ∈ m.iterators.getD i [], g.Holds p.1 ∧ g.Holds p.2
  distinct (s : ScopeId) : Assoc.Distinct (m.heap.scope s).bindings
  scopes : k.scopes ≤ m.heap.nextScope
  known {s : ScopeId} {x : Option Value} (h : k.binding s = some x) :
    s < m.heap.nextScope ∧ m.heap.own? s g.name = x
  cursor {i : Nat} (hi : g.watched i) : m.iterators[i]? = some (k.rest i)

namespace Value

variable {V V' : Value → Prop}

theorem Made.and (h : Value.Made V) (h' : Value.Made V') : Value.Made fun v ↦ V v ∧ V' v where
  plain hv := ⟨h.plain hv, h'.plain hv⟩
  empty := ⟨h.empty, h'.empty⟩
  entry ht he := ⟨h.entry ht.1 he, h'.entry ht.2 he⟩
  insert ht hkey hv := ⟨h.insert ht.1 hkey hv.1, h'.insert ht.2 hkey hv.2⟩
  erase ht key := ⟨h.erase ht.1 key, h'.erase ht.2 key⟩

theorem made_all (F : ScriptFunction → Prop) : Value.Made (Value.All F) where
  plain {v} hv := by
    cases v with
    | number _ | bool _ | text _ | foreign _ => trivial
    | table _ | script _ | native _ => exact hv.elim
  empty := trivial
  entry ht he := all_table.mp ht _ he
  insert ht _ hv := all_table.mpr (Assoc.forall_insert (all_table.mp ht) hv)
  erase ht key := all_table.mpr (Assoc.forall_erase (all_table.mp ht) key)

end Value

theorem Guard.made_holds (g : Guard) : Value.Made g.Holds :=
  (Value.Within.sealed g.region).toMade.and (Value.made_all _)

namespace Machine.Guarded

variable {g : Guard} {k k' : Known} {m : Machine} {s t : ScopeId} {v : Value}

theorem mono (h : m.Guarded g k') (hk : k.Part k') : m.Guarded g k where
  stack := h.stack
  own := h.own
  pairs := h.pairs
  distinct := h.distinct
  scopes := hk.scopes.trans h.scopes
  known hx := h.known (hk.binding hx)
  cursor hi := hk.rest ▸ h.cursor hi

theorem learn (h : m.Guarded g k) (hs : s < m.heap.nextScope) {x : Option Value}
    (hown : m.heap.own? s g.name = x) : m.Guarded g (k.learn s x) where
  stack := h.stack
  own := h.own
  pairs := h.pairs
  distinct := h.distinct
  scopes := h.scopes
  known {t y} ht := by
    by_cases hts : t = s
    · subst hts
      rw [Known.binding_learn_self] at ht
      obtain rfl := Option.some.inj ht
      exact ⟨hs, hown⟩
    · rw [Known.binding_learn_of_ne hts] at ht
      exact h.known ht
  cursor := h.cursor

theorem lookup (h : m.Guarded g k) {name : String} (hname : name ≠ g.name)
    (hv : m.heap.lookup s name = some v) : g.Holds v := by
  obtain ⟨o, -, hget⟩ := Option.bind_eq_some_iff.mp hv
  exact h.own hname hget

theorem congr (h : m.Guarded g k) {m' : Machine} (hheap : m'.heap = m.heap)
    (hiterators : m'.iterators = m.iterators) : m'.Guarded g k where
  stack := hheap ▸ h.stack
  own := hheap ▸ h.own
  pairs := hiterators ▸ h.pairs
  distinct := hheap ▸ h.distinct
  scopes := hheap ▸ h.scopes
  known := hheap ▸ h.known
  cursor := hiterators ▸ h.cursor

/-! ### Scopes -/

theorem setStack (h : m.Guarded g k) (s : ScopeId) {values : List Value}
    (hvalues : ∀ v ∈ values, g.Holds v) :
    Machine.Guarded g k { m with heap := m.heap.setStack s values } where
  stack t := by
    simp only [Heap.stack, Heap.setStack, Heap.scope_modify]
    split
    · exact hvalues
    · exact h.stack t
  own hname hv := h.own hname (Heap.own?_setStack .. ▸ hv)
  pairs := h.pairs
  distinct t := by
    simp only [Heap.setStack, Heap.scope_modify]
    split <;> exact h.distinct t
  scopes := by simpa using h.scopes
  known hx := by simpa using h.known hx
  cursor := h.cursor

theorem pop (h : m.Guarded g k) {rest : List Value} (hstack : m.heap.stack s = v :: rest) :
    Machine.Guarded g k { m with heap := m.heap.setStack s rest } ∧ g.Holds v := by
  have hall := h.stack s
  rw [hstack, List.forall_mem_cons] at hall
  exact ⟨h.setStack s hall.2, hall.1⟩

theorem push (h : m.Guarded g k) (s : ScopeId) (hv : g.Holds v) :
    Machine.Guarded g k { m with heap := m.heap.push s v } := by
  rw [Heap.push_eq_setStack]
  exact h.setStack s (List.forall_mem_cons.mpr ⟨hv, h.stack s⟩)

theorem distinct_modify (h : m.Guarded g k) (s t : ScopeId) {f : Scope → Scope}
    (hf : Assoc.Distinct (f (m.heap.scope t)).bindings) :
    Assoc.Distinct ((m.heap.modify s f).scope t).bindings := by
  rw [Heap.scope_modify]
  split
  · exact hf
  · exact h.distinct t

/-- A name is bound. If it is the hidden one, then nothing may be known of the scope. -/
theorem declare (h : m.Guarded g k) (s : ScopeId) {name : String}
    (hs : name = g.name → k.binding s = none) (hv : name ≠ g.name → g.Holds v) :
    Machine.Guarded g k { m with heap := m.heap.declare s name v } where
  stack t := by simpa using h.stack t
  own {t n w} hn hw := by
    rw [Heap.own?_declare] at hw
    split at hw
    · next heq =>
      cases hw
      exact hv (heq.2.2 ▸ hn)
    · exact h.own hn hw
  pairs := h.pairs
  distinct t := h.distinct_modify s t ((h.distinct t).insert name v)
  scopes := by simpa using h.scopes
  known {t x} hx := by
    obtain ⟨ht, hown⟩ := h.known hx
    -- nothing was known of a scope that binds the hidden name here
    have hother : ¬(s = t ∧ t < m.heap.nextScope ∧ name = g.name) := by
      rintro ⟨rfl, -, hname⟩
      rw [hs hname] at hx
      cases hx
    rw [Heap.own?_declare, if_neg hother]
    exact ⟨by simpa using ht, hown⟩
  cursor := h.cursor

/-- A name is no longer bound. If it is the hidden one, then nothing may be known of the scope. -/
theorem undeclare (h : m.Guarded g k) (s : ScopeId) {name : String}
    (hs : name = g.name → k.binding s = none) :
    Machine.Guarded g k { m with heap := m.heap.undeclare s name } where
  stack t := by simpa using h.stack t
  own {t n w} hn hw := by
    rw [Heap.own?_undeclare (h.distinct t)] at hw
    split at hw
    · cases hw
    · exact h.own hn hw
  pairs := h.pairs
  distinct t := h.distinct_modify s t ((h.distinct t).erase name)
  scopes := by simpa using h.scopes
  known {t x} hx := by
    obtain ⟨ht, hown⟩ := h.known hx
    have hother : ¬(s = t ∧ name = g.name) := by
      rintro ⟨rfl, hname⟩
      rw [hs hname] at hx
      cases hx
    rw [Heap.own?_undeclare (h.distinct t), if_neg hother]
    exact ⟨by simpa using ht, hown⟩
  cursor := h.cursor

/-- What was known of a scope is forgotten and learned anew. -/
theorem relearn (h : m.Guarded g (k.forget s)) (hs : s < m.heap.nextScope) {x : Option Value}
    (hown : m.heap.own? s g.name = x) : m.Guarded g (k.learn s x) := by
  refine (h.learn hs hown).mono ⟨Nat.le_refl _, fun {t y} ht ↦ ?_, rfl⟩
  by_cases hts : t = s
  · subst hts
    rw [Known.binding_learn_self] at ht ⊢
    exact ht
  · rw [Known.binding_learn_of_ne hts] at ht ⊢
    exact Known.binding_forget_eq_some.mpr ⟨hts, ht⟩

theorem hide (h : m.Guarded g k) (hs : s < m.heap.nextScope) (v : Value) :
    Machine.Guarded g (k.learn s (some v)) { m with heap := m.heap.declare s g.name v } := by
  have hdeclared : Machine.Guarded g (k.forget s) { m with heap := m.heap.declare s g.name v } :=
    (h.mono (k.forget_part s)).declare s (fun _ ↦ k.binding_forget_self s) (absurd rfl)
  exact hdeclared.relearn (by simpa using hs) (Heap.own?_declare_self hs _ v)

theorem reveal (h : m.Guarded g k) (hs : s < m.heap.nextScope) :
    Machine.Guarded g (k.learn s none) { m with heap := m.heap.undeclare s g.name } := by
  have hundeclared : Machine.Guarded g (k.forget s) { m with heap := m.heap.undeclare s g.name } :=
    (h.mono (k.forget_part s)).undeclare s fun _ ↦ k.binding_forget_self s
  refine hundeclared.relearn (by simpa using hs) ?_
  rw [Heap.own?_undeclare (h.distinct s), if_pos ⟨rfl, rfl⟩]

theorem fresh (h : m.Guarded g k) : k.binding m.heap.nextScope = none := by
  cases hx : k.binding m.heap.nextScope with
  | none => rfl
  | some x => exact absurd (h.known hx).1 (Nat.lt_irrefl _)

theorem nest (h : m.Guarded g k) (parent : ScopeId) :
    (m.nest parent).Guarded g (k.covering (m.heap.nextScope + 1)) where
  stack t := by
    simp only [Machine.nest, Heap.stack, Heap.scope_addChild]
    split
    · exact List.forall_mem_nil _
    · exact h.stack t
  own {t n v} hn hv := by
    by_cases ht : t = m.heap.nextScope
    · subst ht
      rw [Machine.nest, Heap.own?_addChild_self] at hv
      cases hv
    · refine h.own hn (s := t) ?_
      simpa [Machine.nest, Heap.own?, Heap.scope_addChild, ht] using hv
  pairs := h.pairs
  distinct t := by
    simp only [Machine.nest, Heap.scope_addChild]
    split
    · exact .nil
    · exact h.distinct t
  scopes := by simp [Machine.nest, Known.covering]
  known {t x} hx := by
    obtain ⟨ht, hown⟩ := h.known hx
    rw [Machine.nest, Heap.own?_addChild_of_lt _ ht, Heap.nextScope_addChild]
    exact ⟨ht.trans (Nat.lt_succ_self _), hown⟩
  cursor := h.cursor

/-- What is kept in a scope is found from a scope right inside it that does not bind the name. -/
theorem lookup_kept (h : m.Guarded g k) (hs : k.binding s = some (some v))
    (ht : k.binding t = some none) {outer : List ScopeId}
    (houter : (m.heap.scope t).outer = s :: outer) : m.heap.lookup t g.name = some v := by
  have hown := (h.known hs).2
  have howner : m.heap.owner? t g.name = some s := by
    refine Heap.owner?_of_own? [t] outer ?_ ?_ hown
    · rw [Heap.chain, houter]
      rfl
    · simpa using (h.known ht).2
  rw [Heap.lookup_of_owner? howner, hown]

theorem part_covering (h : m.Guarded g k) : k.Part (k.covering (m.heap.nextScope + 1)) :=
  ⟨h.scopes.trans (Nat.le_succ _), id, rfl⟩

theorem isOpen_covering (h : m.Guarded g k) :
    (k.covering (m.heap.nextScope + 1)).IsOpen m.heap.nextScope where
  exists_ := Nat.lt_succ_self _
  free _ hv := nomatch h.fresh.symm.trans hv

/-! ### Iterators -/

/-- A new iterator is not one of those that are watched. -/
theorem not_watched_size (h : m.Guarded g k) : ¬g.watched m.iterators.size := by
  intro hi
  obtain ⟨hlt, -⟩ := Array.getElem?_eq_some_iff.mp (h.cursor hi)
  exact Nat.lt_irrefl _ hlt

theorem pushIterator (h : m.Guarded g k) {pairs : List (Value × Value)}
    (hpairs : ∀ p ∈ pairs, g.Holds p.1 ∧ g.Holds p.2) :
    Machine.Guarded g k { m with iterators := m.iterators.push pairs } where
  stack := h.stack
  own := h.own
  pairs i := forall_mem_getD_push (h.pairs i) hpairs
  distinct := h.distinct
  scopes := h.scopes
  known := h.known
  cursor {i} hi := by
    have hne : i ≠ m.iterators.size := by
      rintro rfl
      exact h.not_watched_size hi
    rw [Array.getElem?_push, if_neg hne, h.cursor hi]

theorem setIterator (h : m.Guarded g k) (i : Nat) {pairs : List (Value × Value)}
    (hpairs : ∀ p ∈ pairs, g.Holds p.1 ∧ g.Holds p.2) :
    Machine.Guarded g (k.moving i pairs)
      { m with iterators := m.iterators.setIfInBounds i pairs } where
  stack := h.stack
  own := h.own
  pairs j := forall_mem_getD_set i (h.pairs j) hpairs
  distinct := h.distinct
  scopes := h.scopes
  known := h.known
  cursor {j} hj := by
    obtain ⟨hlt, -⟩ := Array.getElem?_eq_some_iff.mp (h.cursor hj)
    by_cases hji : j = i
    · subst hji
      simp [Known.moving, hlt]
    · simp [Known.moving, Ne.symm hji, Function.update_of_ne hji, h.cursor hj]

/-- Iterators are watched from now on that nothing leads to. -/
theorem watch (h : m.Guarded g k) {g' : Guard} (hname : g'.name = g.name)
    (hwithin : m.Holds (Value.Within g'.region)) (rest : Nat → List (Value × Value))
    (hcursor : ∀ i, g'.watched i → m.iterators[i]? = some (rest i)) :
    m.Guarded g' { k with rest := rest } where
  stack s v hv := ⟨hwithin.stack s v hv, hname ▸ (h.stack s v hv).2⟩
  own {s _ _} hn hv :=
    ⟨Assoc.forall_of_get? (hwithin.bindings s) hv, hname ▸ (h.own (hname ▸ hn) hv).2⟩
  pairs i p hp :=
    have hall := h.pairs i p hp
    have hin := hwithin.iterators i p hp
    ⟨⟨hin.1, hname ▸ hall.1.2⟩, hin.2, hname ▸ hall.2.2⟩
  distinct := h.distinct
  scopes := h.scopes
  known hx := hname ▸ h.known hx
  cursor hi := hcursor _ hi

theorem congr_rest (h : m.Guarded g k) {rest : Nat → List (Value × Value)}
    (hrest : ∀ i, g.watched i → k.rest i = rest i) : m.Guarded g { k with rest := rest } where
  stack := h.stack
  own := h.own
  pairs := h.pairs
  distinct := h.distinct
  scopes := h.scopes
  known := h.known
  cursor hi := (h.cursor hi).trans (congrArg some (hrest _ hi))

end Machine.Guarded

/-! ## Instructions -/

/-- A judgment on operations: a machine that is guarded stays so, with what is known of it. -/
structure Exec.Guards (g : Guard) (k : Known) {α : Type} (Q : α → Prop) (x : Exec α) : Prop where
  ends {m : Machine} (hm : m.Guarded g k) :
    Ends (fun a m' ↦ m'.Guarded g k ∧ Q a) (fun _ _ ↦ True) (x m)

namespace Exec

theorem Guards.modify {g : Guard} {k : Known} {f : Machine → Machine}
    (hheap : ∀ m, (f m).heap = m.heap) (hiterators : ∀ m, (f m).iterators = m.iterators) :
    Guards g k (fun _ ↦ True) (modify f) :=
  ⟨fun {m} hm ↦ .ok ⟨hm.congr (hheap m) (hiterators m), trivial⟩⟩

theorem guards_nextPair {g : Guard} {k : Known} {i : Nat} (hi : ¬g.watched i) :
    Guards g k (fun p ↦ g.Holds p.1 ∧ g.Holds p.2) (nextPair i) := by
  have hnull := g.made_holds.text "null"
  refine ⟨fun hm ↦ .nextPair (fun p rest hiterator ↦ ?_) ⟨hm, hnull, hnull⟩⟩
  have hpairs := hm.pairs i
  rw [hiterator, List.forall_mem_cons] at hpairs
  refine ⟨(hm.setIterator i hpairs.2).congr_rest fun j hj ↦ Function.update_of_ne ?_ .., hpairs.1⟩
  rintro rfl
  exact hi hj

/-- Instructions leave a machine guarded if they use other names than the hidden one, in whatever
scope they work. -/
theorem stepRules_guards (g : Guard) (k : Known) :
    StepRules (· ≠ g.name) (fun _ ↦ True) g.Holds (Guards g k) where
  toMade := g.made_holds
  methods {object name} hname := by
    -- methods are looked up under names, and the hidden name is none
    have hword : IsName name := by
      cases object <;> cases hname <;> decide
    exact fun heq ↦ g.hidden (heq ▸ hword)
  pure ha := ⟨fun hm ↦ .ok ⟨hm, ha⟩⟩
  bind hx hf := ⟨fun hm ↦ (hx.ends hm).bind fun a _ h ↦ (hf a h.2).ends h.1⟩
  fail _ := ⟨fun _ ↦ .error trivial⟩
  get := ⟨fun hm ↦ .ok ⟨hm, fun _ hname _ hv ↦ hm.lookup hname hv⟩⟩
  push {s} _ _ hv := ⟨fun hm ↦ .push (fun _ ↦ ⟨hm.push s hv, trivial⟩) trivial⟩
  pop _ := ⟨fun hm ↦ .pop (fun _ _ ↦ hm.pop) trivial⟩
  popOrNull _ := ⟨fun hm ↦ .popOrNull (fun _ _ ↦ hm.pop) ⟨hm, g.made_holds.text _⟩⟩
  takeTop {s} _ count := by
    refine ⟨fun hm ↦ .takeTop ⟨hm.setStack s fun v hv ↦ ?_, fun v hv ↦ ?_⟩ trivial⟩
    · exact hm.stack s v (List.mem_of_mem_drop hv)
    · exact hm.stack s v (List.mem_of_mem_take (List.mem_reverse.mp hv))
  drain {s} _ := ⟨fun hm ↦ .ok ⟨hm.setStack s (List.forall_mem_nil _), trivial⟩⟩
  declare {s} _ _ hname _ hv := ⟨fun hm ↦ .ok ⟨hm.declare s (absurd · hname) fun _ ↦ hv, trivial⟩⟩
  lookup _ _ hname := ⟨fun hm ↦ .lookup (fun _ hv ↦ ⟨hm, hm.lookup hname hv⟩) trivial⟩
  assign _ _ hname _ hv :=
    ⟨fun hm ↦ .assign (fun o _ ↦ ⟨hm.declare o (absurd · hname) fun _ ↦ hv, trivial⟩) ⟨hm, trivial⟩⟩
  remove _ _ hname :=
    ⟨fun hm ↦ .remove (fun o _ ↦ ⟨hm.undeclare o (absurd · hname), trivial⟩) trivial⟩
  ask _ := ⟨fun hm ↦ .ask ⟨hm.congr rfl rfl, trivial⟩ fun _ ↦ trivial⟩
  freshIdentity := ⟨fun hm ↦ .ok ⟨hm.congr rfl rfl, trivial⟩⟩
  addLibrary _ := .modify (fun _ ↦ rfl) fun _ ↦ rfl
  newIterator hpairs := by
    -- a new iterator is none of those that are watched
    refine ⟨fun hm ↦ .ok ⟨hm.pushIterator hpairs, ⟨.native fun i hi ↦ ?_, trivial⟩,
      .native fun i hi ↦ ?_, trivial⟩⟩
    · exact Option.some.inj hi ▸ hm.not_watched_size
    · exact Option.some.inj hi ▸ hm.not_watched_size
  nextOfString hi := guards_nextPair (hi.1.iterator rfl)
  nextOfTable hi := guards_nextPair (hi.1.iterator rfl)
  mark _ := .modify (fun _ ↦ rfl) fun _ ↦ rfl
  argumentCount _ := ⟨fun hm ↦ .argumentCount (fun _ _ ↦ ⟨hm.congr rfl rfl, trivial⟩) ⟨hm, trivial⟩⟩

end Exec

end GemLang
