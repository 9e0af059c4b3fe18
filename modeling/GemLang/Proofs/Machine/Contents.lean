import GemLang.Machine.Native
import GemLang.Proofs.Machine.Heap

/-!
# The values in a machine

Values live on stacks, in bindings and in what is left of iterators. `Machine.Holds P` says that all
of them satisfy `P`, and every change of a machine keeps that as long as the values that it brings
in satisfy `P` too.
-/

namespace GemLang

/-! ## Iterators -/

section

variable {α : Type} {P : α → Prop} {lists : Array (List α)} {i : Nat} {list : List α}

theorem forall_mem_getD_push (h : ∀ a ∈ lists.getD i [], P a) (hlist : ∀ a ∈ list, P a) :
    ∀ a ∈ (lists.push list).getD i [], P a := by
  simp only [Array.getD_eq_getD_getElem?, Array.getElem?_push] at h ⊢
  split
  · exact hlist
  · exact h

theorem forall_mem_getD_set (k : Nat) (h : ∀ a ∈ lists.getD i [], P a) (hlist : ∀ a ∈ list, P a) :
    ∀ a ∈ (lists.setIfInBounds k list).getD i [], P a := by
  simp only [Array.getD_eq_getD_getElem?, Array.getElem?_setIfInBounds] at h ⊢
  split
  · split
    · exact hlist
    · exact List.forall_mem_nil _
  · exact h

end

/-! ## Machines -/

variable {P : Value → Prop}

/-- Every value in a machine satisfies `P`. -/
structure Machine.Holds (P : Value → Prop) (m : Machine) : Prop where
  stack (s : Nat) : ∀ v ∈ m.heap.stack s, P v
  bindings (s : Nat) : ∀ e ∈ (m.heap.scope s).bindings, P e.2
  iterators (i : Nat) : ∀ p ∈ m.iterators.getD i [], P p.1 ∧ P p.2

namespace Machine.Holds

variable {m : Machine} {Q : Value → Prop}

theorem mono (h : m.Holds P) (hP : ∀ v, P v → Q v) : m.Holds Q where
  stack s v hv := hP v (h.stack s v hv)
  bindings s e he := hP e.2 (h.bindings s e he)
  iterators i p hp := (h.iterators i p hp).imp (hP p.1) (hP p.2)

theorem of_forall (hP : ∀ v, P v) (m : Machine) : m.Holds P :=
  ⟨fun _ v _ ↦ hP v, fun _ e _ ↦ hP e.2, fun _ p _ ↦ ⟨hP p.1, hP p.2⟩⟩

theorem modify (h : m.Holds P) (s : Nat) {f : Scope → Scope}
    (hstack : ∀ v ∈ (f (m.heap.scope s)).stack, P v)
    (hbindings : ∀ e ∈ (f (m.heap.scope s)).bindings, P e.2) :
    Machine.Holds P { m with heap := m.heap.modify s f } where
  stack t := by
    simp only [Heap.stack, Heap.scope_modify]
    split
    · next heq => exact heq.1 ▸ hstack
    · exact h.stack t
  bindings t := by
    simp only [Heap.scope_modify]
    split
    · next heq => exact heq.1 ▸ hbindings
    · exact h.bindings t
  iterators := h.iterators

theorem setStack (h : m.Holds P) (s : Nat) {values : List Value} (hvalues : ∀ v ∈ values, P v) :
    Machine.Holds P { m with heap := m.heap.setStack s values } :=
  h.modify s hvalues (h.bindings s)

theorem pop (h : m.Holds P) {s : Nat} {v : Value} {rest : List Value}
    (hstack : m.heap.stack s = v :: rest) :
    Machine.Holds P { m with heap := m.heap.setStack s rest } ∧ P v := by
  have hall := h.stack s
  rw [hstack, List.forall_mem_cons] at hall
  exact ⟨h.setStack s hall.2, hall.1⟩

theorem push (h : m.Holds P) (s : Nat) {v : Value} (hv : P v) :
    Machine.Holds P { m with heap := m.heap.push s v } :=
  h.modify s (List.forall_mem_cons.mpr ⟨hv, h.stack s⟩) (h.bindings s)

theorem declare (h : m.Holds P) (s : Nat) (name : String) {v : Value} (hv : P v) :
    Machine.Holds P { m with heap := m.heap.declare s name v } :=
  h.modify s (h.stack s) (Assoc.forall_insert (h.bindings s) hv)

theorem undeclare (h : m.Holds P) (s : Nat) (name : String) :
    Machine.Holds P { m with heap := m.heap.undeclare s name } :=
  h.modify s (h.stack s) (Assoc.forall_erase (h.bindings s) name)

theorem addChild (h : m.Holds P) (parent : Nat) :
    Machine.Holds P { m with heap := m.heap.addChild parent } where
  stack t := by
    simp only [Heap.stack, Heap.scope_addChild]
    split
    · exact List.forall_mem_nil _
    · exact h.stack t
  bindings t := by
    simp only [Heap.scope_addChild]
    split
    · exact List.forall_mem_nil _
    · exact h.bindings t
  iterators := h.iterators

theorem lookup (h : m.Holds P) {s : Nat} {name : String} {v : Value}
    (hv : m.heap.lookup s name = some v) : P v := by
  obtain ⟨o, -, hget⟩ := Option.bind_eq_some_iff.mp hv
  exact Assoc.forall_of_get? (h.bindings o) hget

theorem congr (h : m.Holds P) {m' : Machine} (hheap : m'.heap = m.heap)
    (hiterators : m'.iterators = m.iterators) : m'.Holds P :=
  ⟨hheap ▸ h.stack, hheap ▸ h.bindings, hiterators ▸ h.iterators⟩

theorem pushIterator (h : m.Holds P) {pairs : List (Value × Value)}
    (hpairs : ∀ p ∈ pairs, P p.1 ∧ P p.2) :
    Machine.Holds P { m with iterators := m.iterators.push pairs } where
  stack := h.stack
  bindings := h.bindings
  iterators i := forall_mem_getD_push (h.iterators i) hpairs

theorem setIterator (h : m.Holds P) (iterator : Nat) {pairs : List (Value × Value)}
    (hpairs : ∀ p ∈ pairs, P p.1 ∧ P p.2) :
    Machine.Holds P { m with iterators := m.iterators.setIfInBounds iterator pairs } where
  stack := h.stack
  bindings := h.bindings
  iterators i := forall_mem_getD_set iterator (h.iterators i) hpairs

end Machine.Holds

theorem Machine.holds_start (hglobals : ∀ e ∈ globals, P e.2) (config : Config)
    (host : Host) : (Machine.start config host).Holds P := by
  have hscope (s : ScopeId) : (Machine.start config host).heap.scope s = ⟨[], globals, []⟩ ∨
      (Machine.start config host).heap.scope s = Scope.empty [] := by
    cases s with
    | zero => exact .inl rfl
    | succ s => exact .inr rfl
  refine ⟨fun s ↦ ?_, fun s ↦ ?_, fun i ↦ ?_⟩
  · rcases hscope s with hs | hs <;> simp [Heap.stack, hs, Scope.empty]
  · rcases hscope s with hs | hs
    · rw [hs]
      exact hglobals
    · rw [hs]
      exact List.forall_mem_nil _
  · simp [Machine.start]

/-! ## Taking pairs from iterators -/

theorem Exec.nextPair_of_nil {m : Machine} {iterator : Nat}
    (h : m.iterators.getD iterator [] = []) : nextPair iterator m = .ok (.null, .null) m := by
  simp only [nextPair, modifyGet, MonadStateOf.modifyGet, EStateM.modifyGet, h]

theorem Exec.nextPair_of_cons {m : Machine} {iterator : Nat} {pair : Value × Value}
    {rest : List (Value × Value)} (h : m.iterators.getD iterator [] = pair :: rest) :
    nextPair iterator m =
      .ok pair { m with iterators := m.iterators.setIfInBounds iterator rest } := by
  simp only [nextPair, modifyGet, MonadStateOf.modifyGet, EStateM.modifyGet, h]

theorem Exec.nextPair_eq {m : Machine} {i : Nat} {pairs : List (Value × Value)}
    (h : m.iterators[i]? = some pairs) : nextPair i m =
      .ok (pairs.head?.getD (.null, .null))
        { m with iterators := m.iterators.setIfInBounds i pairs.tail } := by
  have hget : m.iterators.getD i [] = pairs := by
    rw [Array.getD_eq_getD_getElem?, h, Option.getD_some]
  cases pairs with
  | nil =>
    have hset : m.iterators.setIfInBounds i [] = m.iterators := by
      refine Array.ext_getElem? fun j ↦ ?_
      rw [Array.getElem?_setIfInBounds]
      split
      · next heq =>
        obtain ⟨hlt, -⟩ := Array.getElem?_eq_some_iff.mp h
        rw [if_pos hlt, ← heq, h]
      · rfl
    rw [nextPair_of_nil hget, List.tail_nil, hset]
    rfl
  | cons pair rest => exact nextPair_of_cons hget

end GemLang
