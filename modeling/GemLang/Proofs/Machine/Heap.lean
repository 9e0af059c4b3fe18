import GemLang.Proofs.Table.Entries
import GemLang.Scope

/-!
# Reading a changed heap

Every change of a heap is a change of one scope or a new scope at its end. What is read afterwards
is said here once for each kind of change; that other scopes are untouched is part of it.
-/

namespace GemLang.Heap

variable {h : Heap} {s t : Nat}

/-! ## Scopes -/

theorem scope_modify (h : Heap) (s t : Nat) (f : Scope → Scope) :
    (h.modify s f).scope t = if s = t ∧ t < h.nextScope then f (h.scope t) else h.scope t := by
  by_cases ht : t < h.scopes.size
  · simp only [scope, modify, nextScope, Array.getD, Array.size_modify, ht, ↓reduceDIte, and_true]
    split
    · next heq =>
      subst heq
      simp [Array.getElem_modify_self]
    · next hne => simp [Array.getElem_modify_of_ne hne]
  · simp [scope, modify, nextScope, Array.getD, ht]

@[simp] theorem nextScope_modify (h : Heap) (s : Nat) (f : Scope → Scope) :
    (h.modify s f).nextScope = h.nextScope := by
  simp [nextScope, modify]

theorem scope_addChild (h : Heap) (parent t : Nat) :
    (h.addChild parent).scope t =
      if t = h.nextScope then Scope.empty (parent :: (h.scope parent).outer) else h.scope t := by
  by_cases ht : t < h.scopes.size
  · have hne : t ≠ h.scopes.size := by omega
    have hlt : t < h.scopes.size + 1 := by omega
    simp [scope, addChild, nextScope, Array.getD, ht, hne, hlt, Array.getElem_push]
  · by_cases heq : t = h.scopes.size
    · subst heq
      simp [scope, addChild, nextScope, Array.getD]
    · have hge : ¬t < h.scopes.size + 1 := by omega
      simp [scope, addChild, nextScope, Array.getD, ht, heq, hge]

@[simp] theorem nextScope_addChild (h : Heap) (parent : Nat) :
    (h.addChild parent).nextScope = h.nextScope + 1 := by
  simp [nextScope, addChild]

/-! ## Stacks -/

theorem stack_setStack_self (hs : s < h.nextScope) (values : List Value) :
    (h.setStack s values).stack s = values := by
  simp [stack, setStack, scope_modify, hs]

theorem stack_setStack_of_ne (hne : s ≠ t) (values : List Value) :
    (h.setStack s values).stack t = h.stack t := by
  simp [stack, setStack, scope_modify, hne]

@[simp] theorem nextScope_setStack (h : Heap) (s : Nat) (values : List Value) :
    (h.setStack s values).nextScope = h.nextScope :=
  nextScope_modify ..

theorem stack_push_self (hs : s < h.nextScope) (v : Value) :
    (h.push s v).stack s = v :: h.stack s := by
  simp [stack, push, scope_modify, hs]

@[simp] theorem nextScope_push (h : Heap) (s : Nat) (v : Value) :
    (h.push s v).nextScope = h.nextScope :=
  nextScope_modify ..

theorem modify_congr {f g : Scope → Scope} (heq : f (h.scope s) = g (h.scope s)) :
    h.modify s f = h.modify s g := by
  have hsize : (h.modify s f).scopes.size = (h.modify s g).scopes.size := by simp [modify]
  refine congrArg Heap.mk (Array.ext hsize fun t ht ht' ↦ ?_)
  simp only [Array.size_modify] at ht
  simp only [scope, Array.getD] at heq
  simp only [Array.getElem_modify]
  split
  · next hst =>
    subst hst
    simpa [ht] using heq
  · rfl

theorem push_eq_setStack (h : Heap) (s : Nat) (v : Value) :
    h.push s v = h.setStack s (v :: h.stack s) :=
  modify_congr rfl

theorem setStack_setStack (h : Heap) (s : Nat) (values values' : List Value) :
    (h.setStack s values).setStack s values' = h.setStack s values' := by
  simp only [setStack, modify]
  congr 1
  refine Array.ext (by simp) fun t ht ht' ↦ ?_
  simp only [Array.getElem_modify]
  split <;> rfl

theorem setStack_stack (h : Heap) (s : Nat) : h.setStack s (h.stack s) = h := by
  have hid : h.modify s id = h := by
    simp only [modify]
    congr 1
    refine Array.ext (by simp) fun t ht ht' ↦ ?_
    simp [Array.getElem_modify]
  have hset : h.setStack s (h.stack s) = h.modify s id := modify_congr rfl
  rw [hset, hid]

@[simp] theorem stack_declare (h : Heap) (s t : Nat) (name : String) (v : Value) :
    (h.declare s name v).stack t = h.stack t := by
  simp only [stack, declare, scope_modify]
  split <;> rfl

@[simp] theorem nextScope_declare (h : Heap) (s : Nat) (name : String) (v : Value) :
    (h.declare s name v).nextScope = h.nextScope :=
  nextScope_modify ..

@[simp] theorem stack_undeclare (h : Heap) (s t : Nat) (name : String) :
    (h.undeclare s name).stack t = h.stack t := by
  simp only [stack, undeclare, scope_modify]
  split <;> rfl

@[simp] theorem nextScope_undeclare (h : Heap) (s : Nat) (name : String) :
    (h.undeclare s name).nextScope = h.nextScope :=
  nextScope_modify ..

theorem stack_addChild_self (h : Heap) (parent : Nat) :
    (h.addChild parent).stack h.nextScope = [] := by
  simp [stack, scope_addChild, Scope.empty]

theorem stack_addChild_of_lt (parent : Nat) (ht : t < h.nextScope) :
    (h.addChild parent).stack t = h.stack t := by
  simp [stack, scope_addChild, Nat.ne_of_lt ht]

/-! ## Names -/

/-- What a name means depends on bindings and on how scopes stand in each other only. -/
theorem lookup_congr {h' : Heap} (hbindings : ∀ t, (h'.scope t).bindings = (h.scope t).bindings)
    (houter : ∀ t, (h'.scope t).outer = (h.scope t).outer) (s : Nat) (name : String) :
    h'.lookup s name = h.lookup s name := by
  have howner : h'.owner? s name = h.owner? s name := by
    simp only [owner?, chain, binds, hbindings, houter]
  simp only [lookup, howner, hbindings]

@[simp] theorem lookup_setStack (h : Heap) (s t : Nat) (values : List Value) (name : String) :
    (h.setStack s values).lookup t name = h.lookup t name := by
  refine lookup_congr (fun u ↦ ?_) (fun u ↦ ?_) t name
  · simp only [setStack, scope_modify]
    split <;> rfl
  · simp only [setStack, scope_modify]
    split <;> rfl

/-- A name means what it was bound to last in the scope itself. -/
theorem lookup_declare_self (hs : s < h.nextScope) (name : String) (v : Value) :
    (h.declare s name v).lookup s name = some v := by
  have hget : Assoc.get? ((h.declare s name v).scope s).bindings name = some v := by
    simp [declare, scope_modify, hs, Assoc.get?_insert]
  have howner : (h.declare s name v).owner? s name = some s := by
    simp [owner?, chain, binds, Assoc.has, hget]
  rw [lookup, howner]
  exact hget

end GemLang.Heap
