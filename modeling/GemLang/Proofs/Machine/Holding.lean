import GemLang.Proofs.Machine.Rules

/-!
# What all values of a machine have in common

New values are made from those that a machine holds: tables by inserting and removing entries,
everything else from nothing. So a property of values that is `Closed` under the ways to make a
table holds of every value in the machine, once it does.

Which keys an entry can come under is part of being closed: keys that values index with, and
integers, which are also counted up. Holding of all values is a judgment on operations
(`Exec.Maintains`) that obeys the rules by which it goes over to runs (`rules_maintains`).
-/

namespace GemLang

/-! ## Values -/

/-- Values made from values that satisfy `P` satisfy it too. -/
structure Value.Closed (P : Value → Prop) : Prop where
  /-- A value that is no table. -/
  plain {v : Value} (hv : ∀ t, v ≠ .table t) : P v
  empty : P (.table [])
  entry {t : Table} {e : Key × Value} (ht : P (.table t)) (he : e ∈ t) : P e.2
  insert {t : Table} {key : Key} {v : Value} (ht : P (.table t)) (hkey : key.IsProper)
    (hv : P v) : P (.table (Assoc.insert t key v))
  erase {t : Table} (ht : P (.table t)) (key : Key) : P (.table (Assoc.erase t key))

variable {P : Value → Prop}

theorem Value.Closed.sealed (h : Value.Closed P) : Value.Sealed (fun _ ↦ True) P where
  plain hv := h.plain (by rintro t rfl; exact hv)
  script _ := h.plain nofun
  home _ := trivial
  empty := h.empty
  entry := h.entry
  insert := h.insert
  erase := h.erase

/-! ## Operations -/

/-- Where all values satisfy `P`, they still do after an operation, however it ends, and a result
satisfies `Q`. -/
structure Exec.Maintains (P : Value → Prop) {α : Type} (Q : α → Prop) (x : Exec α) : Prop where
  ends {m : Machine} : m.Holds P →
    Exec.Ends (fun a m' ↦ m'.Holds P ∧ Q a) (fun _ m' ↦ m'.Holds P) (x m)

namespace Exec

namespace Maintains

variable {α β : Type} {Q : α → Prop} {R : β → Prop}

theorem pure {a : α} (h : Q a) : Maintains P Q (pure a) := ⟨fun hm ↦ .ok ⟨hm, h⟩⟩

theorem bind {x : Exec α} {f : α → Exec β} (hx : Maintains P Q x)
    (hf : ∀ a, Q a → Maintains P R (f a)) : Maintains P R (x >>= f) :=
  ⟨fun hm ↦ (hx.ends hm).bind fun a _ h ↦ (hf a h.2).ends h.1⟩

theorem fail (e : Error) : Maintains P Q (fail e) := ⟨fun hm ↦ .error hm⟩

theorem counted {x : Exec α} (hx : Maintains P Q x) : Maintains P Q (counted x) := by
  refine ⟨fun {m} hm ↦ ?_⟩
  have hcounted : Machine.Holds P { m with callDepth := m.callDepth + 1 } := hm.congr rfl rfl
  exact (hx.ends hcounted).counted (fun _ _ h ↦ ⟨h.1.congr rfl rfl, h.2⟩)
    fun _ _ h ↦ h.congr rfl rfl

theorem limited {x : Exec α} (hx : Maintains P Q x) : Maintains P Q (limited x) :=
  ⟨fun hm ↦ (hx.ends hm).limited hm⟩

theorem flushed {x : Exec α} (hx : Maintains P Q x) : Maintains P Q (flushed x) := by
  refine ⟨fun {m} hm ↦ (hx.ends hm).flushed (fun _ _ h ↦ ⟨h.1.congr rfl rfl, h.2⟩)
    (fun _ _ h ↦ h.congr rfl rfl) (fun _ h ↦ h) ?_⟩
  rintro reason m' (⟨_, h, _⟩ | ⟨_, h⟩) <;> exact h.congr rfl rfl

theorem modify {f : Machine → Machine} (hheap : ∀ m, (f m).heap = m.heap)
    (hiterators : ∀ m, (f m).iterators = m.iterators) :
    Maintains P (fun _ ↦ True) (modify f) :=
  ⟨fun {m} hm ↦ .ok ⟨hm.congr (hheap m) (hiterators m), trivial⟩⟩

end Maintains

theorem maintains_get : Maintains P (Machine.MethodsHold (fun _ ↦ True) P) get :=
  ⟨fun hm ↦ .ok ⟨hm, fun _ _ _ hv ↦ hm.lookup hv⟩⟩

theorem maintains_newScope (parent : ScopeId) :
    Maintains P (fun _ ↦ True) (newScope parent) :=
  ⟨fun hm ↦ .ok ⟨hm.addChild parent, trivial⟩⟩

theorem maintains_push (s : ScopeId) {v : Value} (hv : P v) :
    Maintains P (fun _ ↦ True) (push s v) :=
  ⟨fun hm ↦ .push (fun _ ↦ ⟨hm.push s hv, trivial⟩) hm⟩

theorem maintains_pop (s : ScopeId) : Maintains P P (pop s) :=
  ⟨fun hm ↦ .pop (fun _ _ ↦ hm.pop) hm⟩

theorem maintains_popOrNull (h : Value.Closed P) (s : ScopeId) : Maintains P P (popOrNull s) :=
  ⟨fun hm ↦ .popOrNull (fun _ _ ↦ hm.pop) ⟨hm, h.plain nofun⟩⟩

theorem maintains_takeTop (s : ScopeId) (count : Nat) :
    Maintains P (fun vs ↦ ∀ v ∈ vs, P v) (takeTop s count) := by
  refine ⟨fun {m} hm ↦ .takeTop ⟨hm.setStack s fun v hv ↦ ?_, fun v hv ↦ ?_⟩ hm⟩
  · exact hm.stack s v (List.mem_of_mem_drop hv)
  · exact hm.stack s v (List.mem_of_mem_take (List.mem_reverse.mp hv))

theorem maintains_drain (s : ScopeId) : Maintains P (fun _ ↦ True) (drain s) :=
  ⟨fun hm ↦ .ok ⟨hm.setStack s (List.forall_mem_nil _), trivial⟩⟩

theorem maintains_declare (s : ScopeId) (name : String) {v : Value} (hv : P v) :
    Maintains P (fun _ ↦ True) (declare s name v) :=
  ⟨fun hm ↦ .ok ⟨hm.declare s name hv, trivial⟩⟩

theorem maintains_lookup (s : ScopeId) (name : String) : Maintains P P (lookup s name) :=
  ⟨fun hm ↦ .lookup (fun _ hv ↦ ⟨hm, hm.lookup hv⟩) hm⟩

theorem maintains_assign (s : ScopeId) (name : String) {v : Value} (hv : P v) :
    Maintains P (fun _ ↦ True) (assign s name v) :=
  ⟨fun hm ↦ .assign (fun o _ ↦ ⟨hm.declare o name hv, trivial⟩) ⟨hm, trivial⟩⟩

theorem maintains_remove (s : ScopeId) (name : String) :
    Maintains P (fun _ ↦ True) (remove s name) :=
  ⟨fun hm ↦ .remove (fun o _ ↦ ⟨hm.undeclare o name, trivial⟩) hm⟩

theorem maintains_ask (request : Writer.Request) : Maintains P (fun _ ↦ True) (ask request) :=
  ⟨fun {m} hm ↦
    have hasked : (m.asked request).Holds P := hm.congr rfl rfl
    .ask ⟨hasked, trivial⟩ fun _ ↦ hasked⟩

theorem maintains_freshIdentity : Maintains P (fun _ ↦ True) freshIdentity :=
  ⟨fun hm ↦ .ok ⟨hm.congr rfl rfl, trivial⟩⟩

theorem maintains_newIterator (h : Value.Closed P) {pairs : List (Value × Value)}
    (hpairs : ∀ p ∈ pairs, P p.1 ∧ P p.2) :
    Maintains P (fun i ↦ P (.native (.nextOfString i)) ∧ P (.native (.nextOfTable i)))
      (newIterator pairs) :=
  ⟨fun hm ↦ .ok ⟨hm.pushIterator hpairs, h.plain nofun, h.plain nofun⟩⟩

theorem maintains_nextPair (h : Value.Closed P) (iterator : Nat) :
    Maintains P (fun p ↦ P p.1 ∧ P p.2) (nextPair iterator) := by
  refine ⟨fun hm ↦ .nextPair (fun p rest hiterator ↦ ?_) ⟨hm, h.plain nofun, h.plain nofun⟩⟩
  have hpairs := hm.iterators iterator
  rw [hiterator, List.forall_mem_cons] at hpairs
  exact ⟨hm.setIterator iterator hpairs.2, hpairs.1⟩

theorem maintains_mark (s : ScopeId) : Maintains P (fun _ ↦ True) (mark s) :=
  .modify (fun _ ↦ rfl) fun _ ↦ rfl

theorem maintains_argumentCount (s : ScopeId) :
    Maintains P (fun _ ↦ True) (argumentCount s) :=
  ⟨fun hm ↦ .argumentCount (fun _ _ ↦ ⟨hm.congr rfl rfl, trivial⟩) ⟨hm, trivial⟩⟩

theorem rules_maintains (h : Value.Closed P) :
    Rules (fun _ ↦ True) (fun _ ↦ True) P (Maintains P) where
  __ := h.sealed
  makes _ := trivial
  pure := .pure
  bind := .bind
  fail := .fail
  outOfSteps := ⟨fun hm ↦ .error hm⟩
  get := maintains_get
  newScope _ := maintains_newScope _
  push _ _ := maintains_push _
  pop _ := maintains_pop _
  popOrNull _ := maintains_popOrNull h _
  takeTop _ := maintains_takeTop _
  drain _ := maintains_drain _
  declare _ name _ _ := maintains_declare _ name
  lookup _ name _ := maintains_lookup _ name
  assign _ name _ _ := maintains_assign _ name
  remove _ name _ := maintains_remove _ name
  ask := maintains_ask
  freshIdentity := maintains_freshIdentity
  addLibrary _ := .modify (fun _ ↦ rfl) fun _ ↦ rfl
  newIterator := maintains_newIterator h
  nextOfString _ := maintains_nextPair h _
  nextOfTable _ := maintains_nextPair h _
  mark := maintains_mark
  argumentCount := maintains_argumentCount
  limited := .limited
  counted := .counted

end Exec

end GemLang
