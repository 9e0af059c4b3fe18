import GemLang.Proofs.Machine.Contents

/-!
# How operations end

An operation gives a result or stops, and it leaves a machine either way. `Exec.Ends Q E` says that
a result satisfies `Q` with the machine left, and a reason to stop satisfies `E`.

The operations of the machine that may go one way or another are gone through here, once each. What
holds of them is then had from their ends.
-/

namespace GemLang

/-- How an operation ends: with a result, or by stopping. -/
inductive Exec.Ends {α : Type} (Q : α → Machine → Prop) (E : Stop → Machine → Prop) :
    EStateM.Result Stop Machine α → Prop where
  | ok {a : α} {m : Machine} (h : Q a m) : Ends Q E (.ok a m)
  | error {e : Stop} {m : Machine} (h : E e m) : Ends Q E (.error e m)

namespace Exec.Ends

section

variable {α β : Type} {Q Q' : α → Machine → Prop} {R : β → Machine → Prop}
  {E E' : Stop → Machine → Prop}

theorem mono {r : EStateM.Result Stop Machine α} (h : Ends Q E r) (hQ : ∀ a m, Q a m → Q' a m)
    (hE : ∀ e m, E e m → E' e m) : Ends Q' E' r := by
  cases h with
  | ok h => exact .ok (hQ _ _ h)
  | error h => exact .error (hE _ _ h)

theorem and {r : EStateM.Result Stop Machine α} (h : Ends Q E r) (h' : Ends Q' E' r) :
    Ends (fun a m ↦ Q a m ∧ Q' a m) (fun e m ↦ E e m ∧ E' e m) r := by
  cases h with
  | ok h =>
    cases h' with
    | ok h' => exact .ok ⟨h, h'⟩
  | error h =>
    cases h' with
    | error h' => exact .error ⟨h, h'⟩

theorem bind {x : Exec α} {f : α → Exec β} {m : Machine} (hx : Ends Q E (x m))
    (hf : ∀ a m', Q a m' → Ends R E (f a m')) : Ends R E ((x >>= f) m) := by
  change Ends R E (EStateM.bind x f m)
  unfold EStateM.bind
  cases hxm : x m with
  | ok a m' =>
    rw [hxm] at hx
    cases hx with
    | ok h => exact hf a m' h
  | error e m' =>
    rw [hxm] at hx
    cases hx with
    | error h => exact .error h

/-- A call under way is counted only while it is. -/
theorem counted {x : Exec α} {m : Machine}
    (hx : Ends Q E (x { m with callDepth := m.callDepth + 1 }))
    (hQ : ∀ a m', Q a m' → Q' a { m' with callDepth := m'.callDepth - 1 })
    (hE : ∀ e m', E e m' → E' e { m' with callDepth := m'.callDepth - 1 }) :
    Ends Q' E' (Exec.counted x m) := by
  unfold Exec.counted
  cases hxm : x { m with callDepth := m.callDepth + 1 } with
  | ok a m' =>
    rw [hxm] at hx
    cases hx with
    | ok h => exact .ok (hQ a m' h)
  | error e m' =>
    rw [hxm] at hx
    cases hx with
    | error h => exact .error (hE e m' h)

end

/-! ## The operations of the machine -/

variable {E : Stop → Machine → Prop} {m : Machine} {s : ScopeId}

theorem push {Q : Unit → Machine → Prop} {v : Value}
    (hroom : m.heap.depth s < m.config.maxStack → Q () { m with heap := m.heap.push s v })
    (hfull : E (.error .stackOverflow) m) : Ends Q E (Exec.push s v m) := by
  unfold Exec.push
  split
  · next h => exact .ok (hroom h)
  · exact .error hfull

theorem pop {Q : Value → Machine → Prop}
    (htop : ∀ v rest, m.heap.stack s = v :: rest → Q v { m with heap := m.heap.setStack s rest })
    (hempty : E (.error .stackUnderflow) m) : Ends Q E (Exec.pop s m) := by
  unfold Exec.pop
  split
  · next v rest h => exact .ok (htop v rest h)
  · exact .error hempty

theorem popOrNull {Q : Value → Machine → Prop}
    (htop : ∀ v rest, m.heap.stack s = v :: rest → Q v { m with heap := m.heap.setStack s rest })
    (hempty : Q .null m) : Ends Q E (Exec.popOrNull s m) := by
  unfold Exec.popOrNull
  split
  · next v rest h => exact .ok (htop v rest h)
  · exact .ok hempty

theorem takeTop {Q : List Value → Machine → Prop} {count : Nat}
    (henough : Q ((m.heap.stack s).take count).reverse
      { m with heap := m.heap.setStack s ((m.heap.stack s).drop count) })
    (hfew : E (.error .stackUnderflow) m) : Ends Q E (Exec.takeTop s count m) := by
  unfold Exec.takeTop
  dsimp only
  split
  · exact .error hfew
  · exact .ok henough

theorem lookup {Q : Value → Machine → Prop} {name : String}
    (hbound : ∀ v, m.heap.lookup s name = some v → Q v m)
    (hfree : E (.error (.undefined name)) m) : Ends Q E (Exec.lookup s name m) := by
  unfold Exec.lookup
  split
  · next v h => exact .ok (hbound v h)
  · exact .error hfree

theorem assign {Q : Bool → Machine → Prop} {name : String} {v : Value}
    (hbound : ∀ o, m.heap.owner? s name = some o →
      Q true { m with heap := m.heap.declare o name v })
    (hfree : Q false m) : Ends Q E (Exec.assign s name v m) := by
  unfold Exec.assign
  split
  · next o h => exact .ok (hbound o h)
  · exact .ok hfree

theorem remove {Q : Unit → Machine → Prop} {name : String}
    (hbound : ∀ o, m.heap.owner? s name = some o →
      Q () { m with heap := m.heap.undeclare o name })
    (hfree : E (.error (.undefined name)) m) : Ends Q E (Exec.remove s name m) := by
  unfold Exec.remove
  split
  · next o h => exact .ok (hbound o h)
  · exact .error hfree

theorem nextPair {Q : Value × Value → Machine → Prop} {i : Nat}
    (hmore : ∀ p rest, m.iterators.getD i [] = p :: rest →
      Q p { m with iterators := m.iterators.setIfInBounds i rest })
    (hend : Q (.null, .null) m) : Ends Q E (Exec.nextPair i m) := by
  cases hiterator : m.iterators.getD i [] with
  | nil =>
    rw [nextPair_of_nil hiterator]
    exact .ok hend
  | cons p rest =>
    rw [nextPair_of_cons hiterator]
    exact .ok (hmore p rest hiterator)

theorem argumentCount {Q : Option Nat → Machine → Prop}
    (hmarked : ∀ count marks, Q (some count) { m with marks := marks }) (hnone : Q none m) :
    Ends Q E (Exec.argumentCount s m) := by
  unfold Exec.argumentCount
  split
  · split
    · exact .ok (hmarked _ _)
    · exact .ok hnone
  · exact .ok hnone

theorem ask {Q : Unit → Machine → Prop} {request : Writer.Request}
    (hdone : Q () (m.asked request))
    (hfault : ∀ reason, E (.error (.output reason)) (m.asked request)) :
    Ends Q E (Exec.ask request m) := by
  unfold Exec.ask
  split
  · exact .ok hdone
  · exact .error (hfault _)

/-- However an operation ends, the writer is asked to flush and may fail to. -/
theorem flushed {α : Type} {Q Q' : α → Machine → Prop} {E' : Stop → Machine → Prop} {x : Exec α}
    (hx : Ends Q E (x m)) (hQ : ∀ a m', Q a m' → Q' a (m'.asked .flush))
    (hE : ∀ e m', E (.error e) m' → E' (.error e) (m'.asked .flush))
    (hsteps : ∀ m', E .outOfSteps m' → E' .outOfSteps m')
    (hfault : ∀ reason m', (∃ a, Q a m') ∨ (∃ e, E (.error e) m') →
      E' (.error (.output reason)) (m'.asked .flush)) : Ends Q' E' (Exec.flushed x m) := by
  unfold Exec.flushed
  cases hxm : x m with
  | ok a m' =>
    rw [hxm] at hx
    cases hx with
    | ok h =>
      refine Ends.bind (Q := fun _ ↦ Q' a) ?_ fun _ _ h ↦ .ok h
      exact Ends.ask (hQ a m' h) fun reason ↦ hfault reason m' (.inl ⟨a, h⟩)
  | error e m' =>
    rw [hxm] at hx
    cases hx with
    | error h =>
      cases e with
      | error e =>
        refine Ends.bind (Q := fun _ ↦ E' (.error e)) ?_ fun _ _ h ↦ .error h
        exact Ends.ask (hE e m' h) fun reason ↦ hfault reason m' (.inr ⟨e, h⟩)
      | outOfSteps => exact .error (hsteps m' h)

end Exec.Ends

end GemLang
