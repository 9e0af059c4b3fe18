import GemLang.Proofs.Machine.Lockstep
import GemLang.Proofs.Machine.Running

/-!
# Enough steps

The number of steps bounds how long a run is followed, and has no meaning for the program. A run
that came to a result comes to the same result with any larger number (`run_extends`), so that one
can speak of what a run comes to and leave the number out.

`Eventual x m r` says this of any operation that is given a number of steps. It goes through
sequences of operations (`eventual_bind`), which is all that is needed to take a run apart into the
runs of its pieces: in the one direction the pieces have the steps that the whole had, in the other
the whole is given as many as the pieces need.
-/

namespace GemLang

open Bytecode
open Exec

/-- How an operation ends. -/
abbrev Exec.Result (α : Type) := EStateM.Result Stop Machine α

/-- The program itself came to this end, and not the number of steps. -/
def Settled {α : Type} : Exec.Result α → Prop
  | .error .outOfSteps _ => False
  | _ => True

namespace Exec

variable {α β : Type} {x y : Exec α} {f g : α → Exec β}

theorem bind_apply (x : Exec α) (f : α → Exec β) (m : Machine) : (x >>= f) m =
    match x m with
    | .ok a m' => f a m'
    | .error e m' => .error e m' := by
  change EStateM.bind x f m = _
  unfold EStateM.bind
  cases x m <;> rfl

theorem settled_of_bind {m : Machine} (h : Settled ((x >>= f) m)) : Settled (x m) := by
  rw [bind_apply] at h
  cases hx : x m with
  | ok a m' => trivial
  | error e m' =>
    rw [hx] at h
    cases e with
    | error e => trivial
    | outOfSteps => exact h

/-- `y` ends as `x` does, except perhaps where `x` ran out of steps. -/
def Extends (x y : Exec α) : Prop := ∀ m, Settled (x m) → y m = x m

theorem Extends.refl (x : Exec α) : Extends x x := fun _ _ ↦ rfl

theorem Extends.trans {z : Exec α} (h : Extends x y) (h' : Extends y z) : Extends x z := by
  intro m hm
  have heq := h m hm
  rw [← heq]
  exact h' m (heq ▸ hm)

theorem Extends.outOfSteps (y : Exec α) : Extends outOfSteps y := fun _ h ↦ absurd h id

theorem Extends.bind (hx : Extends x y) (hf : ∀ a, Extends (f a) (g a)) :
    Extends (x >>= f) (y >>= g) := by
  intro m hm
  have heq := hx m (settled_of_bind hm)
  rw [bind_apply] at hm ⊢
  rw [bind_apply, heq]
  cases hxm : x m with
  | ok a m' =>
    rw [hxm] at hm
    exact hf a m' hm
  | error e m' => rfl

theorem Extends.counted (h : Extends x y) : Extends (counted x) (counted y) := by
  intro m hm
  have hx : Settled (x { m with callDepth := m.callDepth + 1 }) := by
    unfold Exec.counted at hm
    cases hxm : x { m with callDepth := m.callDepth + 1 } with
    | ok a m' => trivial
    | error e m' =>
      rw [hxm] at hm
      cases e with
      | error e => trivial
      | outOfSteps => exact hm
  unfold Exec.counted
  rw [h _ hx]

theorem Extends.limited (h : Extends x y) : Extends (limited x) (limited y) := by
  intro m hm
  rw [limited_apply] at hm ⊢
  rw [limited_apply]
  by_cases hlimit : m.config.maxCallDepth ≤ m.callDepth
  · rw [if_pos hlimit, if_pos hlimit]
  · rw [if_neg hlimit] at hm ⊢
    rw [if_neg hlimit]
    exact h m hm

/-- Only what is given steps can go on further with more of them. -/
theorem lockstep_extends : Lockstep Extends where
  indifferent _ := .refl _
  bind hx hf := hx.bind hf
  push _ _ := .refl _
  ask _ := .refl _
  unbound _ _ _ := .refl _
  called henter hbody hleave :=
    .limited (henter.bind fun a ↦ (hbody a).counted.bind fun b ↦ hleave a b)

end Exec

/-! ## Runs -/

/-- One more step changes nothing that has been settled. -/
structure StepsExtend (fuel : Nat) : Prop where
  run (s : ScopeId) (c : Stretch) : Extends (run fuel s c) (run (fuel + 1) s c)
  branch (block : ScopeId) (c : Stretch) : Extends (branch fuel block c) (branch (fuel + 1) block c)
  iterate (block : ScopeId) (c : Stretch) :
    Extends (iterate fuel block c) (iterate (fuel + 1) block c)
  call (s : ScopeId) : Extends (call fuel s) (call (fuel + 1) s)
  callScript (f : ScriptFunction) (caller : ScopeId) (marked : Option Nat) :
    Extends (callScript fuel f caller marked) (callScript (fuel + 1) f caller marked)

theorem stepsExtend (fuel : Nat) : StepsExtend fuel := by
  have h : RunsRelated Extends fuel (fuel + 1) :=
    runsRelated_of_le lockstep_extends (fun _ ↦ .outOfSteps _) (Nat.le_succ fuel)
  exact ⟨h.run, h.branch, h.iterate, h.call, h.callScript⟩

/-- **More steps change nothing**: a run that came to a result comes to it with any larger
number. -/
theorem run_extends {fuel more : Nat} (h : fuel ≤ more) (s : ScopeId) (c : Stretch) :
    Extends (run fuel s c) (run more s c) := by
  induction h with
  | refl => exact .refl _
  | step _ ih => exact ih.trans ((stepsExtend _).run s c)

/-! ## What operations come to in the end -/

/-- Operations that are given a number of steps, and settle no differently with one more. -/
structure Grows {α : Type} (x : Nat → Exec α) : Prop where
  succ (fuel : Nat) : Extends (x fuel) (x (fuel + 1))

/-- With enough steps, the operation comes to the result `r` from the machine `m`. -/
def Eventual {α : Type} (x : Nat → Exec α) (m : Machine) (r : Exec.Result α) : Prop :=
  ∃ fuel, x fuel m = r ∧ Settled r

section

variable {α β : Type} {x : Nat → Exec α} {m m' : Machine} {r : Exec.Result α}

theorem Grows.le (hx : Grows x) {fuel more : Nat} (h : fuel ≤ more) :
    Extends (x fuel) (x more) := by
  induction h with
  | refl => exact .refl _
  | step _ ih => exact ih.trans (hx.succ _)

theorem Grows.const (x : Exec α) : Grows fun _ ↦ x := ⟨fun _ ↦ .refl x⟩

theorem grows_run (s : ScopeId) (c : Stretch) : Grows (run · s c) := ⟨(stepsExtend · |>.run s c)⟩

theorem Eventual.of_le (hx : Grows x) {fuel : Nat} (h : x fuel m = r) (hr : Settled r) {more : Nat}
    (hle : fuel ≤ more) : x more m = r := by
  rw [hx.le hle m (h ▸ hr), h]

/-- An operation comes to one result only. -/
theorem Eventual.unique (hx : Grows x) {r' : Exec.Result α} (h : Eventual x m r)
    (h' : Eventual x m r') : r = r' := by
  obtain ⟨fuel, hfuel, hr⟩ := h
  obtain ⟨fuel', hfuel', hr'⟩ := h'
  rw [← Eventual.of_le hx hfuel hr (Nat.le_max_left fuel fuel'),
    Eventual.of_le hx hfuel' hr' (Nat.le_max_right fuel fuel')]

theorem eventual_sub (taken : Nat) :
    Eventual (fun fuel ↦ x (fuel - taken)) m r ↔ Eventual x m r := by
  constructor
  · rintro ⟨fuel, h, hr⟩
    exact ⟨fuel - taken, h, hr⟩
  · rintro ⟨fuel, h, hr⟩
    refine ⟨fuel + taken, ?_, hr⟩
    change x (fuel + taken - taken) m = r
    rw [Nat.add_sub_cancel, h]

/-- Nothing is done with no steps at all, so the first one may be left out. -/
theorem eventual_succ (hx : Grows x) :
    Eventual (fun fuel ↦ x (fuel + 1)) m r ↔ Eventual x m r := by
  constructor
  · rintro ⟨fuel, h, hr⟩
    exact ⟨fuel + 1, h, hr⟩
  · rintro ⟨fuel, h, hr⟩
    exact ⟨fuel, Eventual.of_le hx h hr (Nat.le_succ fuel), hr⟩

theorem eventual_const {x : Exec α} : Eventual (fun _ ↦ x) m r ↔ x m = r ∧ Settled r :=
  ⟨fun ⟨_, h⟩ ↦ h, fun h ↦ ⟨0, h⟩⟩

/-- **One operation after the other**: the first stops with an error, or the second goes on from
where the first came to. -/
theorem eventual_bind (hx : Grows x) {f : Nat → α → Exec β} (hf : ∀ a, Grows (f · a))
    {r : Exec.Result β} : Eventual (fun fuel ↦ x fuel >>= f fuel) m r ↔
      (∃ e m', Eventual x m (.error e m') ∧ r = .error e m') ∨
        ∃ a m', Eventual x m (.ok a m') ∧ Eventual (f · a) m' r := by
  constructor
  · rintro ⟨fuel, h, hr⟩
    have hsettled : Settled (x fuel m) := by
      rw [← h] at hr
      exact settled_of_bind hr
    change (x fuel >>= f fuel) m = r at h
    rw [bind_apply] at h
    cases hxm : x fuel m with
    | ok a m' =>
      rw [hxm] at h
      exact .inr ⟨a, m', ⟨fuel, hxm, trivial⟩, fuel, h, hr⟩
    | error e m' =>
      rw [hxm] at h hsettled
      exact .inl ⟨e, m', ⟨fuel, hxm, hsettled⟩, h.symm⟩
  · rintro (⟨e, m', ⟨fuel, hxm, hsettled⟩, rfl⟩ | ⟨a, m', ⟨fuel, hxm, -⟩, fuel', hfm, hr⟩)
    · refine ⟨fuel, ?_, ?_⟩
      · change (x fuel >>= f fuel) m = _
        rw [bind_apply, hxm]
      · cases e with
        | error e => trivial
        | outOfSteps => exact hsettled
    · -- the larger number of steps is enough for both
      refine ⟨max fuel fuel', ?_, hr⟩
      change (x _ >>= f _) m = r
      rw [bind_apply, Eventual.of_le hx hxm trivial (Nat.le_max_left fuel fuel')]
      exact Eventual.of_le (hf a) hfm hr (Nat.le_max_right fuel fuel')

theorem Grows.bind (hx : Grows x) {f : Nat → α → Exec β} (hf : ∀ a, Grows (f · a)) :
    Grows fun fuel ↦ x fuel >>= f fuel :=
  ⟨fun fuel ↦ (hx.succ fuel).bind fun a ↦ (hf a).succ fuel⟩

end

end GemLang
