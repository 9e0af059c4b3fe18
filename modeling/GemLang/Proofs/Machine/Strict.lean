import GemLang.Proofs.Machine.Flushing
import GemLang.Proofs.Machine.Session

/-!
# What strict mode refuses

A program run on a machine with more generous limits does the same as before, up to the point where
a limit first made itself felt. The runs go in lockstep (`Proofs/Machine/Lockstep.lean`) under the
relation `Relaxed`: they agree, or the one with the stricter machine has stopped with an error that
is owed to a limit, and all that it had printed by then the other one prints as well.

Strictness is one of these limits. It shows in a single place, an assignment to a name that is not
bound, so a strict run differs from a lenient one only in that it may stop there
(`evaluate_strict`). Of a whole program this holds but for one case: if the writer fails to flush,
its fault is reported in place of the error that the run stopped with.
-/

namespace GemLang

open Bytecode
open Exec

def Machine.mapConfig (t : Config → Config) (m : Machine) : Machine :=
  { m with config := t m.config }

/-- The change `t` only makes limits more generous, and `E` covers every error by which this
shows. -/
structure Relaxation (t : Config → Config) (E : Stop → Prop) : Prop where
  maxStack (c : Config) : (t c).maxStack = c.maxStack ∨
    c.maxStack ≤ (t c).maxStack ∧ E (.error .stackOverflow)
  maxCallDepth (c : Config) : (t c).maxCallDepth = c.maxCallDepth ∨
    c.maxCallDepth ≤ (t c).maxCallDepth ∧ E (.error .stackOverflow)
  strict (c : Config) : (t c).strict = c.strict ∨
    (t c).strict = false ∧ ∀ name, E (.error (.undefined name))

namespace Exec

variable {α β γ : Type} {t : Config → Config} {E : Stop → Prop}

/-- The second result is the first, with limits changed, unless that is an excused error: then all
that was printed before it was printed before the second one too. -/
inductive Agrees (t : Config → Config) (E : Stop → Prop) :
    Exec.Result α → Exec.Result α → Prop where
  | ok (a : α) (m : Machine) : Agrees t E (.ok a m) (.ok a (m.mapConfig t))
  | error (e : Stop) (m : Machine) : Agrees t E (.error e m) (.error e (m.mapConfig t))
  | excused {e : Stop} {m : Machine} {r : Exec.Result α} (he : E e)
      (hprinted : m.output.toList <+: (machineOf r).output.toList) : Agrees t E (.error e m) r

/-- The operation only adds to what has been printed. -/
def Appends (x : Exec α) : Prop := ∀ m, m.output.toList <+: (machineOf (x m)).output.toList

/-- `y` does with relaxed limits what `x` does without. -/
structure Relaxed (t : Config → Config) (E : Stop → Prop) (x y : Exec α) : Prop where
  agrees (m : Machine) : Agrees t E (x m) (y (m.mapConfig t))
  appends : Appends y

theorem counted_apply (x : Exec α) (m : Machine) : counted x m =
    mapMachine (fun m' ↦ { m' with callDepth := m'.callDepth - 1 })
      (x { m with callDepth := m.callDepth + 1 }) := by
  unfold counted
  rcases x { m with callDepth := m.callDepth + 1 } with ⟨a, m'⟩ | ⟨e, m'⟩ <;> rfl

/-! ## Output -/

theorem output_asked (m : Machine) (request : Writer.Request) :
    (m.asked request).output = m.output ++ request.text := by
  simp [Machine.output, Machine.asked]

theorem output_asked_flush (m : Machine) : (m.asked .flush).output = m.output := by
  rw [output_asked]
  exact String.append_empty

theorem Appends.bind {x : Exec α} {f : α → Exec β} (hx : Appends x) (hf : ∀ a, Appends (f a)) :
    Appends (x >>= f) := by
  intro m
  have hfirst := hx m
  rw [bind_apply]
  revert hfirst
  rcases x m with ⟨a, m'⟩ | ⟨e, m'⟩
  · exact fun hfirst ↦ hfirst.trans (hf a m')
  · exact id

theorem Appends.counted {x : Exec α} (hx : Appends x) : Appends (counted x) := by
  intro m
  rw [counted_apply, machineOf_mapMachine]
  exact hx { m with callDepth := m.callDepth + 1 }

theorem Appends.limited {x : Exec α} (hx : Appends x) : Appends (limited x) := by
  intro m
  rw [limited_apply]
  split
  · exact List.prefix_refl _
  · exact hx m

theorem Indifferent.eq_under {x : Exec α} (hx : Indifferent x) (m : Machine) :
    x m = mapMachine (·.under m.config m.requests m.callDepth) (x m) :=
  hx m m.config m.requests m.callDepth

theorem Indifferent.appends {x : Exec α} (hx : Indifferent x) : Appends x := by
  intro m
  rw [hx.eq_under m, machineOf_mapMachine]
  exact List.prefix_refl _

theorem appends_ask (request : Writer.Request) : Appends (ask request) := by
  intro m
  have hasked : m.output.toList <+: (m.asked request).output.toList := by
    rw [output_asked, String.toList_append]
    exact List.prefix_append _ _
  rw [ask_apply]
  split <;> exact hasked

theorem appends_push (s : ScopeId) (v : Value) : Appends (push s v) := by
  intro m
  unfold push
  split <;> exact List.prefix_refl _

/-! ## Relaxed limits -/

theorem Agrees.mapMachine {f : Machine → Machine} (houtput : ∀ m, (f m).output = m.output)
    (hconfig : ∀ m : Machine, f (m.mapConfig t) = (f m).mapConfig t) {r r' : Exec.Result α}
    (h : Agrees t E r r') : Agrees t E (mapMachine f r) (mapMachine f r') := by
  rcases h with ⟨a, m⟩ | ⟨e, m⟩ | ⟨he, hprinted⟩
  · rw [Exec.mapMachine, Exec.mapMachine, hconfig]
    exact .ok a _
  · rw [Exec.mapMachine, Exec.mapMachine, hconfig]
    exact .error e _
  · refine .excused he ?_
    rw [machineOf_mapMachine, houtput, houtput]
    exact hprinted

theorem Agrees.bind {x y : Exec α} {f g : α → Exec β} {m m' : Machine}
    (hx : Agrees t E (x m) (y m')) (hf : ∀ a, Relaxed t E (f a) (g a)) :
    Agrees t E ((x >>= f) m) ((y >>= g) m') := by
  rw [bind_apply, bind_apply]
  revert hx
  generalize x m = r, y m' = r'
  rintro (⟨a, m₁⟩ | ⟨e, m₁⟩ | ⟨he, hprinted⟩)
  · exact (hf a).agrees m₁
  · exact .error e m₁
  · -- what `g` does only adds to the output
    refine .excused he (hprinted.trans ?_)
    rcases r' with ⟨a, m₂⟩ | ⟨e', m₂⟩
    · exact (hf a).appends m₂
    · exact List.prefix_refl _

theorem Relaxed.bind {x y : Exec α} {f g : α → Exec β} (hx : Relaxed t E x y)
    (hf : ∀ a, Relaxed t E (f a) (g a)) : Relaxed t E (x >>= f) (y >>= g) where
  appends := hx.appends.bind fun a ↦ (hf a).appends
  agrees m := (hx.agrees m).bind hf

theorem Relaxed.counted {x y : Exec α} (hx : Relaxed t E x y) :
    Relaxed t E (counted x) (counted y) where
  appends := hx.appends.counted
  agrees m := by
    have hinner := hx.agrees { m with callDepth := m.callDepth + 1 }
    rw [counted_apply, counted_apply]
    exact hinner.mapMachine (f := fun m' ↦ { m' with callDepth := m'.callDepth - 1 })
      (fun _ ↦ rfl) fun _ ↦ rfl

theorem Relaxed.limited (ht : Relaxation t E) {x y : Exec α} (hx : Relaxed t E x y) :
    Relaxed t E (limited x) (limited y) where
  appends := hx.appends.limited
  agrees m := by
    have hother : Exec.limited y (m.mapConfig t) =
        if (t m.config).maxCallDepth ≤ m.callDepth then
          .error (.error .stackOverflow) (m.mapConfig t) else y (m.mapConfig t) :=
      limited_apply y (m.mapConfig t)
    rw [limited_apply]
    by_cases hlimit : m.config.maxCallDepth ≤ m.callDepth
    · rw [if_pos hlimit]
      obtain hsame | ⟨-, hexcused⟩ := ht.maxCallDepth m.config
      · rw [hother, hsame, if_pos hlimit]
        exact .error _ m
      · exact .excused hexcused (hx.appends.limited (m.mapConfig t))
    · have hlimit' : ¬(t m.config).maxCallDepth ≤ m.callDepth := by
        have hle := ht.maxCallDepth m.config
        omega
      rw [if_neg hlimit, hother, if_neg hlimit']
      exact hx.agrees m

theorem Indifferent.relaxed {x : Exec α} (hx : Indifferent x) : Relaxed t E x x where
  appends := hx.appends
  agrees m := by
    have hother : x (m.mapConfig t) =
        mapMachine (·.under (t m.config) m.requests m.callDepth) (x m) :=
      hx m (t m.config) m.requests m.callDepth
    rw [hother, hx.eq_under m]
    rcases x m with ⟨a, m'⟩ | ⟨e, m'⟩
    · exact .ok a _
    · exact .error e _

theorem relaxed_push (ht : Relaxation t E) (s : ScopeId) (v : Value) :
    Relaxed t E (push s v) (push s v) where
  appends := appends_push s v
  agrees m := by
    have happends := appends_push s v (m.mapConfig t)
    have hother : push s v (m.mapConfig t) = if m.heap.depth s < (t m.config).maxStack then
        .ok () ({ m with heap := m.heap.push s v }.mapConfig t)
        else .error (.error .stackOverflow) (m.mapConfig t) := rfl
    rw [push]
    by_cases hroom : m.heap.depth s < m.config.maxStack
    · have hroom' : m.heap.depth s < (t m.config).maxStack := by
        have hle := ht.maxStack m.config
        omega
      rw [if_pos hroom, hother, if_pos hroom']
      exact .ok () _
    · rw [if_neg hroom]
      obtain hsame | ⟨-, hexcused⟩ := ht.maxStack m.config
      · rw [hother, hsame, if_neg hroom]
        exact .error _ m
      · exact .excused hexcused happends

/-- What the writer does is up to the requests alone, and not to the limits. -/
theorem relaxed_ask (request : Writer.Request) : Relaxed t E (ask request) (ask request) where
  appends := appends_ask request
  agrees m := by
    have hfault : (m.mapConfig t).fault? request = m.fault? request := rfl
    rw [ask_apply, ask_apply, hfault]
    cases m.fault? request with
    | none => exact .ok () _
    | some reason => exact .error _ _

/-- An assignment to a name that is not bound is where strictness shows. -/
theorem relaxed_unbound (ht : Relaxation t E) (s : ScopeId) (name : String) (v : Value) :
    Relaxed t E (do if (← get).config.strict then fail (.undefined name) else declare s name v)
      (do if (← get).config.strict then fail (.undefined name) else declare s name v) where
  appends m := by
    change _ <+: (machineOf ((if m.config.strict then (fail (.undefined name) : Exec Unit)
      else declare s name v) m)).output.toList
    split <;> exact List.prefix_refl _
  agrees m := by
    change Agrees t E ((if m.config.strict then (fail (.undefined name) : Exec Unit)
      else declare s name v) m) ((if (t m.config).strict then (fail (.undefined name) : Exec Unit)
      else declare s name v) (m.mapConfig t))
    obtain hsame | ⟨hlenient, hexcused⟩ := ht.strict m.config
    · rw [hsame]
      split
      · exact .error _ m
      · exact .ok () _
    · rw [hlenient]
      split
      · exact .excused (hexcused name) (List.prefix_refl _)
      · exact .ok () _

theorem lockstep_relaxed (ht : Relaxation t E) : Lockstep (Relaxed t E) where
  indifferent hx := hx.relaxed
  bind hx hf := hx.bind hf
  push := relaxed_push ht
  ask := relaxed_ask
  unbound := relaxed_unbound ht
  called henter hbody hleave :=
    .limited ht (henter.bind fun a ↦ (hbody a).counted.bind fun b ↦ hleave a b)

/-- An operation that has used up its steps has printed no more than one that goes on. -/
theorem Relaxed.outOfSteps (hsteps : E .outOfSteps) {y : Exec α} (hy : Appends y) :
    Relaxed t E outOfSteps y where
  agrees m := .excused hsteps (hy (m.mapConfig t))
  appends := hy

end Exec

/-! ## Programs -/

/-- The errors by which a program shows its limits: the ones that are owed to them, and a fault of
the writer that is reported in place of one. -/
inductive OwedOrHidden (E : Stop → Prop) (fuel : Nat) (text : String) (m : Machine) :
    Stop → Prop where
  | owed {e : Stop} (he : E e) : OwedOrHidden E fuel text m e
  | hidden {e : Stop} {m' : Machine} (he : E e) (hflush : FlushFails fuel text m (.error e m'))
    (reason : String) : OwedOrHidden E fuel text m (.error (.output reason))

namespace Exec

theorem output_flushed (x : Exec α) (m : Machine) :
    (machineOf (flushed x m)).output = (machineOf (x m)).output := by
  by_cases hsettled : Settled (x m)
  · rw [flushed_apply hsettled]
    split
    · rw [machineOf_mapMachine, output_asked_flush]
    · exact output_asked_flush _
  · rw [flushed_of_not_settled hsettled]

/-- Two runs that agree do so when the writer has been flushed, unless the first one has stopped
with an excused error and the writer fails. -/
theorem Agrees.flushed {F : Stop → Prop} {x y : Exec α} {m m' : Machine}
    (h : Agrees t E (x m) (y m')) (hE : ∀ e, E e → F e)
    (hhidden : ∀ e m₁ reason, x m = .error e m₁ → E e → Settled (x m) →
      m₁.fault? .flush = some reason → F (.error (.output reason))) :
    Agrees t F (flushed x m) (flushed y m') := by
  generalize hx : x m = r, hy : y m' = r' at h
  rcases h with ⟨a, m₁⟩ | ⟨e, m₁⟩ | @⟨e, m₁, _, he, hprinted⟩
  · have hflush := (relaxed_ask (t := t) (E := F) .flush).bind fun _ ↦ (indifferent_pure a).relaxed
    unfold Exec.flushed
    rw [hx, hy]
    exact hflush.agrees m₁
  · unfold Exec.flushed
    rw [hx, hy]
    cases e with
    | error e =>
      have hflush := (relaxed_ask (t := t) (E := F) .flush).bind fun _ ↦
        (indifferent_fail (α := α) e).relaxed
      exact hflush.agrees m₁
    | outOfSteps => exact .error _ m₁
  · have hprinted' : m₁.output.toList <+: (machineOf (Exec.flushed y m')).output.toList := by
      rw [output_flushed, hy]
      exact hprinted
    by_cases hsettled : Settled (x m)
    · rw [flushed_apply hsettled, hx]
      split
      · refine .excused (hE e he) ?_
        rwa [output_asked_flush]
      · next reason hreason =>
        refine .excused (hhidden e m₁ reason hx he hsettled hreason) ?_
        rwa [← output_asked_flush] at hprinted'
    · rw [flushed_of_not_settled hsettled, hx]
      exact .excused (hE e he) hprinted'

end Exec

/-- **Limits matter only through the errors that name them**: a program that ends without one of
these, and without a fault of the writer in place of one, comes to the same end where limits are
more generous. -/
theorem agrees_evaluate {t : Config → Config} {E : Stop → Prop} (ht : Relaxation t E)
    (hsteps : E .outOfSteps) {fuel more : Nat} (hle : fuel ≤ more) (text : String) (m : Machine) :
    Agrees t (OwedOrHidden E fuel text m) (evaluate fuel text m)
      (evaluate more text (m.mapConfig t)) := by
  have h := lockstep_relaxed ht
  have hruns := runsRelated_of_le h (fun hy ↦ .outOfSteps hsteps hy.appends) hle
  cases hdecode : Bytecode.decode (text ++ callMain) with
  | error fault =>
    rw [evaluate_of_decode_error hdecode, evaluate_of_decode_error hdecode]
    exact .error _ _
  | ok code =>
    rw [evaluate_of_decode hdecode, evaluate_of_decode hdecode]
    have hrun := (hruns.run Machine.root ⟨0, code⟩).agrees { m with marks := [] }
    refine (hrun.flushed (F := OwedOrHidden E fuel text m) (fun _ ↦ .owed) ?_).bind fun left ↦ ?_
    · intro e m₁ reason hstop he hsettled hreason
      rw [hstop] at hsettled
      exact .hidden he ⟨⟨code, hdecode, hstop⟩, hsettled, reason, hreason⟩ reason
    · match left with
      | some .broke | some .continued => exact (indifferent_fail _).relaxed
      | some (.returned _) | none =>
        exact (indifferent_popOrNull _).relaxed.bind fun _ ↦ (indifferent_pure ()).relaxed

/-! ## Strictness -/

/-- The configuration in strict mode, or not. -/
def Config.withStrict (strict : Bool) (c : Config) : Config := { c with strict := strict }

/-- Errors that a strict run may stop with where a lenient one goes on, and the end of the steps. -/
inductive OwedToStrict : Stop → Prop where
  | undefined (name : String) : OwedToStrict (.error (.undefined name))
  | outOfSteps : OwedToStrict .outOfSteps

theorem relaxation_withStrict : Relaxation (.withStrict false) OwedToStrict where
  maxStack _ := .inl rfl
  maxCallDepth _ := .inl rfl
  strict _ := .inr ⟨rfl, .undefined⟩

/-- **Strict mode only rejects.** However a strict run ends, but for a name that is not bound, the
lenient run of the same text ends likewise and leaves the same machine. Where the strict run stops
at such a name, the lenient one has printed the same up to there, however far it is followed. That
the run stopped there may be hidden by a writer that fails to flush; then, too, the lenient one has
printed the same. -/
theorem evaluate_strict (m : Machine) (text : String) (fuel extra : Nat) :
    let lenient := evaluate (fuel + extra) text (m.mapConfig (.withStrict false))
    match evaluate fuel text (m.mapConfig (.withStrict true)) with
    | .ok _ m' => lenient = .ok () (m'.mapConfig (.withStrict false))
    | .error (.error (.undefined _)) m' | .error .outOfSteps m' =>
      m'.output.toList <+: (machineOf lenient).output.toList
    | .error (.error (.output reason)) m' =>
      lenient = .error (.error (.output reason)) (m'.mapConfig (.withStrict false)) ∨
        (∃ name stopped, FlushFails fuel text (m.mapConfig (.withStrict true))
          (.error (.error (.undefined name)) stopped)) ∧
        m'.output.toList <+: (machineOf lenient).output.toList
    | .error e m' => lenient = .error e (m'.mapConfig (.withStrict false)) := by
  have hagrees : Agrees (.withStrict false)
      (OwedOrHidden OwedToStrict fuel text (m.mapConfig (.withStrict true)))
      (evaluate fuel text (m.mapConfig (.withStrict true)))
      (evaluate (fuel + extra) text (m.mapConfig (.withStrict false))) :=
    agrees_evaluate relaxation_withStrict .outOfSteps (Nat.le_add_right fuel extra) text
      (m.mapConfig (.withStrict true))
  revert hagrees
  dsimp only
  generalize evaluate fuel text _ = strict, evaluate (fuel + extra) text _ = lenient
  rintro (⟨-, m'⟩ | ⟨e, m'⟩ | ⟨he, hprinted⟩)
  · rfl
  · split
    · next heq => cases heq
    · next heq =>
      cases heq
      exact List.prefix_refl _
    · next heq =>
      cases heq
      exact List.prefix_refl _
    · next heq =>
      cases heq
      exact .inl rfl
    · next heq =>
      cases heq
      rfl
  · cases he with
    | owed he => obtain name | - := he <;> exact hprinted
    | hidden he hflush reason =>
      cases he with
      | undefined name => exact .inr ⟨⟨name, _, hflush⟩, hprinted⟩
      | outOfSteps => exact hflush.settled.elim

/-- A strict run stops at a name that is not bound, and the lenient one declares it. As the writer
fails to flush, both report the same error. -/
theorem evaluate_strict_hidden :
    let m := Machine.start (.standard true) ⟨.unflushable, .empty⟩
    let text := textOf (Lower.program true [.assign "x" [] (.bool true)])
    (evaluate 20 text).leftAtFault? (m.mapConfig (.withStrict true)) =
        some ("no space left on device", []) ∧
      (evaluate 20 text).leftAtFault? (m.mapConfig (.withStrict false)) =
        some ("no space left on device", [.null]) := by
  intro m text
  have hspelled : (Spelling.writable (· < UInt64.size)).stmts [.assign "x" [] (.bool true)] := by
    have hx : IsName "x" := by decide
    simp [Spelling.stmts, Spelling.stmt, Spelling.path, Spelling.expr, Spelling.writable, hx]
  rw [evaluate_of_decode (Lower.decode_program_append true hspelled decode_callMain)]
  exact ⟨by cbv, by cbv⟩

/-! A strict run stops where a lenient one declares the name. -/

example :
    let m := Machine.start (.standard true) .plain
    run 3 Machine.root ⟨0, [.op .push, .operand "a", .op .storeLocal, .operand "x"]⟩ m =
      .error (.error (.undefined "x")) m := by cbv

example :
    let m := Machine.start (.standard false) .plain
    run 3 Machine.root ⟨0, [.op .push, .operand "a", .op .storeLocal, .operand "x"]⟩ m =
      .ok none { m with heap := m.heap.declare Machine.root "x" (.text "a") } := by cbv

end GemLang
