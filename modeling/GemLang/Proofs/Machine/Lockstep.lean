import GemLang.Machine.Run
import GemLang.Proofs.Machine.Contents

/-!
# Operations in lockstep

Most of what a machine does neither depends on its limits nor on what its writer was asked for, and
changes neither. There are few exceptions: pushing a value looks at how large a stack may be, an
assignment to a name that is not bound looks at whether that is an error, a call looks at how many
calls may be under way and counts as one of them, and one native function prints.

So a relation between operations that is kept by these exceptions, holds between any indifferent
operation and itself and goes through sequences (`Exec.Lockstep`) holds between any run and itself.
This is shown once, instruction by instruction. Facts about two runs of one program are had from it,
and so are facts about single runs.
-/

namespace GemLang

open Bytecode (Opcode Stretch)
open Exec

/-- The machine with other limits, another record of what its writer was asked for and other calls
under way. -/
def Machine.under (m : Machine) (config : Config) (requests : List Writer.Request)
    (callDepth : Nat) : Machine :=
  { m with config := config, requests := requests, callDepth := callDepth }

namespace Exec

variable {α β : Type}

/-- The same end, of a changed machine. -/
def mapMachine (f : Machine → Machine) :
    EStateM.Result Stop Machine α → EStateM.Result Stop Machine α
  | .ok a m => .ok a (f m)
  | .error e m => .error e (f m)

/-- The operation takes no notice of limits, the writer and the calls under way, and leaves them as
they are. -/
def Indifferent (x : Exec α) : Prop :=
  ∀ (m : Machine) (config : Config) (requests : List Writer.Request) (callDepth : Nat),
    x (m.under config requests callDepth) = mapMachine (·.under config requests callDepth) (x m)

/-! ## Indifferent operations -/

theorem indifferent_pure (a : α) : Indifferent (pure a) := fun _ _ _ _ ↦ rfl

theorem indifferent_fail (e : Error) : Indifferent (fail e : Exec α) := fun _ _ _ _ ↦ rfl

theorem indifferent_newScope (parent : ScopeId) : Indifferent (newScope parent) :=
  fun _ _ _ _ ↦ rfl

theorem indifferent_depth (s : ScopeId) : Indifferent (depth s) := fun _ _ _ _ ↦ rfl

theorem indifferent_drain (s : ScopeId) : Indifferent (drain s) := fun _ _ _ _ ↦ rfl

theorem indifferent_declare (s : ScopeId) (name : String) (v : Value) :
    Indifferent (declare s name v) := fun _ _ _ _ ↦ rfl

theorem indifferent_freshIdentity : Indifferent freshIdentity := fun _ _ _ _ ↦ rfl

theorem indifferent_newIterator (pairs : List (Value × Value)) : Indifferent (newIterator pairs) :=
  fun _ _ _ _ ↦ rfl

theorem indifferent_mark (s : ScopeId) : Indifferent (mark s) := fun _ _ _ _ ↦ rfl

theorem indifferent_pop (s : ScopeId) : Indifferent (pop s) := by
  intro m config requests callDepth
  unfold pop Machine.under
  dsimp only
  split <;> rfl

theorem indifferent_popOrNull (s : ScopeId) : Indifferent (popOrNull s) := by
  intro m config requests callDepth
  unfold popOrNull Machine.under
  dsimp only
  split <;> rfl

theorem indifferent_takeTop (s : ScopeId) (count : Nat) : Indifferent (takeTop s count) := by
  intro m config requests callDepth
  unfold takeTop Machine.under
  dsimp only
  split <;> rfl

theorem indifferent_lookup (s : ScopeId) (name : String) : Indifferent (lookup s name) := by
  intro m config requests callDepth
  unfold lookup Machine.under
  dsimp only
  split <;> rfl

theorem indifferent_assign (s : ScopeId) (name : String) (v : Value) :
    Indifferent (assign s name v) := by
  intro m config requests callDepth
  unfold assign Machine.under
  dsimp only
  split <;> rfl

theorem indifferent_remove (s : ScopeId) (name : String) : Indifferent (remove s name) := by
  intro m config requests callDepth
  unfold remove Machine.under
  dsimp only
  split <;> rfl

theorem indifferent_nextPair (iterator : Nat) : Indifferent (nextPair iterator) := by
  intro m config requests callDepth
  have hsame : (m.under config requests callDepth).iterators = m.iterators := rfl
  rcases h : m.iterators.getD iterator [] with _ | ⟨pair, rest⟩
  · rw [nextPair_of_nil h, nextPair_of_nil (hsame ▸ h)]
    rfl
  · rw [nextPair_of_cons h, nextPair_of_cons (hsame ▸ h)]
    rfl

theorem indifferent_argumentCount (s : ScopeId) : Indifferent (argumentCount s) := by
  intro m config requests callDepth
  unfold argumentCount Machine.under
  dsimp only
  split
  · split <;> rfl
  · rfl

/-- Reads the machine, but for limits, what the writer was asked for and the calls under way. -/
def getRest : Exec Machine := do return (← get).under ⟨false, 0, 0⟩ [] 0

theorem indifferent_getRest : Indifferent getRest := fun _ _ _ _ ↦ rfl

theorem indifferent_modify {f : Machine → Machine} (hf : ∀ (m : Machine) (config : Config)
    (requests : List Writer.Request) (callDepth : Nat), f (m.under config requests callDepth) =
      (f m).under config requests callDepth) : Indifferent (modify f) :=
  fun m config requests callDepth ↦
    congrArg (EStateM.Result.ok ()) (hf m config requests callDepth)

/-! ## Relations between operations -/

/-- Goes on only if another call may be under way. -/
def limited (x : Exec α) : Exec α := do
  let m ← get
  if m.config.maxCallDepth ≤ m.callDepth then fail .stackOverflow else x

theorem limited_apply (x : Exec α) (m : Machine) : limited x m =
    if m.config.maxCallDepth ≤ m.callDepth then .error (.error .stackOverflow) m else x m := by
  change (if _ then (fail .stackOverflow : Exec α) else x) m = _
  split <;> rfl

/-- The relation goes through sequences, holds between any indifferent operation and itself, and is
kept by the few operations that are not indifferent. -/
structure Lockstep (R : ∀ {α : Type}, Exec α → Exec α → Prop) : Prop where
  indifferent {α : Type} {x : Exec α} (hx : Indifferent x) : R x x
  bind {α β : Type} {x y : Exec α} {f g : α → Exec β} (hx : R x y) (hf : ∀ a, R (f a) (g a)) :
    R (x >>= f) (y >>= g)
  push (s : ScopeId) (v : Value) : R (push s v) (push s v)
  ask (request : Writer.Request) : R (ask request) (ask request)
  /-- An assignment to a name that is not bound. -/
  unbound (s : ScopeId) (name : String) (v : Value) :
    R (do if (← get).config.strict then fail (.undefined name) else declare s name v)
      (do if (← get).config.strict then fail (.undefined name) else declare s name v)
  /-- A call: it is entered, counts as under way while its body runs, and is left. -/
  called {α β γ : Type} {enter enter' : Exec α} {body body' : α → Exec β}
    {leave leave' : α → β → Exec γ}
    (henter : R enter enter') (hbody : ∀ a, R (body a) (body' a))
    (hleave : ∀ a b, R (leave a b) (leave' a b)) :
    R (limited do let a ← enter; let b ← counted (body a); leave a b)
      (limited do let a ← enter'; let b ← counted (body' a); leave' a b)

namespace Lockstep

variable {R : ∀ {α : Type}, Exec α → Exec α → Prop} (h : Lockstep R)

include h

theorem pure (a : α) : R (pure a : Exec α) (Pure.pure a) := h.indifferent (indifferent_pure a)

theorem fail (e : Error) : R (fail e : Exec α) (Exec.fail e) := h.indifferent (indifferent_fail e)

theorem pop (s : ScopeId) : R (pop s) (Exec.pop s) := h.indifferent (indifferent_pop s)

theorem check (r : Except Error α) : R (check r) (Exec.check r) := by
  rcases r with e | a
  · exact h.fail e
  · exact h.pure a

theorem checkType (r : Except TypeFault α) : R (checkType r) (Exec.checkType r) := by
  rcases r with e | a
  · exact h.fail _
  · exact h.pure a

theorem checkCode (r : Except CodeFault α) : R (checkCode r) (Exec.checkCode r) := by
  rcases r with e | a
  · exact h.fail _
  · exact h.pure a

theorem get {f : Machine → Exec α} (hsame : ∀ (m : Machine) (config : Config)
    (requests : List Writer.Request) (callDepth : Nat), f (m.under config requests callDepth) = f m)
    (hf : ∀ m, R (f m) (f m)) : R (get >>= f) (MonadState.get >>= f) := by
  -- what is read may be told from the machine without limits and requests, so it is the same twice
  have hrest : (MonadState.get >>= f) = getRest >>= f := by
    funext m
    exact congrFun (hsame m ⟨false, 0, 0⟩ [] 0).symm m
  rw [hrest]
  exact h.bind (h.indifferent indifferent_getRest) hf

theorem popNumber (s : ScopeId) : R (popNumber s) (Exec.popNumber s) := by
  refine h.bind (h.pop s) fun v ↦ ?_
  split
  · exact h.pure _
  · exact h.fail _

theorem popTable (s : ScopeId) : R (popTable s) (Exec.popTable s) := by
  refine h.bind (h.pop s) fun v ↦ ?_
  split
  · exact h.pure _
  · exact h.fail _

theorem popKey (s : ScopeId) : R (popKey s) (Exec.popKey s) :=
  h.bind (h.pop s) fun _ ↦ h.checkType _

theorem popText (s : ScopeId) : R (popText s) (Exec.popText s) := by
  refine h.bind (h.pop s) fun v ↦ ?_
  split
  · split
    · exact h.pure _
    · exact h.fail _
  · exact h.fail _

theorem pushNextPair (s : ScopeId) (iterator : Nat) :
    R (pushNextPair s iterator) (Exec.pushNextPair s iterator) := by
  refine h.bind (h.indifferent (indifferent_nextPair iterator)) fun p ↦ ?_
  exact h.bind (h.push s p.2) fun _ ↦ h.push s p.1

theorem newIterator (s : ScopeId) (pairs : List (Value × Value)) (f : Nat → Native) :
    R (do let iterator ← newIterator pairs; Exec.push s (.native (f iterator)))
      (do let iterator ← Exec.newIterator pairs; Exec.push s (.native (f iterator))) :=
  h.bind (h.indifferent (indifferent_newIterator pairs)) fun _ ↦ h.push s _

theorem native (f : Native) (s : ScopeId) : R (f.call s) (f.call s) := by
  cases f with
  | out =>
    refine h.bind (h.indifferent (indifferent_drain s)) fun values ↦ ?_
    exact h.bind (h.ask _) fun _ ↦ h.push s _
  | stringLength | stringUpper | stringLower => exact h.bind (h.popText s) fun _ ↦ h.push s _
  | stringIterator => exact h.bind (h.popText s) fun _ ↦ h.newIterator s _ .nextOfString
  | tableLength | tableKeys => exact h.bind (h.popTable s) fun _ ↦ h.push s _
  | tableInsert => exact h.bind (h.popTable s) fun t ↦ h.bind (h.pop s) fun _ ↦ h.push s _
  | tableRemove => exact h.bind (h.popTable s) fun t ↦ h.bind (h.popKey s) fun _ ↦ h.push s _
  | tableIterator => exact h.bind (h.popTable s) fun _ ↦ h.newIterator s _ .nextOfTable
  | typeOf => exact h.bind (h.indifferent (indifferent_popOrNull s)) fun _ ↦ h.push s _
  | nextOfString iterator => exact h.pushNextPair s iterator
  | nextOfTable iterator => exact h.pushNextPair s iterator

theorem pushAll (s : ScopeId) (values : List Value) :
    R (pushAll s values) (Exec.pushAll s values) := by
  induction values with
  | nil => exact h.pure ()
  | cons v values ih => exact h.bind (h.push s v) fun _ ↦ ih

theorem popMany (s : ScopeId) (count : Nat) : R (popMany s count) (Exec.popMany s count) := by
  induction count with
  | zero => exact h.pure []
  | succ count ih => exact h.bind (h.pop s) fun v ↦ h.bind ih fun _ ↦ h.pure _

theorem callNative (f : Native) (s : ScopeId) (marked : Option Nat) :
    R (callNative f s marked) (Exec.callNative f s marked) := by
  rcases marked with _ | count
  · exact h.native f s
  · refine h.bind (h.indifferent (indifferent_newScope s)) fun frame ↦ ?_
    refine h.bind (h.indifferent (indifferent_takeTop s count)) fun values ↦ ?_
    refine h.bind (h.pushAll frame values) fun _ ↦ h.bind (h.native f frame) fun _ ↦ ?_
    exact h.bind (h.indifferent (indifferent_popOrNull frame)) fun v ↦ h.push s v

theorem callForeign (f : ForeignFunction) (s : ScopeId) (marked : Option Nat) :
    R (callForeign f s marked) (Exec.callForeign f s marked) := by
  unfold Exec.callForeign
  dsimp only
  split
  · exact h.fail _
  · exact h.bind (h.popMany s _) fun args ↦ h.bind (h.check _) fun v ↦ h.push s v

/-! ### Plain instructions -/

theorem popTypes (s : ScopeId) (count : Nat) :
    R (popTypes s count) (GemLang.popTypes s count) := by
  induction count with
  | zero => exact h.pure []
  | succ count ih =>
    refine h.bind (h.pop s) fun v ↦ h.bind (h.check _) fun type ↦ ?_
    exact h.bind ih fun _ ↦ h.pure _

theorem loadLibrary (path : String) : R (loadLibrary path) (GemLang.loadLibrary path) := by
  refine h.get (fun _ _ _ _ ↦ rfl) fun m ↦ ?_
  split
  · exact h.pure _
  · split
    · exact h.fail _
    · exact h.bind (h.indifferent (indifferent_modify fun _ _ _ _ ↦ rfl)) fun _ ↦ h.pure _

theorem define (s : ScopeId) (name operand : String) :
    R (define s name operand) (GemLang.define s name operand) := by
  refine h.bind (h.popNumber s) fun count ↦ h.bind (h.pop s) fun v ↦ ?_
  refine h.bind (h.check _) fun returnType ↦ h.bind (h.popTypes s _) fun argTypes ↦ ?_
  refine h.bind ?_ fun f ↦ h.indifferent (indifferent_declare s name _)
  unfold defineForeign
  split
  · exact h.fail _
  · refine h.bind (h.loadLibrary _) fun loaded ↦ ?_
    dsimp only
    split
    · exact h.fail _
    · exact h.bind (h.indifferent indifferent_freshIdentity) fun _ ↦ h.pure _

theorem popKeys (s : ScopeId) (count : Nat) : R (popKeys s count) (GemLang.popKeys s count) := by
  induction count with
  | zero => exact h.pure []
  | succ count ih => exact h.bind (h.popKey s) fun key ↦ h.bind ih fun _ ↦ h.pure _

theorem storePath (s : ScopeId) (count : String) :
    R (storePath s count) (GemLang.storePath s count) := by
  unfold GemLang.storePath
  split
  · exact h.fail _
  · refine h.bind (h.popTable s) fun t ↦ h.bind (h.popKeys s _) fun keys ↦ ?_
    exact h.bind (h.pop s) fun v ↦ h.bind (h.check _) fun u ↦ h.push s _

theorem loadMethod (s : ScopeId) (object : Value) (methods : String) (key : Key) :
    R (loadMethod s object methods key) (GemLang.loadMethod s object methods key) := by
  refine h.get (fun _ _ _ _ ↦ rfl) fun m ↦ ?_
  dsimp only
  split
  · exact h.bind (h.push s object) fun _ ↦ h.push s _
  · exact h.push s _

theorem loadInherited (s : ScopeId) (object : Value) (key : Key) :
    R (loadInherited s object key) (GemLang.loadInherited s object key) := by
  unfold GemLang.loadInherited
  split
  · exact h.push s _
  · split
    · exact h.loadMethod s object _ key
    · exact h.fail _

theorem loadKey (s : ScopeId) : R (loadKey s) (GemLang.loadKey s) := by
  refine h.bind (h.pop s) fun keyValue ↦ h.bind (h.pop s) fun object ↦ ?_
  refine h.bind (h.checkType _) fun key ↦ ?_
  split
  · exact h.fail _
  · split
    · split
      · exact h.push s _
      · exact h.loadInherited s _ key
    · exact h.loadInherited s object key

theorem combine (s : ScopeId) (f : Value → Value → Except Error Value) :
    R (combine s f) (GemLang.combine s f) :=
  h.bind (h.pop s) fun _ ↦ h.bind (h.pop s) fun _ ↦ h.bind (h.check _) fun v ↦ h.push s v

theorem comparison (s : ScopeId) (op : Opcode) :
    R (do let b ← Exec.popNumber s; let a ← Exec.popNumber s
          Exec.push s (.bool (compareNumbers op a b)))
      (do let b ← Exec.popNumber s; let a ← Exec.popNumber s
          Exec.push s (.bool (compareNumbers op a b))) :=
  h.bind (h.popNumber s) fun _ ↦ h.bind (h.popNumber s) fun _ ↦ h.push s _

/-- An assignment declares a name that is not bound, if it is not refused. -/
theorem storeLocal (s : ScopeId) (name : String) :
    R (perform s .storeLocal [name]) (perform s .storeLocal [name]) := by
  refine h.bind (h.pop s) fun v ↦
    h.bind (h.indifferent (indifferent_assign s name v)) fun found ↦ ?_
  cases found with
  | true => exact h.pure ()
  | false => exact h.unbound s name v

theorem perform (s : ScopeId) (op : Opcode) (operands : List String) :
    R (perform s op operands) (GemLang.perform s op operands) := by
  unfold GemLang.perform
  -- the opcodes in the order of `perform`; the last case is that of operands out of place
  split
  · exact h.bind (h.check _) fun v ↦ h.push s v
  · exact h.bind (h.pop s) fun v ↦ h.indifferent (indifferent_declare s _ v)
  · exact h.storeLocal s _
  · exact h.bind (h.indifferent (indifferent_lookup s _)) fun v ↦ h.push s v
  · exact h.indifferent (indifferent_remove s _)
  · exact h.define s _ _
  · exact h.combine s _
  · exact h.combine s _
  · exact h.combine s _
  · exact h.combine s _
  · exact h.combine s _
  · exact h.combine s _
  · exact h.combine s _
  · exact h.combine s _
  · exact h.comparison s _
  · exact h.comparison s _
  · exact h.comparison s _
  · exact h.comparison s _
  · exact h.combine s _
  · exact h.combine s _
  · exact h.bind (h.pop s) fun v ↦ h.push s _
  · exact h.indifferent (indifferent_mark s)
  · exact h.push s _
  · refine h.bind (h.popKey s) fun key ↦ h.bind (h.pop s) fun v ↦ ?_
    exact h.bind (h.popTable s) fun t ↦ h.push s _
  · exact h.loadKey s
  · exact h.storePath s _
  · exact h.bind (h.pop s) fun _ ↦ h.pure ()
  · exact h.fail _

/-! ### Functions of the program -/

theorem makeFunction (s : ScopeId) (c : Stretch) :
    R (makeFunction s c) (Exec.makeFunction s c) := by
  refine h.bind (h.checkCode _) fun p ↦ h.bind (h.indifferent indifferent_freshIdentity) fun _ ↦ ?_
  exact h.bind (h.push s _) fun _ ↦ h.pure _

theorem bindParams (caller frame : ScopeId) (provided : Nat) (params : List String) :
    R (bindParams caller frame provided params) (Exec.bindParams caller frame provided params) := by
  induction params generalizing provided with
  | nil => cases provided <;> exact h.pure ()
  | cons param params ih =>
    rcases provided with _ | provided
    · exact h.bind (h.indifferent (indifferent_declare frame param _)) fun _ ↦ ih 0
    · refine h.bind (h.pop caller) fun v ↦ ?_
      exact h.bind (h.indifferent (indifferent_declare frame param v)) fun _ ↦ ih provided

theorem enterFunction (f : ScriptFunction) (caller : ScopeId) (marked : Option Nat) :
    R (enterFunction f caller marked) (Exec.enterFunction f caller marked) := by
  refine h.bind (h.indifferent (indifferent_newScope f.home)) fun frame ↦ ?_
  refine h.bind (h.indifferent (indifferent_depth caller)) fun depth ↦ ?_
  refine h.bind (h.bindParams caller frame _ f.params) fun _ ↦ ?_
  rcases marked with _ | count
  · exact h.pure frame
  · exact h.bind (h.indifferent (indifferent_takeTop caller _)) fun _ ↦ h.pure frame

theorem callResult (f : ScriptFunction) (frame : ScopeId) (left : Option Signal) :
    R (callResult f frame left) (Exec.callResult f frame left) := by
  match left with
  | some (.returned v) => exact h.pure v
  | none => exact h.indifferent (indifferent_popOrNull frame)
  | some .broke | some .continued => exact h.fail _

end Lockstep

end Exec

/-! ## Runs -/

/-- Runs with one number of steps and with another are related. -/
structure RunsRelated (R : ∀ {α : Type}, Exec α → Exec α → Prop) (fuel more : Nat) : Prop where
  run (s : ScopeId) (c : Stretch) : R (run fuel s c) (run more s c)
  branch (block : ScopeId) (c : Stretch) : R (branch fuel block c) (branch more block c)
  iterate (block : ScopeId) (c : Stretch) : R (iterate fuel block c) (iterate more block c)
  call (s : ScopeId) : R (call fuel s) (call more s)
  callScript (f : ScriptFunction) (caller : ScopeId) (marked : Option Nat) :
    R (callScript fuel f caller marked) (callScript more f caller marked)

namespace RunsRelated

variable {R : ∀ {α : Type}, Exec α → Exec α → Prop} (h : Lockstep R) {fuel more : Nat}

include h

theorem op_succ (ih : RunsRelated R fuel more) (s : ScopeId) (position : Nat) (op : Opcode)
    (code : List Bytecode.Atom) : R (GemLang.run (fuel + 1) s ⟨position, .op op :: code⟩)
      (GemLang.run (more + 1) s ⟨position, .op op :: code⟩) := by
  rw [GemLang.run, GemLang.run]
  dsimp only
  cases op.role with
  | plain =>
    refine h.bind (h.checkCode _) fun p ↦ h.bind (h.perform s op p.1) fun _ ↦ ?_
    exact ih.run s p.2
  | call => exact h.bind (ih.call s) fun _ ↦ ih.run s _
  | leave => exact h.bind (h.indifferent (indifferent_popOrNull s)) fun v ↦ h.pure _
  | breakLoop => exact h.pure _
  | nextPass => exact h.pure _
  | branch =>
    refine h.bind (h.indifferent (indifferent_newScope s)) fun block ↦ ?_
    refine h.bind (ih.branch block _) fun r ↦ ?_
    rcases r with signal | rest
    · exact h.pure _
    · exact ih.run s rest
  | loop =>
    refine h.bind (h.checkCode _) fun p ↦ ?_
    refine h.bind (h.indifferent (indifferent_newScope s)) fun block ↦ ?_
    refine h.bind (ih.iterate block p.1) fun left ↦ ?_
    rcases left with _ | signal
    · exact ih.run s p.2
    · exact h.pure _
  | function => exact h.bind (h.makeFunction s _) fun rest ↦ ih.run s rest
  | divider => exact h.fail _

theorem run_succ (ih : RunsRelated R fuel more) (s : ScopeId) (c : Stretch) :
    R (GemLang.run (fuel + 1) s c) (GemLang.run (more + 1) s c) := by
  obtain ⟨position, code⟩ := c
  rcases code with _ | ⟨op | text, code⟩
  · exact h.pure none
  · exact ih.op_succ h s position op code
  · exact h.fail _

theorem branch_succ (ih : RunsRelated R fuel more) (block : ScopeId) (c : Stretch) :
    R (GemLang.branch (fuel + 1) block c) (GemLang.branch (more + 1) block c) := by
  rw [GemLang.branch, GemLang.branch]
  refine h.bind (h.checkCode _) fun p ↦ h.bind (h.checkCode _) fun q ↦ ?_
  refine h.bind (ih.run block p.1) fun left ↦ ?_
  rcases left with _ | signal
  · refine h.bind (h.pop block) fun v ↦ ?_
    dsimp only
    -- a condition that fails leads on to the next one, to the last block or past the end
    split
    · split
      · exact ih.branch block _
      · refine h.bind (h.checkCode _) fun p ↦ h.bind (ih.run block p.1) fun left ↦ ?_
        rcases left with _ | signal <;> exact h.pure _
      · exact h.pure _
    · refine h.bind (ih.run block q.1) fun left ↦ h.bind (h.checkCode _) fun rest ↦ ?_
      rcases left with _ | signal <;> exact h.pure _
  · exact h.pure _

theorem iterate_succ (ih : RunsRelated R fuel more) (block : ScopeId) (c : Stretch) :
    R (GemLang.iterate (fuel + 1) block c) (GemLang.iterate (more + 1) block c) := by
  rw [GemLang.iterate, GemLang.iterate]
  refine h.bind (ih.run block c) fun left ↦ ?_
  match left with
  | none | some .continued => exact ih.iterate block c
  | some .broke | some (.returned _) => exact h.pure _

theorem call_succ (ih : RunsRelated R fuel more) (s : ScopeId) :
    R (GemLang.call (fuel + 1) s) (GemLang.call (more + 1) s) := by
  rw [GemLang.call, GemLang.call]
  refine h.bind (h.pop s) fun callee ↦ ?_
  refine h.bind (h.indifferent (indifferent_argumentCount s)) fun marked ↦ ?_
  split
  · exact h.callNative _ s marked
  · exact h.bind (ih.callScript _ s marked) fun v ↦ h.push s v
  · exact h.callForeign _ s marked
  · exact h.fail _

theorem callScript_succ (ih : RunsRelated R fuel more) (f : ScriptFunction) (caller : ScopeId)
    (marked : Option Nat) : R (GemLang.callScript (fuel + 1) f caller marked)
      (GemLang.callScript (more + 1) f caller marked) :=
  h.called (h.enterFunction f caller marked) (fun frame ↦ ih.run frame f.body)
    fun frame left ↦ h.callResult f frame left

theorem succ (ih : RunsRelated R fuel more) : RunsRelated R (fuel + 1) (more + 1) :=
  ⟨ih.run_succ h, ih.branch_succ h, ih.iterate_succ h, ih.call_succ h, ih.callScript_succ h⟩

end RunsRelated

theorem Exec.indifferent_outOfSteps {α : Type} : Indifferent (outOfSteps : Exec α) :=
  fun _ _ _ _ ↦ rfl

/-- **Lockstep**: a relation that every instruction keeps, every run keeps. -/
theorem runsRelated {R : ∀ {α : Type}, Exec α → Exec α → Prop} (h : Lockstep R) (fuel : Nat) :
    RunsRelated R fuel fuel := by
  induction fuel with
  | zero =>
    constructor <;> intros <;> exact h.indifferent indifferent_outOfSteps
  | succ fuel ih => exact ih.succ h

/-- The same for two numbers of steps, if to have used them up is related to whatever else a run may
do. -/
theorem runsRelated_of_le {R : ∀ {α : Type}, Exec α → Exec α → Prop} (h : Lockstep R)
    (hsteps : ∀ {α : Type} {y : Exec α}, R y y → R outOfSteps y) {fuel more : Nat}
    (hle : fuel ≤ more) : RunsRelated R fuel more := by
  induction fuel generalizing more with
  | zero =>
    have hself := runsRelated h more
    constructor
    · intro s c
      exact hsteps (hself.run s c)
    · intro block c
      exact hsteps (hself.branch block c)
    · intro block c
      exact hsteps (hself.iterate block c)
    · intro s
      exact hsteps (hself.call s)
    · intro f caller marked
      exact hsteps (hself.callScript f caller marked)
  | succ fuel ih =>
    obtain ⟨more, rfl⟩ := Nat.exists_eq_add_of_lt hle
    exact (ih (Nat.le_add_right fuel more)).succ h

end GemLang
