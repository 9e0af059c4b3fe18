import GemLang.Proofs.Bytecode.Veiled
import GemLang.Proofs.Machine.Keeping
import GemLang.Proofs.Machine.Lockstep
import GemLang.Proofs.Machine.Running
import GemLang.Proofs.Syntax.Spelling
import GemLang.Proofs.Table.Keys

/-!
# Judgments on runs

Facts about single runs are shown by going through the operations that runs are made of. That is
done here once, for any judgment `T Q x` on an operation `x` whose results are to satisfy `Q`. If
the judgment goes through sequences and holds of the operations of the machine (`Exec.Rules`), then
it holds of every run, whatever the code and however many steps it takes (`Exec.Rules.run`).

An operation of the machine works in a scope and with values, and the judgment may rest on both. So
the rules come with a property `W` of the scopes that are worked in and a property `V` of values,
and making values from values is not to lead out of it (`Value.Made`). The names that are looked up
and bound may matter too; those that do not are the ones with a property `N`.

Single instructions make no scopes (`Exec.StepRules`), but runs do. Runs also go from one scope to
another by functions. These are to come from scopes with a property `H`, and that way may not lead
out of the properties either (`Value.Sealed`). What is known of scopes and values may grow with a
run, so in the rules for runs the properties come with the number of scopes that there are
(`Exec.RunRules`). Judgments that do not look at it are a special case.

The code is arbitrary throughout. It need not come from the compiler, nor be well formed.
-/

namespace GemLang

open Bytecode (Opcode Stretch)
open Exec

variable {N : String → Prop} {W H : ScopeId → Prop} {V : Value → Prop}

/-! ## Values -/

/-- The value is made from nothing: it is neither a table nor a function of the program or of the
machine. -/
def Value.IsPlain : Value → Prop
  | .number _ | .bool _ | .text _ | .foreign _ => True
  | .table _ | .script _ | .native _ => False

/-- Values made from values that satisfy `V` satisfy it too. -/
structure Value.Made (V : Value → Prop) : Prop where
  plain {v : Value} (hv : v.IsPlain) : V v
  empty : V (.table [])
  entry {t : Table} {e : Key × Value} (ht : V (.table t)) (he : e ∈ t) : V e.2
  insert {t : Table} {key : Key} {v : Value} (ht : V (.table t)) (hkey : key.IsProper)
    (hv : V v) : V (.table (Assoc.insert t key v))
  erase {t : Table} (ht : V (.table t)) (key : Key) : V (.table (Assoc.erase t key))

namespace Value.Made

variable (h : Value.Made V)

include h

theorem number (x : Float) : V (.number x) := h.plain trivial

theorem bool (b : Bool) : V (.bool b) := h.plain trivial

theorem text (s : String) : V (.text s) := h.plain trivial

theorem foreign (f : ForeignFunction) : V (.foreign f) := h.plain trivial

theorem ofKey (key : Key) : V (.ofKey key) := by
  cases key with
  | int i => exact h.number _
  | double x => exact h.number x
  | text s => exact h.text _

theorem get? {t : Table} {key : Key} {v : Value} (ht : V (.table t))
    (hv : Assoc.get? t key = some v) : V v :=
  Assoc.forall_of_get? (fun _ he ↦ h.entry ht he) hv

theorem ofList {entries : List (Key × Value)} (hentries : ∀ e ∈ entries, e.1.IsProper ∧ V e.2) :
    V (.table (Assoc.ofList entries)) := by
  have hfold (t : Table) (ht : V (.table t)) :
      V (.table (entries.foldl (fun m e ↦ Assoc.insert m e.1 e.2) t)) := by
    induction entries generalizing t with
    | nil => exact ht
    | cons e entries ih =>
      rw [List.forall_mem_cons] at hentries
      exact ih hentries.2 _ (h.insert ht hentries.1.1 hentries.1.2)
  exact hfold [] h.empty

theorem keyTable (t : Table) : V (.table (keyTable t)) := by
  refine h.ofList ?_
  rw [List.forall_mem_map]
  exact fun e _ ↦ ⟨trivial, h.ofKey e.1.1⟩

theorem storePath {t u : Table} {keys : List Key} {v : Value} (ht : V (.table t))
    (hkeys : ∀ key ∈ keys, key.IsProper) (hv : V v) (hu : Table.storePath t keys v = .ok u) :
    V (.table u) := by
  fun_induction Table.storePath t keys v generalizing u with
  | case1 => cases hu
  | case2 t key =>
    obtain rfl := Except.ok.inj hu
    exact h.insert ht (hkeys key List.mem_cons_self) hv
  | case3 t key keys hne inner w hinner =>
    rename_i ih
    rw [List.forall_mem_cons] at hkeys
    have hw : V (.table w) := by
      rw [← hinner]
      change V ((Assoc.get? t key).getD (.table []))
      cases hget : Assoc.get? t key with
      | none => exact h.empty
      | some x => exact h.get? ht hget
    cases hstore : Table.storePath w keys v with
    | error e =>
      rw [hstore] at hu
      cases hu
    | ok w' =>
      rw [hstore] at hu
      obtain rfl := Except.ok.inj hu
      exact h.insert ht hkeys.1 (ih hw hkeys.2 hstore)
  | case4 => cases hu

theorem characterPairs (s : String) : ∀ p ∈ characterPairs s, V p.1 ∧ V p.2 := by
  simp only [GemLang.characterPairs, List.forall_mem_map]
  exact fun _ _ ↦ ⟨h.number _, h.text _⟩

theorem entryPairs {t : Table} (ht : V (.table t)) : ∀ p ∈ entryPairs t, V p.1 ∧ V p.2 := by
  simp only [GemLang.entryPairs, List.forall_mem_map]
  exact fun e he ↦ ⟨h.ofKey e.1, h.entry ht he⟩

end Value.Made

/-- Values made from values that satisfy `V` satisfy it too, and the functions of the program among
them are those of scopes that satisfy `H`. -/
structure Value.Sealed (H : ScopeId → Prop) (V : Value → Prop) : Prop extends Value.Made V where
  script {f : ScriptFunction} (hf : H f.home) : V (.script f)
  home {f : ScriptFunction} (hf : V (.script f)) : H f.home

theorem isPlain_of_arithmetic {op : Opcode} {a b v : Value} (hv : arithmetic op a b = .ok v) :
    v.IsPlain := by
  unfold arithmetic at hv
  split at hv
  · split at hv <;> cases hv
    trivial
  · split at hv <;> cases hv
    trivial
  · cases hv

theorem isPlain_of_literal {text : String} {v : Value} (hv : literal text = .ok v) :
    v.IsPlain := by
  unfold literal at hv
  split at hv
  · cases hv
    trivial
  · split at hv
    · split at hv <;> cases hv
      trivial
    · cases hv
      trivial

/-! ### From C -/

namespace Foreign

theorem ensures_ofCKey (key : CKey) : Ensures Key.IsProper (ofCKey key) := by
  match key with
  | .int _ | .text (some _) => exact .ok trivial
  | .text none | .unknown _ => exact .error
  | .double x =>
    rw [ofCKey]
    split
    · next hkey => exact .ok (Value.isNormal_of_toKey hkey).isProper
    · exact .error

mutual

theorem ensures_ofCValue (h : Value.Made V) (v : CValue) : Ensures V (ofCValue v) := by
  match v with
  | .int _ | .double _ => exact .ok (h.number _)
  | .bool b => exact .ok (h.bool b)
  | .text (some _) | .text none => exact .ok (h.text _)
  | .table none => exact .ok h.empty
  | .table (some nodes) =>
    rw [ofCValue]
    exact (ensures_ofCNodes h h.empty nodes).bind fun _ ht ↦ .ok ht
  | .unknown _ => exact .error

theorem ensures_ofCNodes (h : Value.Made V) {t : Table} (ht : V (.table t))
    (nodes : List (CKey × CValue)) : Ensures (fun t ↦ V (.table t)) (ofCNodes t nodes) := by
  match nodes with
  | [] => exact .ok ht
  | (key, value) :: nodes =>
    rw [ofCNodes]
    refine (ensures_ofCKey key).bind fun k hk ↦ ?_
    refine (ensures_ofCValue h value).bind fun v hv ↦ ?_
    exact ensures_ofCNodes h (h.insert ht hk hv) nodes

end

theorem ensures_call (h : Value.Made V) (f : ForeignFunction) (args : List Value) :
    Ensures V (call f args) := by
  rw [call]
  split
  · exact .error
  · next cargs _ =>
    match f.function cargs with
    | .double _ | .float _ | .int _ | .uint _ => exact .ok (h.number _)
    | .bool b => exact .ok (h.bool b)
    | .text none | .text (some _) | .table none | .void => exact .ok (h.text _)
    | .table (some none) => exact .ok h.empty
    | .table (some (some nodes)) =>
      exact (ensures_ofCNodes h h.empty nodes).bind fun _ ht ↦ .ok ht

end Foreign

/-! ## Rules -/

theorem Exec.Ends.limited {α : Type} {Q : α → Machine → Prop} {E : Stop → Machine → Prop}
    {x : Exec α} {m : Machine} (hx : Ends Q E (x m)) (hfull : E (.error .stackOverflow) m) :
    Ends Q E (limited x m) := by
  rw [limited_apply]
  split
  · exact .error hfull
  · exact hx

/-- The values that names have in the outermost scope satisfy `V`. Methods are found there, whatever
the scope that they are asked for in. -/
def Machine.MethodsHold (N : String → Prop) (V : Value → Prop) (m : Machine) : Prop :=
  ∀ name, N name → ∀ v, m.heap.lookup Machine.root name = some v → V v

/-- The judgment `T` goes through sequences and holds of the operations that instructions are made
of, with names that satisfy `N`, in scopes that satisfy `W` and with values that satisfy `V`. -/
structure Exec.StepRules (N : String → Prop) (W : ScopeId → Prop) (V : Value → Prop)
    (T : ∀ {α : Type}, (α → Prop) → Exec α → Prop) : Prop extends Value.Made V where
  /-- Methods may be looked for. -/
  methods {object : Value} {name : String} (hname : methodTable? object = some name) : N name := by
    intros
    trivial
  pure {α : Type} {Q : α → Prop} {a : α} (ha : Q a) : T Q (pure a)
  bind {α β : Type} {Q : α → Prop} {R : β → Prop} {x : Exec α} {f : α → Exec β} (hx : T Q x)
    (hf : ∀ a, Q a → T R (f a)) : T R (x >>= f)
  fail {α : Type} {Q : α → Prop} (e : Error) : T Q (fail e)
  get : T (Machine.MethodsHold N V) get
  push {s : ScopeId} (hs : W s) {v : Value} (hv : V v) : T (fun _ ↦ True) (push s v)
  pop {s : ScopeId} (hs : W s) : T V (pop s)
  popOrNull {s : ScopeId} (hs : W s) : T V (popOrNull s)
  takeTop {s : ScopeId} (hs : W s) (count : Nat) : T (fun vs ↦ ∀ v ∈ vs, V v) (takeTop s count)
  drain {s : ScopeId} (hs : W s) : T (fun _ ↦ True) (drain s)
  declare {s : ScopeId} (hs : W s) (name : String) (hname : N name) {v : Value} (hv : V v) :
    T (fun _ ↦ True) (declare s name v)
  lookup {s : ScopeId} (hs : W s) (name : String) (hname : N name) : T V (lookup s name)
  assign {s : ScopeId} (hs : W s) (name : String) (hname : N name) {v : Value} (hv : V v) :
    T (fun _ ↦ True) (assign s name v)
  remove {s : ScopeId} (hs : W s) (name : String) (hname : N name) :
    T (fun _ ↦ True) (remove s name)
  ask (request : Writer.Request) : T (fun _ ↦ True) (ask request)
  freshIdentity : T (fun _ ↦ True) freshIdentity
  addLibrary (loaded : LoadedLibrary) :
    T (fun _ ↦ True) (modify fun m ↦ { m with libraries := m.libraries ++ [loaded] })
  newIterator {pairs : List (Value × Value)} (hpairs : ∀ p ∈ pairs, V p.1 ∧ V p.2) :
    T (fun i ↦ V (.native (.nextOfString i)) ∧ V (.native (.nextOfTable i))) (newIterator pairs)
  nextOfString {i : Nat} (hi : V (.native (.nextOfString i))) :
    T (fun p ↦ V p.1 ∧ V p.2) (nextPair i)
  nextOfTable {i : Nat} (hi : V (.native (.nextOfTable i))) :
    T (fun p ↦ V p.1 ∧ V p.2) (nextPair i)
  mark (s : ScopeId) : T (fun _ ↦ True) (mark s)
  argumentCount (s : ScopeId) : T (fun _ ↦ True) (argumentCount s)

/-- What control left by holds a value that satisfies `V`. -/
def Signal.Holds (V : Value → Prop) : Option Signal → Prop
  | some (.returned v) => V v
  | _ => True

/-! ## Instructions -/

namespace Exec.StepRules

variable {T : ∀ {α : Type}, (α → Prop) → Exec α → Prop} (h : StepRules N W V T) {s : ScopeId}

include h

theorem mono {α : Type} {Q R : α → Prop} {x : Exec α} (hx : T Q x) (h' : ∀ a, Q a → R a) :
    T R x := by
  rw [← bind_pure x]
  exact h.bind hx fun a ha ↦ h.pure (h' a ha)

/-- The result does not matter. -/
theorem seq {α β : Type} {Q : α → Prop} {R : β → Prop} {x : Exec α} {f : α → Exec β} (hx : T Q x)
    (hf : ∀ a, T R (f a)) : T R (x >>= f) :=
  h.bind hx fun a _ ↦ hf a

theorem check {α : Type} {Q : α → Prop} {r : Except Error α} (hr : ∀ a, r = .ok a → Q a) :
    T Q (check r) := by
  cases r with
  | ok a => exact h.pure (hr a rfl)
  | error e => exact h.fail e

theorem checkType {α : Type} {Q : α → Prop} {r : Except TypeFault α} (hr : ∀ a, r = .ok a → Q a) :
    T Q (checkType r) := by
  cases r with
  | ok a => exact h.pure (hr a rfl)
  | error e => exact h.fail _

theorem checkCode {α : Type} (r : Except CodeFault α) : T (fun _ ↦ True) (checkCode r) := by
  cases r with
  | ok a => exact h.pure trivial
  | error e => exact h.fail _

theorem depth (s : ScopeId) : T (fun _ ↦ True) (depth s) := h.seq h.get fun _ ↦ h.pure trivial

theorem popNumber (hs : W s) : T (fun _ ↦ True) (popNumber s) := by
  refine h.seq (h.pop hs) fun v ↦ ?_
  split
  · exact h.pure trivial
  · exact h.fail _

theorem popTable (hs : W s) : T (fun t ↦ V (.table t)) (popTable s) := by
  refine h.bind (h.pop hs) fun v hv ↦ ?_
  split
  · exact h.pure hv
  · exact h.fail _

/-- The keys that instructions use are those that values index with. -/
theorem popKey (hs : W s) : T Key.IsProper (popKey s) :=
  h.seq (h.pop hs) fun _ ↦ h.checkType fun _ hkey ↦ (Value.isNormal_of_toKey hkey).isProper

theorem popText (hs : W s) : T (fun _ ↦ True) (popText s) := by
  refine h.seq (h.pop hs) fun v ↦ ?_
  split
  · split
    · exact h.pure trivial
    · exact h.fail _
  · exact h.fail _

/-! ### Functions that the machine provides -/

theorem pushPair (hs : W s) {i : Nat} (hi : T (fun p ↦ V p.1 ∧ V p.2) (nextPair i)) :
    T (fun _ ↦ True) (pushNextPair s i) :=
  h.bind hi fun _ hp ↦ h.seq (h.push hs hp.2) fun _ ↦ h.push hs hp.1

theorem native {f : Native} (hf : V (.native f)) (hs : W s) : T (fun _ ↦ True) (f.call s) := by
  cases f with
  | out =>
    refine h.seq (h.drain hs) fun values ↦ ?_
    exact h.seq (h.ask _) fun _ ↦ h.push hs (h.text _)
  | stringLength => exact h.seq (h.popText hs) fun _ ↦ h.push hs (h.number _)
  | stringUpper => exact h.seq (h.popText hs) fun _ ↦ h.push hs (h.text _)
  | stringLower => exact h.seq (h.popText hs) fun _ ↦ h.push hs (h.text _)
  | stringIterator =>
    refine h.seq (h.popText hs) fun text ↦ ?_
    exact h.bind (h.newIterator (h.characterPairs text)) fun _ hi ↦ h.push hs hi.1
  | tableLength => exact h.seq (h.popTable hs) fun _ ↦ h.push hs (h.number _)
  | tableInsert =>
    refine h.bind (h.popTable hs) fun t ht ↦ h.bind (h.pop hs) fun v hv ↦ ?_
    exact h.push hs (h.insert ht trivial hv)
  | tableRemove =>
    refine h.bind (h.popTable hs) fun t ht ↦ h.seq (h.popKey hs) fun key ↦ ?_
    exact h.push hs (h.erase ht key)
  | tableKeys => exact h.seq (h.popTable hs) fun t ↦ h.push hs (h.keyTable t)
  | tableIterator =>
    refine h.bind (h.popTable hs) fun t ht ↦ ?_
    exact h.bind (h.newIterator (h.entryPairs ht)) fun _ hi ↦ h.push hs hi.2
  | typeOf => exact h.seq (h.popOrNull hs) fun _ ↦ h.push hs (h.text _)
  | nextOfString iterator => exact h.pushPair hs (h.nextOfString hf)
  | nextOfTable iterator => exact h.pushPair hs (h.nextOfTable hf)

theorem pushAll (hs : W s) {values : List Value} (hvalues : ∀ v ∈ values, V v) :
    T (fun _ ↦ True) (pushAll s values) := by
  induction values with
  | nil => exact h.pure trivial
  | cons v values ih =>
    rw [List.forall_mem_cons] at hvalues
    exact h.seq (h.push hs hvalues.1) fun _ ↦ ih hvalues.2

/-! ### C functions -/

theorem popMany (hs : W s) (count : Nat) : T (fun _ ↦ True) (popMany s count) := by
  induction count with
  | zero => exact h.pure trivial
  | succ count ih => exact h.seq (h.pop hs) fun _ ↦ h.seq ih fun _ ↦ h.pure trivial

theorem callForeign (f : ForeignFunction) (hs : W s) (marked : Option Nat) :
    T (fun _ ↦ True) (callForeign f s marked) := by
  unfold Exec.callForeign
  dsimp only
  split
  · exact h.fail _
  · refine h.seq (h.popMany hs _) fun args ↦ ?_
    refine h.bind (h.check fun v hv ↦ (Foreign.ensures_call h.toMade f args).of_eq_ok hv) ?_
    exact fun v hv ↦ h.push hs hv

theorem typeOfWord (v : Value) : T (fun _ ↦ True) (Exec.check (typeOfWord v)) :=
  h.check fun _ _ ↦ trivial

theorem popTypes (hs : W s) (count : Nat) : T (fun _ ↦ True) (popTypes s count) := by
  induction count with
  | zero => exact h.pure trivial
  | succ count ih =>
    refine h.seq (h.pop hs) fun v ↦ h.seq (h.typeOfWord v) fun _ ↦ ?_
    exact h.seq ih fun _ ↦ h.pure trivial

theorem loadLibrary (path : String) : T (fun _ ↦ True) (loadLibrary path) := by
  refine h.seq h.get fun m ↦ ?_
  split
  · exact h.pure trivial
  · split
    · exact h.fail _
    · exact h.seq (h.addLibrary _) fun _ ↦ h.pure trivial

theorem define (hs : W s) {name : String} (hname : N name) (operand : String) :
    T (fun _ ↦ True) (define s name operand) := by
  refine h.seq (h.popNumber hs) fun _ ↦ h.seq (h.pop hs) fun v ↦ ?_
  refine h.seq (h.typeOfWord v) fun returnType ↦ h.seq (h.popTypes hs _) fun types ↦ ?_
  refine h.seq (Q := fun _ ↦ True) ?_ fun f ↦ h.declare hs _ hname (h.foreign f)
  unfold defineForeign
  split
  · exact h.fail _
  · refine h.seq (h.loadLibrary _) fun loaded ↦ ?_
    dsimp only
    split
    · exact h.fail _
    · exact h.seq h.freshIdentity fun _ ↦ h.pure trivial

/-! ### Tables -/

theorem popKeys (hs : W s) (count : Nat) :
    T (fun keys ↦ ∀ key ∈ keys, key.IsProper) (popKeys s count) := by
  induction count with
  | zero => exact h.pure (List.forall_mem_nil _)
  | succ count ih =>
    refine h.bind (h.popKey hs) fun key hkey ↦ h.bind ih fun keys hkeys ↦ h.pure ?_
    exact List.forall_mem_cons.mpr ⟨hkey, hkeys⟩

theorem storePath (hs : W s) (count : String) : T (fun _ ↦ True) (storePath s count) := by
  unfold GemLang.storePath
  split
  · exact h.fail _
  · refine h.bind (h.popTable hs) fun t ht ↦ h.bind (h.popKeys hs _) fun keys hkeys ↦ ?_
    refine h.bind (h.pop hs) fun v hv ↦ ?_
    refine h.bind (h.check fun u hu ↦ h.toMade.storePath ht hkeys hv hu) ?_
    exact fun u hu ↦ h.push hs hu

theorem loadMethod (hs : W s) {object : Value} (hobject : V object) {methods : String}
    (hmethods : N methods) (key : Key) : T (fun _ ↦ True) (loadMethod s object methods key) := by
  refine h.bind h.get fun m hm ↦ ?_
  dsimp only
  split
  · next method hfound =>
    have hmethod : V method := by
      split at hfound
      · next hlookup => exact h.get? (hm _ hmethods _ hlookup) hfound
      · cases hfound
    exact h.seq (h.push hs hobject) fun _ ↦ h.push hs hmethod
  · exact h.push hs (h.text _)

theorem loadInherited (hs : W s) {object : Value} (hobject : V object) (key : Key) :
    T (fun _ ↦ True) (loadInherited s object key) := by
  unfold GemLang.loadInherited
  split
  · refine h.push hs ?_
    unfold characterAt
    split
    · exact h.text _
    · split <;> exact h.text _
  · split
    · next hmethods => exact h.loadMethod hs hobject (h.methods hmethods) key
    · exact h.fail _

theorem loadKey (hs : W s) : T (fun _ ↦ True) (loadKey s) := by
  refine h.seq (h.pop hs) fun keyValue ↦ h.bind (h.pop hs) fun object hobject ↦ ?_
  refine h.seq (h.checkType (Q := fun _ ↦ True) fun _ _ ↦ trivial) fun key ↦ ?_
  split
  · exact h.fail _
  · split
    · split
      · next hget => exact h.push hs (h.get? hobject hget)
      · exact h.loadInherited hs hobject key
    · exact h.loadInherited hs hobject key

/-! ### Plain instructions -/

theorem combine (hs : W s) {f : Value → Value → Except Error Value}
    (hf : ∀ a b, V a → V b → ∀ v, f a b = .ok v → V v) : T (fun _ ↦ True) (combine s f) := by
  refine h.bind (h.pop hs) fun b hb ↦ h.bind (h.pop hs) fun a ha ↦ ?_
  exact h.bind (h.check (hf a b ha hb)) fun v hv ↦ h.push hs hv

theorem arithmetic (hs : W s) (op : Opcode) :
    T (fun _ ↦ True) (GemLang.combine s (arithmetic op)) :=
  h.combine hs fun _ _ _ _ _ hv ↦ h.plain (isPlain_of_arithmetic hv)

theorem comparison (hs : W s) (op : Opcode) :
    T (fun _ ↦ True) (do
      let b ← Exec.popNumber s
      let a ← Exec.popNumber s
      Exec.push s (.bool (compareNumbers op a b))) := by
  refine h.seq (h.popNumber hs) fun _ ↦ h.seq (h.popNumber hs) fun _ ↦ ?_
  exact h.push hs (h.bool _)

theorem pushLiteral (hs : W s) (text : String) :
    T (fun _ ↦ True) (do Exec.push s (← Exec.check (literal text))) :=
  h.bind (h.check fun _ hv ↦ h.plain (isPlain_of_literal hv)) fun _ hv ↦ h.push hs hv

/-- An assignment declares a name that is not bound, if it is not refused. -/
theorem storeLocal (hs : W s) {name : String} (hname : N name) :
    T (fun _ ↦ True) (perform s .storeLocal [name]) := by
  refine h.bind (h.pop hs) fun v hv ↦ h.seq (h.assign hs _ hname hv) fun assigned ↦ ?_
  split
  · refine h.seq h.get fun m ↦ ?_
    split
    · exact h.fail _
    · exact h.declare hs _ hname hv
  · exact h.pure trivial

/-- **A plain instruction obeys the rules**, with a name that satisfies `N` if it has one. -/
theorem perform (hs : W s) (op : Opcode) (operands : List String)
    (hname : ∀ x, Bytecode.nameOf? op operands = some x → N x) :
    T (fun _ ↦ True) (perform s op operands) := by
  unfold GemLang.perform
  -- the opcodes in the order of `perform`; the last case is that of operands out of place
  split
  · exact h.pushLiteral hs _
  · exact h.bind (h.pop hs) fun v hv ↦ h.declare hs _ (hname _ rfl) hv
  · exact h.storeLocal hs (hname _ rfl)
  · exact h.bind (h.lookup hs _ (hname _ rfl)) fun v hv ↦ h.push hs hv
  · exact h.remove hs _ (hname _ rfl)
  · exact h.define hs (hname _ rfl) _
  · exact h.arithmetic hs .add
  · exact h.arithmetic hs .sub
  · exact h.arithmetic hs .mul
  · exact h.arithmetic hs .div
  · exact h.arithmetic hs .pow
  · exact h.arithmetic hs .mod
  · refine h.combine hs fun a b _ _ v hv ↦ ?_
    cases hv
    exact h.bool _
  · refine h.combine hs fun a b _ _ v hv ↦ ?_
    cases hv
    exact h.bool _
  · exact h.comparison hs .greater
  · exact h.comparison hs .less
  · exact h.comparison hs .greaterEq
  · exact h.comparison hs .lessEq
  · refine h.combine hs fun a b ha hb v hv ↦ ?_
    cases hv
    split
    · exact ha
    · exact hb
  · refine h.combine hs fun a b ha hb v hv ↦ ?_
    cases hv
    split
    · exact hb
    · exact ha
  · exact h.seq (h.pop hs) fun v ↦ h.push hs (h.bool _)
  · exact h.mark s
  · exact h.push hs h.empty
  · refine h.bind (h.popKey hs) fun key hkey ↦ h.bind (h.pop hs) fun v hv ↦ ?_
    exact h.bind (h.popTable hs) fun t ht ↦ h.push hs (h.insert ht hkey hv)
  · exact h.loadKey hs
  · exact h.storePath hs _
  · exact h.seq (h.pop hs) fun _ ↦ h.pure trivial
  · exact h.fail _

/-! ### Calls -/

/-- The arguments of a function of the machine go into a scope of its own, and a result comes
back. -/
theorem nativeInside {f : Native} (hf : V (.native f)) (hs : W s) (frame : ScopeId)
    (hframe : W frame) (count : Nat) : T (fun _ ↦ True) (do
      Exec.pushAll frame (← Exec.takeTop s count)
      f.call frame
      Exec.push s (← Exec.popOrNull frame)) := by
  refine h.bind (h.takeTop hs count) fun values hvalues ↦ ?_
  refine h.seq (h.pushAll hframe hvalues) fun _ ↦ h.seq (h.native hf hframe) fun _ ↦ ?_
  exact h.bind (h.popOrNull hframe) fun v hv ↦ h.push hs hv

/-- Parameters may have any names that can be declared in the scope of the function. -/
theorem bindParams {caller frame : ScopeId} (hcaller : W caller)
    (hframe : ∀ name v, V v → T (fun _ ↦ True) (Exec.declare frame name v))
    (provided : Nat) (params : List String) :
    T (fun _ ↦ True) (bindParams caller frame provided params) := by
  induction params generalizing provided with
  | nil => cases provided <;> exact h.pure trivial
  | cons param params ih =>
    cases provided with
    | zero => exact h.seq (hframe param _ (h.text _)) fun _ ↦ ih 0
    | succ provided =>
      refine h.bind (h.pop hcaller) fun v hv ↦ ?_
      exact h.seq (hframe param v hv) fun _ ↦ ih provided

/-- The arguments of a function of the program are bound in its scope. -/
theorem bindArguments (caller : ScopeId) {frame : ScopeId} (hcaller : W caller)
    (hframe : ∀ name v, V v → T (fun _ ↦ True) (Exec.declare frame name v))
    (f : ScriptFunction) (marked : Option Nat) : T (· = frame) (do
      let passed := marked.getD (← Exec.depth caller)
      let provided := min f.params.length passed
      Exec.bindParams caller frame provided f.params
      match marked with
      | some count => do
        let _ ← Exec.takeTop caller (count - provided)
        return frame
      | none => return frame) := by
  refine h.seq (h.depth caller) fun depth ↦ ?_
  refine h.seq (h.bindParams hcaller hframe _ f.params) fun _ ↦ ?_
  cases marked with
  | some count => exact h.seq (h.takeTop hcaller _) fun _ ↦ h.pure rfl
  | none => exact h.pure rfl

theorem callResult (f : ScriptFunction) {frame : ScopeId} (hframe : W frame)
    {left : Option Signal} (hleft : Signal.Holds V left) : T V (callResult f frame left) := by
  match left with
  | some (.returned v) => exact h.pure hleft
  | none => exact h.popOrNull hframe
  | some .broke | some .continued => exact h.fail _

end Exec.StepRules

/-! ## Runs -/

/-- Rules for a judgment `S` on runs. Where there are `n` scopes, scopes satisfy `W n` and `H n` and
values `V n`, and `T n` is the judgment on instructions. -/
structure Exec.RunRules (W H : Nat → ScopeId → Prop) (V : Nat → Value → Prop)
    (T : Nat → ∀ {α : Type}, (α → Prop) → Exec α → Prop)
    (S : Nat → ∀ {α : Type}, (Nat → α → Prop) → Exec α → Prop) : Prop where
  steps (n : Nat) : StepRules (fun _ ↦ True) (W n) (V n) (T n)
  values (n : Nat) : Value.Sealed (H n) (V n)
  /-- Functions may be made in the scopes that are worked in. -/
  makes {n : Nat} {s : ScopeId} (hs : W n s) : H n s
  scope_mono {n k : Nat} (hle : n ≤ k) {s : ScopeId} (hs : W n s) : W k s
  value_mono {n k : Nat} (hle : n ≤ k) {v : Value} (hv : V n v) : V k v
  step {n : Nat} {α : Type} {Q : Nat → α → Prop} {x : Exec α} (hx : T n (Q n) x) : S n Q x
  bind {n : Nat} {α β : Type} {Q : Nat → α → Prop} {R : Nat → β → Prop} {x : Exec α}
    {f : α → Exec β} (hx : S n Q x) (hf : ∀ k, n ≤ k → ∀ a, Q k a → S k R (f a)) :
    S n R (x >>= f)
  outOfSteps {n : Nat} {α : Type} {Q : Nat → α → Prop} : S n Q outOfSteps
  newScope {n : Nat} {parent : ScopeId} (hparent : H n parent) : S n W (newScope parent)
  limited {n : Nat} {α : Type} {Q : Nat → α → Prop} {x : Exec α} (hx : S n Q x) :
    S n Q (limited x)
  counted {n : Nat} {α : Type} {Q : Nat → α → Prop} {x : Exec α} (hx : S n Q x) :
    S n Q (counted x)

/-- The judgment `S` holds of runs with a number of steps. -/
structure RunsObey (W H : Nat → ScopeId → Prop) (V : Nat → Value → Prop)
    (S : Nat → ∀ {α : Type}, (Nat → α → Prop) → Exec α → Prop) (fuel : Nat) : Prop where
  run {n : Nat} {s : ScopeId} (hs : W n s) (c : Stretch) :
    S n (fun k ↦ Signal.Holds (V k)) (run fuel s c)
  branch {n : Nat} {s : ScopeId} (hs : W n s) (c : Stretch) :
    S n (fun k r ↦ Signal.Holds (V k) (leftBy r)) (branch fuel s c)
  iterate {n : Nat} {s : ScopeId} (hs : W n s) (c : Stretch) :
    S n (fun k ↦ Signal.Holds (V k)) (iterate fuel s c)
  call {n : Nat} {s : ScopeId} (hs : W n s) : S n (fun _ _ ↦ True) (call fuel s)
  callScript {n : Nat} {f : ScriptFunction} {s : ScopeId} (hf : H n f.home) (hs : W n s)
    (marked : Option Nat) : S n V (callScript fuel f s marked)

namespace Exec.RunRules

variable {W H : Nat → ScopeId → Prop} {V : Nat → Value → Prop}
  {T : Nat → ∀ {α : Type}, (α → Prop) → Exec α → Prop}
  {S : Nat → ∀ {α : Type}, (Nat → α → Prop) → Exec α → Prop} (h : RunRules W H V T S)
  {n fuel : Nat} {s : ScopeId}

include h

theorem pure {α : Type} {Q : Nat → α → Prop} {a : α} (ha : Q n a) : S n Q (pure a) :=
  h.step ((h.steps n).pure ha)

theorem fail {α : Type} {Q : Nat → α → Prop} (e : Error) : S n Q (fail e) :=
  h.step ((h.steps n).fail e)

theorem bind_step {α β : Type} {Q : α → Prop} {R : Nat → β → Prop} {x : Exec α} {f : α → Exec β}
    (hx : T n Q x) (hf : ∀ a, Q a → S n R (f a)) : S n R (x >>= f) := by
  have hstep : S n (fun k a ↦ k = n ∧ Q a) x := h.step ((h.steps n).mono hx fun _ ha ↦ ⟨rfl, ha⟩)
  refine h.bind hstep fun k _ a ⟨hk, ha⟩ ↦ ?_
  rw [hk]
  exact hf a ha

theorem checkCode {α β : Type} {R : Nat → β → Prop} (r : Except CodeFault α) {f : α → Exec β}
    (hf : ∀ a, S n R (f a)) : S n R (checkCode r >>= f) :=
  h.bind_step ((h.steps n).checkCode r) fun a _ ↦ hf a

theorem callNative {f : Native} (hf : V n (.native f)) (hs : W n s) (marked : Option Nat) :
    S n (fun _ _ ↦ True) (callNative f s marked) := by
  cases marked with
  | none => exact h.step ((h.steps n).native hf hs)
  | some count =>
    refine h.bind (h.newScope (h.makes hs)) fun k hk frame hframe ↦ h.step ?_
    exact (h.steps k).nativeInside (h.value_mono hk hf) (h.scope_mono hk hs) frame hframe count

theorem enterFunction {f : ScriptFunction} (hf : H n f.home) (hs : W n s) (marked : Option Nat) :
    S n W (enterFunction f s marked) := by
  refine h.bind (h.newScope hf) fun k hk frame hframe ↦ h.step ?_
  have hbound := (h.steps k).bindArguments s (h.scope_mono hk hs)
    (fun name v hv ↦ (h.steps k).declare hframe name trivial hv) f marked
  exact (h.steps k).mono hbound fun _ heq ↦ heq ▸ hframe

theorem makeFunction (hs : W n s) (c : Stretch) :
    T n (fun _ ↦ True) (makeFunction s c) := by
  have hsteps := h.steps n
  refine hsteps.seq (hsteps.checkCode _) fun p ↦ hsteps.seq hsteps.freshIdentity fun identity ↦ ?_
  exact hsteps.seq (hsteps.push hs ((h.values n).script (h.makes hs))) fun _ ↦ hsteps.pure trivial

theorem run_succ (ih : RunsObey W H V S fuel) (hs : W n s) (c : Stretch) :
    S n (fun k ↦ Signal.Holds (V k)) (GemLang.run (fuel + 1) s c) := by
  obtain ⟨position, code⟩ := c
  rw [GemLang.run]
  cases code with
  | nil => exact h.pure trivial
  | cons atom code =>
    cases atom with
    | operand text => exact h.fail _
    | op op =>
      dsimp only
      cases op.role with
      | plain =>
        refine h.checkCode _ fun p ↦ ?_
        exact h.bind_step ((h.steps n).perform hs op p.1 fun _ _ ↦ trivial) fun _ _ ↦ ih.run hs p.2
      | call => exact h.bind (ih.call hs) fun k hk _ _ ↦ ih.run (h.scope_mono hk hs) _
      | leave => exact h.bind_step ((h.steps n).popOrNull hs) fun v hv ↦ h.pure hv
      | breakLoop => exact h.pure trivial
      | nextPass => exact h.pure trivial
      | branch =>
        refine h.bind (h.newScope (h.makes hs)) fun k hk block hblock ↦ ?_
        refine h.bind (ih.branch hblock _) fun l hl r hr ↦ ?_
        cases r with
        | error signal => exact h.pure hr
        | ok rest => exact ih.run (h.scope_mono (hk.trans hl) hs) rest
      | loop =>
        refine h.checkCode _ fun p ↦ ?_
        refine h.bind (h.newScope (h.makes hs)) fun k hk block hblock ↦ ?_
        refine h.bind (ih.iterate hblock p.1) fun l hl left hleft ↦ ?_
        cases left with
        | some signal => exact h.pure hleft
        | none => exact ih.run (h.scope_mono (hk.trans hl) hs) p.2
      | function => exact h.bind_step (h.makeFunction hs _) fun rest _ ↦ ih.run hs rest
      | divider => exact h.fail _

theorem branch_succ (ih : RunsObey W H V S fuel) (hs : W n s) (c : Stretch) :
    S n (fun k r ↦ Signal.Holds (V k) (leftBy r)) (GemLang.branch (fuel + 1) s c) := by
  rw [GemLang.branch]
  refine h.checkCode _ fun p ↦ h.checkCode _ fun q ↦ ?_
  refine h.bind (ih.run hs p.1) fun k hk left hleft ↦ ?_
  cases left with
  | some signal => exact h.pure hleft
  | none =>
    have hs := h.scope_mono hk hs
    refine h.bind_step ((h.steps k).pop hs) fun v _ ↦ ?_
    dsimp only
    -- a condition that fails leads on to the next one, to the last block or past the end
    split
    · split
      · exact ih.branch hs _
      · refine h.checkCode _ fun p ↦ h.bind (ih.run hs p.1) fun l _ left hleft ↦ ?_
        cases left <;> exact h.pure hleft
      · exact h.pure trivial
    · refine h.bind (ih.run hs q.1) fun l _ left hleft ↦ h.checkCode _ fun rest ↦ ?_
      cases left <;> exact h.pure hleft

theorem iterate_succ (ih : RunsObey W H V S fuel) (hs : W n s) (c : Stretch) :
    S n (fun k ↦ Signal.Holds (V k)) (GemLang.iterate (fuel + 1) s c) := by
  rw [GemLang.iterate]
  refine h.bind (ih.run hs c) fun k hk left hleft ↦ ?_
  rcases left with _ | v | _ | _
  · exact ih.iterate (h.scope_mono hk hs) c
  · exact h.pure hleft
  · exact h.pure trivial
  · exact ih.iterate (h.scope_mono hk hs) c

theorem call_succ (ih : RunsObey W H V S fuel) (hs : W n s) :
    S n (fun _ _ ↦ True) (GemLang.call (fuel + 1) s) := by
  rw [GemLang.call]
  refine h.bind_step ((h.steps n).pop hs) fun callee hcallee ↦ ?_
  refine h.bind_step ((h.steps n).argumentCount s) fun marked _ ↦ ?_
  split
  · exact h.callNative hcallee hs marked
  · refine h.bind (ih.callScript ((h.values n).home hcallee) hs marked) fun k hk v hv ↦ ?_
    exact h.step ((h.steps k).push (h.scope_mono hk hs) hv)
  · exact h.step ((h.steps n).callForeign _ hs marked)
  · exact h.fail _

theorem callScript_succ (ih : RunsObey W H V S fuel) {f : ScriptFunction} (hf : H n f.home)
    (hs : W n s) (marked : Option Nat) : S n V (GemLang.callScript (fuel + 1) f s marked) := by
  refine h.limited (h.bind (h.enterFunction hf hs marked) fun k _ frame hframe ↦ ?_)
  refine h.bind (h.counted (ih.run hframe f.body)) fun l hl left hleft ↦ ?_
  exact h.step ((h.steps l).callResult f (h.scope_mono hl hframe) hleft)

/-- **Every run obeys the rules** that its operations obey, however it ends. -/
theorem runs (fuel : Nat) : RunsObey W H V S fuel := by
  induction fuel with
  | zero =>
    constructor <;> intros <;> exact h.outOfSteps
  | succ fuel ih =>
    exact ⟨h.run_succ ih, h.branch_succ ih, h.iterate_succ ih, h.call_succ ih,
      h.callScript_succ ih⟩

end Exec.RunRules

/-! ## Judgments that do not look at the number of scopes -/

/-- The judgment `T` obeys the rules for instructions and for runs, whatever scopes there are. -/
structure Exec.Rules (W H : ScopeId → Prop) (V : Value → Prop)
    (T : ∀ {α : Type}, (α → Prop) → Exec α → Prop) : Prop
    extends StepRules (fun _ ↦ True) W V T, Value.Sealed H V where
  /-- Functions may be made in the scopes that are worked in. -/
  makes {s : ScopeId} (hs : W s) : H s
  outOfSteps {α : Type} {Q : α → Prop} : T Q outOfSteps
  newScope {parent : ScopeId} (hparent : H parent) : T W (newScope parent)
  limited {α : Type} {Q : α → Prop} {x : Exec α} (hx : T Q x) : T Q (limited x)
  counted {α : Type} {Q : α → Prop} {x : Exec α} (hx : T Q x) : T Q (counted x)

namespace Exec.Rules

variable {T : ∀ {α : Type}, (α → Prop) → Exec α → Prop} (h : Rules W H V T) {s : ScopeId}

include h

theorem toRunRules :
    RunRules (fun _ ↦ W) (fun _ ↦ H) (fun _ ↦ V) (fun _ ↦ T) fun n _ Q ↦ T (Q n) where
  steps _ := h.toStepRules
  values _ := h.toSealed
  makes := h.makes
  scope_mono _ := id
  value_mono _ := id
  step hx := hx
  bind hx hf := h.bind hx (hf _ (Nat.le_refl _))
  outOfSteps := h.outOfSteps
  newScope := h.newScope
  limited := h.limited
  counted := h.counted

theorem perform (hs : W s) (op : Opcode) (operands : List String) :
    T (fun _ ↦ True) (perform s op operands) :=
  h.toStepRules.perform hs op operands fun _ _ ↦ trivial

theorem makeFunction (hs : W s) (c : Stretch) : T (fun _ ↦ True) (makeFunction s c) :=
  h.toRunRules.makeFunction (n := 0) hs c

theorem enterFunction {f : ScriptFunction} (hf : H f.home) (hs : W s) (marked : Option Nat) :
    T W (enterFunction f s marked) :=
  h.toRunRules.enterFunction (n := 0) hf hs marked

theorem run (fuel : Nat) (hs : W s) (c : Stretch) : T (Signal.Holds V) (run fuel s c) :=
  (h.toRunRules.runs fuel).run (n := 0) hs c

theorem branch (fuel : Nat) (hs : W s) (c : Stretch) :
    T (fun r ↦ Signal.Holds V (leftBy r)) (branch fuel s c) :=
  (h.toRunRules.runs fuel).branch (n := 0) hs c

theorem iterate (fuel : Nat) (hs : W s) (c : Stretch) : T (Signal.Holds V) (iterate fuel s c) :=
  (h.toRunRules.runs fuel).iterate (n := 0) hs c

theorem call (fuel : Nat) (hs : W s) : T (fun _ ↦ True) (call fuel s) :=
  (h.toRunRules.runs fuel).call (n := 0) hs

theorem callScript (fuel : Nat) {f : ScriptFunction} (hf : H f.home) (hs : W s)
    (marked : Option Nat) : T V (callScript fuel f s marked) :=
  (h.toRunRules.runs fuel).callScript (n := 0) hf hs marked

/-- Whole programs obey the rules too, if forgetting the marks does and flushing. -/
theorem evaluate (hmarks : T (fun _ ↦ True) (modify ({ · with marks := [] })))
    (hflushed : ∀ {α : Type} {Q : α → Prop} {x : Exec α}, T Q x → T Q (flushed x))
    (hroot : W Machine.root) (fuel : Nat) (text : String) :
    T (fun _ ↦ True) (evaluate fuel text) := by
  refine h.seq hmarks fun _ ↦ h.seq (h.checkCode _) fun code ↦ ?_
  refine h.seq (hflushed (h.run fuel hroot ⟨0, code⟩)) fun left ↦ ?_
  match left with
  | some .broke | some .continued => exact h.fail _
  | some (.returned _) | none => exact h.seq (h.popOrNull hroot) fun _ ↦ h.pure trivial

end Exec.Rules

end GemLang
