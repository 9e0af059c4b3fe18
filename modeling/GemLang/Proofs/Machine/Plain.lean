import GemLang.Machine.Run
import GemLang.Proofs.Compile.Emitted
import GemLang.Proofs.Machine.Keeping

/-!
# Plain instructions keep what there is

Plain instructions, calls of functions that the machine provides and calls of C functions: none of
them makes a function of the program, and all of them work on the stack of the scope they run in.
They find a fault of the code only in operands that are not `Runnable`.
-/

namespace GemLang

open Bytecode (Opcode Stretch)
open Exec

variable {F : ScriptFunction → Prop} {T : Prop} {m₀ : Machine} {s t : Nat}

/-! ## Functions that the machine provides -/

theorem all_characterPairs (text : String) :
    ∀ p ∈ characterPairs text, p.1.All F ∧ p.2.All F := by
  simp only [characterPairs, List.forall_mem_map]
  exact fun _ _ ↦ ⟨trivial, trivial⟩

theorem all_entryPairs {u : Table} (hu : ∀ e ∈ u, e.2.All F) :
    ∀ p ∈ entryPairs u, p.1.All F ∧ p.2.All F := by
  simp only [entryPairs, List.forall_mem_map]
  exact fun e he ↦ ⟨Value.all_ofKey e.1, hu e he⟩

theorem all_keyTable (u : Table) : ∀ e ∈ keyTable u, e.2.All F := by
  refine Assoc.forall_ofList ?_
  simp only [List.forall_mem_map]
  exact fun e _ ↦ Value.all_ofKey e.1.1

namespace Exec

theorem keeps_pushNextPair (ht : m₀.IsOpen s t) (iterator : Nat) :
    KeepsWell F T m₀ s (fun _ ↦ True) (pushNextPair t iterator) := by
  refine (keeps_nextPair iterator).bind fun p hp ↦ ?_
  exact (keeps_push ht hp.2).bind fun _ _ ↦ keeps_push ht hp.1

theorem keeps_native (ht : m₀.IsOpen s t) (f : Native) :
    KeepsWell F T m₀ s (fun _ ↦ True) (f.call t) := by
  cases f with
  | out =>
    refine (keeps_drain ht).bind fun values _ ↦ ?_
    exact (keeps_ask _).bind fun _ _ ↦ keeps_push ht Value.all_null
  | stringLength => exact (keeps_popText ht).bind fun _ _ ↦ keeps_push ht trivial
  | stringUpper => exact (keeps_popText ht).bind fun _ _ ↦ keeps_push ht trivial
  | stringLower => exact (keeps_popText ht).bind fun _ _ ↦ keeps_push ht trivial
  | stringIterator =>
    refine (keeps_popText ht).bind fun text _ ↦ ?_
    exact (keeps_newIterator (all_characterPairs text)).bind fun _ _ ↦ keeps_push ht trivial
  | tableLength => exact (keeps_popTable ht).bind fun _ _ ↦ keeps_push ht trivial
  | tableInsert =>
    refine (keeps_popTable ht).bind fun u hu ↦ (keeps_pop ht).bind fun v hv ↦ ?_
    exact keeps_push ht (Value.all_table.mpr (Assoc.forall_insert hu hv))
  | tableRemove =>
    refine (keeps_popTable ht).bind fun u hu ↦ (keeps_popKey ht).bind fun key _ ↦ ?_
    exact keeps_push ht (Value.all_table.mpr (Assoc.forall_erase hu key))
  | tableKeys =>
    refine (keeps_popTable ht).bind fun u _ ↦ ?_
    exact keeps_push ht (Value.all_table.mpr (all_keyTable u))
  | tableIterator =>
    refine (keeps_popTable ht).bind fun u hu ↦ ?_
    exact (keeps_newIterator (all_entryPairs hu)).bind fun _ _ ↦ keeps_push ht trivial
  | typeOf => exact (keeps_popOrNull ht).bind fun _ _ ↦ keeps_push ht trivial
  | nextOfString iterator => exact keeps_pushNextPair ht iterator
  | nextOfTable iterator => exact keeps_pushNextPair ht iterator

theorem keeps_pushAll (ht : m₀.IsOpen s t) {values : List Value} (h : ∀ v ∈ values, v.All F) :
    KeepsWell F T m₀ s (fun _ ↦ True) (pushAll t values) := by
  induction values with
  | nil => exact .pure trivial
  | cons v values ih =>
    rw [List.forall_mem_cons] at h
    exact (keeps_push ht h.1).bind fun _ _ ↦ ih h.2

theorem keeps_callNative (ht : m₀.IsOpen s t) (f : Native) (marked : Option Nat) :
    KeepsWell F T m₀ s (fun _ ↦ True) (callNative f t marked) := by
  cases marked with
  | none => exact keeps_native ht f
  | some count =>
    refine (keeps_newScope t).bind fun frame hframe ↦ ?_
    refine (keeps_takeTop ht count).bind fun values hvalues ↦ ?_
    refine (keeps_pushAll hframe hvalues).bind fun _ _ ↦ ?_
    refine (keeps_native hframe f).bind fun _ _ ↦ ?_
    exact (keeps_popOrNull hframe).bind fun v hv ↦ keeps_push ht hv

end Exec

/-! ## C functions -/

namespace Foreign

/-- What C gives back holds no functions of the program, and is at fault in other ways than code. -/
abbrev Clean {α : Type} (Q : α → Prop) (r : Except Error α) : Prop :=
  Delivers (fun e ↦ NotMalformed (.error e)) Q r

theorem clean_ofCKey (key : CKey) : Clean (fun _ ↦ True) (ofCKey key) := by
  unfold ofCKey
  split
  · exact .ok trivial
  · split
    · exact .ok trivial
    · exact .error trivial
  · exact .ok trivial
  · exact .error trivial
  · exact .error trivial

mutual

theorem clean_ofCValue (v : CValue) : Clean (Value.All F) (ofCValue v) := by
  match v with
  | .int _ | .double _ | .bool _ | .text (some _) | .text none => exact .ok trivial
  | .table none => exact .ok trivial
  | .table (some nodes) =>
    exact (clean_ofCNodes (List.forall_mem_nil _) nodes).bind fun u hu ↦
      .ok (Value.all_table.mpr hu)
  | .unknown _ => exact .error trivial

theorem clean_ofCNodes {u : Table} (hu : ∀ e ∈ u, e.2.All F) (nodes : List (CKey × CValue)) :
    Clean (fun t : Table ↦ ∀ e ∈ t, e.2.All F) (ofCNodes u nodes) := by
  match nodes with
  | [] => exact .ok hu
  | (key, value) :: nodes =>
    refine (clean_ofCKey key).bind fun k _ ↦ ?_
    refine (clean_ofCValue value).bind fun v hv ↦ ?_
    exact clean_ofCNodes (Assoc.forall_insert hu hv) nodes

end

theorem clean_ofCResult (r : CResult) : Clean (Value.All F) (ofCResult r) := by
  match r with
  | .double _ | .float _ | .int _ | .uint _ | .bool _ | .void => exact .ok trivial
  | .text none | .text (some _) | .table none => exact .ok trivial
  | .table (some none) => exact .ok trivial
  | .table (some (some nodes)) =>
    exact (clean_ofCNodes (List.forall_mem_nil _) nodes).bind fun u hu ↦
      .ok (Value.all_table.mpr hu)

theorem clean_call (f : ForeignFunction) (args : List Value) :
    Clean (Value.All F) (call f args) := by
  unfold call
  split
  · exact .error trivial
  · exact clean_ofCResult _

end Foreign

namespace Exec

theorem Keeps.of_delivers {α : Type} {Q : α → Prop} {r : Except Error α}
    (h : Delivers (fun e ↦ NotMalformed (.error e)) Q r) : KeepsWell F T m₀ s Q (Exec.check r) := by
  cases h with
  | ok h => exact .pure h
  | error h => exact .fail h

theorem keeps_popMany (ht : m₀.IsOpen s t) (count : Nat) :
    KeepsWell F T m₀ s (fun _ ↦ True) (popMany t count) := by
  induction count with
  | zero => exact .pure trivial
  | succ count ih => exact (keeps_pop ht).bind fun _ _ ↦ ih.bind fun _ _ ↦ .pure trivial

theorem keeps_callForeign (ht : m₀.IsOpen s t) (f : ForeignFunction) (marked : Option Nat) :
    KeepsWell F T m₀ s (fun _ ↦ True) (callForeign f t marked) := by
  unfold callForeign
  dsimp only
  split
  · exact .fail trivial
  · refine (keeps_popMany ht _).bind fun args _ ↦ ?_
    exact (Keeps.of_delivers (Foreign.clean_call f args)).bind fun v hv ↦ keeps_push ht hv

/-! ## Tables -/

theorem keeps_popKeys (ht : m₀.IsOpen s t) (count : Nat) :
    KeepsWell F T m₀ s (fun keys ↦ keys.length = count) (popKeys t count) := by
  induction count with
  | zero => exact .pure rfl
  | succ count ih =>
    exact (keeps_popKey ht).bind fun _ _ ↦ ih.bind fun _ h ↦ .pure (congrArg (· + 1) h)

theorem keeps_loadMethod (ht : m₀.IsOpen s t) {object : Value} (hobject : object.All F)
    (methods : String) (key : Key) :
    KeepsWell F T m₀ s (fun _ ↦ True) (loadMethod t object methods key) := by
  refine keeps_get.bind fun m hm ↦ ?_
  dsimp only
  split
  · next method hfound =>
    have hmethod : method.All F := by
      split at hfound
      · next hlookup =>
        exact Assoc.forall_of_get? (Value.all_table.mp (hm.functions.lookup hlookup)) hfound
      · cases hfound
    exact (keeps_push ht hobject).bind fun _ _ ↦ keeps_push ht hmethod
  · exact keeps_push ht Value.all_null

theorem keeps_loadInherited (ht : m₀.IsOpen s t) {object : Value} (hobject : object.All F)
    (key : Key) : KeepsWell F T m₀ s (fun _ ↦ True) (loadInherited t object key) := by
  unfold loadInherited
  split
  · refine keeps_push ht ?_
    unfold characterAt
    split
    · exact Value.all_null
    · split
      · trivial
      · exact Value.all_null
  · split
    · exact keeps_loadMethod ht hobject _ key
    · exact .fail trivial

theorem keeps_loadKey (ht : m₀.IsOpen s t) : KeepsWell F T m₀ s (fun _ ↦ True) (loadKey t) := by
  refine (keeps_pop ht).bind fun _ _ ↦ (keeps_pop ht).bind fun object hobject ↦ ?_
  refine Keeps.bind (.checkType (fun _ _ ↦ trivial) fun _ ↦ trivial) fun key _ ↦ ?_
  split
  · exact .fail trivial
  · split
    · split
      · next hget =>
        exact keeps_push ht (Assoc.forall_of_get? (Value.all_table.mp hobject) hget)
      · exact keeps_loadInherited ht hobject key
    · exact keeps_loadInherited ht hobject key

/-! ## Definitions of C functions -/

theorem keeps_typeOfWord (v : Value) :
    KeepsWell F T m₀ s (fun _ ↦ True) (check (typeOfWord v)) := by
  unfold typeOfWord
  split
  · split
    · exact .pure trivial
    · exact .fail trivial
  · exact .fail trivial

theorem keeps_popTypes (ht : m₀.IsOpen s t) (count : Nat) :
    KeepsWell F T m₀ s (fun _ ↦ True) (popTypes t count) := by
  induction count with
  | zero => exact .pure trivial
  | succ count ih =>
    refine (keeps_pop ht).bind fun v _ ↦ (keeps_typeOfWord v).bind fun _ _ ↦ ?_
    exact ih.bind fun _ _ ↦ .pure trivial

theorem keeps_loadLibrary (path : String) :
    KeepsWell F T m₀ s (fun _ ↦ True) (loadLibrary path) := by
  refine keeps_get.bind fun m _ ↦ ?_
  split
  · exact .pure trivial
  · split
    · exact .fail trivial
    · refine Keeps.bind (Q := fun _ ↦ True) ?_ fun _ _ ↦ .pure trivial
      exact ⟨fun hm ↦ .ok ⟨hm.congr rfl rfl rfl rfl rfl fun _ ↦ rfl, trivial⟩⟩

theorem keeps_defineForeign (name path : String) (argTypes : List Foreign.CType)
    (returnType : Foreign.CType) :
    KeepsWell F T m₀ s (fun _ ↦ True) (defineForeign name path argTypes returnType) := by
  unfold defineForeign
  split
  · exact .fail trivial
  · refine (keeps_loadLibrary path).bind fun loaded _ ↦ ?_
    dsimp only
    split
    · exact .fail trivial
    · exact keeps_freshIdentity.bind fun _ _ ↦ .pure trivial

theorem keeps_define (ht : m₀.IsOpen s t) (name operand : String) :
    KeepsWell F T m₀ s (fun _ ↦ True) (define t name operand) := by
  refine (keeps_popNumber ht).bind fun _ _ ↦ (keeps_pop ht).bind fun v _ ↦ ?_
  refine (keeps_typeOfWord v).bind fun _ _ ↦ (keeps_popTypes ht _).bind fun _ _ ↦ ?_
  exact (keeps_defineForeign ..).bind fun _ _ ↦ keeps_declare t name trivial

/-! ## Plain instructions -/

theorem keeps_combine (ht : m₀.IsOpen s t) {f : Value → Value → Except Error Value}
    (hf : ∀ a b, a.All F → b.All F →
      Delivers (fun e ↦ NotMalformed (.error e)) (Value.All F) (f a b)) :
    KeepsWell F T m₀ s (fun _ ↦ True) (combine t f) := by
  refine (keeps_pop ht).bind fun b hb ↦ (keeps_pop ht).bind fun a ha ↦ ?_
  exact (Keeps.of_delivers (hf a b ha hb)).bind fun v hv ↦ keeps_push ht hv

theorem keeps_arithmetic (ht : m₀.IsOpen s t) (op : Opcode) :
    KeepsWell F T m₀ s (fun _ ↦ True) (combine t (arithmetic op)) := by
  refine keeps_combine ht fun a b _ _ ↦ ?_
  have hcompute (x y : Float) (e : Error) (h : computeNumbers op x y = .error e) :
      NotMalformed (.error e) := by
    unfold computeNumbers at h
    split at h
    all_goals first | cases h | (split at h <;> cases h; trivial)
  unfold arithmetic
  split
  · split
    · exact .ok trivial
    · next h => exact .error (hcompute _ _ _ h)
  · split
    · exact .ok trivial
    · exact .error trivial
  · exact .error trivial

theorem keeps_comparison (ht : m₀.IsOpen s t) (op : Opcode) :
    KeepsWell F T m₀ s (fun _ ↦ True) (do
      let b ← popNumber t
      let a ← popNumber t
      push t (.bool (compareNumbers op a b))) := by
  refine (keeps_popNumber ht).bind fun _ _ ↦ (keeps_popNumber ht).bind fun _ _ ↦ ?_
  exact keeps_push ht trivial

end Exec

/-- The operands of an instruction can be used: what is pushed is a literal, and a path of keys is
not empty. -/
structure Runnable (op : Opcode) (operands : List String) : Prop where
  push : op = .push → ∀ x ∈ operands, IsPushable x
  storePath : op = .storePath → ∀ x ∈ operands, ∃ n, keyCount? x = some (n + 1)

theorem Sound.runnable {op : Opcode} {operands : List String}
    (h : Sound (· < UInt64.size) op operands) : Runnable op operands where
  push := h.push
  storePath hop x hx := by
    obtain ⟨n, rfl, hn⟩ := h.storePath hop x hx
    exact ⟨n, (keyCount?_toString (n + 1)).trans (if_pos hn)⟩

theorem Table.storePath_notMalformed {u : Table} {keys : List Key} {v : Value} (h : keys ≠ [])
    {e : Error} (he : Table.storePath u keys v = .error e) : NotMalformed (.error e) := by
  fun_induction Table.storePath u keys v with
  | case1 => exact absurd rfl h
  | case2 => cases he
  | case3 u key keys hkeys inner w hinner =>
    rename_i ih
    have hne : keys ≠ [] := fun heq ↦ hkeys heq
    cases hstore : Table.storePath w keys v with
    | ok w' =>
      rw [hstore] at he
      cases he
    | error e' =>
      rw [hstore] at he
      cases he
      exact ih hne hstore
  | case4 =>
    cases he
    trivial

namespace Exec

theorem Keeps.provided {α : Type} {Q : α → Prop} {x : Exec α} (h : KeepsWell F T m₀ s Q x)
    (p : Prop) : Keeps F T m₀ s (fun e ↦ p → NotMalformed e) Q x :=
  h.mono (fun _ he _ ↦ he) fun _ hq ↦ hq

theorem keeps_pushLiteral (ht : m₀.IsOpen s t) (text : String) :
    Keeps F T m₀ s (fun e ↦ IsPushable text → NotMalformed e) (fun _ ↦ True)
      (do push t (← check (literal text))) := by
  have hvalue (v : Value) (h : literal text = .ok v) : v.All F := by
    unfold literal at h
    split at h
    · cases h
      trivial
    · split at h
      · split at h
        · cases h
          trivial
        · cases h
      · cases h
        trivial
  refine Keeps.bind (Q := Value.All F) (.check hvalue ?_) fun v hv ↦ (keeps_push ht hv).provided _
  rintro e he ⟨v, hv⟩
  rw [hv] at he
  cases he

theorem keeps_storePath (ht : m₀.IsOpen s t) (count : String) :
    Keeps F T m₀ s (fun e ↦ (∃ n, keyCount? count = some (n + 1)) → NotMalformed e) (fun _ ↦ True)
      (storePath t count) := by
  unfold storePath
  split
  · next hnone =>
    refine .fail ?_
    rintro ⟨n, hn⟩
    rw [hnone] at hn
    cases hn
  · next n hsome =>
    refine ((keeps_popTable ht).provided _).bind fun u hu ↦ ?_
    refine ((keeps_popKeys ht n).provided _).bind fun keys hkeys ↦ ?_
    refine ((keeps_pop ht).provided _).bind fun v hv ↦ ?_
    refine Keeps.bind (Q := fun w : Table ↦ ∀ e ∈ w, e.2.All F) ?_ fun w hw ↦
      (keeps_push ht (Value.all_table.mpr hw)).provided _
    refine .check (fun w hw ↦ Table.all_storePath hu hv hw) ?_
    rintro e he ⟨k, hk⟩
    refine Table.storePath_notMalformed ?_ he
    rintro rfl
    rw [hsome, ← hkeys] at hk
    cases hk

/-- **A plain instruction keeps the machine within its scope**, and finds no fault of the code when
its operands can be used. -/
theorem keeps_perform (ht : m₀.IsOpen s t) {op : Opcode} {operands : List String}
    (hrole : op.role = .plain) (hcount : operands.length = op.operandCount) (hT : T → op ≠ .args) :
    Keeps F T m₀ s (fun e ↦ Runnable op operands → NotMalformed e) (fun _ ↦ True)
      (perform t op operands) := by
  have hnone (h : op.operandCount = 0) : operands = [] :=
    List.length_eq_zero_iff.mp (hcount.trans h)
  have hone (h : op.operandCount = 1) : ∃ x, operands = [x] :=
    List.length_eq_one_iff.mp (hcount.trans h)
  cases op with
  | push =>
    obtain ⟨text, rfl⟩ := hone rfl
    exact (keeps_pushLiteral ht text).mono (fun e he h ↦ he (h.push rfl text (by simp)))
      fun _ hq ↦ hq
  | declareLocal =>
    obtain ⟨name, rfl⟩ := hone rfl
    exact ((keeps_pop ht).bind fun v hv ↦ keeps_declare t name hv).provided _
  | storeLocal =>
    obtain ⟨name, rfl⟩ := hone rfl
    refine Keeps.provided ((keeps_pop ht).bind fun v hv ↦ ?_) _
    refine (keeps_assign t name hv).bind fun assigned _ ↦ ?_
    split
    · refine keeps_get.bind fun m _ ↦ ?_
      split
      · exact .fail trivial
      · exact keeps_declare t name hv
    · exact .pure trivial
  | loadLocal =>
    obtain ⟨name, rfl⟩ := hone rfl
    exact ((keeps_lookup t name).bind fun v hv ↦ keeps_push ht hv).provided _
  | delete =>
    obtain ⟨name, rfl⟩ := hone rfl
    exact (keeps_remove t name).provided _
  | define =>
    obtain ⟨name, path, rfl⟩ := List.length_eq_two.mp hcount
    exact (keeps_define ht name path).provided _
  | add =>
    obtain rfl := hnone rfl
    exact (keeps_arithmetic ht .add).provided _
  | sub =>
    obtain rfl := hnone rfl
    exact (keeps_arithmetic ht .sub).provided _
  | mul =>
    obtain rfl := hnone rfl
    exact (keeps_arithmetic ht .mul).provided _
  | div =>
    obtain rfl := hnone rfl
    exact (keeps_arithmetic ht .div).provided _
  | pow =>
    obtain rfl := hnone rfl
    exact (keeps_arithmetic ht .pow).provided _
  | mod =>
    obtain rfl := hnone rfl
    exact (keeps_arithmetic ht .mod).provided _
  | eq | notEq =>
    obtain rfl := hnone rfl
    refine Keeps.provided ?_ _
    exact keeps_combine ht fun _ _ _ _ ↦ .ok trivial
  | greater =>
    obtain rfl := hnone rfl
    exact (keeps_comparison ht .greater).provided _
  | less =>
    obtain rfl := hnone rfl
    exact (keeps_comparison ht .less).provided _
  | greaterEq =>
    obtain rfl := hnone rfl
    exact (keeps_comparison ht .greaterEq).provided _
  | lessEq =>
    obtain rfl := hnone rfl
    exact (keeps_comparison ht .lessEq).provided _
  | and =>
    obtain rfl := hnone rfl
    refine (keeps_combine ht fun a b ha hb ↦ .ok ?_).provided _
    split
    · exact ha
    · exact hb
  | or =>
    obtain rfl := hnone rfl
    refine (keeps_combine ht fun a b ha hb ↦ .ok ?_).provided _
    split
    · exact hb
    · exact ha
  | not =>
    obtain rfl := hnone rfl
    refine Keeps.provided ?_ _
    exact (keeps_pop ht).bind fun v _ ↦ keeps_push ht trivial
  | args =>
    obtain rfl := hnone rfl
    exact (keeps_mark (fun h ↦ hT h rfl) t).provided _
  | newTable =>
    obtain rfl := hnone rfl
    refine Keeps.provided ?_ _
    exact keeps_push ht trivial
  | storeKey =>
    obtain rfl := hnone rfl
    refine Keeps.provided ((keeps_popKey ht).bind fun key _ ↦ ?_) _
    refine (keeps_pop ht).bind fun v hv ↦ (keeps_popTable ht).bind fun u hu ↦ ?_
    exact keeps_push ht (Value.all_table.mpr (Assoc.forall_insert hu hv))
  | loadKey =>
    obtain rfl := hnone rfl
    exact (keeps_loadKey ht).provided _
  | storePath =>
    obtain ⟨count, rfl⟩ := hone rfl
    exact (keeps_storePath ht count).mono (fun e he h ↦ he (h.storePath rfl count (by simp)))
      fun _ hq ↦ hq
  | pop =>
    obtain rfl := hnone rfl
    exact ((keeps_pop ht).bind fun _ _ ↦ .pure trivial).provided _
  | call | returnOp | breakOp | continueOp | ifOp | thenOp | elifOp | elseOp | endIf | loop
  | endLoop | function | colon | endFunction => cases hrole

end Exec

end GemLang
