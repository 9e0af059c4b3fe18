import GemLang.Proofs.Foreign.Declared
import GemLang.Proofs.Machine.Arguments
import GemLang.Proofs.Machine.Evaluation

/-!
# Declaring a C function

The code of a declaration pushes the types of the arguments, last one first, then the type of the
result and the number of arguments, and one instruction takes all of them off again. So the types
come out in the order of the source, and the stack is as it was before. `foreign_declared_iff` says
what the machine asks the loader for, and for which paths that is what the source says.
-/

namespace GemLang

open Bytecode
open Exec
open Foreign (CType)
open Lower (foreignLines libraryOperand)

variable {m : Machine} {s : ScopeId} {vs : List Value}

/-! ## Pushing literals -/

theorem length_codeOf_pushes (pushed : List (String × Value)) :
    (codeOf (pushed.flatMap fun p ↦ unary .push p.1)).length = 2 * pushed.length := by
  induction pushed with
  | nil => rfl
  | cons p pushed ih =>
    rw [List.flatMap_cons, codeOf_append, List.length_append, ih, codeOf_unary, List.length_cons]
    simp only [List.length_cons, List.length_nil]
    omega

theorem run_push (s : ScopeId) (text : String) (fuel position : Nat) (rest : Code) :
    run (fuel + 1) s ⟨position, .op .push :: ([text].map .operand ++ rest)⟩ = (do
      perform s .push [text]
      run fuel s ⟨position + 1 + 1, rest⟩) :=
  run_plain rfl rfl fuel s position rest

section

variable (hs : s < m.heap.nextScope)
include hs

theorem run_pushes (vs : List Value) {pushed : List (String × Value)}
    (hpushed : ∀ p ∈ pushed, literal p.1 = .ok p.2)
    (hroom : vs.length + pushed.length ≤ m.config.maxStack) (fuel position : Nat) (rest : Code) :
    run (fuel + pushed.length) s
        ⟨position, codeOf (pushed.flatMap fun p ↦ unary .push p.1) ++ rest⟩ (m.withStack s vs) =
      run fuel s ⟨position + 2 * pushed.length, rest⟩
        (m.withStack s ((pushed.map (·.2)).reverse ++ vs)) := by
  induction pushed generalizing vs position with
  | nil => rfl
  | cons p pushed ih =>
    obtain ⟨text, v⟩ := p
    rw [List.forall_mem_cons] at hpushed
    rw [List.length_cons] at hroom
    have hpush : perform s .push [text] (m.withStack s vs) = .ok () (m.withStack s (v :: vs)) :=
      ((perform_push hpushed.1).trans (push_withStack hs ..)).trans (if_pos (by omega))
    have hlater := ih (v :: vs) hpushed.2 (by simp only [List.length_cons]; omega)
      (position + 1 + 1)
    have hposition : position + 1 + 1 + 2 * pushed.length = position + 2 * (pushed.length + 1) := by
      omega
    refine (congrFun (run_push s text _ position _) _).trans ?_
    rw [bind_of_eq_ok hpush]
    refine hlater.trans ?_
    rw [hposition, List.map_cons, List.reverse_cons, List.append_assoc]
    rfl

/-- Where there is no room for all of them, the stack overflows. -/
theorem run_pushes_overflow (vs : List Value) {pushed : List (String × Value)} (hne : pushed ≠ [])
    (hpushed : ∀ p ∈ pushed, literal p.1 = .ok p.2)
    (hroom : m.config.maxStack < vs.length + pushed.length) (fuel position : Nat) (rest : Code) :
    ∃ us, run (fuel + pushed.length) s
        ⟨position, codeOf (pushed.flatMap fun p ↦ unary .push p.1) ++ rest⟩ (m.withStack s vs) =
      .error (.error .stackOverflow) (m.withStack s us) := by
  induction pushed generalizing vs position with
  | nil => exact absurd rfl hne
  | cons p pushed ih =>
    obtain ⟨text, v⟩ := p
    rw [List.forall_mem_cons] at hpushed
    rw [List.length_cons] at hroom
    have hrun := congrFun (run_push s text (fuel + pushed.length) position
      (codeOf (pushed.flatMap fun p ↦ unary .push p.1) ++ rest)) (m.withStack s vs)
    by_cases hlt : vs.length < m.config.maxStack
    · have hpush : perform s .push [text] (m.withStack s vs) = .ok () (m.withStack s (v :: vs)) :=
        ((perform_push hpushed.1).trans (push_withStack hs ..)).trans (if_pos hlt)
      have hmore : pushed ≠ [] := by
        rintro rfl
        simp only [List.length_nil] at hroom
        omega
      obtain ⟨us, hus⟩ := ih (v :: vs) hmore hpushed.2
        (by simp only [List.length_cons]; omega) (position + 1 + 1)
      rw [bind_of_eq_ok hpush] at hrun
      exact ⟨us, hrun.trans hus⟩
    · have hpush : perform s .push [text] (m.withStack s vs) =
          .error (.error .stackOverflow) (m.withStack s vs) :=
        ((perform_push hpushed.1).trans (push_withStack hs ..)).trans (if_neg hlt)
      rw [bind_apply, hpush] at hrun
      exact ⟨vs, hrun⟩

end

/-! ## Reading the signature back -/

theorem IsName.unquote {w : String} (h : IsName w) : Text.unquote w = w := by
  obtain ⟨c, cs, hw, hc, -⟩ := h
  have hquote : c ≠ '"' := by
    rintro rfl
    exact absurd hc (by decide)
  unfold Text.unquote
  rw [hw]
  split
  · next heq => exact absurd (List.cons.inj heq).1 hquote
  · rfl

/-- A name that is pushed is a text, and its own word for a type. -/
theorem IsName.literal_eq {w : String} (h : IsName w) : literal w = .ok (.text w) := by
  obtain ⟨c, cs, hw, hc, -⟩ := id h
  have hne {d : Char} (hd : Text.isNameStart d = false) : c ≠ d := by
    rintro rfl
    rw [hc] at hd
    cases hd
  have hnumeric : looksNumeric w.toList = false := by
    have hdigit := not_isDigit_of_isNameStart hc
    have hminus : c ≠ '-' := hne (by decide)
    have hpoint : c ≠ '.' := hne (by decide)
    rw [hw]
    unfold looksNumeric
    split <;> simp_all
  have hquote : w.toList.head? ≠ some '"' := by
    rw [hw]
    simpa using hne (by decide)
  simp [literal, hquote, hnumeric]

theorem IsName.typeOfWord_eq {w : String} (h : IsName w) : typeOfWord (.text w) =
    match CType.ofWord? w with
    | some type => .ok type
    | none => .error (.foreign (.unknownType w)) := by
  have hread : typeOfWord (.text w) =
      match CType.ofWord? (Text.unquote w) with
      | some type => .ok type
      | none => .error (.foreign (.unknownType (Text.unquote w))) := rfl
  rw [hread, h.unquote]

section

variable (hs : s < m.heap.nextScope)
include hs

theorem popTypes_withStack {words : List String} {types : List CType}
    (hwords : ∀ w ∈ words, IsName w) (htypes : words.map CType.ofWord? = types.map some) :
    popTypes s words.length (m.withStack s (words.map .text ++ vs)) =
      .ok types (m.withStack s vs) := by
  induction words generalizing types with
  | nil =>
    obtain rfl : types = [] := by simpa using htypes.symm
    rfl
  | cons w words ih =>
    rw [List.forall_mem_cons] at hwords
    cases types with
    | nil => cases htypes
    | cons type types =>
      obtain ⟨htype, htypes⟩ := List.cons.inj htypes
      rw [List.length_cons, popTypes, List.map_cons, List.cons_append,
        bind_of_eq_ok (pop_withStack hs _ _), hwords.1.typeOfWord_eq, htype]
      exact bind_of_eq_ok (ih hwords.2 htypes) _

/-- The first word that names no type is the one that is reported. -/
theorem popTypes_withStack_unknown (vs : List Value) {words : List String}
    (hwords : ∀ w ∈ words, IsName w) {word : String}
    (hword : words.find? (fun w ↦ (CType.ofWord? w).isNone) = some word) :
    ∃ us, popTypes s words.length (m.withStack s (words.map .text ++ vs)) =
      .error (.error (.foreign (.unknownType word))) (m.withStack s us) := by
  induction words with
  | nil => cases hword
  | cons w words ih =>
    rw [List.forall_mem_cons] at hwords
    rw [List.length_cons, popTypes, List.map_cons, List.cons_append,
      bind_of_eq_ok (pop_withStack hs _ _), hwords.1.typeOfWord_eq]
    cases htype : CType.ofWord? w with
    | none =>
      obtain rfl : w = word := by simpa [List.find?_cons, htype] using hword
      exact ⟨_, rfl⟩
    | some type =>
      obtain ⟨us, hus⟩ := ih hwords.2 (by simpa [List.find?_cons, htype] using hword)
      refine ⟨us, ?_⟩
      change (popTypes s words.length >>= _) _ = _
      rw [bind_apply, hus]

end

/-! ## Declarations -/

/-- What is pushed for a signature: a text for each type, and the number of arguments. -/
def signature (argTypes : List String) (returnType : String) : List (String × Value) :=
  argTypes.reverse.map (fun w ↦ (w, .text w)) ++
    [(returnType, .text returnType),
      (toString argTypes.length, .number (Number.ofDecimal argTypes.length 0))]

theorem length_signature (argTypes : List String) (returnType : String) :
    (signature argTypes returnType).length = argTypes.length + 2 := by
  simp [signature]

section

variable {name path returnType : String} {argTypes : List String}

theorem literal_signature (hargs : ∀ w ∈ argTypes, IsName w) (hresult : IsName returnType) :
    ∀ p ∈ signature argTypes returnType, literal p.1 = .ok p.2 := by
  unfold signature
  rw [List.forall_mem_append, List.forall_mem_map]
  refine ⟨fun w hw ↦ (hargs w (List.mem_reverse.mp hw)).literal_eq, ?_⟩
  simpa using ⟨hresult.literal_eq, literal_toString argTypes.length⟩

theorem codeOf_foreignLines : codeOf (foreignLines name path argTypes returnType) =
    codeOf ((signature argTypes returnType).flatMap fun p ↦ unary .push p.1) ++
      [.op .define, .operand name, .operand (libraryOperand path)] := by
  simp [foreignLines, signature, List.flatMap_append, List.flatMap_map, Instruction.code,
    -List.map_reverse]

/-- The signature is read back as it was written: the type of the result, and those of the arguments
in their order. -/
theorem define_withStack (hs : s < m.heap.nextScope) (hlength : argTypes.length < 2 ^ 53)
    (operand : String) :
    define s name operand (m.withStack s
        (((signature argTypes returnType).map (·.2)).reverse ++ vs)) =
      (do
        let returned ← check (typeOfWord (.text returnType))
        let types ← popTypes s argTypes.length
        let f ← defineForeign name (libraryPath operand) types returned
        declare s name (.foreign f)) (m.withStack s (argTypes.map Value.text ++ vs)) := by
  have hstack : ((signature argTypes returnType).map (·.2)).reverse ++ vs =
      .number (Number.ofDecimal argTypes.length 0) :: .text returnType ::
        (argTypes.map .text ++ vs) := by
    simp [signature, ← List.map_reverse, Function.comp_def]
  rw [hstack, define, bind_of_eq_ok (popNumber_withStack hs _ _)]
  refine (bind_of_eq_ok (pop_withStack hs _ _) _).trans ?_
  rw [Number.clampToInt_ofDecimal hlength, Int.toNat_natCast]

/-- Where all types are C types, the loader is asked for the function with its signature. -/
theorem define_signature (hs : s < m.heap.nextScope) (vs : List Value) (name : String)
    (hargs : ∀ w ∈ argTypes, IsName w)
    (hresult : IsName returnType) (hlength : argTypes.length < 2 ^ 53) (operand : String)
    {types : List CType} {returned : CType} (htypes : argTypes.map CType.ofWord? = types.map some)
    (hreturned : CType.ofWord? returnType = some returned) :
    define s name operand (m.withStack s
        (((signature argTypes returnType).map (·.2)).reverse ++ vs)) =
      (do
        let f ← defineForeign name (libraryPath operand) types returned
        declare s name (.foreign f)) (m.withStack s vs) := by
  rw [define_withStack hs hlength, hresult.typeOfWord_eq, hreturned]
  exact bind_of_eq_ok (popTypes_withStack hs hargs htypes) _

/-- The first word of a signature that is no C type is reported. -/
theorem define_signature_unknown (hs : s < m.heap.nextScope) (vs : List Value) (name : String)
    (hargs : ∀ w ∈ argTypes, IsName w)
    (hresult : IsName returnType) (hlength : argTypes.length < 2 ^ 53) (operand : String)
    {word : String}
    (hword : (returnType :: argTypes).find? (fun w ↦ (CType.ofWord? w).isNone) = some word) :
    ∃ us, define s name operand (m.withStack s
        (((signature argTypes returnType).map (·.2)).reverse ++ vs)) =
      .error (.error (.foreign (.unknownType word))) (m.withStack s us) := by
  rw [define_withStack hs hlength, hresult.typeOfWord_eq]
  cases htype : CType.ofWord? returnType with
  | none =>
    obtain rfl : returnType = word := by simpa [List.find?_cons, htype] using hword
    exact ⟨_, rfl⟩
  | some returned =>
    obtain ⟨us, hus⟩ := popTypes_withStack_unknown hs vs hargs
      (by simpa [List.find?_cons, htype] using hword)
    refine ⟨us, ?_⟩
    change (popTypes s argTypes.length >>= _) _ = _
    rw [bind_apply, hus]

/-- **What a declaration comes to in the text and on the machine.** For every library path and every
signature: however its lines are indented and whatever text comes after them, that text is read as
the instructions that it was written from, and the path in it as the path that was resolved, just if
the path `Arrives`. The machine then asks for the function by the name in the source, with the path
read, the types of the arguments in the order of the source and the type of the result, and goes on
with the code that follows. It stops before that when a word of the signature is no C type, or when
the signature does not fit on the stack. The number of types is pushed as a float, which holds every
number below `2 ^ 53`. -/
theorem foreign_declared_iff (hname : IsName name) (hargs : ∀ w ∈ argTypes, IsName w)
    (hresult : IsName returnType) (r : Resolver) (file : String) (optimize : Bool) (n : Nat) :
    let path := r.library file
    let lines := foreignLines name path argTypes returnType
    r.stmt (.foreign name file argTypes returnType) =
      .ok [.foreign name path argTypes returnType] ∧
    (Lower.stmt optimize (.foreign name path argTypes returnType)).run n = (lines, n) ∧
    ((∀ ls : List Line, ls.map (·.instruction) = lines.map (·.instruction) →
        ∀ text code, decode text = .ok code →
          decode (textOf ls ++ text) = .ok (codeOf lines ++ code)) ∧
      libraryPath (libraryOperand path) = path ↔ Arrives path) ∧
    ∀ (m : Machine) (s : ScopeId), s < m.heap.nextScope →
      ∀ (fuel position : Nat) (code : Code),
        let ended := run (fuel + (argTypes.length + 3)) s ⟨position, codeOf lines ++ code⟩ m
        (m.config.maxStack < m.heap.depth s + (argTypes.length + 2) →
          ∃ us, ended = .error (.error .stackOverflow) (m.withStack s us)) ∧
        (m.heap.depth s + (argTypes.length + 2) ≤ m.config.maxStack → argTypes.length < 2 ^ 53 →
          (∀ word,
            (returnType :: argTypes).find? (fun w ↦ (CType.ofWord? w).isNone) = some word →
              ∃ us, ended = .error (.error (.foreign (.unknownType word))) (m.withStack s us)) ∧
          ∀ types returned, argTypes.map CType.ofWord? = types.map some →
            CType.ofWord? returnType = some returned →
              ended = (do
                let f ← defineForeign name (libraryPath (libraryOperand path)) types returned
                declare s name (.foreign f)
                run fuel s ⟨position + (codeOf lines).length, code⟩) m) := by
  intro path lines
  refine ⟨rfl, rfl, ?_, fun m s hs fuel position code ↦ ?_⟩
  · rw [decode_foreignLines_iff hname hargs hresult]
    exact arrives_iff.symm
  have hliteral := literal_signature hargs hresult
  have hlength := length_signature argTypes returnType
  have hcode : codeOf lines ++ code =
      codeOf ((signature argTypes returnType).flatMap fun p ↦ unary .push p.1) ++
        ([.op .define, .operand name, .operand (libraryOperand path)] ++ code) := by
    rw [codeOf_foreignLines, List.append_assoc]
  have hsteps :
      fuel + (argTypes.length + 3) = fuel + 1 + (signature argTypes returnType).length := by
    omega
  have hdepth : m.heap.depth s = (m.heap.stack s).length := rfl
  have hdefine (position : Nat) : run (fuel + 1) s
      ⟨position, .op .define :: ([name, libraryOperand path].map .operand ++ code)⟩ = _ :=
    run_plain rfl rfl fuel s position code
  rw [hcode, hsteps]
  refine ⟨fun hroom ↦ ?_, fun hroom hlt ↦ ?_⟩
  · have hover := run_pushes_overflow hs (m.heap.stack s) (by simp [signature]) hliteral
      (by omega) (fuel + 1) position
      ([.op .define, .operand name, .operand (libraryOperand path)] ++ code)
    rwa [withStack_stack] at hover
  -- the signature is pushed, and the instruction that declares takes it off again
  have hpush := run_pushes hs (m.heap.stack s) hliteral (by omega) (fuel + 1) position
    ([.op .define, .operand name, .operand (libraryOperand path)] ++ code)
  rw [withStack_stack] at hpush
  refine ⟨fun word hword ↦ ?_, fun types returned htypes hreturned ↦ ?_⟩
  · obtain ⟨us, hus⟩ := define_signature_unknown hs (m.heap.stack s) name hargs
      hresult hlt (libraryOperand path) hword
    refine ⟨us, hpush.trans ((congrFun (hdefine _) _).trans ?_)⟩
    change (define s name (libraryOperand path) >>= _) _ = _
    rw [bind_apply, hus]
  · have hdeclare := define_signature hs (m.heap.stack s) name hargs hresult hlt
      (libraryOperand path) htypes hreturned
    rw [withStack_stack] at hdeclare
    refine hpush.trans ((congrFun (hdefine _) _).trans ?_)
    refine (bind_congr_left hdeclare _).trans ?_
    have hposition : position + (codeOf lines).length =
        position + 2 * (signature argTypes returnType).length + 1 + 2 := by
      rw [codeOf_foreignLines, List.length_append, length_codeOf_pushes, Nat.add_assoc,
        Nat.add_assoc]
      rfl
    rw [bind_assoc, hposition]
    rfl

end

/-- A path with a blank, quotes and a backslash arrives, with a signature of two arguments: on a new
machine the loader is asked for it. -/
theorem foreign_declared_iff_blank :
    let r : Resolver := ⟨fun _ _ ↦ .ok [], id⟩
    let path := "my \"lib\\"
    let m := Machine.start (.standard false) .plain
    IsName "f" ∧ (∀ w ∈ ["int", "string"], IsName w) ∧ IsName "bool" ∧ Arrives path ∧
      libraryPath (libraryOperand (r.library path)) = path ∧
      run 6 Machine.root
          ⟨0, codeOf (foreignLines "f" path ["int", "string"] "bool") ++ [.op .returnOp]⟩ m = (do
        let f ← defineForeign "f" path [.int, .string] .bool
        declare Machine.root "f" (.foreign f)
        run 1 Machine.root ⟨11, [.op .returnOp]⟩) m := by
  intro r path m
  have hname : IsName "f" := by decide
  have hargs : ∀ w ∈ ["int", "string"], IsName w := by decide
  have hresult : IsName "bool" := by decide
  have harrives : Arrives path := by decide
  obtain ⟨-, -, hiff, hrun⟩ := foreign_declared_iff hname hargs hresult r path true 0
  obtain ⟨-, hpath⟩ := hiff.mpr harrives
  obtain ⟨-, hdeclared⟩ := hrun m Machine.root (by decide) 1 0 [.op .returnOp]
  have hended := (hdeclared (by decide) (by decide)).2 [.int, .string] .bool (by decide) (by decide)
  rw [hpath] at hended
  exact ⟨hname, hargs, hresult, harrives, hpath, hended⟩

/-- A path with one quote and no blank does not arrive: what follows it is taken for quoted text,
and the program is refused before anything in it runs. -/
theorem foreign_path_unclosed :
    let body : Program := [.foreign "f" "a\"b" [] "int"]
    parseSource "extern f :: 'a\"b' :: () -> int" "" = .ok body ∧
      Link.program ⟨[], []⟩ ⟨""⟩ body = .ok body ∧ ¬Arrives "a\"b" ∧
      ∀ (fuel : Nat) (m : Machine), evaluate fuel (textOf (Lower.program true body)) m =
        .error (.error (.malformed
          (.openText "a\"b\nRET\nDECLARE_LOCAL main\n\nLOAD_LOCAL main\nCALL")))
          { m with marks := [] } := by
  intro body
  refine ⟨by cbv, rfl, by decide, fun fuel m ↦ ?_⟩
  have htext : textOf (Lower.program true body) =
      "function main :\n  PUSH int\n  PUSH 0\n  DEFINE f a\"b\nRET\nDECLARE_LOCAL main\n" := by
    decide
  have hdecode :
      decode ("function main :\n  PUSH int\n  PUSH 0\n  DEFINE f a\"b\nRET\nDECLARE_LOCAL main\n" ++
        callMain) =
      .error (.openText "a\"b\nRET\nDECLARE_LOCAL main\n\nLOAD_LOCAL main\nCALL") := by
    with_unfolding_all rfl
  unfold evaluate
  rw [htext, hdecode]
  rfl

end GemLang
