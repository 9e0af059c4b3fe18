import GemLang.Proofs.Bytecode.Continued
import GemLang.Proofs.Machine.Flushing
import GemLang.Proofs.Machine.Session

/-!
# Malformed programs

Before bytecode text is read, the call of `main` is put after it. So it is not the text alone that
is read, and a text that is cut short may take words of the call for its own. In almost all cases
that does not save it: an instruction that lacks one operand leaves `main` behind, which is no
instruction, a function header finds no colon in the call, and open quotes find no quote.

The exception is a `DEFINE` at the very end. It lacks two operands and takes `LOAD_LOCAL main`, and
the `CALL` that is left is an instruction. Such a text is refused by itself, but as a program it
runs (`evaluate_refuses`).
-/

namespace GemLang

open Bytecode
open Exec

def mainCall : Code := [.op .loadLocal, .operand "main", .op .call]

/-- What a `DEFINE` without operands makes of the call of `main`. -/
def takenCall : Code := [.op .define, .operand "LOAD_LOCAL", .operand "main", .op .call]

/-- A text that is some code and a `DEFINE` without operands at the end. -/
def EndsInDefine (text : String) (code : Code) : Prop :=
  ∃ words, split text = .ok (words ++ ["DEFINE"]) ∧ ofWords words = .ok code

/-- A program is refused: the run ends before it starts. -/
def IsRefused (fuel : Nat) (text : String) : Prop :=
  ∃ e, ∀ m : Machine, evaluate fuel text m = .error (.error (.malformed e)) { m with marks := [] }

/-! ## Running what was read -/

theorem isRefused_of_decode {text : String} (h : ∃ e, decode (text ++ callMain) = .error e)
    (fuel : Nat) : IsRefused fuel text := by
  obtain ⟨e, h⟩ := h
  exact ⟨e, evaluate_of_decode_error h fuel⟩

/-! ## Reading a program and the call of its main function -/

section

variable {text : String} {words : List String}

theorem endsOutside_of_split (h : split text = .ok words) (hescape : ¬EndsEscaped text.toList) :
    EndsOutside text.toList := by
  have hinside := (exists_wordsOf_iff text.toList).mp ⟨words, h⟩
  cases hreader : Reader.outside.after text.toList with
  | outside => exact hreader
  | inside => exact absurd hreader hinside
  | escaped => exact absurd hreader hescape

theorem split_append_callMain (h : split text = .ok words) (hescape : ¬EndsEscaped text.toList) :
    split (text ++ callMain) = .ok (words ++ ["LOAD_LOCAL", "main", "CALL"]) := by
  have hgap : IsGap callMain.toList := by
    intro c hc
    obtain rfl : '\n' = c := by simpa [callMain] using hc
    decide
  obtain ⟨words', hwords, happend⟩ := wordsOf_append (endsOutside_of_split h hescape) hgap
  obtain rfl : words' = words := Except.ok.inj (hwords.symm.trans h)
  have hcall : wordsOf callMain.toList = .ok _ := split_callMain
  rw [split, String.toList_append, happend, hcall]
  rfl

/-- The call of `main` closes no quotes. -/
theorem exists_decode_eq_error (h : ¬EndsOutside text.toList) :
    ∃ e, decode (text ++ callMain) = .error e := by
  have hinside : Reader.outside.after (text ++ callMain).toList = .inside := by
    rw [String.toList_append, Reader.after_append]
    cases hreader : Reader.outside.after text.toList with
    | outside => exact absurd hreader h
    | inside => decide
    | escaped => decide
  cases hsplit : split (text ++ callMain) with
  | error e =>
    rw [decode, hsplit]
    exact ⟨e, rfl⟩
  | ok words => exact absurd hinside ((exists_wordsOf_iff _).mp ⟨words, hsplit⟩)

/-- The last word of a text that ends in the middle of an escape does so too. -/
theorem endsEscaped_getLast {cs : List Char} (h : wordsOf cs = .ok words)
    (hescape : EndsEscaped cs) : ∃ w ∈ words.getLast?, EndsEscaped w.toList := by
  fun_induction wordsOf cs generalizing words with
  | case1 => cases hescape
  | case2 c cs hblank ih =>
    rw [EndsEscaped, Reader.after_cons, next_outside (ne_quote_of_isBlank hblank)] at hescape
    exact ih h hescape
  | case3 => cases h
  | case4 => cases h
  | case5 c cs hblank text rest hcut words' hrest ih =>
    cases h
    rcases cutWord_after hcut with htext | ⟨htext, rfl⟩
    · rw [EndsEscaped, ← cutWord_append hcut, Reader.after_append, htext] at hescape
      obtain ⟨w, hw, hescaped⟩ := ih hrest hescape
      refine ⟨w, ?_, hescaped⟩
      rw [List.getLast?_cons, Option.mem_def.mp hw]
      rfl
    · rw [wordsOf] at hrest
      cases hrest
      refine ⟨String.ofList text, rfl, ?_⟩
      rwa [String.toList_ofList]

theorem decode_append_callMain {code : Code} (h : decode text = .ok code)
    (hescape : ¬EndsEscaped text.toList) : decode (text ++ callMain) = .ok (code ++ mainCall) := by
  rw [decode] at h
  split at h
  · cases h
  · next words hwords =>
    have hcall : ofWords ["LOAD_LOCAL", "main", "CALL"] = .ok mainCall := by cbv
    rw [decode, split_append_callMain hwords hescape]
    simp only [ofWords_append h, hcall]
    rfl

end

/-! ## Texts that end too early -/

/-- An instruction that lacks operands finds as many as it needs in the call of `main`, or no colon
there. What it leaves of the call is no code, unless it is a `DEFINE` without any operand. -/
theorem exists_ofWords_stuck {word : String} {op : Opcode} (hop : Opcode.ofWord? word = some op)
    {after : List String} (hstuck : ∃ e, takeOperandsOf op after = .error e) :
    (word = "DEFINE" ∧ after = []) ∨
      ∃ e, ofWords (word :: (after ++ ["LOAD_LOCAL", "main", "CALL"])) = .error e := by
  by_cases hfunction : op = .function
  · subst hfunction
    refine .inr (exists_ofWords_cons_eq_error hop ?_)
    rw [exists_takeOperandsOf_function_eq_error_iff] at hstuck ⊢
    -- the name may come from the call, but the colon does not
    cases after with
    | nil => decide
    | cons name params => simpa using hstuck
  · have hlength : after.length < op.operandCount := by
      unfold takeOperandsOf at hstuck
      rw [if_neg hfunction] at hstuck
      exact exists_takeOperands_eq_error_iff.mp hstuck
    have hcount : op.operandCount ≤ 2 ∧ (op.operandCount = 2 → op = .define) := by
      cases op <;> decide
    by_cases hone : after.length + 1 = op.operandCount
    · have htake := takeOperandsOf_append hfunction
        (List.length_append.trans hone : (after ++ ["LOAD_LOCAL"]).length = _) ["main", "CALL"]
      rw [List.append_assoc, List.singleton_append] at htake
      have hleft : ofWords ["main", "CALL"] = .error (.unknownInstruction "main") := by cbv
      refine .inr ⟨.unknownInstruction "main", ?_⟩
      rw [ofWords_cons hop htake, hleft]
      rfl
    · refine .inl ⟨?_, List.length_eq_zero_iff.mp (by omega)⟩
      rw [← mnemonic_of_ofWord? hop, hcount.2 (by omega)]
      rfl

/-- **Words that are no code are none with the call of `main` after them**, unless they are code
with a `DEFINE` without operands at the end. -/
theorem exists_ofWords_append_eq_error {words : List String} {e : CodeFault}
    (h : ofWords words = .error e) :
    (∃ before code, words = before ++ ["DEFINE"] ∧ ofWords before = .ok code) ∨
      ∃ e, ofWords (words ++ ["LOAD_LOCAL", "main", "CALL"]) = .error e := by
  obtain ⟨before, word, after, code, rfl, hbefore, hstuck⟩ := exists_of_ofWords_eq_error h
  have hrefused
      (hrest : ∃ e, ofWords (word :: (after ++ ["LOAD_LOCAL", "main", "CALL"])) = .error e) :
      ∃ e, ofWords (before ++ word :: after ++ ["LOAD_LOCAL", "main", "CALL"]) = .error e := by
    obtain ⟨e, hrest⟩ := hrest
    rw [List.append_assoc, ofWords_append hbefore, List.cons_append, hrest]
    exact ⟨e, rfl⟩
  cases hop : Opcode.ofWord? word with
  | none =>
    refine .inr (hrefused ⟨.unknownInstruction word, ?_⟩)
    rw [ofWords, hop]
  | some op =>
    rcases exists_ofWords_stuck hop (hstuck op hop) with ⟨rfl, rfl⟩ | hrest
    · exact .inl ⟨before, code, rfl, hbefore⟩
    · exact .inr (hrefused hrest)

theorem EndsInDefine.decode_eq {text : String} {code : Code} (h : EndsInDefine text code) :
    (∃ e, decode text = .error e) ∧ decode (text ++ callMain) = .ok (code ++ takenCall) := by
  obtain ⟨words, hsplit, hwords⟩ := h
  have hescape : ¬EndsEscaped text.toList := by
    intro hescape
    obtain ⟨w, hw, hescaped⟩ := endsEscaped_getLast hsplit hescape
    obtain rfl : "DEFINE" = w := by simpa using hw
    exact absurd hescaped (by decide)
  have hdefine : ofWords ["DEFINE"] = .error (.missingWord .define) := by cbv
  have htaken : ofWords ["DEFINE", "LOAD_LOCAL", "main", "CALL"] = .ok takenCall := by cbv
  constructor
  · rw [decode, hsplit]
    simp only [ofWords_append hwords, hdefine]
    exact ⟨_, rfl⟩
  · rw [decode, split_append_callMain hsplit hescape]
    simp only [List.append_assoc, List.singleton_append, ofWords_append hwords, htaken]
    rfl

/-- **What is refused as text is refused as a program, before anything runs**: nothing is printed,
and no scope changes. Two kinds of text are different with the call of `main` after them. One that
ends in a `DEFINE` without operands runs, with the call taken for its operands. One that ends in the
middle of an escape is refused, also where it was code by itself. All other code runs with the call
of `main` after it. -/
theorem evaluate_refuses (fuel : Nat) (text : String) :
    (∀ e, decode text = .error e → (∀ code, ¬EndsInDefine text code) → IsRefused fuel text) ∧
      (∀ code, EndsInDefine text code → (∃ e, decode text = .error e) ∧
        evaluate fuel text = evaluateCode fuel (code ++ takenCall)) ∧
      (∀ code, decode text = .ok code → ¬EndsEscaped text.toList →
        evaluate fuel text = evaluateCode fuel (code ++ mainCall)) ∧
      (EndsEscaped text.toList → IsRefused fuel text) := by
  have hescaped (hescape : EndsEscaped text.toList) : IsRefused fuel text := by
    refine isRefused_of_decode (exists_decode_eq_error fun houtside ↦ ?_) fuel
    exact nomatch hescape.symm.trans houtside
  refine ⟨fun e he hdefine ↦ ?_, fun code hcode ↦ ?_, fun code hcode hescape ↦ ?_, hescaped⟩
  · by_cases hescape : EndsEscaped text.toList
    · exact hescaped hescape
    refine isRefused_of_decode ?_ fuel
    cases hsplit : split text with
    | error e' =>
      refine exists_decode_eq_error fun houtside ↦ ?_
      obtain ⟨words, hwords⟩ := (exists_wordsOf_iff text.toList).mpr (by rw [houtside]; decide)
      exact nomatch hsplit.symm.trans hwords
    | ok words =>
      rw [decode, hsplit] at he
      rcases exists_ofWords_append_eq_error he with ⟨before, code, rfl, hcode⟩ | hrest
      · exact absurd ⟨before, hsplit, hcode⟩ (hdefine code)
      · rw [decode, split_append_callMain hsplit hescape]
        exact hrest
  · exact ⟨hcode.decode_eq.1, evaluate_of_decode hcode.decode_eq.2 fuel⟩
  · exact evaluate_of_decode (decode_append_callMain hcode hescape) fuel

/-- A text that is refused by itself, but binds a name before it stops for another reason. -/
theorem evaluate_runs_refused :
    let text := "PUSH a DECLARE_LOCAL b DEFINE"
    let m := Machine.start (.standard false) .plain
    (∃ e, decode text = .error e) ∧
      ∃ m', evaluate 4 text m = .error (.error .stackUnderflow) m' ∧
        m.heap.lookup Machine.root "b" = none ∧
        m'.heap.lookup Machine.root "b" = some (.text "a") := by
  intro text m
  have hname {x : String} (hx : IsName x) : IsWord x := hx.isWord
  have hwords : ∀ w ∈ ["PUSH", "a", "DECLARE_LOCAL", "b", "DEFINE"], IsWord w := by
    simp only [List.forall_mem_cons, List.not_mem_nil, false_imp_iff, implies_true, and_true]
    exact ⟨isWord_mnemonic .push, hname (by decide), isWord_mnemonic .declareLocal,
      hname (by decide), isWord_mnemonic .define⟩
  have hsplit : split text = .ok ["PUSH", "a", "DECLARE_LOCAL", "b", "DEFINE"] := by
    have h := wordsOf_intercalate_append hwords isGap_nil wordsOf_nil
    rwa [List.append_nil] at h
  have hends : EndsInDefine text [.op .push, .operand "a", .op .declareLocal, .operand "b"] :=
    ⟨["PUSH", "a", "DECLARE_LOCAL", "b"], hsplit, by cbv⟩
  refine ⟨hends.decode_eq.1, ?_⟩
  rw [evaluate_of_decode hends.decode_eq.2]
  exact ⟨_, rfl, rfl, rfl⟩

end GemLang
