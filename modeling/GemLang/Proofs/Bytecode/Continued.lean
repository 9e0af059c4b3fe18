import GemLang.Proofs.Bytecode.Layout

/-!
# Text that goes on

What becomes of bytecode text when more text is put after it. Text that is read as code is read as
the same code, with the code of what comes after it behind (`ofWords_append`). Text that is refused
may have been refused for its end only: an instruction that lacks operands takes them from what
comes after it. So a refusal is traced back to the instruction that could not be read
(`exists_of_ofWords_eq_error`), and the readers of operands fail just if the words run out.

Quotes are apart from this: a text has words just if it does not end inside quotes, where the middle
of an escape does not count (`exists_wordsOf_iff`).
-/

namespace GemLang.Bytecode

/-! ## Words -/

/-- A text has words just if it does not end inside quotes, or if it does in the middle of an
escape. -/
theorem exists_wordsOf_iff (cs : List Char) :
    (∃ words, wordsOf cs = .ok words) ↔ Reader.outside.after cs ≠ .inside := by
  fun_induction wordsOf cs with
  | case1 => exact iff_of_true ⟨[], rfl⟩ (by decide)
  | case2 c cs hblank ih =>
    rw [Reader.after_cons, next_outside (ne_quote_of_isBlank hblank)]
    exact ih
  | case3 c cs hblank text hcut =>
    exact iff_of_false (by simp) (not_not_intro (after_of_cutWord_error hcut))
  | case4 c cs hblank text rest hcut e hrest ih =>
    rw [hrest] at ih
    refine iff_of_false (by simp) fun hne ↦ ?_
    rw [← cutWord_append hcut, Reader.after_append] at hne
    -- the word is closed, or it is escaped at its end and the text ends with it
    rcases cutWord_after hcut with htext | ⟨-, rfl⟩
    · rw [htext] at hne
      simpa using ih.mpr hne
    · simpa using ih.mpr (by decide)
  | case5 c cs hblank text rest hcut words hrest ih =>
    refine iff_of_true ⟨_, rfl⟩ ?_
    rw [← cutWord_append hcut, Reader.after_append]
    rcases cutWord_after hcut with htext | ⟨htext, rfl⟩
    · rw [htext]
      exact ih.mp ⟨words, hrest⟩
    · rw [htext]
      decide

/-! ## Operands -/

theorem takeOperands_swap {op : Opcode} {count : Nat} {words rest : List String} {code : Code}
    (h : takeOperands op count words = .ok (code, rest)) (more : List String) :
    takeOperands op count (code.map Atom.word ++ more) = .ok (code, more) := by
  fun_induction takeOperands op count words generalizing code rest with
  | case1 =>
    cases h
    rfl
  | case2 => cases h
  | case3 => cases h
  | case4 count word words code' rest' hcut ih =>
    cases h
    rw [List.map_cons, List.cons_append, Atom.word, takeOperands, ih hcut]

theorem takeParams_swap {words rest : List String} {code : Code}
    (h : takeParams words = .ok (code, rest)) (more : List String) :
    takeParams (code.map Atom.word ++ more) = .ok (code, more) := by
  fun_induction takeParams words generalizing code rest with
  | case1 => cases h
  | case2 words =>
    cases h
    rfl
  | case3 => cases h
  | case4 word words hne code' rest' hcut ih =>
    cases h
    rw [List.map_cons, List.cons_append, Atom.word, takeParams, if_neg hne, ih hcut]

/-- **Operands are taken again from in front of anything else.** -/
theorem takeOperandsOf_swap {op : Opcode} {words rest : List String} {code : Code}
    (h : takeOperandsOf op words = .ok (code, rest)) (more : List String) :
    takeOperandsOf op (code.map Atom.word ++ more) = .ok (code, more) := by
  unfold takeOperandsOf at h
  by_cases hop : op = .function
  · rw [if_pos hop] at h
    cases words with
    | nil => cases h
    | cons name words =>
      simp only at h
      split at h
      · cases h
      · next hparams =>
        cases h
        unfold takeOperandsOf
        rw [if_pos hop, List.map_cons, List.cons_append, Atom.word]
        simp only [takeParams_swap hparams more]
  · rw [if_neg hop] at h
    unfold takeOperandsOf
    rw [if_neg hop]
    exact takeOperands_swap h more

theorem exists_takeOperands_eq_error_iff {op : Opcode} {count : Nat} {words : List String} :
    (∃ e, takeOperands op count words = .error e) ↔ words.length < count := by
  fun_induction takeOperands op count words with
  | case1 words => exact iff_of_false (by simp) (Nat.not_lt_zero _)
  | case2 count => exact iff_of_true ⟨_, rfl⟩ (Nat.succ_pos count)
  | case3 count word words e hcut ih =>
    rw [List.length_cons, Nat.add_lt_add_iff_right, ← ih]
    exact iff_of_true ⟨e, rfl⟩ ⟨e, hcut⟩
  | case4 count word words code rest hcut ih =>
    rw [List.length_cons, Nat.add_lt_add_iff_right, ← ih]
    exact iff_of_false (by simp) (by simp [hcut])

theorem exists_takeParams_eq_error_iff {words : List String} :
    (∃ e, takeParams words = .error e) ↔ ":" ∉ words := by
  fun_induction takeParams words with
  | case1 => exact iff_of_true ⟨_, rfl⟩ List.not_mem_nil
  | case2 words => exact iff_of_false (by simp) (by simp)
  | case3 word words hne e hcut ih =>
    refine iff_of_true ⟨e, rfl⟩ ?_
    simpa [Ne.symm hne] using ih.mp ⟨e, hcut⟩
  | case4 word words hne code rest hcut ih =>
    refine iff_of_false (by simp) fun hnone ↦ ?_
    obtain ⟨e, he⟩ := ih.mpr fun h ↦ hnone (List.mem_cons_of_mem _ h)
    cases hcut.symm.trans he

/-- A function header cannot be read just if nothing follows it, or no colon follows its name. -/
theorem exists_takeOperandsOf_function_eq_error_iff {words : List String} :
    (∃ e, takeOperandsOf .function words = .error e) ↔ ":" ∉ words.tail := by
  unfold takeOperandsOf
  rw [if_pos rfl]
  cases words with
  | nil => exact iff_of_true ⟨_, rfl⟩ List.not_mem_nil
  | cons name words =>
    rw [List.tail_cons, ← exists_takeParams_eq_error_iff]
    dsimp only
    cases takeParams words with
    | error e => exact iff_of_true ⟨e, rfl⟩ ⟨e, rfl⟩
    | ok taken => exact iff_of_false (fun ⟨_, h⟩ ↦ nomatch h) (fun ⟨_, h⟩ ↦ nomatch h)

/-! ## Code -/

theorem ofWords_cons {word : String} {op : Opcode} (hop : Opcode.ofWord? word = some op)
    {words rest : List String} {operands : Code}
    (htake : takeOperandsOf op words = .ok (operands, rest)) :
    ofWords (word :: words) = (ofWords rest).map (.op op :: operands ++ ·) := by
  rw [ofWords, hop]
  dsimp only
  split
  · next heq =>
    rw [htake] at heq
    cases heq
  · next heq =>
    rw [htake] at heq
    cases heq
    cases ofWords rest <;> rfl

theorem exists_ofWords_cons_eq_error {word : String} {op : Opcode}
    (hop : Opcode.ofWord? word = some op) {words : List String}
    (htake : ∃ e, takeOperandsOf op words = .error e) :
    ∃ e, ofWords (word :: words) = .error e := by
  obtain ⟨e, htake⟩ := htake
  rw [ofWords, hop]
  dsimp only
  split
  · exact ⟨_, rfl⟩
  · next heq =>
    rw [htake] at heq
    cases heq

/-- **Code stays as it is in front of more words.** -/
theorem ofWords_append {words : List String} {code : Code} (h : ofWords words = .ok code)
    (more : List String) : ofWords (words ++ more) = (ofWords more).map (code ++ ·) := by
  fun_induction ofWords words generalizing code with
  | case1 =>
    cases h
    rw [List.nil_append]
    cases ofWords more <;> rfl
  | case2 => cases h
  | case3 => cases h
  | case4 => cases h
  | case5 word words op hop operands rest htake code' hcode ih =>
    cases h
    have htake' := takeOperandsOf_swap htake (rest ++ more)
    rw [← List.append_assoc, takeOperandsOf_words htake] at htake'
    rw [List.cons_append, ofWords_cons hop htake', ih hcode]
    cases ofWords more with
    | error e => rfl
    | ok code => exact congrArg Except.ok (List.append_assoc ..).symm

/-- Words that are no code are code up to an instruction that cannot be read. -/
theorem exists_of_ofWords_eq_error {words : List String} {e : CodeFault}
    (h : ofWords words = .error e) :
    ∃ before word after code, words = before ++ word :: after ∧ ofWords before = .ok code ∧
      ∀ op, Opcode.ofWord? word = some op → ∃ e, takeOperandsOf op after = .error e := by
  fun_induction ofWords words generalizing e with
  | case1 => cases h
  | case2 word words hnone =>
    refine ⟨[], word, words, [], rfl, by rw [ofWords], fun op hop ↦ ?_⟩
    rw [hnone] at hop
    cases hop
  | case3 word words op hop fault htake =>
    refine ⟨[], word, words, [], rfl, by rw [ofWords], fun op' hop' ↦ ⟨fault, ?_⟩⟩
    obtain rfl := Option.some.inj (hop.symm.trans hop')
    exact htake
  | case4 word words op hop operands rest htake e hrest ih =>
    obtain ⟨before, word', after, code, hsplit, hbefore, hstuck⟩ := ih hrest
    refine ⟨word :: (operands.map Atom.word ++ before), word', after, .op op :: operands ++ code,
      ?_, ?_, hstuck⟩
    · rw [← takeOperandsOf_words htake, hsplit, List.cons_append, List.append_assoc]
    · rw [ofWords_cons hop (takeOperandsOf_swap htake before), hbefore]
      rfl
  | case5 => cases h

end GemLang.Bytecode
