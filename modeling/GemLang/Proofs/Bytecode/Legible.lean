import GemLang.Bytecode.Line
import GemLang.Text.Quoted
import Mathlib

/-!
# Lines that are read as they were written

Bytecode text is a flat sequence of words: reading it back knows nothing of lines, and takes from an
opcode alone which of the words after it are operands. What is read is what was written if every
operand is one word and every opcode has as many as it takes. Such instructions are *legible*.

A text is one word in two ways. It is bare: not empty, and without a blank or a quote anywhere. Or
it is quoted: then escaping has put a backslash in front of every quote and every backslash inside,
so that the first bare quote is the closing one.

The main statement is `decode_textOf_append`: legible lines in front of some text decode to the code
of the lines in front of the code of that text.
-/

namespace GemLang.Bytecode

/-! ## Words -/

/-- A text without a blank or a quote, and not empty. -/
def IsBareWord (w : String) : Prop :=
  w.toList ≠ [] ∧ ∀ c ∈ w.toList, Text.isBlank c = false ∧ c ≠ '"'

/-- A text that stands in bytecode as a single word. -/
def IsWord (w : String) : Prop := IsBareWord w ∨ ∃ s, w = Text.quote s

/-- Nothing, or something that starts with a blank. -/
def IsGap (cs : List Char) : Prop := ∀ c ∈ cs.head?, Text.isBlank c = true

theorem isGap_nil : IsGap [] := by simp [IsGap]

theorem isGap_cons {c : Char} (h : Text.isBlank c = true) (cs : List Char) : IsGap (c :: cs) := by
  simpa [IsGap] using h

theorem cutWord_of_isGap {rest : List Char} (h : IsGap rest) : cutWord rest = .ok ([], rest) := by
  match rest with
  | [] => rw [cutWord]
  | c :: cs =>
    have hblank : Text.isBlank c = true := h c rfl
    have hne : c ≠ '"' := by
      rintro rfl
      exact absurd hblank (by decide)
    rw [cutWord]
    · simp [hblank]
    · exact hne

theorem cutWord_append_of_bare {cs : List Char}
    (h : ∀ c ∈ cs, Text.isBlank c = false ∧ c ≠ '"') {rest : List Char} (hrest : IsGap rest) :
    cutWord (cs ++ rest) = .ok (cs, rest) := by
  induction cs with
  | nil => exact cutWord_of_isGap hrest
  | cons c cs ih =>
    obtain ⟨hblank, hquote⟩ := h c List.mem_cons_self
    have hcs := ih fun d hd ↦ h d (List.mem_cons_of_mem _ hd)
    rw [List.cons_append, cutWord]
    · simp [hblank, hcs]
    · exact hquote

/-- An escaped character neither closes the quotes nor leaves a backslash for what follows. -/
theorem cutQuoted_escapeChar_append (c : Char) {cs text rest : List Char}
    (h : cutQuoted cs = .ok (text, rest)) :
    cutQuoted (Text.escapeChar c ++ cs) = .ok (Text.escapeChar c ++ text, rest) := by
  unfold Text.escapeChar
  split
  case h_7 hquote hbackslash _ _ _ _ =>
    rw [List.cons_append, List.nil_append, cutQuoted]
    · simp [h]
    · exact fun hc _ ↦ hbackslash hc
    · exact fun _ _ hc ↦ absurd hc hbackslash
    · exact hquote
  all_goals simp [cutQuoted, h]

theorem cutQuoted_escape_append (cs rest : List Char) :
    cutQuoted (Text.escape cs ++ '"' :: rest) = .ok (Text.escape cs ++ ['"'], rest) := by
  induction cs with
  | nil => rfl
  | cons c cs ih =>
    have hescape : Text.escape (c :: cs) = Text.escapeChar c ++ Text.escape cs := rfl
    rw [hescape, List.append_assoc, cutQuoted_escapeChar_append c ih, List.append_assoc]

theorem toList_quote (s : String) :
    (Text.quote s).toList = '"' :: (Text.escape s.toList ++ ['"']) := by
  simp [Text.quote]

namespace IsWord

variable {w : String}

theorem exists_cons (h : IsWord w) : ∃ c cs, w.toList = c :: cs ∧ Text.isBlank c = false := by
  rcases h with ⟨hne, hbare⟩ | ⟨s, rfl⟩
  · obtain ⟨c, cs, hcs⟩ := List.exists_cons_of_ne_nil hne
    exact ⟨c, cs, hcs, (hbare c (by simp [hcs])).1⟩
  · exact ⟨'"', _, toList_quote s, by decide⟩

theorem cutWord_append (h : IsWord w) {rest : List Char} (hrest : IsGap rest) :
    cutWord (w.toList ++ rest) = .ok (w.toList, rest) := by
  rcases h with ⟨-, hbare⟩ | ⟨s, rfl⟩
  · exact cutWord_append_of_bare hbare hrest
  · have hquoted := cutQuoted_escape_append s.toList rest
    rw [toList_quote, List.cons_append, List.append_assoc, List.singleton_append, cutWord]
    split
    · next heq => simp [hquoted] at heq
    · next text rest' heq =>
      rw [hquoted] at heq
      simp only [Except.ok.injEq, Prod.mk.injEq] at heq
      obtain ⟨rfl, rfl⟩ := heq
      simp [cutWord_of_isGap hrest]

theorem wordsOf_append (h : IsWord w) {rest : List Char} (hrest : IsGap rest) {ws : List String}
    (hws : wordsOf rest = .ok ws) : wordsOf (w.toList ++ rest) = .ok (w :: ws) := by
  obtain ⟨c, cs, hcs, hblank⟩ := h.exists_cons
  have hcut := h.cutWord_append hrest
  rw [hcs, List.cons_append] at hcut ⊢
  rw [wordsOf]
  simp only [hblank, Bool.false_eq_true, ↓reduceDIte]
  split
  · next heq => simp [hcut] at heq
  · next text rest' heq =>
    rw [hcut] at heq
    simp only [Except.ok.injEq, Prod.mk.injEq] at heq
    obtain ⟨rfl, rfl⟩ := heq
    simp [hws, ← hcs]

end IsWord

theorem wordsOf_cons_of_isBlank {c : Char} (h : Text.isBlank c = true) (cs : List Char) :
    wordsOf (c :: cs) = wordsOf cs := by
  rw [wordsOf]
  simp [h]

theorem wordsOf_replicate_append (n : Nat) (cs : List Char) :
    wordsOf (List.replicate n ' ' ++ cs) = wordsOf cs := by
  induction n with
  | zero => rfl
  | succ n ih =>
    rw [List.replicate_succ, List.cons_append, wordsOf_cons_of_isBlank (by decide), ih]

theorem wordsOf_intercalate_append {words : List String} (h : ∀ w ∈ words, IsWord w)
    {rest : List Char} (hrest : IsGap rest) {ws : List String} (hws : wordsOf rest = .ok ws) :
    wordsOf ((" ".intercalate words).toList ++ rest) = .ok (words ++ ws) := by
  rw [String.toList_intercalate]
  induction words with
  | nil => simpa using hws
  | cons w words ih =>
    have hw := h w List.mem_cons_self
    match words with
    | [] => simpa using hw.wordsOf_append hrest hws
    | v :: words =>
      have htail := ih fun u hu ↦ h u (List.mem_cons_of_mem _ hu)
      have hblank : Text.isBlank ' ' = true := by decide
      rw [List.map_cons, List.map_cons, List.intercalate_cons_cons, ← List.map_cons,
        List.append_assoc, List.append_assoc]
      have hgap := isGap_cons hblank
        (List.intercalate " ".toList ((v :: words).map String.toList) ++ rest)
      exact hw.wordsOf_append hgap (by simpa [wordsOf_cons_of_isBlank hblank] using htail)

/-! ## Instructions -/

/-- An instruction with as many operands as its opcode takes; the parameters of a function are told
from what follows them by the colon, so none of them is a colon. -/
def Instruction.IsComplete : Instruction → Prop
  | .plain op operands => op ≠ .function ∧ operands.length = op.operandCount
  | .header _ params => ":" ∉ params

def Instruction.operands : Instruction → List String
  | .plain _ operands => operands
  | .header name params => name :: params

/-- An instruction that is read as it was written. -/
structure Instruction.Legible (i : Instruction) : Prop where
  complete : i.IsComplete
  operands : ∀ w ∈ i.operands, IsWord w

theorem isWord_mnemonic (op : Opcode) : IsWord op.mnemonic := by
  have hchars : op.mnemonic.toList.all (fun c ↦ !Text.isBlank c && c != '"') = true := by
    cases op <;> decide
  refine .inl ⟨by cases op <;> decide, fun c hc ↦ ?_⟩
  simpa using List.all_eq_true.mp hchars c hc

theorem Instruction.Legible.isWord {i : Instruction} (h : i.Legible) :
    ∀ w ∈ i.words, IsWord w := by
  cases i with
  | plain op operands =>
    simp only [words, code, List.map_cons, List.map_map, List.mem_cons]
    rintro w (rfl | hw)
    · exact isWord_mnemonic op
    · exact h.operands w (by simpa [Instruction.operands, Function.comp_def, Atom.word] using hw)
  | header name params =>
    have hoperands : ∀ w ∈ name :: params, IsWord w := h.operands
    simp only [words, code, List.map_append, List.map_cons, List.map_map, List.map_nil,
      List.cons_append, List.mem_cons, List.mem_append, List.not_mem_nil, or_false]
    rintro w (rfl | rfl | hw | rfl)
    · exact isWord_mnemonic .function
    · exact hoperands _ List.mem_cons_self
    · exact hoperands w (List.mem_cons_of_mem _ (by simpa [Function.comp_def, Atom.word] using hw))
    · exact isWord_mnemonic .colon

theorem takeOperands_append (op : Opcode) (operands rest : List String) :
    takeOperands op operands.length (operands ++ rest) = .ok (operands.map .operand, rest) := by
  induction operands with
  | nil => rfl
  | cons operand operands ih => simp [takeOperands, ih]

theorem takeParams_append {params : List String} (h : ":" ∉ params) (rest : List String) :
    takeParams (params ++ ":" :: rest) = .ok (params.map .operand ++ [Atom.op .colon], rest) := by
  induction params with
  | nil => simp [takeParams]
  | cons param params ih =>
    have hne : param ≠ ":" := fun heq ↦ h (heq ▸ List.mem_cons_self)
    have hparams := ih fun hmem ↦ h (List.mem_cons_of_mem _ hmem)
    simp [takeParams, hne, hparams]

theorem takeOperandsOf_append {op : Opcode} (hop : op ≠ .function) {operands : List String}
    (hlength : operands.length = op.operandCount) (rest : List String) :
    takeOperandsOf op (operands ++ rest) = .ok (operands.map .operand, rest) := by
  unfold takeOperandsOf
  rw [if_neg hop, ← hlength, takeOperands_append]

theorem takeOperandsOf_function (name : String) {params : List String} (h : ":" ∉ params)
    (rest : List String) :
    takeOperandsOf .function (name :: (params ++ ":" :: rest)) =
      .ok (.operand name :: (params.map .operand ++ [Atom.op .colon]), rest) := by
  simp [takeOperandsOf, takeParams_append h]

theorem ofWords_mnemonic_append {op : Opcode} {words rest : List String} {operands code : Code}
    (htake : takeOperandsOf op words = .ok (operands, rest)) (hcode : ofWords rest = .ok code) :
    ofWords (op.mnemonic :: words) = .ok (.op op :: operands ++ code) := by
  rw [ofWords, Opcode.ofWord?_mnemonic]
  dsimp only
  split
  · next heq => simp [htake] at heq
  · next operands' rest' heq =>
    rw [htake] at heq
    simp only [Except.ok.injEq, Prod.mk.injEq] at heq
    obtain ⟨rfl, rfl⟩ := heq
    simp [hcode]

theorem Instruction.ofWords_append {i : Instruction} (h : i.IsComplete) {ws : List String}
    {code : Code} (hcode : ofWords ws = .ok code) :
    ofWords (i.words ++ ws) = .ok (i.code ++ code) := by
  cases i with
  | plain op operands =>
    have htake := takeOperandsOf_append h.1 h.2 ws
    have hread := ofWords_mnemonic_append htake hcode
    simpa [words, Instruction.code, Function.comp_def, Atom.word] using hread
  | header name params =>
    have hread := ofWords_mnemonic_append (takeOperandsOf_function name h ws) hcode
    simpa [words, Instruction.code, Function.comp_def, Atom.word, Opcode.mnemonic] using hread

/-! ## Lines -/

theorem Line.wordsOf_append {l : Line} (h : l.instruction.Legible) {rest : List Char}
    {ws : List String} (hws : wordsOf rest = .ok ws) :
    wordsOf (l.text.toList ++ rest) = .ok (l.instruction.words ++ ws) := by
  have hblank : Text.isBlank '\n' = true := by decide
  have hrest : wordsOf ('\n' :: rest) = .ok ws := by rw [wordsOf_cons_of_isBlank hblank, hws]
  rw [Line.text, String.toList_append, String.toList_append, String.toList_ofList,
    List.append_assoc, List.append_assoc, wordsOf_replicate_append]
  exact wordsOf_intercalate_append h.isWord (isGap_cons hblank rest) hrest

theorem textOf_cons (l : Line) (ls : List Line) : textOf (l :: ls) = l.text ++ textOf ls := by
  simp [textOf, String.join_cons]

theorem split_textOf_append {ls : List Line} (h : ∀ l ∈ ls, l.instruction.Legible) {text : String}
    {ws : List String} (hws : split text = .ok ws) :
    split (textOf ls ++ text) = .ok (ls.flatMap (·.instruction.words) ++ ws) := by
  induction ls with
  | nil => simpa [textOf] using hws
  | cons l ls ih =>
    have htail := ih fun m hm ↦ h m (List.mem_cons_of_mem _ hm)
    rw [split, String.toList_append] at htail
    rw [split, textOf_cons, String.toList_append, String.toList_append, List.append_assoc,
      Line.wordsOf_append (h l List.mem_cons_self) htail, List.flatMap_cons, List.append_assoc]

theorem ofWords_lines_append {ls : List Line} (h : ∀ l ∈ ls, l.instruction.Legible)
    {ws : List String} {code : Code} (hcode : ofWords ws = .ok code) :
    ofWords (ls.flatMap (·.instruction.words) ++ ws) = .ok (codeOf ls ++ code) := by
  induction ls with
  | nil => simpa using hcode
  | cons l ls ih =>
    have htail := ih fun m hm ↦ h m (List.mem_cons_of_mem _ hm)
    rw [List.flatMap_cons, List.append_assoc, codeOf_cons, List.append_assoc]
    exact Instruction.ofWords_append (h l List.mem_cons_self).complete htail

/-- **Legible lines decode to their own code**, whatever well-formed text comes after them. -/
theorem decode_textOf_append {ls : List Line} (h : ∀ l ∈ ls, l.instruction.Legible) {text : String}
    {code : Code} (hcode : decode text = .ok code) :
    decode (textOf ls ++ text) = .ok (codeOf ls ++ code) := by
  rw [decode] at hcode
  split at hcode
  · cases hcode
  · next ws hws =>
    rw [decode, split_textOf_append h hws]
    exact ofWords_lines_append h hcode

end GemLang.Bytecode
