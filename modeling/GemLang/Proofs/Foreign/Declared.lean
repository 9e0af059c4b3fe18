import GemLang.Compile.Link
import GemLang.Proofs.Bytecode.Layout
import GemLang.Proofs.Compile.Operand

/-!
# Declarations of C functions arrive

The declaration of a C function goes through text on its way to the loader: the path of its library
is an operand of an instruction. A path with blanks is quoted and read back as it was. Any other
path is written bare, and then it is read by rules that it was not written by: quotes in it have to
be closed again, or the word does not end where the path does, and a path that starts with a quote
is taken for quoted text. `Arrives` says just which paths come through (`foreign_arrives_iff`).
-/

namespace GemLang

open Bytecode
open Lower (foreignLines libraryOperand)

/-! ## Paths -/

/-- The path of a library that comes out of bytecode as it went in. One with a blank always does.
One without is not empty, does not end inside quotes, and, if it starts with a quote, neither ends
with one nor has a backslash before its end. -/
def Arrives (path : String) : Prop :=
  (∃ c ∈ path.toList, Text.isBlank c = true) ∨
    path ≠ "" ∧ EndsOutside path.toList ∧
      (path.toList.head? = some '"' →
        path.toList.getLast? ≠ some '"' ∧ '\\' ∉ path.toList.dropLast)

instance (path : String) : Decidable (Arrives path) :=
  -- the characters of the path are tried, not all characters that there are
  have : Decidable (∃ c ∈ path.toList, Text.isBlank c = true) := List.decidableBEx _ _
  inferInstanceAs (Decidable (_ ∨ _))

theorem unescape_sublist_length (cs : List Char) : (Text.unescape cs).length ≤ cs.length := by
  fun_induction Text.unescape cs with
  | case1 | case2 => exact Nat.le_refl _
  | case3 c cs ih =>
    simp only [List.length_cons]
    omega
  | case4 c cs _ _ ih =>
    simp only [List.length_cons]
    omega

/-- Reading escapes changes nothing where no backslash has a character after it. -/
theorem unescape_eq_self_iff {cs : List Char} : Text.unescape cs = cs ↔ '\\' ∉ cs.dropLast := by
  fun_induction Text.unescape cs with
  | case1 | case2 => simp
  | case3 c cs ih =>
    refine iff_of_false (fun h ↦ ?_) (by simp)
    have hlength := congrArg List.length h
    have hle := unescape_sublist_length cs
    simp only [List.length_cons] at hlength
    omega
  | case4 c cs hend hescape ih =>
    have hbackslash : '\\' ≠ c := Ne.symm (ne_backslash hend hescape)
    cases cs with
    | nil => simp [Text.unescape]
    | cons d ds => simp [ih, hbackslash]

theorem libraryPath_quote (path : String) : libraryPath (Text.quote path) = path := by
  have hdecode : Text.decodeEscapes (Text.quote path) = Text.enquote path := by
    rw [Text.decodeEscapes, Text.quote, String.toList_ofList, Text.enquote]
    exact congrArg (fun cs ↦ String.ofList ('"' :: cs)) (unescape_escape_append path.toList ['"'])
  rw [libraryPath, if_pos (by simp [Text.quote]), hdecode, Text.unquote_enquote]

/-- A path that stands bare means itself unless it is taken for quoted text. -/
theorem libraryPath_eq_self_iff {path : String} (hclosed : EndsOutside path.toList) :
    libraryPath path = path ↔ (path.toList.head? = some '"' →
      path.toList.getLast? ≠ some '"' ∧ '\\' ∉ path.toList.dropLast) := by
  by_cases hhead : path.toList.head? = some '"'
  · obtain ⟨cs, hpath⟩ : ∃ cs, path.toList = '"' :: cs := by
      cases hlist : path.toList with
      | nil => simp [hlist] at hhead
      | cons c cs => exact ⟨cs, by simpa [hlist] using hhead⟩
    have hne : cs ≠ [] := by
      rintro rfl
      rw [hpath] at hclosed
      exact absurd hclosed (by decide)
    have hdecode : Text.unescape ('"' :: cs) = '"' :: Text.unescape cs := by
      rw [Text.unescape] <;> simp
    have hlast : ('"' :: cs).getLast? = cs.getLast? := List.getLast?_cons_of_ne_nil hne
    have hlength := unescape_sublist_length cs
    have hread : libraryPath path = if (Text.unescape cs).getLast? = some '"' then
        String.ofList (Text.unescape cs).dropLast
      else String.ofList ('"' :: Text.unescape cs) := by
      rw [libraryPath, if_pos hhead, Text.decodeEscapes, hpath, hdecode, Text.unquote,
        String.toList_ofList]
      rfl
    rw [hread, ← String.toList_inj, hpath, ← unescape_eq_self_iff, hdecode, hlast]
    simp only [List.head?_cons, true_implies, List.cons.injEq, true_and]
    split
    · next hquoted =>
      -- dropping the quotes makes the path shorter
      rw [String.toList_ofList]
      refine iff_of_false (fun h ↦ ?_) fun h ↦ h.1 (h.2 ▸ hquoted)
      have hdropped := congrArg List.length h
      simp only [List.length_dropLast, List.length_cons] at hdropped
      omega
    · next hquoted =>
      simp only [String.toList_ofList, List.cons.injEq, true_and]
      exact ⟨fun h ↦ ⟨h ▸ hquoted, h⟩, fun h ↦ h.2⟩
  · simp [libraryPath, hhead]

/-! ## Words -/

namespace Bytecode

/-- A text that is one word, and stays one in front of a gap. -/
def StandsAlone (w : String) : Prop :=
  ∀ rest, IsGap rest → wordsOf (w.toList ++ rest) = (wordsOf rest).map (w :: ·)

theorem IsWord.standsAlone {w : String} (h : IsWord w) : StandsAlone w := by
  intro rest hrest
  obtain ⟨c, cs, hcs, -⟩ := h.exists_cons
  rw [wordsOf_of_cutWord (by simp [hcs]) (h.cutWord_append hrest), String.ofList_toList]

theorem cutWord_of_wordsOf {c : Char} (hc : Text.isBlank c = false) {cs : List Char} {word : String}
    {words : List String} (h : wordsOf (c :: cs) = .ok (word :: words)) :
    ∃ rest, cutWord (c :: cs) = .ok (word.toList, rest) := by
  cases hcut : cutWord (c :: cs) with
  | error text =>
    rw [wordsOf] at h
    simp only [hc, Bool.false_eq_true, ↓reduceDIte] at h
    split at h
    · cases h
    · next heq =>
      rw [hcut] at heq
      cases heq
  | ok cut =>
    obtain ⟨text, rest⟩ := cut
    rw [wordsOf_of_cutWord (cutWord_ne_nil hc hcut) hcut] at h
    cases hwords : wordsOf rest with
    | error e =>
      rw [hwords] at h
      cases h
    | ok more =>
      rw [hwords] at h
      obtain ⟨rfl, -⟩ := List.cons.inj (Except.ok.inj h)
      exact ⟨rest, by rw [String.toList_ofList]⟩

/-- A text without blanks that is read as one word is not empty, and its quotes are closed. -/
theorem closed_of_wordsOf {w : String} (hblank : ∀ c ∈ w.toList, Text.isBlank c = false)
    (h : wordsOf (w.toList ++ ['\n']) = .ok [w]) : w ≠ "" ∧ EndsOutside w.toList := by
  cases hw : w.toList with
  | nil =>
    rw [hw, List.nil_append, wordsOf_cons_of_isBlank (by decide), wordsOf] at h
    cases h
  | cons c cs =>
    rw [hw] at h
    obtain ⟨rest, hcut⟩ := cutWord_of_wordsOf (hblank c (by simp [hw])) h
    rw [hw] at hcut
    have happend : c :: cs ++ rest = c :: cs ++ ['\n'] := cutWord_append hcut
    have hrest := List.append_cancel_left happend
    refine ⟨by simpa [← String.toList_eq_nil_iff] using hw ▸ List.cons_ne_nil c cs, ?_⟩
    exact (cutWord_after hcut).resolve_right (by simp [hrest])

/-- A text without blanks stands alone just if it is not empty and its quotes are closed. -/
theorem standsAlone_iff {w : String} (hblank : ∀ c ∈ w.toList, Text.isBlank c = false) :
    StandsAlone w ↔ w ≠ "" ∧ EndsOutside w.toList := by
  constructor
  · intro h
    refine closed_of_wordsOf hblank ((h ['\n'] (isGap_cons (by decide) [])).trans ?_)
    rw [wordsOf_cons_of_isBlank (by decide), wordsOf]
    rfl
  · rintro ⟨hne, hclosed⟩ rest hrest
    cases hcut : cutWord w.toList with
    | error text => exact absurd hclosed (not_endsOutside_of_cutWord_error hcut)
    | ok cut =>
      obtain ⟨text, tail⟩ := cut
      -- a word ends at a blank, and there is none
      have happend := cutWord_append hcut
      have htail : tail = [] := by
        cases htail : tail with
        | nil => rfl
        | cons c cs =>
          have hc : Text.isBlank c = true := cutWord_isGap hcut c (by simp [htail])
          rw [hblank c (by rw [← happend, htail]; simp)] at hc
          cases hc
      rw [htail, List.append_nil] at happend
      subst happend
      rw [wordsOf_of_cutWord (by simpa using hne) (cutWord_swap hcut hrest (.inl hclosed)),
        String.ofList_toList]

theorem wordsOf_intercalate {words : List String} (h : ∀ w ∈ words, IsWord w) (last : String)
    (rest : List Char) :
    wordsOf ((" ".intercalate (words ++ [last])).toList ++ rest) =
      (wordsOf (last.toList ++ rest)).map (words ++ ·) := by
  rw [String.toList_intercalate]
  induction words with
  | nil =>
    cases hwords : wordsOf (last.toList ++ rest) <;> simp [hwords, Except.map]
  | cons w words ih =>
    rw [List.forall_mem_cons] at h
    have hblank : Text.isBlank ' ' = true := by decide
    obtain ⟨v, vs, hvs⟩ := List.exists_cons_of_ne_nil (l := words ++ [last]) (by simp)
    have hih := ih h.2
    rw [hvs] at hih
    rw [List.cons_append, hvs, List.map_cons, List.map_cons, List.intercalate_cons_cons,
      ← List.map_cons, List.append_assoc, List.append_assoc]
    refine (h.1.standsAlone _ (isGap_cons hblank _)).trans ?_
    rw [wordsOf_cons_of_isBlank hblank]
    refine (congrArg _ hih).trans ?_
    cases wordsOf (last.toList ++ rest) <;> rfl

/-- The words of an instruction, the last of which need not be one, and what follows it. -/
theorem Line.wordsOf_eq {l : Line} {words : List String} {last : String}
    (hl : l.instruction.words = words ++ [last]) (h : ∀ w ∈ words, IsWord w) (rest : List Char) :
    wordsOf (l.text.toList ++ rest) = (wordsOf (last.toList ++ '\n' :: rest)).map (words ++ ·) := by
  rw [Line.text, String.toList_append, String.toList_append, String.toList_ofList,
    List.append_assoc, List.append_assoc, wordsOf_replicate_append, hl]
  exact wordsOf_intercalate h last ('\n' :: rest)

/-- Legible lines are read as they were written, or what follows them cannot be read. -/
theorem wordsOf_lines {ls : List Line} (h : ∀ l ∈ ls, l.instruction.Legible) (rest : List Char) :
    wordsOf ((textOf ls).toList ++ rest) =
      (wordsOf rest).map (ls.flatMap (·.instruction.words) ++ ·) := by
  induction ls with
  | nil => cases hwords : wordsOf rest <;> simp [textOf, hwords, Except.map]
  | cons l ls ih =>
    rw [List.forall_mem_cons] at h
    have hne : l.instruction.words ≠ [] := by
      cases hl : l.instruction <;> simp [Instruction.words, Instruction.code]
    have hl := (List.dropLast_concat_getLast hne).symm
    have hlast := h.1.isWord _ (List.getLast_mem hne)
    have hblank : Text.isBlank '\n' = true := by decide
    rw [textOf_cons, String.toList_append, List.append_assoc,
      Line.wordsOf_eq hl fun w hw ↦ h.1.isWord w (List.dropLast_subset _ hw),
      hlast.standsAlone _ (isGap_cons hblank _), wordsOf_cons_of_isBlank hblank, ih h.2]
    cases wordsOf rest with
    | error e => rfl
    | ok words =>
      simp only [Except.map, List.flatMap_cons]
      rw [← List.singleton_append, ← List.append_assoc, ← hl, List.append_assoc]

end Bytecode

/-! ## Reading a declaration -/

/-- A path arrives just if its operand is one word and means the path. -/
theorem arrives_iff {path : String} : Arrives path ↔
    StandsAlone (libraryOperand path) ∧ libraryPath (libraryOperand path) = path := by
  by_cases hblank : path.toList.any Text.isBlank = true
  · have hoperand : libraryOperand path = Text.quote path := if_pos hblank
    rw [hoperand]
    exact iff_of_true (.inl (by simpa using hblank))
      ⟨IsWord.standsAlone (.inr ⟨path, rfl⟩), libraryPath_quote path⟩
  · have hoperand : libraryOperand path = path := if_neg hblank
    have hnone : ∀ c ∈ path.toList, Text.isBlank c = false := by simpa using hblank
    have hsome : ¬∃ c ∈ path.toList, Text.isBlank c = true := by simpa using hnone
    rw [hoperand, Arrives, or_iff_right hsome, standsAlone_iff hnone, and_assoc]
    refine and_congr_right fun _ ↦ and_congr_right fun hclosed ↦ ?_
    exact (libraryPath_eq_self_iff hclosed).symm

/-- What stands before the instruction that declares a C function: its types and their number are
pushed. -/
def signatureLines (argTypes : List String) (returnType : String) : List Line :=
  argTypes.reverse.flatMap (unary .push) ++ unary .push returnType ++
    unary .push (toString argTypes.length)

theorem legible_signatureLines {argTypes : List String} {returnType : String}
    (hargs : ∀ w ∈ argTypes, IsName w) (hresult : IsName returnType) :
    ∀ l ∈ signatureLines argTypes returnType, l.instruction.Legible := by
  have hpush {w : String} (h : IsWord w) : ∀ l ∈ unary .push w, l.instruction.Legible := by
    intro l hl
    obtain rfl := List.mem_singleton.mp hl
    exact ⟨⟨by decide, rfl⟩, List.forall_mem_singleton.mpr h⟩
  unfold signatureLines
  simp only [List.forall_mem_append, List.mem_flatMap, List.mem_reverse]
  refine ⟨⟨?_, hpush hresult.isWord⟩, hpush (isWord_toString _)⟩
  rintro l ⟨w, hw, hl⟩
  exact hpush (hargs w hw).isWord l hl

section

variable {name path returnType : String} {argTypes : List String}

/-- The words of a declaration, however its lines are indented: all but the path are as they were
written. -/
theorem wordsOf_foreignLines (hname : IsName name) (hargs : ∀ w ∈ argTypes, IsName w)
    (hresult : IsName returnType) {ls : List Line} (hls : ls.map (·.instruction) =
      (foreignLines name path argTypes returnType).map (·.instruction)) (rest : List Char) :
    wordsOf ((textOf ls).toList ++ rest) =
      (wordsOf ((libraryOperand path).toList ++ '\n' :: rest)).map
        ((signatureLines argTypes returnType).flatMap (·.instruction.words) ++
          Opcode.define.mnemonic :: name :: ·) := by
  have hlines : foreignLines name path argTypes returnType =
      signatureLines argTypes returnType ++ [⟨0, .plain .define [name, libraryOperand path]⟩] := rfl
  rw [hlines, List.map_append] at hls
  obtain ⟨front, last, rfl, hfront, hlast⟩ := List.map_eq_append_iff.mp hls
  obtain ⟨l, rfl⟩ : ∃ l, last = [l] := by
    rw [← List.length_eq_one_iff, ← List.length_map (·.instruction), hlast]
    rfl
  have hl : l.instruction = .plain .define [name, libraryOperand path] := by simpa using hlast
  have hwords : l.instruction.words = [Opcode.define.mnemonic, name] ++ [libraryOperand path] := by
    rw [hl]
    rfl
  have hlegible : ∀ l ∈ front, l.instruction.Legible := by
    intro l hl
    have hmem : l.instruction ∈ front.map (·.instruction) := List.mem_map_of_mem hl
    rw [hfront] at hmem
    obtain ⟨l', hl', heq⟩ := List.mem_map.mp hmem
    exact heq ▸ legible_signatureLines hargs hresult l' hl'
  have hsame : front.flatMap (·.instruction.words) =
      (signatureLines argTypes returnType).flatMap (·.instruction.words) := by
    have h := congrArg (List.flatMap Instruction.words) hfront
    simpa [List.flatMap_map] using h
  have hpair : ∀ w ∈ [Opcode.define.mnemonic, name], IsWord w := by
    simpa using ⟨isWord_mnemonic .define, hname.isWord⟩
  have htext : textOf (front ++ [l]) = textOf front ++ l.text := by
    simp [textOf, String.join_append]
  rw [htext, String.toList_append, List.append_assoc, wordsOf_lines hlegible,
    Line.wordsOf_eq hwords hpair, hsame]
  cases wordsOf ((libraryOperand path).toList ++ '\n' :: rest) with
  | error e => rfl
  | ok words => simp [Except.map]

/-- A declaration is read back, from in front of whatever text, just if the operand for the path is
one word. -/
theorem decode_foreignLines_iff (hname : IsName name) (hargs : ∀ w ∈ argTypes, IsName w)
    (hresult : IsName returnType) :
    (∀ ls : List Line, ls.map (·.instruction) =
        (foreignLines name path argTypes returnType).map (·.instruction) →
      ∀ text code, decode text = .ok code → decode (textOf ls ++ text) =
        .ok (codeOf (foreignLines name path argTypes returnType) ++ code)) ↔
      StandsAlone (libraryOperand path) := by
  have hcode : codeOf (foreignLines name path argTypes returnType) =
      codeOf (signatureLines argTypes returnType) ++
        [.op .define, .operand name, .operand (libraryOperand path)] :=
    codeOf_append ..
  have hwordsOf (ls : List Line) : (codeOf ls).map Atom.word =
      ls.flatMap (·.instruction.words) := by
    simp [codeOf, List.map_flatMap, Instruction.words]
  constructor
  · intro h
    by_cases hblank : path.toList.any Text.isBlank = true
    · exact IsWord.standsAlone (.inr ⟨path, if_pos hblank⟩)
    · have hoperand : libraryOperand path = path := if_neg hblank
      have hnone : ∀ c ∈ (libraryOperand path).toList, Text.isBlank c = false := by
        rw [hoperand]
        simpa using hblank
      refine (standsAlone_iff hnone).mpr (closed_of_wordsOf hnone ?_)
      have hempty : decode "" = .ok [] := by cbv
      have hdecode := h _ rfl "" [] hempty
      rw [List.append_nil, String.append_empty, decode] at hdecode
      split at hdecode
      · cases hdecode
      · next words hsplit =>
        rw [← map_word_of_ofWords hdecode, split, ← List.append_nil (String.toList _),
          wordsOf_foreignLines hname hargs hresult rfl, hcode, List.map_append, hwordsOf] at hsplit
        cases hoperand : wordsOf ((libraryOperand path).toList ++ ['\n']) with
        | error e =>
          rw [hoperand] at hsplit
          cases hsplit
        | ok read =>
          rw [hoperand] at hsplit
          have hread := List.append_cancel_left (Except.ok.inj hsplit)
          rw [(List.cons.inj (List.cons.inj hread).2).2]
          rfl
  · intro h ls hls text code hdecode
    rw [decode] at hdecode
    split at hdecode
    · cases hdecode
    · next words hsplit =>
      have hblank : Text.isBlank '\n' = true := by decide
      have hsig := legible_signatureLines hargs hresult
      have hdefine : Instruction.IsComplete (.plain .define [name, libraryOperand path]) :=
        ⟨by decide, rfl⟩
      rw [split] at hsplit
      rw [decode, split, String.toList_append, wordsOf_foreignLines hname hargs hresult hls,
        h _ (isGap_cons hblank _), wordsOf_cons_of_isBlank hblank, hsplit, hcode, List.append_assoc]
      exact ofWords_lines_append hsig (Instruction.ofWords_append hdefine hdecode)

end

end GemLang
