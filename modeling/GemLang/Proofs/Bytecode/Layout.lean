import GemLang.Proofs.Bytecode.Legible

/-!
# Layout of bytecode text

How bytecode is spread over lines and blanks does not matter, as long as no quotes are touched. To
say so, a reader going through a text from left to right is followed with three states: outside
quotes, inside them, and just after a backslash inside them. Blanks part words where the reader is
outside.

A word keeps its text wherever it stands: cut out of one place and put in front of any other gap, it
is cut out again as it was (`cutWord_swap`). The exception is a word that ends in the middle of an
escape. It can only be the last one of a text, and nothing may be put after it, not even a blank.

From this come the two statements of this module: words printed with single blanks between them are
read back, and two texts that differ in their layout only have the same words.
-/

namespace GemLang.Bytecode

/-! ## Where a reader is -/

/-- Where a reader of bytecode text is. -/
inductive Reader where
  | outside
  | inside
  /-- Inside quotes, after a backslash. -/
  | escaped
  deriving DecidableEq

def Reader.next : Reader → Char → Reader
  | .outside, c => if c = '"' then .inside else .outside
  | .inside, c => if c = '"' then .outside else if c = '\\' then .escaped else .inside
  | .escaped, _ => .inside

def Reader.after (r : Reader) (cs : List Char) : Reader := cs.foldl Reader.next r

@[simp] theorem Reader.after_nil (r : Reader) : r.after [] = r := rfl

@[simp] theorem Reader.after_cons (r : Reader) (c : Char) (cs : List Char) :
    r.after (c :: cs) = (r.next c).after cs := rfl

theorem Reader.after_append (r : Reader) (cs ds : List Char) :
    r.after (cs ++ ds) = (r.after cs).after ds := by
  rw [Reader.after, List.foldl_append, ← Reader.after, ← Reader.after]

/-- A text that does not end inside quotes. -/
def EndsOutside (cs : List Char) : Prop := Reader.outside.after cs = .outside

instance (cs : List Char) : Decidable (EndsOutside cs) :=
  inferInstanceAs (Decidable (Reader.outside.after cs = .outside))

/-- A text that ends inside quotes, right after a backslash. -/
def EndsEscaped (cs : List Char) : Prop := Reader.outside.after cs = .escaped

instance (cs : List Char) : Decidable (EndsEscaped cs) :=
  inferInstanceAs (Decidable (Reader.outside.after cs = .escaped))

theorem next_outside {c : Char} (h : c ≠ '"') : Reader.outside.next c = .outside := by
  rw [Reader.next, if_neg h]

theorem next_inside {c : Char} (hquote : c ≠ '"') (hbackslash : c ≠ '\\') :
    Reader.inside.next c = .inside := by
  rw [Reader.next, if_neg hquote, if_neg hbackslash]

theorem after_escape (c : Char) (cs : List Char) :
    Reader.inside.after ('\\' :: c :: cs) = Reader.inside.after cs := rfl

theorem ne_quote_of_isBlank {c : Char} (h : Text.isBlank c = true) : c ≠ '"' := by
  rintro rfl
  exact absurd h (by decide)

/-! ## Quoted stretches -/

/-- A backslash that starts no escape is at the end of the text, so any other character stands for
itself. -/
theorem ne_backslash {c : Char} {cs : List Char} (hend : c = '\\' → cs = [] → False)
    (hescape : ∀ d ds, c = '\\' → cs = d :: ds → False) : c ≠ '\\' := by
  rintro rfl
  cases cs with
  | nil => exact hend rfl rfl
  | cons d ds => exact hescape d ds rfl rfl

/-- A quoted stretch leads out of the quotes, or to the end of the text in the middle of an
escape. -/
theorem cutQuoted_after {cs text rest : List Char} (h : cutQuoted cs = .ok (text, rest)) :
    Reader.inside.after text = .outside ∨ (Reader.inside.after text = .escaped ∧ rest = []) := by
  fun_induction cutQuoted cs generalizing text rest with
  | case1 => cases h
  | case2 =>
    cases h
    exact .inr ⟨rfl, rfl⟩
  | case3 c cs text' rest' hcut ih =>
    cases h
    rw [after_escape]
    exact ih hcut
  | case4 => cases h
  | case5 cs =>
    cases h
    exact .inl rfl
  | case6 c cs hend hescape hquote text' rest' hcut ih =>
    cases h
    rw [Reader.after_cons, next_inside hquote (ne_backslash hend hescape)]
    exact ih hcut
  | case7 => cases h

theorem after_of_cutQuoted_error {cs text : List Char} (h : cutQuoted cs = .error text) :
    Reader.inside.after cs = .inside := by
  fun_induction cutQuoted cs generalizing text with
  | case1 => rfl
  | case2 => cases h
  | case3 => cases h
  | case4 c cs text' hcut ih =>
    rw [after_escape]
    exact ih hcut
  | case5 => cases h
  | case6 => cases h
  | case7 c cs hend hescape hquote text' hcut ih =>
    rw [Reader.after_cons, next_inside hquote (ne_backslash hend hescape)]
    exact ih hcut

/-- A quoted stretch is cut out again from in front of anything else. -/
theorem cutQuoted_swap {cs text rest : List Char} (h : cutQuoted cs = .ok (text, rest))
    {more : List Char} (hmore : Reader.inside.after text = .outside ∨ more = []) :
    cutQuoted (text ++ more) = .ok (text, more) := by
  fun_induction cutQuoted cs generalizing text rest with
  | case1 => cases h
  | case2 =>
    cases h
    obtain rfl : more = [] := hmore.resolve_left (by decide)
    rfl
  | case3 c cs text' rest' hcut ih =>
    cases h
    rw [after_escape] at hmore
    rw [List.cons_append, List.cons_append, cutQuoted, ih hcut hmore]
  | case4 => cases h
  | case5 cs =>
    cases h
    rfl
  | case6 c cs hend hescape hquote text' rest' hcut ih =>
    cases h
    have hbackslash := ne_backslash hend hescape
    rw [Reader.after_cons, next_inside hquote hbackslash] at hmore
    rw [List.cons_append, cutQuoted, ih hcut hmore]
    · exact fun hc _ ↦ hbackslash hc
    · exact fun _ _ hc _ ↦ hbackslash hc
    · exact hquote
  | case7 => cases h

/-! ## Words -/

theorem cutWord_isGap {cs text rest : List Char} (h : cutWord cs = .ok (text, rest)) :
    IsGap rest := by
  fun_induction cutWord cs generalizing text rest with
  | case1 =>
    cases h
    exact isGap_nil
  | case2 => cases h
  | case3 => cases h
  | case4 cs quoted rest' hquoted more rest'' hmore ih =>
    cases h
    exact ih hmore
  | case5 c cs hne hblank =>
    cases h
    exact isGap_cons hblank cs
  | case6 => cases h
  | case7 c cs hne hblank more rest' hmore ih =>
    cases h
    exact ih hmore

/-- A word leads out of all its quotes, or to the end of the text in the middle of an escape. -/
theorem cutWord_after {cs text rest : List Char} (h : cutWord cs = .ok (text, rest)) :
    EndsOutside text ∨ (EndsEscaped text ∧ rest = []) := by
  fun_induction cutWord cs generalizing text rest with
  | case1 =>
    cases h
    exact .inl rfl
  | case2 => cases h
  | case3 => cases h
  | case4 cs quoted rest' hquoted more rest'' hmore ih =>
    cases h
    have hopened : Reader.outside.after ('"' :: quoted ++ more) =
        (Reader.inside.after quoted).after more := Reader.after_append ..
    rw [EndsOutside, EndsEscaped, hopened]
    rcases cutQuoted_after hquoted with houtside | ⟨hescaped, rfl⟩
    · rw [houtside]
      exact ih hmore
    · rw [cutWord] at hmore
      cases hmore
      exact .inr ⟨hescaped, rfl⟩
  | case5 c cs hne hblank =>
    cases h
    exact .inl rfl
  | case6 => cases h
  | case7 c cs hne hblank more rest' hmore ih =>
    cases h
    rw [EndsOutside, EndsEscaped, Reader.after_cons, next_outside hne]
    exact ih hmore

theorem after_of_cutWord_error {cs text : List Char} (h : cutWord cs = .error text) :
    Reader.outside.after cs = .inside := by
  fun_induction cutWord cs generalizing text with
  | case1 => cases h
  | case2 cs quoted hquoted => exact after_of_cutQuoted_error hquoted
  | case3 cs quoted rest hquoted more hmore ih =>
    change Reader.inside.after cs = .inside
    rw [← cutQuoted_append hquoted, Reader.after_append]
    rcases cutQuoted_after hquoted with hclosed | ⟨-, rfl⟩
    · rw [hclosed]
      exact ih hmore
    · rw [cutWord] at hmore
      cases hmore
  | case4 => cases h
  | case5 => cases h
  | case6 c cs hne hblank more hmore ih =>
    rw [Reader.after_cons, next_outside hne]
    exact ih hmore
  | case7 => cases h

theorem not_endsOutside_of_cutWord_error {cs text : List Char} (h : cutWord cs = .error text) :
    ¬EndsOutside cs := by
  intro houtside
  rw [EndsOutside, after_of_cutWord_error h] at houtside
  cases houtside

theorem cutWord_quote {cs quoted tail word rest : List Char}
    (hquoted : cutQuoted cs = .ok (quoted, tail)) (hword : cutWord tail = .ok (word, rest)) :
    cutWord ('"' :: cs) = .ok ('"' :: quoted ++ word, rest) := by
  rw [cutWord]
  split
  · next heq =>
    rw [hquoted] at heq
    cases heq
  · next heq =>
    rw [hquoted] at heq
    cases heq
    rw [hword]

/-- **A word is cut out again from in front of any gap.** A word that ends in the middle of an
escape only from the end of a text. -/
theorem cutWord_swap {cs text rest : List Char} (h : cutWord cs = .ok (text, rest))
    {more : List Char} (hgap : IsGap more) (hmore : EndsOutside text ∨ more = []) :
    cutWord (text ++ more) = .ok (text, more) := by
  fun_induction cutWord cs generalizing text rest with
  | case1 =>
    cases h
    exact cutWord_of_isGap hgap
  | case2 => cases h
  | case3 => cases h
  | case4 cs quoted rest' hquoted more' rest'' hmore' ih =>
    cases h
    have hstart : EndsOutside ('"' :: quoted ++ more') ↔
        (Reader.inside.after quoted).after more' = .outside := by
      rw [← Reader.after_append]
      rfl
    rw [hstart] at hmore
    rw [List.append_assoc, List.cons_append]
    rcases cutQuoted_after hquoted with hclosed | ⟨hopen, rfl⟩
    · rw [hclosed] at hmore
      exact cutWord_quote (cutQuoted_swap hquoted (.inl hclosed)) (ih hmore' hmore)
    · rw [cutWord] at hmore'
      cases hmore'
      obtain rfl : more = [] := hmore.resolve_left (by rw [hopen]; decide)
      exact cutWord_quote (cutQuoted_swap hquoted (.inr rfl)) (cutWord_of_isGap isGap_nil)
  | case5 c cs hne hblank =>
    cases h
    exact cutWord_of_isGap hgap
  | case6 => cases h
  | case7 c cs hne hblank more' rest' hmore' ih =>
    cases h
    rw [EndsOutside, Reader.after_cons, next_outside hne] at hmore
    rw [List.cons_append, cutWord, if_neg hblank, ih hmore' hmore]
    exact hne

/-! ## Texts -/

theorem IsGap.append {cs ds : List Char} (hcs : IsGap cs) (hds : IsGap ds) : IsGap (cs ++ ds) := by
  cases cs with
  | nil => exact hds
  | cons c cs => exact hcs

/-- The words of a text are its first word and those of the rest. -/
theorem wordsOf_of_cutWord {cs text rest : List Char} (hne : text ≠ [])
    (h : cutWord cs = .ok (text, rest)) :
    wordsOf cs = (wordsOf rest).map (String.ofList text :: ·) := by
  cases cs with
  | nil =>
    rw [cutWord] at h
    cases h
    exact absurd rfl hne
  | cons c cs =>
    by_cases hblank : Text.isBlank c = true
    · rw [cutWord_of_isGap (isGap_cons hblank cs)] at h
      cases h
      exact absurd rfl hne
    · rw [wordsOf, dif_neg hblank]
      split
      · next heq =>
        rw [h] at heq
        cases heq
      · next heq =>
        rw [h] at heq
        cases heq
        cases wordsOf rest <;> rfl

theorem endsOutside_of_cutWord {cs text rest : List Char} (h : cutWord cs = .ok (text, rest))
    (hcs : EndsOutside cs) : EndsOutside rest := by
  rcases cutWord_after h with htext | ⟨-, rfl⟩
  · rw [EndsOutside, ← cutWord_append h, Reader.after_append, htext] at hcs
    exact hcs
  · rfl

/-- **The words of a text up to a gap do not depend on what follows**, and the words that follow do
not depend on what comes before. -/
theorem wordsOf_append {cs ds : List Char} (hcs : EndsOutside cs) (hds : IsGap ds) :
    ∃ words, wordsOf cs = .ok words ∧ wordsOf (cs ++ ds) = (wordsOf ds).map (words ++ ·) := by
  fun_induction wordsOf cs with
  | case1 =>
    refine ⟨[], rfl, ?_⟩
    cases hwords : wordsOf ds <;> simp [hwords, Except.map]
  | case2 c cs hblank ih =>
    rw [EndsOutside, Reader.after_cons, next_outside (ne_quote_of_isBlank hblank)] at hcs
    rw [List.cons_append, wordsOf_cons_of_isBlank hblank]
    exact ih hcs
  | case3 c cs hblank text hcut => exact absurd hcs (not_endsOutside_of_cutWord_error hcut)
  | case4 c cs hblank text rest hcut e hrest ih =>
    obtain ⟨words, hwords, -⟩ := ih (endsOutside_of_cutWord hcut hcs)
    rw [hrest] at hwords
    cases hwords
  | case5 c cs hblank text rest hcut words hrest ih =>
    obtain ⟨words', hwords, happend⟩ := ih (endsOutside_of_cutWord hcut hcs)
    rw [hrest] at hwords
    cases hwords
    have hne := cutWord_ne_nil (Bool.eq_false_iff.mpr hblank) hcut
    have hopen : EndsOutside text ∨ rest ++ ds = [] := by
      rcases cutWord_after hcut with htext | ⟨-, rfl⟩
      · exact .inl htext
      · rw [← cutWord_append hcut, List.append_nil] at hcs
        exact .inl hcs
    have hcut' := cutWord_swap hcut ((cutWord_isGap hcut).append hds) hopen
    rw [← List.append_assoc, cutWord_append hcut] at hcut'
    refine ⟨String.ofList text :: words, rfl, ?_⟩
    rw [wordsOf_of_cutWord hne hcut', happend]
    cases wordsOf ds <;> rfl

/-! ## Printing -/

/-- Words parted by single blanks. -/
def spaced (words : List String) : String := " ".intercalate words

theorem toList_spaced_singleton (w : String) : (spaced [w]).toList = w.toList := by
  rw [spaced, String.intercalate_singleton]

theorem toList_spaced_cons (w v : String) (words : List String) :
    (spaced (w :: v :: words)).toList = w.toList ++ ' ' :: (spaced (v :: words)).toList := by
  rw [spaced, spaced, String.toList_intercalate, String.toList_intercalate, List.map_cons,
    List.map_cons, List.intercalate_cons_cons, List.append_assoc]
  rfl

/-- Words that were read are read again when they are printed. -/
theorem wordsOf_spaced {cs : List Char} {words : List String} (h : wordsOf cs = .ok words) :
    wordsOf (spaced words).toList = .ok words := by
  fun_induction wordsOf cs generalizing words with
  | case1 =>
    cases h
    rw [spaced, String.intercalate_nil, String.toList_empty, wordsOf]
  | case2 c cs hblank ih => exact ih h
  | case3 => cases h
  | case4 => cases h
  | case5 c cs hblank text rest hcut words' hrest ih =>
    cases h
    have hne := cutWord_ne_nil (Bool.eq_false_iff.mpr hblank) hcut
    cases words' with
    | nil =>
      have hcut' := cutWord_swap hcut isGap_nil (.inr rfl)
      rw [List.append_nil] at hcut'
      rw [toList_spaced_singleton, String.toList_ofList, wordsOf_of_cutWord hne hcut', wordsOf]
      rfl
    | cons w words' =>
      -- another word follows, so this one does not end the text
      have hblank' : Text.isBlank ' ' = true := by decide
      have hclosed : EndsOutside text := by
        refine (cutWord_after hcut).resolve_right ?_
        rintro ⟨-, rfl⟩
        rw [wordsOf] at hrest
        cases hrest
      have hcut' := cutWord_swap hcut (isGap_cons hblank' (spaced (w :: words')).toList)
        (.inl hclosed)
      rw [toList_spaced_cons, String.toList_ofList, wordsOf_of_cutWord hne hcut',
        wordsOf_cons_of_isBlank hblank', ih hrest]
      rfl

/-! ## Code -/

theorem mnemonic_of_ofWord? {word : String} {op : Opcode} (h : Opcode.ofWord? word = some op) :
    op.mnemonic = word := by
  have hfound := List.find?_some h
  exact beq_iff_eq.mp hfound

theorem takeOperands_words {op : Opcode} {count : Nat} {words rest : List String} {code : Code}
    (h : takeOperands op count words = .ok (code, rest)) : code.map Atom.word ++ rest = words := by
  fun_induction takeOperands op count words generalizing code rest with
  | case1 =>
    cases h
    rfl
  | case2 => cases h
  | case3 => cases h
  | case4 count word words code' rest' hcut ih =>
    cases h
    rw [List.map_cons, List.cons_append, ih hcut, Atom.word]

theorem takeParams_words {words rest : List String} {code : Code}
    (h : takeParams words = .ok (code, rest)) : code.map Atom.word ++ rest = words := by
  fun_induction takeParams words generalizing code rest with
  | case1 => cases h
  | case2 words =>
    cases h
    rfl
  | case3 => cases h
  | case4 word words hne code' rest' hcut ih =>
    cases h
    rw [List.map_cons, List.cons_append, ih hcut, Atom.word]

theorem takeOperandsOf_words {op : Opcode} {words rest : List String} {code : Code}
    (h : takeOperandsOf op words = .ok (code, rest)) : code.map Atom.word ++ rest = words := by
  unfold takeOperandsOf at h
  split at h
  · split at h
    · cases h
    · next name words =>
      split at h
      · cases h
      · next hparams =>
        cases h
        rw [List.map_cons, List.cons_append, takeParams_words hparams, Atom.word]
  · exact takeOperands_words h

theorem map_word_of_ofWords {words : List String} {code : Code} (h : ofWords words = .ok code) :
    code.map Atom.word = words := by
  fun_induction ofWords words generalizing code with
  | case1 =>
    cases h
    rfl
  | case2 => cases h
  | case3 => cases h
  | case4 => cases h
  | case5 word words op hop operands rest htake code' hcode ih =>
    cases h
    rw [List.map_append, List.map_cons, ih hcode, List.cons_append, takeOperandsOf_words htake,
      Atom.word, mnemonic_of_ofWord? hop]

/-! ## Layout -/

/-- One text is laid out from another by one change of blanks outside quotes: between two words, at
the start or at the end. -/
inductive Relaid : List Char → List Char → Prop where
  | between {cs gap gap' ds : List Char} (hcs : EndsOutside cs)
      (hgap : ∀ c ∈ gap, Text.isBlank c = true) (hne : gap ≠ [])
      (hgap' : ∀ c ∈ gap', Text.isBlank c = true) (hne' : gap' ≠ []) :
      Relaid (cs ++ gap ++ ds) (cs ++ gap' ++ ds)
  | front {gap ds : List Char} (hgap : ∀ c ∈ gap, Text.isBlank c = true) : Relaid (gap ++ ds) ds
  | back {cs gap : List Char} (hcs : EndsOutside cs) (hgap : ∀ c ∈ gap, Text.isBlank c = true) :
      Relaid (cs ++ gap) cs

theorem wordsOf_blanks_append {gap : List Char} (h : ∀ c ∈ gap, Text.isBlank c = true)
    (cs : List Char) : wordsOf (gap ++ cs) = wordsOf cs := by
  induction gap with
  | nil => rfl
  | cons c gap ih =>
    rw [List.forall_mem_cons] at h
    rw [List.cons_append, wordsOf_cons_of_isBlank h.1, ih h.2]

theorem isGap_append_of_blanks {gap : List Char} (h : ∀ c ∈ gap, Text.isBlank c = true)
    (hne : gap ≠ []) (cs : List Char) : IsGap (gap ++ cs) := by
  obtain ⟨c, gap, rfl⟩ := List.exists_cons_of_ne_nil hne
  exact isGap_cons (h c List.mem_cons_self) _

theorem Relaid.wordsOf_eq {cs ds : List Char} (h : Relaid cs ds) : wordsOf cs = wordsOf ds := by
  cases h with
  | @between cs gap gap' ds hcs hgap hne hgap' hne' =>
    obtain ⟨words, hwords, happend⟩ := wordsOf_append hcs (isGap_append_of_blanks hgap hne ds)
    obtain ⟨words', hwords', happend'⟩ :=
      wordsOf_append hcs (isGap_append_of_blanks hgap' hne' ds)
    rw [hwords] at hwords'
    cases hwords'
    rw [List.append_assoc, List.append_assoc, happend, happend', wordsOf_blanks_append hgap,
      wordsOf_blanks_append hgap']
  | front hgap => exact wordsOf_blanks_append hgap _
  | @back _ gap hcs hgap =>
    have hgap' : IsGap gap := fun c hc ↦ hgap c (List.mem_of_mem_head? hc)
    obtain ⟨words, hwords, happend⟩ := wordsOf_append hcs hgap'
    have hnil := wordsOf_blanks_append hgap []
    rw [List.append_nil, wordsOf] at hnil
    rw [happend, hwords, hnil]
    exact congrArg Except.ok (List.append_nil words)

/-- Two texts that differ in their layout only: one comes from the other by changes of blanks
outside quotes. -/
def SameButLayout (s t : String) : Prop := Relation.EqvGen Relaid s.toList t.toList

theorem wordsOf_eq_of_eqvGen {cs ds : List Char} (h : Relation.EqvGen Relaid cs ds) :
    wordsOf cs = wordsOf ds := by
  induction h with
  | rel cs ds h => exact h.wordsOf_eq
  | refl cs => rfl
  | symm cs ds _ ih => exact ih.symm
  | trans cs ds es _ _ ih ih' => exact ih.trans ih'

/-- **Bytecode text is read the same however it is laid out.** The words of a text are read again
when they are printed with single blanks between them, the code of a text likewise, and any other
layout of the text has the same words and the same code. -/
theorem split_spaced {text : String} {words : List String} (h : split text = .ok words) :
    split (spaced words) = .ok words ∧
      (∀ code, decode text = .ok code → decode (spaced (code.map Atom.word)) = .ok code) ∧
      ∀ other, SameButLayout text other → split other = .ok words ∧ decode other = decode text := by
  have hspaced : split (spaced words) = .ok words := wordsOf_spaced h
  refine ⟨hspaced, fun code hcode ↦ ?_, fun other hother ↦ ?_⟩
  · rw [decode, h] at hcode
    rw [map_word_of_ofWords hcode, decode, hspaced]
    exact hcode
  · have hsplit : split text = split other := wordsOf_eq_of_eqvGen hother
    refine ⟨hsplit.symm.trans h, ?_⟩
    rw [decode, decode, hsplit]

/-- A word glued from several parts, and a last one that ends in the middle of an escape. -/
theorem split_spaced_glued :
    split "PUSH a\"b \\\" c\"d\n\tPUSH \"e\\" = .ok ["PUSH", "a\"b \\\" c\"d", "PUSH", "\"e\\"] ∧
      split "PUSH a\"b \\\" c\"d PUSH \"e\\" = .ok ["PUSH", "a\"b \\\" c\"d", "PUSH", "\"e\\"] := by
  have h : split "PUSH a\"b \\\" c\"d\n\tPUSH \"e\\" =
      .ok ["PUSH", "a\"b \\\" c\"d", "PUSH", "\"e\\"] := by with_unfolding_all rfl
  exact ⟨h, (split_spaced h).1⟩

end GemLang.Bytecode
