import GemLang.Proofs.Bytecode.Continued

/-!
# What splitting drops

Splitting a text drops its blanks outside quotes and nothing else: put together again, the words are
the text without these (`split_unspaced`). So no word has a blank outside quotes, and what is inside
of them is in the words as it was.

A text is refused just if it ends inside quotes, other than right after a backslash. In that case
the character that the backslash escapes is missing and so is the closing quote, but the text is
accepted (`split_accepts_escaped_end`).
-/

namespace GemLang.Bytecode

/-! ## Blanks outside quotes -/

/-- A text without the blanks at which a reader that starts as `r` is outside quotes. -/
def Reader.unspaced : Reader → List Char → List Char
  | _, [] => []
  | r, c :: cs =>
    if r = .outside ∧ Text.isBlank c = true then (r.next c).unspaced cs
    else c :: (r.next c).unspaced cs

/-- A text that has no blank where a reader that starts as `r` is outside quotes. -/
def Reader.IsSolid (r : Reader) (cs : List Char) : Prop :=
  ∀ before c after, cs = before ++ c :: after → r.after before = .outside → Text.isBlank c = false

theorem Reader.unspaced_append (r : Reader) (cs ds : List Char) :
    r.unspaced (cs ++ ds) = r.unspaced cs ++ (r.after cs).unspaced ds := by
  induction cs generalizing r with
  | nil => rfl
  | cons c cs ih =>
    rw [List.cons_append, unspaced, unspaced, ih, after_cons]
    split
    · rfl
    · rfl

theorem Reader.unspaced_outside_of_isBlank {c : Char} (hc : Text.isBlank c = true)
    (cs : List Char) : Reader.outside.unspaced (c :: cs) = Reader.outside.unspaced cs := by
  rw [unspaced, if_pos ⟨rfl, hc⟩, next_outside (ne_quote_of_isBlank hc)]

theorem Reader.isSolid_nil (r : Reader) : r.IsSolid [] :=
  fun before c after h ↦ absurd h (by simp)

theorem Reader.isSolid_cons {r : Reader} {c : Char} {cs : List Char} :
    r.IsSolid (c :: cs) ↔ (r = .outside → Text.isBlank c = false) ∧ (r.next c).IsSolid cs := by
  constructor
  · intro h
    refine ⟨h [] c cs rfl, fun before d after hcs ↦ ?_⟩
    exact h (c :: before) d after (congrArg (c :: ·) hcs)
  · rintro ⟨hc, hcs⟩ before d after hsplit hbefore
    cases before with
    | nil =>
      obtain ⟨rfl, -⟩ := List.cons.inj hsplit
      exact hc hbefore
    | cons b before =>
      obtain ⟨rfl, hrest⟩ := List.cons.inj hsplit
      exact hcs before d after hrest hbefore

theorem Reader.isSolid_cons_of_ne {r : Reader} (hr : r ≠ .outside) {c : Char} {cs : List Char} :
    r.IsSolid (c :: cs) ↔ (r.next c).IsSolid cs := by
  rw [isSolid_cons, and_iff_right fun h ↦ absurd h hr]

theorem Reader.isSolid_append {r : Reader} {cs ds : List Char} :
    r.IsSolid (cs ++ ds) ↔ r.IsSolid cs ∧ (r.after cs).IsSolid ds := by
  induction cs generalizing r with
  | nil => simp [isSolid_nil]
  | cons c cs ih => rw [List.cons_append, isSolid_cons, isSolid_cons, ih, after_cons, and_assoc]

theorem Reader.IsSolid.unspaced_eq {r : Reader} {cs : List Char} (h : r.IsSolid cs) :
    r.unspaced cs = cs := by
  induction cs generalizing r with
  | nil => rfl
  | cons c cs ih =>
    obtain ⟨hc, hcs⟩ := isSolid_cons.mp h
    rw [unspaced, ih hcs, if_neg]
    rintro ⟨hr, hblank⟩
    rw [hc hr] at hblank
    cases hblank

/-! ## Words -/

theorem cutQuoted_isSolid {cs text rest : List Char} (h : cutQuoted cs = .ok (text, rest)) :
    Reader.inside.IsSolid text := by
  have hinside : Reader.inside ≠ .outside := by decide
  have hescaped : Reader.escaped ≠ .outside := by decide
  fun_induction cutQuoted cs generalizing text rest with
  | case1 => cases h
  | case2 =>
    cases h
    exact (Reader.isSolid_cons_of_ne hinside).mpr (Reader.isSolid_nil _)
  | case3 c cs text' rest' hcut ih =>
    cases h
    refine (Reader.isSolid_cons_of_ne hinside).mpr ?_
    exact (Reader.isSolid_cons_of_ne hescaped).mpr (ih hcut)
  | case4 => cases h
  | case5 cs =>
    cases h
    exact (Reader.isSolid_cons_of_ne hinside).mpr (Reader.isSolid_nil _)
  | case6 c cs hend hescape hquote text' rest' hcut ih =>
    cases h
    refine (Reader.isSolid_cons_of_ne hinside).mpr ?_
    rw [next_inside hquote (ne_backslash hend hescape)]
    exact ih hcut
  | case7 => cases h

theorem cutWord_isSolid {cs text rest : List Char} (h : cutWord cs = .ok (text, rest)) :
    Reader.outside.IsSolid text := by
  fun_induction cutWord cs generalizing text rest with
  | case1 =>
    cases h
    exact Reader.isSolid_nil _
  | case2 => cases h
  | case3 => cases h
  | case4 cs quoted rest' hquoted more rest'' hmore ih =>
    cases h
    rw [List.cons_append]
    refine Reader.isSolid_cons.mpr ⟨fun _ ↦ by decide, Reader.isSolid_append.mpr ?_⟩
    refine ⟨cutQuoted_isSolid hquoted, ?_⟩
    -- the stretch leads out of the quotes, or nothing comes after it
    rcases cutQuoted_after hquoted with hclosed | ⟨-, rfl⟩
    · change (Reader.inside.after quoted).IsSolid more
      rw [hclosed]
      exact ih hmore
    · rw [cutWord] at hmore
      cases hmore
      exact Reader.isSolid_nil _
  | case5 c cs hne hblank =>
    cases h
    exact Reader.isSolid_nil _
  | case6 => cases h
  | case7 c cs hne hblank more rest' hmore ih =>
    cases h
    refine Reader.isSolid_cons.mpr ⟨fun _ ↦ Bool.eq_false_iff.mpr hblank, ?_⟩
    rw [next_outside hne]
    exact ih hmore

/-- **The words of a text are solid, and together they are the text without its blanks outside
quotes.** -/
theorem wordsOf_unspaced {cs : List Char} {words : List String} (h : wordsOf cs = .ok words) :
    words.flatMap String.toList = Reader.outside.unspaced cs ∧
      ∀ w ∈ words, w ≠ "" ∧ Reader.outside.IsSolid w.toList := by
  fun_induction wordsOf cs generalizing words with
  | case1 =>
    cases h
    exact ⟨rfl, List.forall_mem_nil _⟩
  | case2 c cs hblank ih =>
    rw [Reader.unspaced_outside_of_isBlank hblank]
    exact ih h
  | case3 => cases h
  | case4 => cases h
  | case5 c cs hblank text rest hcut words' hrest ih =>
    cases h
    obtain ⟨hflat, hwords⟩ := ih hrest
    have hne := cutWord_ne_nil (Bool.eq_false_iff.mpr hblank) hcut
    have hsolid := cutWord_isSolid hcut
    constructor
    · rw [List.flatMap_cons, String.toList_ofList, hflat, ← cutWord_append hcut,
        Reader.unspaced_append, hsolid.unspaced_eq]
      -- after a word the reader is outside quotes again, unless the text is over
      rcases cutWord_after hcut with hclosed | ⟨-, rfl⟩
      · rw [hclosed]
      · rfl
    · refine List.forall_mem_cons.mpr ⟨⟨fun hempty ↦ hne ?_, ?_⟩, hwords⟩
      · exact String.ofList_eq_empty_iff.mp hempty
      · rwa [String.toList_ofList]

/-- **Splitting drops blanks outside quotes and nothing else.** It fails just if the text ends
inside quotes, and not right after a backslash. When it succeeds the words, which are not empty and
have no blank outside quotes, are the text without its blanks outside quotes when they are put
together. -/
theorem split_unspaced (text : String) :
    ((∃ e, split text = .error e) ↔ Reader.outside.after text.toList = .inside) ∧
      ∀ words, split text = .ok words →
        words.flatMap String.toList = Reader.outside.unspaced text.toList ∧
          ∀ w ∈ words, w ≠ "" ∧ Reader.outside.IsSolid w.toList := by
  refine ⟨?_, fun words h ↦ wordsOf_unspaced h⟩
  have hwords : (∃ words, split text = .ok words) ↔ _ := exists_wordsOf_iff text.toList
  cases hsplit : split text with
  | error e =>
    rw [hsplit] at hwords
    have hinside := not_not.mp fun hne ↦ nomatch hwords.mpr hne
    exact iff_of_true ⟨e, rfl⟩ hinside
  | ok words =>
    rw [hsplit] at hwords
    exact iff_of_false (fun ⟨_, h⟩ ↦ nomatch h) (hwords.mp ⟨words, rfl⟩)

/-- A word glued from bare and quoted text. -/
theorem split_unspaced_glued :
    split "  a\"b \\\" c\"d\n e" = .ok ["a\"b \\\" c\"d", "e"] ∧
      ["a\"b \\\" c\"d", "e"].flatMap String.toList =
        Reader.outside.unspaced "  a\"b \\\" c\"d\n e".toList ∧
      Reader.outside.IsSolid "a\"b \\\" c\"d".toList := by
  have h : split "  a\"b \\\" c\"d\n e" = .ok ["a\"b \\\" c\"d", "e"] := by
    with_unfolding_all rfl
  obtain ⟨hflat, hwords⟩ := (split_unspaced "  a\"b \\\" c\"d\n e").2 _ h
  exact ⟨h, hflat, (hwords _ List.mem_cons_self).2⟩

/-- A text is accepted that ends inside quotes, right after a backslash. -/
theorem split_accepts_escaped_end :
    ¬∀ text : String, (∃ e, split text = .error e) ↔ ¬EndsOutside text.toList := by
  intro h
  have hsplit : split "PUSH \"a\\" = .ok ["PUSH", "\"a\\"] := by with_unfolding_all rfl
  obtain ⟨e, he⟩ := (h "PUSH \"a\\").mpr (by decide)
  rw [hsplit] at he
  cases he

end GemLang.Bytecode
