import GemLang.Error
import Mathlib

/-!
# Lines of a text

A text is shown line by line, with a pointer below the line. Lines are cut at line breaks, and a
carriage return in front of a line break goes with it. What a pointer means is told by offsets in
the text: with so many characters of its line before it, it is under the character that stands at
that place of the whole text, or past the end of the line (`PointsAt`).

The cutting keeps the line so far in reverse. So its statements are on what is left of a text, with
a line begun.
-/

namespace GemLang

/-- What comes after a line that ends: nothing, or a line break. A carriage return belongs to the
line break behind it. -/
def EndsLine (line after : List Char) : Prop :=
  after = [] ∨ ['\r', '\n'] <+: after ∨ (['\n'] <+: after ∧ line.getLast? ≠ some '\r')

/-- A line of a text with its number, the lines in front of it being `before`. -/
structure IsLine (text : List Char) (number : Nat) (before line : List Char) : Prop where
  starts : before = [] ∨ before.getLast? = some '\n'
  number : number = before.count '\n' + 1
  unbroken : '\n' ∉ line
  ends : ∃ after, text = before ++ (line ++ after) ∧ EndsLine line after

/-- A pointer that is indented by `indent` below a line of a text, the one with the given number, is
under the character at an offset of the text. Where no character stands at that offset it is just
past the end of the line. -/
structure PointsAt (text : List Char) (offset number indent : Nat) (shown : List Char) : Prop where
  isLine : ∃ before, IsLine text number before shown ∧ offset = before.length + indent
  le_length : indent ≤ shown.length
  under : shown[indent]? = text[offset]?

namespace sourceLines

section

variable (line cs : List Char)

/-- A line with a carriage return last ends before it. -/
theorem go_return :
    sourceLines.go ('\r' :: line) ('\n' :: cs) = line.reverse :: sourceLines cs := rfl

theorem go_newline (h : line.head? ≠ some '\r') :
    sourceLines.go line ('\n' :: cs) = line.reverse :: sourceLines cs := by
  rw [sourceLines.go]
  · rfl
  · rintro shorter rfl
    exact h rfl

theorem exists_go_newline :
    ∃ first, sourceLines.go line ('\n' :: cs) = first :: sourceLines cs := ⟨_, rfl⟩

theorem go_cons {c : Char} (hc : c ≠ '\n') :
    sourceLines.go line (c :: cs) = sourceLines.go (c :: line) cs := by
  rw [sourceLines.go]
  exact hc

end

/-- The first line of what is left of a text, where `line` is begun. -/
theorem exists_head?_go {line : List Char} (hline : '\n' ∉ line) (cs : List Char) :
    ∃ first after, (sourceLines.go line cs).head?.getD [] = first ∧
      line.reverse ++ cs = first ++ after ∧ '\n' ∉ first ∧ EndsLine first after := by
  induction cs generalizing line with
  | nil =>
    refine ⟨line.reverse, [], ?_, rfl, by simpa using hline, .inl rfl⟩
    cases line <;> rfl
  | cons c cs ih =>
    by_cases hc : c = '\n'
    · subst hc
      by_cases hreturn : line.head? = some '\r'
      · obtain ⟨shorter, rfl⟩ := List.head?_eq_some_iff.mp hreturn
        rw [go_return]
        refine ⟨shorter.reverse, '\r' :: '\n' :: cs, rfl, by simp, ?_, .inr (.inl ⟨cs, rfl⟩)⟩
        simpa using fun h ↦ hline (List.mem_cons_of_mem _ h)
      · rw [go_newline line cs hreturn]
        have hunbroken : '\n' ∉ line.reverse := by simpa using hline
        refine ⟨line.reverse, '\n' :: cs, rfl, rfl, hunbroken, .inr (.inr ⟨⟨cs, rfl⟩, ?_⟩)⟩
        rwa [List.getLast?_reverse]
    · have hline' : '\n' ∉ c :: line := by simpa [Ne.symm hc] using hline
      obtain ⟨first, after, hfirst, hsplit, hends⟩ := ih hline'
      rw [go_cons line cs hc]
      exact ⟨first, after, hfirst, by simpa using hsplit, hends⟩

/-- The lines behind a line break do not depend on what comes before it. -/
theorem getElem?_go_append (line before rest : List Char) :
    (sourceLines.go line (before ++ '\n' :: rest))[before.count '\n' + 1]? =
      (sourceLines rest)[0]? := by
  induction before generalizing line with
  | nil =>
    obtain ⟨first, hfirst⟩ := exists_go_newline line rest
    rw [List.nil_append, hfirst, List.count_nil, List.getElem?_cons_succ]
  | cons c before ih =>
    rw [List.cons_append]
    by_cases hc : c = '\n'
    · subst hc
      obtain ⟨first, hfirst⟩ := exists_go_newline line (before ++ '\n' :: rest)
      rw [hfirst, List.count_cons_self, List.getElem?_cons_succ]
      exact ih []
    · rw [go_cons line _ hc, List.count_cons_of_ne hc]
      exact ih (c :: line)

end sourceLines

/-- **The lines that are cut are the lines of the text.** -/
theorem isLine_sourceLines {before : List Char}
    (hbefore : before = [] ∨ before.getLast? = some '\n') (rest : List Char) :
    IsLine (before ++ rest) (before.count '\n' + 1) before
      ((sourceLines (before ++ rest))[before.count '\n']?.getD []) := by
  have hfirst : (sourceLines (before ++ rest))[before.count '\n']? = (sourceLines rest).head? := by
    rcases hbefore with rfl | hbreak
    · rw [List.head?_eq_getElem?]
      rfl
    · obtain ⟨before, rfl⟩ := List.getLast?_eq_some_iff.mp hbreak
      rw [List.append_assoc, List.count_append, List.singleton_append, List.head?_eq_getElem?]
      exact sourceLines.getElem?_go_append [] before rest
  obtain ⟨first, after, hline, hsplit, hunbroken, hends⟩ :=
    sourceLines.exists_head?_go List.not_mem_nil rest
  have hshown : (sourceLines rest).head?.getD [] = first := hline
  rw [hfirst, hshown]
  exact ⟨hbefore, rfl, hunbroken, after, congrArg (before ++ ·) hsplit, hends⟩

/-- A text up to some place is whole lines and the start of one. -/
theorem exists_lineStart (cs : List Char) : ∃ before start, cs = before ++ start ∧
    (before = [] ∨ before.getLast? = some '\n') ∧ '\n' ∉ start ∧
      before.count '\n' = cs.count '\n' ∧
        start.length = (cs.reverse.takeWhile (· != '\n')).length := by
  induction cs using List.reverseRecOn with
  | nil => exact ⟨[], [], rfl, .inl rfl, List.not_mem_nil, rfl, rfl⟩
  | append_singleton cs c ih =>
    by_cases hc : c = '\n'
    · subst hc
      exact ⟨cs ++ ['\n'], [], by simp, .inr (by simp), List.not_mem_nil, rfl, by simp⟩
    · obtain ⟨before, start, rfl, hbefore, hstart, hcount, hlength⟩ := ih
      refine ⟨before, start ++ [c], by simp, hbefore, by simp [hstart, Ne.symm hc], ?_, ?_⟩
      · rw [List.count_append, ← hcount, List.count_singleton]
        simp [hc]
      · rw [List.reverse_concat, List.takeWhile_cons_of_pos (by simpa using hc)]
        simpa using hlength

/-- A line does not end before a character that is no part of a line break, if there is no line
break before that character. -/
theorem length_lt_of_endsLine {start line after rest : List Char} {c : Char}
    (hsplit : start ++ c :: rest = line ++ after) (hends : EndsLine line after)
    (hstart : '\n' ∉ start) (hnewline : c ≠ '\n') (hreturn : c ≠ '\r') :
    start.length < line.length := by
  by_contra hle
  -- otherwise what comes after the line starts with the rest of `start` and the character
  obtain ⟨more, rfl, rfl⟩ : ∃ more, start = line ++ more ∧ after = more ++ c :: rest := by
    obtain ⟨more, rfl, hafter⟩ | ⟨more, hstart, hafter⟩ := List.append_eq_append_iff.mp hsplit
    · obtain rfl : more = [] := by
        rw [List.length_append] at hle
        exact List.length_eq_zero_iff.mp (by omega)
      exact ⟨[], by simp, by simpa using hafter.symm⟩
    · exact ⟨more, hstart, hafter⟩
  have hmore : '\n' ∉ more := fun h ↦ hstart (List.mem_append_right _ h)
  rcases hends with hnil | hboth | ⟨hbreak, -⟩
  · simp at hnil
  · match more with
    | [] => exact hreturn (List.cons_prefix_cons.mp hboth).1.symm
    | [d] => exact hnewline (List.cons_prefix_cons.mp (List.cons_prefix_cons.mp hboth).2).1.symm
    | d :: d' :: more =>
      have hd := (List.cons_prefix_cons.mp (List.cons_prefix_cons.mp hboth).2).1
      exact hmore (hd ▸ List.mem_cons_of_mem _ List.mem_cons_self)
  · match more with
    | [] => exact hnewline (List.cons_prefix_cons.mp hbreak).1.symm
    | d :: more => exact hmore ((List.cons_prefix_cons.mp hbreak).1 ▸ List.mem_cons_self)

theorem eq_of_endsLine {start line after : List Char} (hsplit : start = line ++ after)
    (hends : EndsLine line after) (hstart : '\n' ∉ start) : start = line := by
  subst hsplit
  have hafter : '\n' ∉ after := fun h ↦ hstart (List.mem_append_right _ h)
  rcases hends with rfl | hboth | ⟨hbreak, -⟩
  · exact List.append_nil line
  · exact absurd (hboth.subset (by simp)) hafter
  · exact absurd (hbreak.subset (by simp)) hafter

/-- **A pointer is where it should be**: with the number of the line of an offset, and the number of
characters of that line before the offset, the pointer is under the character at the offset. No line
break may stand there. -/
theorem pointsAt_sourceLines {text : List Char} {offset : Nat} (hoffset : offset ≤ text.length)
    (hchar : ∀ c ∈ text[offset]?, c ≠ '\n' ∧ c ≠ '\r') :
    PointsAt text offset ((text.take offset).count '\n' + 1)
      ((text.take offset).reverse.takeWhile (· != '\n')).length
      ((sourceLines text)[(text.take offset).count '\n']?.getD []) := by
  obtain ⟨before, start, htake, hbefore, hstart, hcount, hlength⟩ :=
    exists_lineStart (text.take offset)
  have htext : text = before ++ (start ++ text.drop offset) := by
    rw [← List.append_assoc, ← htake, List.take_append_drop]
  have hline := isLine_sourceLines hbefore (start ++ text.drop offset)
  rw [← htext, hcount] at hline
  rw [← hlength]
  generalize hshown : (sourceLines text)[(text.take offset).count '\n']?.getD [] = shown at hline ⊢
  have hplace : offset = before.length + start.length := by
    rw [← List.length_append, ← htake, List.length_take, Nat.min_eq_left hoffset]
  obtain ⟨after, hafter, hends⟩ := hline.ends
  have hsplit : start ++ text.drop offset = shown ++ after :=
    List.append_cancel_left (htext.symm.trans hafter)
  cases hdrop : text.drop offset with
  | nil =>
    rw [hdrop, List.append_nil] at hsplit
    have hend : text[offset]? = none := by
      rw [List.getElem?_eq_none_iff]
      exact List.drop_eq_nil_iff.mp hdrop
    -- nothing stands at the offset, and the pointer is past the end of the line
    obtain rfl := eq_of_endsLine hsplit hends hstart
    refine ⟨⟨before, hline, hplace⟩, Nat.le_refl _, ?_⟩
    rw [hend]
    exact List.getElem?_eq_none (Nat.le_refl _)
  | cons c rest =>
    have hc : text[offset]? = some c := by rw [← List.head?_drop, hdrop, List.head?_cons]
    obtain ⟨hnewline, hreturn⟩ := hchar c hc
    have hlt := length_lt_of_endsLine (hdrop ▸ hsplit) hends hstart hnewline hreturn
    refine ⟨⟨before, hline, hplace⟩, Nat.le_of_lt hlt, ?_⟩
    have hunder : (shown ++ after)[start.length]? = shown[start.length]? :=
      List.getElem?_append_left hlt
    rw [← hunder, ← hsplit, hdrop, hc]
    simp

end GemLang
