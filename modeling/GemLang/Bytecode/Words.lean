import GemLang.Error
import GemLang.Text.Blank

/-!
# Words of bytecode text

Bytecode is text made of words. Blanks part words, except inside double quotes, where a backslash
keeps the next character from ending the quotes. A quoted stretch is part of the word it stands in.

A text that ends right after a backslash inside quotes is accepted: its last word then has no
closing quote. A text that ends anywhere else inside quotes is refused.
-/

namespace GemLang.Bytecode

/-- Cuts a quoted stretch from just after its opening quote. It fails with the stretch as far as it
goes when the closing quote is missing. -/
def cutQuoted : List Char → Except (List Char) (List Char × List Char)
  | [] => .error []
  | ['\\'] => .ok (['\\'], [])
  | '\\' :: c :: cs =>
    match cutQuoted cs with
    | .ok (text, rest) => .ok ('\\' :: c :: text, rest)
    | .error text => .error ('\\' :: c :: text)
  | '"' :: cs => .ok (['"'], cs)
  | c :: cs =>
    match cutQuoted cs with
    | .ok (text, rest) => .ok (c :: text, rest)
    | .error text => .error (c :: text)

/-- A quoted stretch and what follows it are the text it was cut from. -/
theorem cutQuoted_append {cs text rest : List Char} (h : cutQuoted cs = .ok (text, rest)) :
    text ++ rest = cs := by
  fun_induction cutQuoted cs generalizing text rest with
  | case1 => simp at h
  | case2 => simp_all
  | case3 c cs text' rest' hcut ih =>
    simp only [Except.ok.injEq, Prod.mk.injEq] at h
    simp [← h.1, ← h.2, ih hcut]
  | case4 => simp at h
  | case5 cs =>
    simp only [Except.ok.injEq, Prod.mk.injEq] at h
    simp [← h.1, ← h.2]
  | case6 c cs h1 h2 h3 text' rest' hcut ih =>
    simp only [Except.ok.injEq, Prod.mk.injEq] at h
    simp [← h.1, ← h.2, ih hcut]
  | case7 => simp at h

/-- Cuts a word: everything up to the next blank outside quotes. It fails with the word as far as it
goes when a closing quote is missing. -/
def cutWord (cs : List Char) : Except (List Char) (List Char × List Char) :=
  match cs with
  | [] => .ok ([], [])
  | '"' :: cs =>
    match _h : cutQuoted cs with
    | .error text => .error ('"' :: text)
    | .ok (text, rest) =>
      match cutWord rest with
      | .error more => .error ('"' :: text ++ more)
      | .ok (more, rest) => .ok ('"' :: text ++ more, rest)
  | c :: cs =>
    if Text.isBlank c then .ok ([], c :: cs)
    else
      match cutWord cs with
      | .error more => .error (c :: more)
      | .ok (more, rest) => .ok (c :: more, rest)
termination_by cs.length
decreasing_by
  · have := congrArg List.length (cutQuoted_append _h)
    simp only [List.length_append, List.length_cons] at *
    omega
  · simp

/-- A word and what follows it are the text it was cut from. -/
theorem cutWord_append {cs text rest : List Char} (h : cutWord cs = .ok (text, rest)) :
    text ++ rest = cs := by
  fun_induction cutWord cs generalizing text rest with
  | case1 => simp_all
  | case2 => simp at h
  | case3 => simp at h
  | case4 cs quoted rest' hquoted more rest'' hmore ih =>
    simp only [Except.ok.injEq, Prod.mk.injEq] at h
    simp [← h.1, ← h.2, ih hmore, cutQuoted_append hquoted]
  | case5 c cs hne hblank =>
    simp only [Except.ok.injEq, Prod.mk.injEq] at h
    simp [← h.1, ← h.2]
  | case6 => simp at h
  | case7 c cs hne hblank more rest' hmore ih =>
    simp only [Except.ok.injEq, Prod.mk.injEq] at h
    simp [← h.1, ← h.2, ih hmore]

/-- A word that starts at a character other than a blank is not empty. -/
theorem cutWord_ne_nil {c : Char} {cs text rest : List Char} (hc : Text.isBlank c = false)
    (h : cutWord (c :: cs) = .ok (text, rest)) : text ≠ [] := by
  unfold cutWord at h
  split at h
  · next heq => cases heq
  · split at h
    · simp at h
    · split at h
      · simp at h
      · simp only [Except.ok.injEq, Prod.mk.injEq] at h
        simp [← h.1]
  · next heq =>
    cases heq
    rw [hc] at h
    simp only [Bool.false_eq_true, ↓reduceIte] at h
    split at h
    · simp at h
    · simp only [Except.ok.injEq, Prod.mk.injEq] at h
      simp [← h.1]

def wordsOf (cs : List Char) : Except CodeFault (List String) :=
  match cs with
  | [] => .ok []
  | c :: cs =>
    if _hc : Text.isBlank c then wordsOf cs
    else
      match _h : cutWord (c :: cs) with
      | .error text => .error (.openText (String.ofList text))
      | .ok (text, rest) =>
        match wordsOf rest with
        | .error e => .error e
        | .ok words => .ok (String.ofList text :: words)
termination_by cs.length
decreasing_by
  · simp
  · have happend := congrArg List.length (cutWord_append _h)
    have hpos := List.length_pos_iff.mpr (cutWord_ne_nil (by simpa using _hc) _h)
    rw [List.length_append] at happend
    omega

def split (source : String) : Except CodeFault (List String) := wordsOf source.toList

end GemLang.Bytecode
