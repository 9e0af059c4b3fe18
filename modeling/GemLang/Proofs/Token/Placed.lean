import GemLang.Proofs.Syntax.Parsed

/-!
# Where tokens stand

Scanning loses nothing of a text. Its tokens stand in the text one after the other, each at the
place that its position names, and all that lies between them is blanks and whole comments.

Places are given twice: as offsets, which count the characters before, and as the lines and columns
of the tokens. A line is counted by the line breaks before an offset, a column by the characters
since the last of them. An error is a token like any other here: it stands where the characters
start that are no token, and those are its text.
-/

namespace GemLang

/-! ## Lines and columns -/

/-- Lines count the line breaks. -/
theorem Position.line_after_start (cs : List Char) :
    (Position.start.after cs).line = 1 + cs.count '\n' := by
  induction cs using List.reverseRecOn with
  | nil => rfl
  | append_singleton cs c ih =>
    rw [after_append, List.count_append, ← Nat.add_assoc, ← ih]
    by_cases hc : c = '\n'
    · subst hc
      rfl
    · have hzero : [c].count '\n' = 0 := List.count_eq_zero.mpr (by simpa using Ne.symm hc)
      rw [hzero]
      simp [after, next, hc]

/-- Columns count the characters since the last line break. -/
theorem Position.column_after_start (cs : List Char) :
    (Position.start.after cs).column = 1 + (cs.reverse.takeWhile (· != '\n')).length := by
  induction cs using List.reverseRecOn with
  | nil => rfl
  | append_singleton cs c ih =>
    rw [after_append, List.reverse_concat]
    by_cases hc : c = '\n'
    · subst hc
      rfl
    · rw [List.takeWhile_cons_of_pos (by simpa using hc), List.length_cons, ← Nat.add_assoc, ← ih]
      simp [after, next, hc]

/-! ## What is passed over -/

/-- Text that a scan passes over when `following` comes after it: blanks and whole comments. A
comment without a star ends with its line, which a line break or the end of the text does; one with
a star ends with the first `*##` inside. -/
inductive Skipped (following : List Char) : List Char → Prop where
  | nil : Skipped following []
  | blank {c : Char} {cs : List Char} (hc : Text.isBlank c = true) (h : Skipped following cs) :
      Skipped following (c :: cs)
  | lineComment {text cs : List Char} (htext : '\n' ∉ text) (hstar : text.head? ≠ some '*')
      (hend : ∀ c ∈ (cs ++ following).head?, c = '\n') (h : Skipped following cs) :
      Skipped following ('#' :: '#' :: (text ++ cs))
  | blockComment {text cs : List Char} (htext : ¬['*', '#', '#'] <:+: text ++ ['*', '#'])
      (h : Skipped following cs) :
      Skipped following ('#' :: '#' :: '*' :: (text ++ '*' :: '#' :: '#' :: cs))

/-- A block comment is cut at the first `*##`. -/
theorem exists_of_cutBlockComment {cs text rest : List Char}
    (h : cutBlockComment cs = some (text, rest)) :
    ∃ body, text = body ++ ['*', '#', '#'] ∧ ¬['*', '#', '#'] <:+: body ++ ['*', '#'] := by
  induction cs using cutBlockComment.induct generalizing text rest with
  | case1 cs =>
    obtain ⟨rfl, -⟩ : ['*', '#', '#'] = text ∧ cs = rest := by simpa [cutBlockComment] using h
    exact ⟨[], rfl, by decide⟩
  | case2 c cs hne ih =>
    rw [cutBlockComment] at h
    · simp only [Option.map_eq_some_iff, Prod.mk.injEq, Prod.exists] at h
      obtain ⟨t, r, hcut, rfl, rfl⟩ := h
      obtain ⟨body, rfl, hbody⟩ := ih hcut
      refine ⟨c :: body, rfl, ?_⟩
      rw [List.cons_append, List.infix_cons_iff]
      rintro (hstart | hinside)
      · -- then the text itself starts with the end of a comment
        have htext := cutBlockComment_append hcut
        have hlonger : c :: (body ++ ['*', '#']) <+: c :: cs := by
          refine ⟨'#' :: r, ?_⟩
          rw [← htext]
          simp
        obtain ⟨tail, htail⟩ := hstart.trans hlonger
        obtain ⟨rfl, rfl⟩ := List.cons.inj htail
        exact hne tail rfl rfl
      · exact hbody hinside
    · exact hne
  | case3 => simp [cutBlockComment] at h

theorem skipped_comment {cs gap following : List Char}
    (hpiece : (commentLexeme cs).piece = .comment)
    (hrest : (commentLexeme cs).rest = gap ++ following) (h : Skipped following gap) :
    Skipped following ((commentLexeme cs).text ++ gap) := by
  revert hpiece hrest
  unfold commentLexeme
  split
  · split
    · next hcut =>
      intro _ _
      obtain ⟨text, rfl, htext⟩ := exists_of_cutBlockComment hcut
      have hblock := Skipped.blockComment htext h
      simpa using hblock
    · intro hpiece
      cases hpiece
  · next hstar =>
    intro _ hrest
    refine .lineComment ?_ ?_ ?_ h
    · intro hmem
      have hbreak := List.all_eq_true.mp List.all_takeWhile _ hmem
      simp at hbreak
    · intro hhead
      cases cs with
      | nil => cases hhead
      | cons c cs =>
        by_cases hc : c = '\n'
        · simp [hc] at hhead
        · rw [List.takeWhile_cons_of_pos (by simpa using hc)] at hhead
          exact hstar cs (by rw [Option.some.inj hhead])
    · -- the line was cut where a line break stands, or at the end
      intro c hc
      rw [← hrest] at hc
      have hstop := List.head?_dropWhile_not (· != '\n') cs
      rw [Option.mem_def.mp hc] at hstop
      simpa using hstop

/-! ## What is no blank and no comment -/

/-- A kind is one of the two that a symbol can be of. -/
theorem exists_symbolLexeme {P : TokenKind → Prop} {c second : Char} {two one : TokenKind}
    (cs : List Char) (htwo : P two) (hone : P one) :
    ∃ kind, (symbolLexeme c second two one cs).piece = .token kind ∧ P kind := by
  unfold symbolLexeme
  split
  · split
    · exact ⟨two, rfl, htwo⟩
    · exact ⟨one, rfl, hone⟩
  · exact ⟨one, rfl, hone⟩

theorem ofWord_of_keywords {P : TokenKind → Prop} (hkeywords : ∀ x ∈ keywords, P x.2)
    (hname : P .identifier) (word : String) : P (TokenKind.ofWord word) := by
  unfold TokenKind.ofWord
  cases hfind : keywords.find? (·.1 == word) with
  | none => exact hname
  | some x => exact hkeywords x (List.mem_of_find?_eq_some hfind)

theorem exists_otherLexeme {P : TokenKind → Prop} (hsingle : ∀ x ∈ singleSymbols, P x.2)
    (hdouble : ∀ x ∈ doubleSymbols, P x.2.2.1 ∧ P x.2.2.2) (herror : ∀ fault, P (.error fault))
    (c : Char) (cs : List Char) : ∃ kind, (otherLexeme c cs).piece = .token kind ∧ P kind := by
  unfold otherLexeme
  split
  · next hfind => exact ⟨_, rfl, hsingle _ (List.mem_of_find?_eq_some hfind)⟩
  split
  · next hfind =>
    obtain ⟨htwo, hone⟩ := hdouble _ (List.mem_of_find?_eq_some hfind)
    exact exists_symbolLexeme cs htwo hone
  · exact ⟨_, rfl, herror _⟩

theorem exists_numberLexeme (cs : List Char) :
    ∃ kind, (numberLexeme cs).piece = .token kind ∧ kind ≠ .eof := by
  have htail (text rest : List Char) :
      ∃ kind, (numberTail text rest).piece = .token kind ∧ kind ≠ .eof := by
    unfold numberTail finishNumber
    split
    · exact ⟨_, rfl, nofun⟩
    · exact ⟨_, rfl, nofun⟩
  unfold numberLexeme
  dsimp only
  split
  · split
    · exact htail _ _
    · exact ⟨_, rfl, nofun⟩
  · exact htail _ _

/-- What starts with no blank and is no comment is a token. -/
theorem exists_token {c : Char} {cs : List Char} (hblank : ¬Text.isBlank c = true)
    (hcomment : ¬(c = '#' ∧ cs.head? = some '#')) :
    ∃ kind, (lexeme c cs).piece = .token kind ∧ kind ≠ .eof := by
  rw [lexeme, if_neg hblank, if_neg hcomment]
  split
  · unfold textLexeme
    split
    · exact ⟨_, rfl, nofun⟩
    · exact ⟨_, rfl, nofun⟩
  split
  · exact exists_numberLexeme (c :: cs)
  split
  · unfold minusLexeme
    split
    · exact ⟨_, rfl, nofun⟩
    · exact exists_symbolLexeme _ nofun nofun
  split
  · exact ⟨_, rfl, ofWord_of_keywords (P := (· ≠ .eof)) (by decide) nofun _⟩
  · exact exists_otherLexeme (by decide) (by decide) (fun _ ↦ nofun) c cs

theorem lexeme_blank {c : Char} (cs : List Char) (hblank : Text.isBlank c = true) :
    lexeme c cs = ⟨.blank, [c], cs⟩ := by
  rw [lexeme, if_pos hblank]

theorem lexeme_comment (cs : List Char) : lexeme '#' ('#' :: cs) = commentLexeme cs := by
  rw [lexeme, if_neg (by decide), if_pos ⟨rfl, rfl⟩, List.tail_cons]

/-- The end of a file is not cut from anything. -/
theorem piece_lexeme_ne_eof (c : Char) (cs : List Char) : (lexeme c cs).piece ≠ .token .eof := by
  by_cases hblank : Text.isBlank c = true
  · rw [lexeme_blank cs hblank]
    simp
  by_cases hcomment : c = '#' ∧ cs.head? = some '#'
  · obtain ⟨rfl, hhead⟩ := hcomment
    obtain ⟨ds, rfl⟩ := List.head?_eq_some_iff.mp hhead
    rw [lexeme_comment]
    unfold commentLexeme
    split
    · split <;> simp
    · simp
  · obtain ⟨kind, hpiece, hkind⟩ := exists_token hblank hcomment
    rw [hpiece]
    simpa using hkind

theorem skipped_lexeme {c : Char} {cs gap following : List Char}
    (hpiece : ∀ kind, (lexeme c cs).piece ≠ .token kind)
    (hrest : (lexeme c cs).rest = gap ++ following) (h : Skipped following gap) :
    Skipped following ((lexeme c cs).text ++ gap) := by
  by_cases hblank : Text.isBlank c = true
  · rw [lexeme_blank cs hblank]
    exact h.blank hblank
  by_cases hcomment : c = '#' ∧ cs.head? = some '#'
  · obtain ⟨rfl, hhead⟩ := hcomment
    obtain ⟨ds, rfl⟩ := List.head?_eq_some_iff.mp hhead
    rw [lexeme_comment] at hpiece hrest ⊢
    refine skipped_comment ?_ hrest h
    unfold commentLexeme at hpiece ⊢
    split at hpiece
    · split at hpiece
      · rfl
      · exact absurd rfl (hpiece _)
    · rfl
  · obtain ⟨kind, htoken, -⟩ := exists_token hblank hcomment
    exact absurd htoken (hpiece kind)

/-! ## Tokens in a text -/

/-- A token is a lexeme of a text that starts at `p`, cut at the place that it names. -/
def Token.IsCutFrom (p : Position) (cs : List Char) (t : Token) : Prop :=
  ∃ before c ds, cs = before ++ c :: ds ∧ (lexeme c ds).piece = .token t.kind ∧
    t.text = String.ofList (lexeme c ds).text ∧ t.position = p.after before

theorem Token.IsCutFrom.behind {p : Position} {c : Char} {cs : List Char} {t : Token}
    (h : t.IsCutFrom (p.after (lexeme c cs).text) (lexeme c cs).rest) :
    t.IsCutFrom p (c :: cs) := by
  obtain ⟨before, d, ds, hrest, hpiece, htext, hposition⟩ := h
  refine ⟨(lexeme c cs).text ++ before, d, ds, ?_, hpiece, htext, ?_⟩
  · rw [List.append_assoc, ← hrest, lexeme_append]
  · rw [hposition, Position.after_append]

theorem exists_text_lexeme (c : Char) (cs : List Char) : ∃ ds, (lexeme c cs).text = c :: ds := by
  obtain ⟨hne, hsplit⟩ := lexeme_cutFrom c cs
  obtain ⟨d, ds, htext⟩ := List.exists_cons_of_ne_nil hne
  rw [htext, List.cons_append] at hsplit
  obtain ⟨rfl, -⟩ := List.cons.inj hsplit
  exact ⟨ds, htext⟩

/-- Every token but the end of the file is cut from the text. -/
theorem isCutFrom_of_mem_scanFrom {p : Position} {cs : List Char} {t : Token}
    (ht : t ∈ scanFrom p cs) (hkind : t.kind ≠ .eof) : t.IsCutFrom p cs := by
  fun_induction scanFrom p cs with
  | case1 p =>
    rw [List.mem_singleton] at ht
    rw [ht] at hkind
    exact absurd rfl hkind
  | case2 p c cs x following kind hpiece ih =>
    rcases List.mem_cons.mp ht with rfl | ht
    · exact ⟨[], c, cs, rfl, hpiece, rfl, rfl⟩
    · exact (ih ht).behind
  | case3 p c cs x following hpiece ih => exact (ih ht).behind

/-- A token stands at an offset of a text: its characters are found there, and its position is that
of the offset. -/
structure Token.StandsAt (source : List Char) (offset : Nat) (t : Token) : Prop where
  le_length : offset ≤ source.length
  text : t.text.toList <+: source.drop offset
  line : t.position.line = 1 + (source.take offset).count '\n'
  column : t.position.column = 1 + ((source.take offset).reverse.takeWhile (· != '\n')).length

/-- What lies before each of the tokens of a text, with what comes after it. The tokens come with
their offsets, and the first of them lies at `start` or after it. -/
def gaps (source : List Char) (start : Nat) : List (Nat × Token) → List (List Char × List Char)
  | [] => []
  | (offset, t) :: placed =>
    ((source.take offset).drop start, source.drop offset) ::
      gaps source (offset + t.text.length) placed

/-- Tokens with their offsets, one after the other from `start` on. -/
structure Placed (source : List Char) (start : Nat) (placed : List (Nat × Token)) : Prop where
  stands : ∀ p ∈ placed, p.2.StandsAt source p.1
  le_offset : ∀ p ∈ placed, start ≤ p.1
  apart : placed.Pairwise fun p q ↦ p.1 + p.2.text.length ≤ q.1
  skipped : ∀ g ∈ gaps source start placed, Skipped g.2 g.1

theorem Token.standsAt_length (before text : List Char) (kind : TokenKind) (after : List Char) :
    Token.StandsAt (before ++ (text ++ after)) before.length
      ⟨kind, String.ofList text, Position.start.after before⟩ where
  le_length := by simp
  text := by simp
  line := by simp [Position.line_after_start]
  column := by simp [Position.column_after_start]

theorem Placed.token {before text after : List Char} {placed : List (Nat × Token)}
    (h : Placed (before ++ (text ++ after)) (before.length + text.length) placed)
    (kind : TokenKind) :
    Placed (before ++ (text ++ after)) before.length
      ((before.length, ⟨kind, String.ofList text, Position.start.after before⟩) :: placed) where
  stands := List.forall_mem_cons.mpr ⟨Token.standsAt_length before text kind after, h.stands⟩
  le_offset := by
    refine List.forall_mem_cons.mpr ⟨Nat.le_refl _, fun p hp ↦ ?_⟩
    exact Nat.le_trans (Nat.le_add_right _ _) (h.le_offset p hp)
  apart := by
    refine List.pairwise_cons.mpr ⟨fun p hp ↦ ?_, h.apart⟩
    simpa using h.le_offset p hp
  skipped := by
    refine List.forall_mem_cons.mpr ⟨?_, ?_⟩
    · have hgap : ((before ++ (text ++ after)).take before.length).drop before.length = [] := by
        simp
      dsimp only
      rw [hgap]
      exact .nil
    · simpa using h.skipped

theorem Placed.skip {before text after : List Char} {placed : List (Nat × Token)}
    (h : Placed (before ++ (text ++ after)) (before.length + text.length) placed)
    (htext : ∀ gap following, after = gap ++ following → Skipped following gap →
      Skipped following (text ++ gap)) :
    Placed (before ++ (text ++ after)) before.length placed where
  stands := h.stands
  le_offset p hp := Nat.le_trans (Nat.le_add_right _ _) (h.le_offset p hp)
  apart := h.apart
  skipped := by
    cases placed with
    | nil => exact h.skipped
    | cons p placed =>
      obtain ⟨offset, t⟩ := p
      obtain ⟨hfirst, hothers⟩ := List.forall_mem_cons.mp h.skipped
      refine List.forall_mem_cons.mpr ⟨?_, hothers⟩
      -- the first token lies `k` characters into `after`
      obtain ⟨k, rfl⟩ := Nat.exists_eq_add_of_le (h.le_offset _ List.mem_cons_self)
      have htake : (before ++ (text ++ after)).take (before.length + text.length + k) =
          before ++ (text ++ after.take k) := by
        rw [Nat.add_assoc, List.take_length_add_append, List.take_length_add_append]
      have hdrop : (before ++ (text ++ after)).drop (before.length + text.length + k) =
          after.drop k := by
        rw [Nat.add_assoc, List.drop_length_add_append, List.drop_length_add_append]
      dsimp only at hfirst ⊢
      rw [htake, hdrop] at hfirst ⊢
      rw [List.drop_length_add_append, List.drop_left] at hfirst
      rw [List.drop_left]
      exact htext _ _ (List.take_append_drop k after).symm hfirst

/-! ## Tokens of a text -/

/-- The tokens of what stands after `before` in a text, each at its offset, and the end of the file
at the end. -/
theorem exists_placed (before cs : List Char) : ∃ placed : List (Nat × Token),
    let eof : Token := ⟨.eof, "", Position.start.after (before ++ cs)⟩
    scanFrom (Position.start.after before) cs = placed.map (·.2) ++ [eof] ∧
      (∀ p ∈ placed, p.2.kind ≠ .eof) ∧
      Placed (before ++ cs) before.length (placed ++ [((before ++ cs).length, eof)]) := by
  match cs with
  | [] =>
    refine ⟨[], by simp [scanFrom], List.forall_mem_nil _, ?_⟩
    have heof := @Placed.token before [] [] []
      ⟨List.forall_mem_nil _, List.forall_mem_nil _, .nil, List.forall_mem_nil _⟩ .eof
    simpa using heof
  | c :: cs =>
    obtain ⟨placed, hscan, hkinds, hplaced⟩ :=
      exists_placed (before ++ (lexeme c cs).text) (lexeme c cs).rest
    have hsource := lexeme_append c cs
    rw [Position.after_append] at hscan
    rw [List.append_assoc, hsource] at hscan hplaced
    rw [scanFrom]
    dsimp only
    rw [List.length_append, ← hsource] at hplaced
    cases hpiece : (lexeme c cs).piece with
    | token kind =>
      refine ⟨(before.length, ⟨kind, String.ofList (lexeme c cs).text,
        Position.start.after before⟩) :: placed, ?_, ?_, ?_⟩
      · rw [hscan]
        rfl
      · refine List.forall_mem_cons.mpr ⟨?_, hkinds⟩
        rintro rfl
        exact piece_lexeme_ne_eof c cs hpiece
      · rw [← hsource]
        exact hplaced.token kind
    | blank | comment =>
      refine ⟨placed, hscan, hkinds, ?_⟩
      rw [← hsource]
      exact hplaced.skip fun gap following hrest hgap ↦
        skipped_lexeme (by simp [hpiece]) hrest hgap
termination_by cs.length
decreasing_by exact lexeme_rest_length_lt c cs

/-- **Nothing of a text is lost, and positions are true.** The tokens of a text are found in it one
after the other, each at an offset that its line and column name. Between them is nothing but blanks
and whole comments. The last token, and no other, is the end of the file; and the text of a token is
what is shown for it unless it is an error. -/
theorem scan_lossless (source : String) : ∃ (placed : List (Nat × Token)) (eof : Token),
    scan source = placed.map (·.2) ++ [eof] ∧
      eof.kind = .eof ∧ eof.raw = "" ∧ (∀ p ∈ placed, p.2.kind ≠ .eof) ∧
      (scan source).length ≤ source.length + 1 ∧
      (∀ t ∈ scan source, (∀ fault, t.kind ≠ .error fault) → t.raw = t.text) ∧
      Placed source.toList 0 (placed ++ [(source.length, eof)]) := by
  obtain ⟨placed, hscan, hkinds, hplaced⟩ := exists_placed [] source.toList
  have hlength := length_scanFrom_le .start source.toList
  rw [String.length_toList] at hlength
  refine ⟨placed, _, hscan, rfl, rfl, hkinds, hlength, fun t _ ht ↦ ?_, ?_⟩
  · unfold Token.raw
    split
    · next hkind => exact absurd hkind (ht _)
    · rfl
  · simpa only [List.nil_append, List.length_nil, String.length_toList] using hplaced

end GemLang
