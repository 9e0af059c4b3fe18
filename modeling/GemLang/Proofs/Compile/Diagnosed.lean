import GemLang.Command
import GemLang.Proofs.Compile.Linked
import GemLang.Proofs.Syntax.Consumed
import GemLang.Proofs.Text.Lines

/-!
# What is shown of an error

An error that the scanner or the parser finds is about a token, and it names the place of that token
in its file. Shown with the text of the file, the message stands above the line of the token, and
the pointer below that line is under the first character of the token, or just past the line at the
end of the file (`Error.Blames.shows`).

An error may be found in any file of a program, but the command shows it with the text of the file
it was given. So what it shows is right for errors of that file. For an error of another file the
message is right, and the line shown below it is one of the wrong file.
-/

namespace GemLang

/-! ## The token -/

/-- An error is about a token of a file, and names its place: either the token is an error of the
scanner, or the parser found it out of place. -/
inductive Error.Blames (file : String) (t : Token) : Error → Prop where
  | lexical {fault : ScanFault} (hkind : t.kind = .error fault) :
      Blames file t (.lexical file t.position.line t.position.column fault)
  | parse {fault : ParseFault} (hsound : ¬t.IsError) (hfault : fault.IsAbout t) :
      Blames file t (.parse file t.position.line t.position.column fault)

/-- Parsing stops at a token, and none of the tokens before it is an error. -/
theorem exists_blamed {text file : String} {e : Error} (h : parseSource text file = .error e) :
    ∃ before t after, scan text = before ++ t :: after ∧ (∀ u ∈ before, ¬u.IsError) ∧
      e.Blames file t := by
  obtain ⟨c, hscan, hclosed, hlexical | ⟨hsound, c', hsteps, hrejects⟩⟩ :=
    exists_cursor_of_parseSource_eq_error h
  · obtain ⟨fault, hfault, rfl⟩ := Cursor.exists_of_checkLexical_eq_error hlexical
    exact ⟨[], c.current, c.rest, hscan.symm, nofun, .lexical hfault⟩
  · obtain ⟨-, hsound', passed, htokens, hpassed⟩ := hclosed.steps hsound hsteps
    rw [← hscan]
    cases hrejects with
    | outOfPlace hfault =>
      exact ⟨passed, c'.current, c'.rest, htokens, hpassed, .parse hsound' hfault⟩
    | next hkind hadvance =>
      -- it is the token behind the current one that the scanner has found fault with
      obtain ⟨t, ts, fault, hrest, hfault, rfl⟩ := Cursor.exists_of_advance_eq_error hadvance
      refine ⟨passed ++ [c'.current], t, ts, ?_, ?_, .lexical hfault⟩
      · rw [htokens, Cursor.tokens, hrest, List.append_assoc]
        rfl
      · exact List.forall_mem_append.mpr ⟨hpassed, List.forall_mem_singleton.mpr hsound'⟩

/-- A token other than the end of the file starts with no blank. -/
theorem exists_head_of_mem_scanFrom {p : Position} {cs : List Char} {t : Token}
    (ht : t ∈ scanFrom p cs) (hkind : t.kind ≠ .eof) :
    ∃ c ds, t.text.toList = c :: ds ∧ Text.isBlank c = false := by
  obtain ⟨before, c, ds, -, hpiece, htext, -⟩ := isCutFrom_of_mem_scanFrom ht hkind
  obtain ⟨es, hstart⟩ := exists_text_lexeme c ds
  refine ⟨c, es, by rw [htext, String.toList_ofList, hstart], Bool.eq_false_iff.mpr fun hblank ↦ ?_⟩
  -- a blank is no token
  rw [lexeme_blank ds hblank] at hpiece
  cases hpiece

/-- Every token stands somewhere, the end of the file at the end. -/
theorem exists_standsAt {text : String} {t : Token} (ht : t ∈ scan text) :
    ∃ offset, t.StandsAt text.toList offset ∧ (t.kind = .eof → offset = text.length) := by
  obtain ⟨placed, eof, hscan, -, -, hkinds, -, -, hplaced⟩ := scan_lossless text
  rw [hscan] at ht
  rcases List.mem_append.mp ht with hmem | hlast
  · obtain ⟨p, hp, rfl⟩ := List.mem_map.mp hmem
    exact ⟨p.1, hplaced.stands p (List.mem_append_left _ hp), fun h ↦ absurd h (hkinds p hp)⟩
  · obtain rfl := List.mem_singleton.mp hlast
    exact ⟨text.length, hplaced.stands _ (List.mem_append_right _ List.mem_cons_self), fun _ ↦ rfl⟩

/-! ## The line below the message -/

/-- What is shown of a token of a file: a message that starts with the name of the file and the line
of the token, that very line of the text, and a pointer below it. The pointer is under the character
where the token starts, which is just past the line for the end of the file. -/
structure Shows (shown file text : String) (t : Token) : Prop where
  /-- The parts of what is shown, and the offset that the pointer is under. -/
  parts : ∃ what line offset indent,
    shown = file ++ ":" ++ toString t.position.line ++ " -> " ++ what ++ "\n| " ++
      String.ofList line ++ "\n| " ++ String.ofList (List.replicate indent ' ') ++ "^~~" ∧
      t.StandsAt text.toList offset ∧ (t.kind = .eof → offset = text.length) ∧
        PointsAt text.toList offset t.position.line indent line
  nonempty : t.kind ≠ .eof → t.text ≠ ""

theorem Error.render_of_position? {e : Error} {line column : Nat}
    (h : e.position? = some (line, column)) (text : String) :
    e.render text = e.message ++ "\n| " ++
      String.ofList ((sourceLines text.toList)[line - 1]?.getD []) ++ "\n| " ++
        String.ofList (List.replicate (column - 1) ' ') ++ "^~~" := by
  unfold Error.render
  rw [h]
  rfl

theorem Error.Blames.position? {e : Error} {file : String} {t : Token} (h : e.Blames file t) :
    e.position? = some (t.position.line, t.position.column) := by
  cases h <;> rfl

theorem Error.Blames.exists_message {e : Error} {file : String} {t : Token} (h : e.Blames file t) :
    ∃ what, e.message = file ++ ":" ++ toString t.position.line ++ " -> " ++ what := by
  cases h with
  | @lexical fault =>
    have hsign : " -> Lexical Error: " = " -> " ++ "Lexical Error: " := rfl
    refine ⟨"Lexical Error: " ++ fault.message, ?_⟩
    change file ++ ":" ++ toString t.position.line ++ " -> Lexical Error: " ++ fault.message = _
    rw [hsign, ← String.append_assoc, ← String.append_assoc]
  | @parse fault =>
    have hsign : " -> Parsing Error: " = " -> " ++ "Parsing Error: " := rfl
    refine ⟨"Parsing Error: " ++ fault.message, ?_⟩
    change file ++ ":" ++ toString t.position.line ++ " -> Parsing Error: " ++ fault.message = _
    rw [hsign, ← String.append_assoc, ← String.append_assoc]

/-- **With the text of its file, an error is shown where it is.** -/
theorem Error.Blames.shows {e : Error} {file text : String} {t : Token} (h : e.Blames file t)
    (ht : t ∈ scan text) : Shows (e.render text) file text t := by
  obtain ⟨what, hmessage⟩ := h.exists_message
  obtain ⟨offset, hstands, hend⟩ := exists_standsAt ht
  -- a token starts with no blank, so it starts with no line break
  have hchar : ∀ c ∈ text.toList[offset]?, c ≠ '\n' ∧ c ≠ '\r' := by
    intro c hc
    by_cases hkind : t.kind = .eof
    · have hnone : text.toList[offset]? = none := by
        rw [hend hkind]
        exact List.getElem?_eq_none (Nat.le_of_eq String.length_toList)
      rw [hnone] at hc
      cases hc
    · obtain ⟨d, ds, htext, hblank⟩ := exists_head_of_mem_scanFrom ht hkind
      have hprefix := hstands.text
      rw [htext] at hprefix
      obtain ⟨rest, hrest⟩ := hprefix
      rw [← List.head?_drop, ← hrest] at hc
      obtain rfl : d = c := by simpa using hc
      constructor
      · rintro rfl
        exact absurd hblank (by decide)
      · rintro rfl
        exact absurd hblank (by decide)
  have hpoints := pointsAt_sourceLines hstands.le_length hchar
  have hnumber : (text.toList.take offset).count '\n' = t.position.line - 1 := by
    rw [hstands.line, Nat.add_sub_cancel_left]
  have hindent : ((text.toList.take offset).reverse.takeWhile (· != '\n')).length =
      t.position.column - 1 := by
    rw [hstands.column, Nat.add_sub_cancel_left]
  have hline : t.position.line - 1 + 1 = t.position.line := by
    rw [hstands.line]
    omega
  rw [hnumber, hindent, hline] at hpoints
  refine ⟨⟨what, _, offset, _, ?_, hstands, hend, hpoints⟩, fun hkind htext ↦ ?_⟩
  · rw [Error.render_of_position? h.position?, hmessage]
  · obtain ⟨d, ds, htext', -⟩ := exists_head_of_mem_scanFrom ht hkind
    rw [htext] at htext'
    cases htext'

/-! ## The file -/

/-- A program without any condition on what it is spelled with. -/
def Spelling.any : Spelling where
  name _ := True
  library _ := True
  reflect := True
  depth _ := True

/-- An error is found in a file of the tree, by parsing its text. -/
def Error.IsFoundIn (t : FileTree) (e : Error) : Prop :=
  ∃ place content text, t.content? place = some content ∧ content.text = .ok text ∧
    parseSource text (FileTree.pathOf place).text = .error e

namespace Link

variable {t : FileTree}

/-- An error with a place comes from the file that it names. -/
def FoundInside (t : FileTree) (e : Error) : Prop := e.position? = none ∨ e.IsFoundIn t

theorem carries_any (limit : Nat) {r : Resolver}
    (hr : ∀ path names, Delivers (FoundInside t) Spelling.any.stmts (r.reflect path names)) :
    r.Carries (FoundInside t) (Spelling.parsed limit) Spelling.any where
  name _ := trivial
  library _ := trivial
  reflect _ := hr
  depth _ := trivial

theorem delivers_inline (origin : Path) (reflecting : List Path) (path : String)
    (names : List String) :
    Delivers (FoundInside t) Spelling.any.stmts (inline t origin reflecting path names) := by
  unfold inline
  dsimp only
  split
  · split
    · exact .error (.inl rfl)
    · exact .error (.inl rfl)
  · next place hplace =>
    split
    · exact .error (.inl rfl)
    · next hnew =>
      split
      · exact .error (.inl rfl)
      · next content hcontent =>
        split
        · exact .error (.inl rfl)
        · next source hsource =>
          have hfewer := unreflected_cons_lt t hcontent (by simpa using hnew)
          have hspelled := ensures_parseSource source (FileTree.pathOf place).text
          cases hbody : parseSource source (FileTree.pathOf place).text with
          | error e => exact .error (.inr ⟨place, content, source, hcontent, hsource, hbody⟩)
          | ok body =>
            have hparsed := hspelled.of_eq_ok hbody
            refine Resolver.delivers_stmts (carries_any (source.length + 1) ?_) _ ?_
            · exact fun path names ↦ delivers_inline _ _ path names
            · exact Spelling.stmts_iff.mpr fun s hs ↦
                Spelling.stmts_iff.mp hparsed s (List.mem_filter.mp hs).1
termination_by unreflected t reflecting

end Link

/-- An error with a place that compiling stops with is found in the source, or in a file of the
tree. -/
theorem found_of_compileSource {t : FileTree} {origin : Path} {optimize : Bool} {source : String}
    {e : Error} (h : compileSource t origin optimize source = .error e) (he : e.position? ≠ none) :
    parseSource source origin.text = .error e ∨ e.IsFoundIn t := by
  have hspelled := ensures_parseSource source origin.text
  unfold compileSource at h
  cases hbody : parseSource source origin.text with
  | error e' =>
    rw [hbody] at h
    cases h
    exact .inl rfl
  | ok body =>
    rw [hbody] at h
    have hcarries : (Link.resolver t origin [t.canonical origin]).Carries (Link.FoundInside t)
        (Spelling.parsed (source.length + 1)) Spelling.any :=
      Link.carries_any _ fun path names ↦ Link.delivers_inline origin _ path names
    have hlinked : Delivers (Link.FoundInside t) Spelling.any.stmts (Link.program t origin body) :=
      Resolver.delivers_stmts hcarries body (hspelled.of_eq_ok hbody)
    change (Link.program t origin body >>= _) = _ at h
    cases hprogram : Link.program t origin body with
    | ok linked =>
      rw [hprogram] at h
      cases h
    | error e' =>
      rw [hprogram] at h hlinked
      cases h
      cases hlinked with
      | error hfound => exact .inr (hfound.resolve_left he)

/-! ## What the command shows -/

/-- What is shown of an error that parsing a text stopped with: a token of the text, before which
there is no error of the scanner, in its place. -/
def Diagnoses (shown file text : String) (e : Error) : Prop :=
  parseSource text file = .error e ∧ ∃ before token after, scan text = before ++ token :: after ∧
    (∀ t ∈ before, ¬t.IsError) ∧ e.Blames file token ∧ Shows shown file text token

theorem diagnoses_render {text file : String} {e : Error} (h : parseSource text file = .error e) :
    Diagnoses (e.render text) file text e := by
  obtain ⟨before, token, after, hscan, hbefore, hblames⟩ := exists_blamed h
  exact ⟨h, before, token, after, hscan, hbefore, hblames, hblames.shows (by simp [hscan])⟩

theorem Command.compileSource_of_rejected {c : Command} {fuel : Nat} {t : FileTree} {e : Error}
    {source : String} (h : (c.once fuel t).failure = some (.rejected e source)) :
    t.readText c.file = .ok source ∧
      compileSource t c.file (c.has .optimize) source = .error e := by
  have hexecute (bytecode : String) :
      (c.execute fuel t bytecode).failure ≠ some (.rejected e source) := by
    unfold Command.execute
    split <;> simp
  have hwrite (bytecode : String) : (c.write t bytecode).failure ≠ some (.rejected e source) := by
    unfold Command.write
    split <;> simp
  unfold Command.once at h
  split at h
  · cases h
  · next source' hsource =>
    split at h
    · exact absurd h (hexecute source')
    · split at h
      · next hcompile =>
        cases h
        exact ⟨hsource, hcompile⟩
      · next bytecode _ =>
        split at h
        · exact absurd h (hwrite bytecode)
        · exact absurd h (hexecute bytecode)

theorem Command.once_of_compileSource {c : Command} {t : FileTree} {e : Error} {source : String}
    (hread : t.readText c.file = .ok source) (hcode : c.has .bytecode = false)
    (h : compileSource t c.file (c.has .optimize) source = .error e) (fuel : Nat) :
    c.once fuel t = ⟨"", t, some (.rejected e source)⟩ := by
  simp only [Command.once, hread, hcode, h, Bool.false_eq_true, ↓reduceIte]

/-- **Errors are shown where they are, with the text of their file.** The command has the text of
the file it was given. An error in it is shown below its message, which names the file and the line,
with that line and a pointer under the token. An error of another file would be shown so with the
text of that file: its message is right, but the command shows a line of the file it was given. -/
theorem rejected_diagnoses {c : Command} {fuel : Nat} {t : FileTree} {e : Error} {source : String}
    (h : (c.once fuel t).failure = some (.rejected e source)) (he : e.position? ≠ none) :
    t.readText c.file = .ok source ∧
      (Diagnoses (Failure.rejected e source).text c.file.text source e ∨
        ∃ place content text, t.content? place = some content ∧ content.text = .ok text ∧
          Diagnoses (e.render text) (FileTree.pathOf place).text text e ∧
          ∃ line column, e.position? = some (line, column) ∧
            (Failure.rejected e source).text = e.message ++ "\n| " ++
              String.ofList ((sourceLines source.toList)[line - 1]?.getD []) ++ "\n| " ++
                String.ofList (List.replicate (column - 1) ' ') ++ "^~~") := by
  obtain ⟨hsource, hcompile⟩ := Command.compileSource_of_rejected h
  refine ⟨hsource, ?_⟩
  obtain hparse | ⟨place, content, text, hplace, htext, hparse⟩ :=
    found_of_compileSource hcompile he
  · exact .inl (diagnoses_render hparse)
  · obtain ⟨⟨line, column⟩, hposition⟩ := Option.ne_none_iff_exists'.mp he
    exact .inr ⟨place, content, text, hplace, htext, diagnoses_render hparse, line, column,
      hposition, Error.render_of_position? hposition source⟩

/-- An error in the file of the command. -/
theorem rejected_diagnoses_main :
    let source := "x = \n\t)"
    let t : FileTree := ⟨[], [(["a"], .plain source)]⟩
    let c : Command := ⟨⟨"a"⟩, none, []⟩
    let e : Error := .parse "a" 2 2 (.expected "expression" (some ")"))
    (c.once 0 t).failure = some (.rejected e source) ∧ e.position? ≠ none ∧
      t.readText c.file = .ok source ∧
      Diagnoses (Failure.rejected e source).text c.file.text source e := by
  intro source t c e
  have hread : t.readText c.file = .ok source := by decide
  have hparse : parseSource source "a" = .error e := by
    unfold source e
    with_unfolding_all rfl
  have hcompile : compileSource t c.file false source = .error e := by
    unfold compileSource
    rw [hparse]
    rfl
  have h : (c.once 0 t).failure = some (.rejected e source) :=
    congrArg Outcome.failure (Command.once_of_compileSource hread rfl hcompile 0)
  obtain ⟨htext, hshown | ⟨place, content, text, hplace, hcontent, ⟨hother, -⟩, -⟩⟩ :=
    rejected_diagnoses h nofun
  · exact ⟨h, nofun, htext, hshown⟩
  · -- the only file there is would be named by its full path
    have ha : place = ["a"] ∧ content = .plain source := by
      obtain ⟨entry, hentry, rfl⟩ := Option.map_eq_some_iff.mp hplace
      have hname := List.find?_some hentry
      have hmem := List.mem_of_find?_eq_some hentry
      obtain rfl := List.mem_singleton.mp hmem
      exact ⟨(beq_iff_eq.mp hname).symm, rfl⟩
    obtain ⟨rfl, rfl⟩ := ha
    obtain rfl : source = text := Except.ok.inj hcontent
    have hfile : parseSource source (FileTree.pathOf ["a"]).text =
        .error (.parse "/a" 2 2 (.expected "expression" (some ")"))) := by
      unfold source
      with_unfolding_all rfl
    exact absurd (hfile.symm.trans hother) (by simp [e])

/-- An error in another file is shown with a line of the file of the command. -/
theorem rejected_shows_wrong_line :
    let source := "reflect 'b'\ny"
    let other := "x\n)"
    let t : FileTree := ⟨[], [(["a"], .plain source), (["b"], .plain other)]⟩
    let c : Command := ⟨⟨"a"⟩, none, []⟩
    ∃ failure, (c.once 0 t).failure = some failure ∧
      failure.text = "/b:2 -> Parsing Error: Expected expression, got ')'!\n| y\n| ^~~" ∧
      IsLine other.toList 2 ['x', '\n'] [')'] := by
  intro source other t c
  have hread : t.readText c.file = .ok source := by decide
  have hparse : parseSource source "a" = .ok [.reflect "b" [], .expr (.name "y")] := by
    unfold source
    with_unfolding_all rfl
  have hother : parseSource other "/b" =
      .error (.parse "/b" 2 1 (.expected "expression" (some ")"))) := by
    unfold other
    with_unfolding_all rfl
  have hcandidate : Link.candidate t ⟨"a"⟩ "b" = ⟨"./b"⟩ := by
    have hplain : (Path.mk "a").directory.join ⟨"b"⟩ = ⟨"./b"⟩ := rfl
    have hfile : t.isFile ⟨"./b"⟩ = true := by cbv
    simp [Link.candidate, hplain, hfile]
  have hfollow : t.follow ⟨"./b"⟩ = .ok ["b"] := rfl
  have hnew : Link.isReflecting [t.canonical ⟨"a"⟩] (FileTree.pathOf ["b"]) = false := by
    have hsame : Path.same ⟨"/a"⟩ ⟨"/b"⟩ = false := rfl
    exact (Bool.or_false _).trans hsame
  have hinline : Link.inline t ⟨"a"⟩ [t.canonical ⟨"a"⟩] "b" [] =
      .error (.parse "/b" 2 1 (.expected "expression" (some ")"))) := by
    have hread : t.follow (Link.candidate t ⟨"a"⟩ "b") = .ok ["b"] := by rw [hcandidate, hfollow]
    have hpath : (FileTree.pathOf ["b"]).text = "/b" := rfl
    have htext : (Content.plain other).text = .ok other := rfl
    rw [Link.inline_of_text hread hnew rfl htext, hpath, hother]
    rfl
  have hcompile : compileSource t c.file false source =
      .error (.parse "/b" 2 1 (.expected "expression" (some ")"))) := by
    unfold compileSource compile Link.program
    rw [hparse]
    change (Resolver.stmts _ _ >>= _) = _
    rw [Resolver.stmts, Resolver.stmt]
    dsimp only
    rw [hinline]
    rfl
  refine ⟨_, congrArg Outcome.failure (Command.once_of_compileSource hread rfl hcompile 0), ?_, ?_⟩
  · decide
  · exact ⟨.inr rfl, rfl, by decide, [], by decide, .inl rfl⟩

end GemLang
