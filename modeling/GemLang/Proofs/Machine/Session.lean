import GemLang.Proofs.Machine.Runs

/-!
# Compiled programs run without faults of the code

A machine may be given one program after the other. Functions that an earlier program left in names
and tables are called by later ones, so that a program is well formed does not suffice for its run
to be: everything that the machine holds from earlier runs must be too. `IsSession` describes the
machines that come about so, and no run on one of them finds a fault in its code.

The limits on sizes are those of the machine word: no text is as long as `2 ^ 64`.
-/

namespace GemLang

open Bytecode
open Exec

/-- The spelling of a program whose libraries have paths that can be written. -/
def Spelling.librariesWritable : Spelling where
  name _ := True
  library := IsLibraryText
  reflect := True
  depth _ := True

/-- Bytecode text that a source text compiles to, with the files it reflects. The paths of libraries
in it can be written. -/
inductive IsCompiled (text : String) : Prop where
  | intro (t : FileTree) (origin : Path) (optimize : Bool) (source : String) (ht : t.IsSized)
      (hsource : source.length < UInt64.size)
      (htext : compileSource t origin optimize source = .ok text)
      (hlibraries : ∀ body linked, parseSource source origin.text = .ok body →
        Link.program t origin body = .ok linked → Spelling.librariesWritable.stmts linked)

/-- The state that an operation leaves, however it ends. -/
def Exec.stateAfter {α : Type} (x : Exec α) (m : Machine) : Machine :=
  match x m with
  | .ok _ m' => m'
  | .error _ m' => m'

theorem Exec.Ends.stateAfter {α : Type} {R : Machine → Prop} {x : Exec α} {m : Machine}
    (h : Ends (fun _ ↦ R) (fun _ ↦ R) (x m)) : R (x.stateAfter m) := by
  unfold Exec.stateAfter
  cases hxm : x m with
  | ok a m' =>
    rw [hxm] at h
    cases h with
    | ok h => exact h
  | error e m' =>
    rw [hxm] at h
    cases h with
    | error h => exact h

/-- Machines that have run compiled programs, one after the other. -/
inductive IsSession : Machine → Prop where
  | start (config : Config) (host : Host) : IsSession (Machine.start config host)
  | evaluate {m : Machine} (h : IsSession m) (fuel : Nat) {text : String}
      (htext : IsCompiled text) : IsSession ((evaluate fuel text).stateAfter m)

/-! ## Compiled code -/

/-- What holds of the plain instructions of compiled code. -/
abbrev SoundCode : Opcode → List String → Prop := Sound (· < UInt64.size)

theorem discipline_soundCode : Discipline SoundCode (IsFunctionBody SoundCode) NotMalformed where
  body h := h.wellNested
  plain hP h := h hP.runnable
  other h := h

/-- What was compiled was parsed and linked before. -/
theorem compileSource_eq_ok_iff {t : FileTree} {origin : Path} {optimize : Bool}
    {source text : String} : compileSource t origin optimize source = .ok text ↔
      ∃ body linked, parseSource source origin.text = .ok body ∧
        Link.program t origin body = .ok linked ∧
        text = textOf (Lower.program optimize linked) := by
  unfold compileSource compile
  cases hbody : parseSource source origin.text with
  | error e => exact iff_of_false (by rintro ⟨⟩) (by rintro ⟨_, _, ⟨⟩, _⟩)
  | ok body =>
    change Except.bind (Link.program t origin body) _ = _ ↔ _
    cases hlinked : Link.program t origin body with
    | error e =>
      refine iff_of_false (by rintro ⟨⟩) ?_
      rintro ⟨_, linked, ⟨⟩, hlinked', -⟩
      cases hlinked.symm.trans hlinked'
    | ok linked =>
      constructor
      · intro h
        exact ⟨body, linked, rfl, hlinked, (Except.ok.inj h).symm⟩
      · rintro ⟨_, linked', ⟨⟩, hlinked', rfl⟩
        obtain rfl := Except.ok.inj (hlinked.symm.trans hlinked')
        rfl

theorem IsCompiled.exists_linked {text : String} (h : IsCompiled text) :
    ∃ optimize linked, text = textOf (Lower.program optimize linked) ∧
      (Spelling.writable (· < UInt64.size)).stmts linked := by
  obtain ⟨t, origin, optimize, source, ht, hsource, htext, hlibraries⟩ := h
  obtain ⟨body, linked, hbody, hlinked, rfl⟩ := compileSource_eq_ok_iff.mp htext
  have hjoins : Spelling.Joins .linked .librariesWritable (.writable (· < UInt64.size)) :=
    ⟨fun h _ ↦ h, fun _ h ↦ h, fun h _ ↦ h, fun h _ ↦ h⟩
  refine ⟨optimize, linked, rfl, hjoins.stmts linked ?_ (hlibraries body linked hbody hlinked)⟩
  exact Link.spelled_of_program ht hsource hbody hlinked

theorem wordsOf_nil : wordsOf [] = .ok [] := by rw [wordsOf]

theorem split_callMain : split callMain = .ok ["LOAD_LOCAL", "main", "CALL"] := by
  have hblank : Text.isBlank '\n' = true := by decide
  have hspace : Text.isBlank ' ' = true := by decide
  have hname : IsWord "main" := IsName.isWord (by decide)
  have hcall : wordsOf "CALL".toList = .ok ["CALL"] := by
    have h := (isWord_mnemonic .call).wordsOf_append isGap_nil wordsOf_nil
    rw [List.append_nil] at h
    exact h
  have hmain : wordsOf ("main".toList ++ '\n' :: "CALL".toList) = .ok ["main", "CALL"] := by
    refine hname.wordsOf_append (isGap_cons hblank _) ?_
    rw [wordsOf_cons_of_isBlank hblank, hcall]
  have hrest : wordsOf (' ' :: ("main".toList ++ '\n' :: "CALL".toList)) =
      .ok ["main", "CALL"] := by
    rw [wordsOf_cons_of_isBlank hspace, hmain]
  have hload := (isWord_mnemonic .loadLocal).wordsOf_append (isGap_cons hspace _) hrest
  exact (wordsOf_cons_of_isBlank hblank _).trans hload

theorem decode_callMain :
    decode callMain = .ok [.op .loadLocal, .operand "main", .op .call] := by
  rw [decode, split_callMain]
  cbv

/-- A program and the call of its `main` are read as well-nested code. -/
theorem IsCompiled.exists_decode {text : String} (h : IsCompiled text) :
    ∃ code, decode (text ++ callMain) = .ok code ∧
      WellNested SoundCode (IsFunctionBody SoundCode) .whole code := by
  obtain ⟨optimize, linked, rfl, hlinked⟩ := h.exists_linked
  refine ⟨_, Lower.decode_program_append optimize hlinked decode_callMain, ?_⟩
  have hload : SoundCode .loadLocal ["main"] := ⟨by simp, by simp⟩
  have hcall : WellNested SoundCode (IsFunctionBody SoundCode) .whole
      [.op .loadLocal, .operand "main", .op .call] :=
    (WellNested.nil.append_plain hload).append_jump .call
  refine WellNested.append ?_ hcall
  rw [codeOf_eq_flatten]
  refine (Lower.shaped_program optimize linked).wellNested (fun is his hP ↦ ⟨is, his, hP, rfl⟩) ?_
  exact fun i hi ↦ (Lower.allEmitted_program optimize hlinked i hi).sound

/-! ## Sessions -/

/-- Running a compiled program keeps that all functions have compiled bodies, and finds no fault of
the code. -/
theorem keeps_evaluate {text : String} (h : IsCompiled text) (fuel : Nat) (m : Machine) :
    KeepsWell (·.HasBody (IsFunctionBody SoundCode)) False m Machine.root (fun _ ↦ True)
      (evaluate fuel text) := by
  obtain ⟨code, hdecode, hcode⟩ := h.exists_decode
  have hroot : m.IsOpen Machine.root Machine.root := .inl rfl
  unfold evaluate
  simp only [hdecode, checkCode_ok, pure_bind]
  have hmarks : KeepsWell (·.HasBody (IsFunctionBody SoundCode)) False m Machine.root (fun _ ↦ True)
      (modify ({ · with marks := [] })) :=
    ⟨fun hm ↦ .ok ⟨hm.congr rfl rfl rfl rfl rfl False.elim, trivial⟩⟩
  refine hmarks.bind fun _ _ ↦ ?_
  have hrun := (runsKeep discipline_soundCode fuel).run hroot 0 hcode
  refine (hrun.flushed fun _ ↦ trivial).bind fun left _ ↦ ?_
  split
  · exact .fail trivial
  · exact .fail trivial
  · exact (keeps_popOrNull hroot).bind fun _ _ ↦ .pure trivial
  · exact (keeps_popOrNull hroot).bind fun _ _ ↦ .pure trivial

theorem Exec.Keeps.stateAfter {α : Type} {F : ScriptFunction → Prop} {T : Prop} {m : Machine}
    {s : Nat} {E : Stop → Prop} {Q : α → Prop} {x : Exec α} (hx : Keeps F T m s E Q x)
    (hm : m.All F) :
    (x.stateAfter m).All F := by
  have hends := (hx.ends (.refl hm s)).mono (fun _ _ h ↦ h.1) fun _ _ h ↦ h.1
  exact hends.stateAfter.functions

theorem IsSession.all {m : Machine} (h : IsSession m) :
    m.All (·.HasBody (IsFunctionBody SoundCode)) := by
  induction h with
  | start config host => exact all_start config host
  | evaluate _ fuel htext ih => exact (keeps_evaluate htext fuel _).stateAfter ih

/-- **No run of a compiled program finds a fault in its code**, on a machine that has run any
compiled programs before, whether these ended well or not. -/
theorem evaluate_ne_malformed {m : Machine} (hm : IsSession m) {text : String}
    (htext : IsCompiled text) (fuel : Nat) (fault : CodeFault) (m' : Machine) :
    evaluate fuel text m ≠ .error (.error (.malformed fault)) m' := by
  intro h
  have hends := (keeps_evaluate htext fuel m).ends (.refl hm.all Machine.root)
  rw [h] at hends
  cases hends with
  | error hstop => exact hstop.2

/-- A program gives texts a method, and a later one calls it. -/
theorem evaluate_ne_malformed_methods :
    ∃ first second,
      compileSource ⟨[], []⟩ ⟨""⟩ true "string.shout = fn(t) \x7b return t.upper() \x7d" =
        .ok first ∧
      compileSource ⟨[], []⟩ ⟨""⟩ true "console.out('a'.shout())" = .ok second ∧
      ∀ fuel fault m', evaluate fuel second
          ((evaluate 100 first).stateAfter (.start (.standard false) .plain)) ≠
        .error (.error (.malformed fault)) m' := by
  have hcompiled (source : String) (body : Program) (hsource : source.length < UInt64.size)
      (hbody : parseSource source "" = .ok body)
      (hlinked : Link.program ⟨[], []⟩ ⟨""⟩ body = .ok body)
      (hlibraries : Spelling.librariesWritable.stmts body) :
      compileSource ⟨[], []⟩ ⟨""⟩ true source = .ok (textOf (Lower.program true body)) ∧
        IsCompiled (textOf (Lower.program true body)) := by
    have htext : compileSource ⟨[], []⟩ ⟨""⟩ true source =
        .ok (textOf (Lower.program true body)) := by
      rw [compileSource, hbody]
      change compile ⟨[], []⟩ ⟨""⟩ true body = _
      rw [compile, hlinked]
      rfl
    refine ⟨htext, ⟨⟨[], []⟩, ⟨""⟩, true, source, by simp [FileTree.IsSized, FileTree.content?],
      hsource, htext, fun body' linked hbody' hlinked' ↦ ?_⟩⟩
    rw [hbody] at hbody'
    cases hbody'
    rw [hlinked] at hlinked'
    cases hlinked'
    exact hlibraries
  have hfirst := hcompiled "string.shout = fn(t) \x7b return t.upper() \x7d"
    [.assign "string" [(.text "shout", false)] (.function "_" ["t"]
      [.return (some (.call (.member (.name "t") (.text "upper") false) []))])]
    (by decide) (by with_unfolding_all rfl) rfl
    (by simp [Spelling.librariesWritable, Spelling.stmts, Spelling.stmt, Spelling.path,
      Spelling.expr, Spelling.expr?, Spelling.arguments])
  have hsecond := hcompiled "console.out('a'.shout())"
    [.expr (.call (.member (.name "console") (.text "out") false)
      [.call (.member (.text "a") (.text "shout") false) []])]
    (by decide) (by with_unfolding_all rfl) rfl
    (by simp [Spelling.librariesWritable, Spelling.stmts, Spelling.stmt, Spelling.expr,
      Spelling.arguments])
  refine ⟨_, _, hfirst.1, hsecond.1, fun fuel fault m' ↦ ?_⟩
  exact evaluate_ne_malformed (.evaluate (.start _ _) 100 hfirst.2) hsecond.2 fuel fault m'

end GemLang
