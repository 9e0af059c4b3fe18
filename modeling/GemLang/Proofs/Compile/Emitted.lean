import GemLang.Compile
import GemLang.Proofs.Compile.Linked
import GemLang.Proofs.Compile.Pieces

/-!
# What the compiler writes is read back

The code of a program leaves the compiler as text, and the machine reads it as a sequence of words.
Every instruction that lowering emits has as many operands as its opcode takes, each of them a
single word (`Emitted`). So the text of a program decodes to exactly its instructions, whatever its
names and texts are: a variable may be called `ENDIF`, and a text may hold quotes and line ends.

Beyond that, what is pushed can be pushed, and the count of a path of keys is the length of a path
that occurs in the program. Reading does not depend on this; running does.
-/

namespace GemLang

open Bytecode

/-- What a program must be spelled with so that its code can be written. -/
def Spelling.writable (depth : Nat → Prop) : Spelling where
  name := IsName
  library := IsLibraryText
  reflect := True
  depth := depth

/-- The operands of an instruction are sound: what is pushed can be, and a count of keys is a number
that satisfies `depth`, and not zero. -/
structure Sound (depth : Nat → Prop) (op : Opcode) (operands : List String) : Prop where
  push : op = .push → ∀ x ∈ operands, IsPushable x
  storePath : op = .storePath → ∀ x ∈ operands, ∃ n, x = toString (n + 1) ∧ depth (n + 1)

/-- An instruction that lowering emits. -/
structure Bytecode.Instruction.Emitted (depth : Nat → Prop) (i : Instruction) : Prop where
  legible : i.Legible
  sound : i.Satisfies (Sound depth)

namespace Lower

variable {depth : Nat → Prop}

def AllEmitted (depth : Nat → Prop) (ls : List Line) : Prop :=
  ∀ i ∈ instructionsOf ls, i.Emitted depth

theorem allEmitted_nil : AllEmitted depth [] := by simp [AllEmitted]

theorem allEmitted_append {ls ms : List Line} :
    AllEmitted depth (ls ++ ms) ↔ AllEmitted depth ls ∧ AllEmitted depth ms := by
  simp only [AllEmitted, instructionsOf_append, List.forall_mem_append]

theorem AllEmitted.append {ls ms : List Line} (hls : AllEmitted depth ls)
    (hms : AllEmitted depth ms) : AllEmitted depth (ls ++ ms) :=
  allEmitted_append.mpr ⟨hls, hms⟩

theorem allEmitted_block {opener : Instruction} {ls : List Line} :
    AllEmitted depth (block opener ls) ↔ opener.Emitted depth ∧ AllEmitted depth ls := by
  simp only [AllEmitted, instructionsOf_block, List.forall_mem_cons]

theorem emitted_plain {op : Opcode} (hop : op ≠ .function) (hcount : op.operandCount = 0) :
    (Instruction.plain op []).Emitted depth where
  legible := ⟨⟨hop, hcount.symm⟩, by simp [Instruction.operands]⟩
  sound := ⟨by simp, by simp⟩

theorem allEmitted_bare {op : Opcode} (hop : op ≠ .function := by decide)
    (hcount : op.operandCount = 0 := by decide) : AllEmitted depth (bare op) := by
  simpa [AllEmitted] using emitted_plain hop hcount

theorem allEmitted_unary {op : Opcode} {x : String} (hx : IsWord x)
    (hop : op ≠ .function := by decide) (hpush : op ≠ .push := by decide)
    (hpath : op ≠ .storePath := by decide) (hcount : op.operandCount = 1 := by decide) :
    AllEmitted depth (unary op x) := by
  have h : (Instruction.plain op [x]).Emitted depth :=
    ⟨⟨⟨hop, hcount.symm⟩, by simpa [Instruction.operands] using hx⟩,
      ⟨fun h ↦ absurd h hpush, fun h ↦ absurd h hpath⟩⟩
  simpa [AllEmitted] using h

theorem allEmitted_push {x : String} (hx : IsWord x) (hpush : IsPushable x) :
    AllEmitted depth (unary .push x) := by
  have h : (Instruction.plain .push [x]).Emitted depth :=
    ⟨⟨⟨by decide, rfl⟩, by simpa [Instruction.operands] using hx⟩,
      ⟨fun _ ↦ by simpa using hpush, by simp⟩⟩
  simpa [AllEmitted] using h

theorem allEmitted_pushName {x : String} (h : IsName x) : AllEmitted depth (unary .push x) :=
  allEmitted_push h.isWord h.isPushable

theorem allEmitted_name {op : Opcode} {x : String} (h : IsName x)
    (hop : op ≠ .function := by decide) (hpush : op ≠ .push := by decide)
    (hpath : op ≠ .storePath := by decide) (hcount : op.operandCount = 1 := by decide) :
    AllEmitted depth (unary op x) :=
  allEmitted_unary h.isWord hop hpush hpath hcount

/-! ## The pieces of lowering -/

theorem allEmitted_branchLines {op : Opcode} {c b : List Line} (hc : AllEmitted depth c)
    (hb : AllEmitted depth b) (hop : op ≠ .function := by decide)
    (hcount : op.operandCount = 0 := by decide) : AllEmitted depth (branchLines op c b) := by
  simp only [branchLines, allEmitted_append, allEmitted_block]
  exact ⟨⟨⟨emitted_plain hop hcount, hc⟩, emitted_plain (by decide) rfl, hb⟩, allEmitted_bare⟩

theorem allEmitted_otherwiseLines {b : List Line} (hb : AllEmitted depth b) :
    AllEmitted depth (otherwiseLines b) := by
  simp only [otherwiseLines, allEmitted_append, allEmitted_block]
  exact ⟨⟨emitted_plain (by decide) rfl, hb⟩, allEmitted_bare⟩

theorem allEmitted_loopLines {b : List Line} (hb : AllEmitted depth b) :
    AllEmitted depth (loopLines b) := by
  simp only [loopLines, allEmitted_append, allEmitted_block]
  exact ⟨⟨emitted_plain (by decide) rfl, hb⟩, allEmitted_bare⟩

theorem allEmitted_functionLines {name : String} {params : List String} {b : List Line}
    (hname : IsName name) (hparams : ∀ x ∈ params, IsName x) (hb : AllEmitted depth b) :
    AllEmitted depth (functionLines name params b) := by
  have hheader : (Instruction.header name params).Emitted depth := by
    refine ⟨⟨fun hcolon ↦ (hparams _ hcolon).ne_colon rfl, ?_⟩, trivial⟩
    exact List.forall_mem_cons.mpr ⟨hname.isWord, fun x hx ↦ (hparams x hx).isWord⟩
  simp only [functionLines, allEmitted_append, allEmitted_block]
  exact ⟨⟨hheader, hb⟩, allEmitted_bare⟩

theorem allEmitted_eachLines {hidden key value : String} {iterator body : List Line}
    (hhidden : IsWord hidden) (hkey : IsName key) (hvalue : IsName value)
    (hiterator : AllEmitted depth iterator) (hbody : AllEmitted depth body) :
    AllEmitted depth (eachLines hidden key value iterator body) := by
  simp only [eachLines, allEmitted_append]
  refine ⟨⟨⟨hiterator, allEmitted_unary hhidden⟩, allEmitted_loopLines ?_⟩,
    allEmitted_unary hhidden⟩
  simp only [allEmitted_append]
  refine ⟨⟨⟨⟨⟨allEmitted_unary hhidden, allEmitted_bare⟩, allEmitted_name hkey⟩,
    allEmitted_name hvalue⟩, allEmitted_branchLines ?_ allEmitted_bare⟩, hbody⟩
  simp only [allEmitted_append]
  exact ⟨⟨allEmitted_name hkey, allEmitted_name isName_null⟩, allEmitted_bare⟩

theorem allEmitted_define {name path : String} (hname : IsName name) (hpath : IsLibraryText path) :
    AllEmitted depth [⟨0, .plain .define [name, libraryOperand path]⟩] := by
  have hdefine : (Instruction.plain .define [name, libraryOperand path]).Emitted depth := by
    refine ⟨⟨⟨by decide, rfl⟩, ?_⟩, ⟨by simp, by simp⟩⟩
    simpa [Instruction.operands] using ⟨hname.isWord, isWord_libraryOperand hpath⟩
  simpa [AllEmitted] using hdefine

theorem allEmitted_storePath {n : Nat} (hn : depth (n + 1)) :
    AllEmitted depth (unary .storePath (toString (n + 1))) := by
  have hstore : (Instruction.plain .storePath [toString (n + 1)]).Emitted depth := by
    refine ⟨⟨⟨by decide, rfl⟩, ?_⟩, ⟨by simp, fun _ ↦ ?_⟩⟩
    · simpa [Instruction.operands] using isWord_toString (n + 1)
    · intro x hx
      rw [List.mem_singleton.mp hx]
      exact ⟨n, rfl, hn⟩
  simpa [AllEmitted] using hstore

/-! ## Trees -/

theorem pieces_allEmitted (depth : Nat → Prop) :
    Pieces (.writable depth) fun _ ↦ AllEmitted depth where
  null := isName_null
  bool := isName_bool
  nil := allEmitted_nil
  append := .append
  bare op hrole hcount := by
    refine allEmitted_bare ?_ hcount
    rintro rfl
    rcases hrole with hrole | hrole <;> cases hrole
  push := allEmitted_push
  pushName := allEmitted_pushName
  name {op x} hop hx := by
    simp only [List.mem_cons, List.not_mem_nil, or_false] at hop
    rcases hop with rfl | rfl | rfl | rfl <;> exact allEmitted_name hx
  storePath := allEmitted_storePath
  define := allEmitted_define
  branch hc hb hlater := (allEmitted_branchLines hc hb).append hlater
  noChain := allEmitted_nil
  elif hc hb hlater := (allEmitted_branchLines hc hb).append hlater
  otherwise := allEmitted_otherwiseLines
  loop := allEmitted_loopLines
  function := allEmitted_functionLines
  each n hkey hvalue hi hb := allEmitted_eachLines (isWord_hiddenName n) hkey hvalue hi hb

variable (optimize : Bool)

theorem emits_expr (e : Expr) (h : (Spelling.writable depth).expr e) :
    Yields (AllEmitted depth) (expr optimize e) :=
  (pieces_allEmitted depth).expr optimize e h

theorem emits_stmts (ss : List Stmt) (h : (Spelling.writable depth).stmts ss) :
    Yields (AllEmitted depth) (stmts optimize ss) :=
  (pieces_allEmitted depth).stmts optimize ss h

theorem allEmitted_program {body : Program} (h : (Spelling.writable depth).stmts body) :
    AllEmitted depth (program optimize body) := by
  have hmain : IsName "main" := by decide
  rw [program, allEmitted_append]
  exact ⟨allEmitted_functionLines hmain (by simp) ((emits_stmts optimize body h).run 0),
    allEmitted_name hmain⟩

/-- The text of a program decodes to its code, with whatever text comes after it. -/
theorem decode_program_append {body : Program} (h : (Spelling.writable depth).stmts body)
    {text : String} {code : Code} (hcode : decode text = .ok code) :
    decode (textOf (program optimize body) ++ text) =
      .ok (codeOf (program optimize body) ++ code) := by
  refine decode_textOf_append (fun l hl ↦ ?_) hcode
  exact (allEmitted_program optimize h _ (List.mem_map.mpr ⟨l, hl, rfl⟩)).legible

end Lower

/-! ## Compiling -/

/-- The spelling of a program that stands alone: it reflects nothing, and the libraries it uses from
the file `origin` have paths that can be written. -/
def Spelling.standalone (t : FileTree) (origin : Path) : Spelling where
  name _ := True
  library p := IsLibraryText (Link.library t origin p)
  reflect := False
  depth _ := True

/-- A program that was parsed and stands alone is linked without a fault, and can be written. -/
theorem exists_linked {source file : String} {body : Program}
    (hbody : parseSource source file = .ok body) {t : FileTree} {origin : Path}
    (halone : (Spelling.standalone t origin).stmts body) :
    ∃ linked, Link.program t origin body = .ok linked ∧
      (Spelling.writable fun _ ↦ True).stmts linked := by
  have hparsed := (ensures_parseSource source file).of_eq_ok hbody
  let r : Resolver :=
    ⟨fun path names ↦ Link.inline t origin [t.canonical origin] path names, Link.library t origin⟩
  let named : Spelling := { Spelling.standalone t origin with name := IsName }
  have hnamed : Spelling.Joins (.parsed (source.length + 1)) (.standalone t origin) named :=
    ⟨fun h _ ↦ h, fun _ h ↦ h, fun _ h ↦ h, fun _ h ↦ h⟩
  have hr : r.Carries (fun _ ↦ False) named (Spelling.writable fun _ ↦ True) :=
    ⟨id, id, fun h ↦ absurd h id, fun _ ↦ trivial⟩
  have hdelivers := Resolver.delivers_stmts hr body (hnamed.stmts body hparsed halone)
  change Delivers _ _ (Link.program t origin body) at hdelivers
  cases hlinked : Link.program t origin body with
  | ok linked =>
    rw [hlinked] at hdelivers
    cases hdelivers with
    | ok h => exact ⟨linked, rfl, h⟩
  | error e =>
    rw [hlinked] at hdelivers
    cases hdelivers with
    | error h => exact absurd h id

theorem Lower.shaped_program (optimize : Bool) (body : Program) :
    Shaped (.body false) (program optimize body) := by
  have hbody := (shaped_stmts optimize body (t := false) (by simp)).run 0
  exact shaped_bind "main" (.inl rfl) (shaped_functionLines hbody)

/-- **The text of a compiled program is read as the code it was written from.** Whatever names and
texts a parsed program has, it compiles if it stands alone, its text decodes to the opcodes and
operands of its instructions in their order, and every block in it ends where it was written to. -/
theorem decode_compile {source file : String} {body : Program}
    (hbody : parseSource source file = .ok body) (t : FileTree) (origin : Path)
    (halone : (Spelling.standalone t origin).stmts body) (optimize : Bool) :
    ∃ linked, Link.program t origin body = .ok linked ∧
      compile t origin optimize body = .ok (textOf (Lower.program optimize linked)) ∧
      decode (textOf (Lower.program optimize linked)) =
        .ok (codeOf (Lower.program optimize linked)) ∧
      WellNested (fun _ _ ↦ True) (fun _ ↦ True) .whole
        (codeOf (Lower.program optimize linked)) := by
  obtain ⟨linked, hlinked, hwritable⟩ := exists_linked hbody halone
  refine ⟨linked, hlinked, ?_, ?_, ?_⟩
  · rw [compile, hlinked]
    rfl
  · have hnothing : decode "" = .ok [] := by cbv
    have h := Lower.decode_program_append optimize hwritable hnothing
    simpa using h
  · rw [codeOf_eq_flatten]
    refine (Lower.shaped_program optimize linked).wellNested (fun _ _ _ ↦ trivial) fun i _ ↦ ?_
    cases i <;> trivial

/-- A variable called like the end of a conditional, with a quote and a line end in its text. -/
theorem decode_compile_endif :
    ∃ body, parseSource "var ENDIF = 'a \" ENDIF\nRET'" "" = .ok body ∧
      (Spelling.standalone ⟨[], []⟩ ⟨""⟩).stmts body ∧
      ∃ linked, Link.program ⟨[], []⟩ ⟨""⟩ body = .ok linked ∧
        compile ⟨[], []⟩ ⟨""⟩ true body = .ok (textOf (Lower.program true linked)) ∧
        decode (textOf (Lower.program true linked)) = .ok (codeOf (Lower.program true linked)) ∧
        WellNested (fun _ _ ↦ True) (fun _ ↦ True) .whole (codeOf (Lower.program true linked)) := by
  have hbody : parseSource "var ENDIF = 'a \" ENDIF\nRET'" "" =
      .ok [.var "ENDIF" (.text "a \" ENDIF\nRET")] := by cbv
  have halone : (Spelling.standalone ⟨[], []⟩ ⟨""⟩).stmts
      [.var "ENDIF" (.text "a \" ENDIF\nRET")] := ⟨⟨trivial, trivial⟩, trivial⟩
  exact ⟨_, hbody, halone, decode_compile hbody _ _ halone true⟩

end GemLang
