import GemLang.Proofs.Machine.Session
import GemLang.Proofs.Machine.Structured

/-!
# Searches find their own end

The machine finds the end of a condition or of a body by counting, with no regard to which
instruction was written to end it. In compiled code the two are the same: every search ends where
its own construct does (`searches_find_own_end`).

What was written to end what can be read off the lines. Lowering indents whatever stands inside a
condition or a body, so the end of it is the first line that is no deeper than the line it started
with. Lines are *delimited* if there is such an end after every line that a search starts with, of
the right kind, and if the code on the way is well nested, so that counting passes over it. This is
kept by everything that lowering does with lines.
-/

namespace GemLang

open Bytecode
open Structured (NestedLines)

namespace Bytecode

/-! ## Searches -/

/-- What the machine looks for: the end of a condition, or of a block of some family. -/
inductive Search where
  | condition
  | block (family : Family)

def Search.cut : Search → Stretch → Except CodeFault (Stretch × Stretch)
  | .condition => Stretch.condition
  | .block family => Stretch.block family

def Search.close : Search → Opcode
  | .condition => .thenOp
  | .block family => family.close

/-- What the machine looks for behind an instruction. -/
def Opcode.search? : Opcode → Option Search
  | .ifOp | .elifOp => some .condition
  | .thenOp | .elseOp => some (.block .branch)
  | .loop => some (.block .loop)
  | .function => some (.block .function)
  | _ => none

theorem Opcode.search?_eq_none {op : Opcode} (h : op.role = .plain ∨ op.isJump = true) :
    op.search? = none := by
  cases op <;> simp_all [search?, role, isJump]

theorem Opcode.operandCount_of_search? {op : Opcode} {search : Search}
    (h : op.search? = some search) : op.operandCount = 0 := by
  unfold search? at h
  split at h
  all_goals first | rfl | cases h

def Instruction.opcode : Instruction → Opcode
  | .plain op _ => op
  | .header _ _ => .function

/-- The atoms of some code from the index `start` on, before the index `stop`. -/
def Stretch.between (code : Code) (start stop : Nat) : Stretch :=
  ⟨start, (code.take stop).drop start⟩

theorem Stretch.between_append (before rest : Code) (count : Nat) :
    Stretch.between (before ++ rest) before.length (before.length + count) =
      ⟨before.length, rest.take count⟩ := by
  rw [Stretch.between, List.drop_take, List.drop_left, Nat.add_sub_cancel_left]

/-- In some code, the search that starts at the index `start` finds its end at the index `stop`.
There may be more code after it, and the range in which it looks may end anywhere behind `stop`. -/
def Search.Finds (search : Search) (code : Code) (start stop : Nat) : Prop :=
  ∀ more range, stop < range → search.cut (.between (code ++ more) start range) =
    .ok (.between (code ++ more) start stop, .between (code ++ more) (stop + 1) range)

section

variable {P : Opcode → List String → Prop} {B : Code → Prop} {inside : Code}

theorem WellNested.cut_eq (h : WellNested P B .whole inside) (search : Search) (position : Nat)
    (rest : Code) : search.cut ⟨position, inside ++ Atom.op search.close :: rest⟩ =
      .ok (⟨position, inside⟩, ⟨position + inside.length + 1, rest⟩) := by
  cases search with
  | condition => exact h.condition_eq position rest
  | block family => exact h.block_eq family position rest

/-- A search passes over well-nested code, and ends right after it. -/
theorem WellNested.finds (h : WellNested P B .whole inside) (search : Search)
    (before after : Code) :
    search.Finds (before ++ (inside ++ Atom.op search.close :: after)) before.length
      (before ++ inside).length := by
  intro more range hrange
  obtain ⟨count, rfl⟩ := Nat.exists_eq_add_of_lt hrange
  -- the ranges are counted from the start of the code, so it is split where each of them starts
  have hrange := Stretch.between_append before (inside ++ Atom.op search.close :: (after ++ more))
    (inside.length + (count + 1))
  have hinside := Stretch.between_append before (inside ++ Atom.op search.close :: (after ++ more))
    inside.length
  have hbehind := Stretch.between_append (before ++ (inside ++ [Atom.op search.close]))
    (after ++ more) count
  have hcut := h.cut_eq search before.length ((after ++ more).take count)
  rw [List.take_length_add_append, List.take_succ_cons] at hrange
  rw [List.take_left] at hinside
  rw [← hrange, ← hinside] at hcut
  simp only [List.length_append, List.length_singleton, List.append_assoc, List.cons_append,
    List.nil_append, Nat.add_assoc, Nat.add_comm count] at hcut hbehind ⊢
  rw [hcut, hbehind]

end

/-! ## Atoms and lines -/

/-- An opcode other than the colon of a function is the first atom of its instruction. -/
theorem Instruction.eq_nil_of_code_eq {i : Instruction} {front rest : Code} {op : Opcode}
    (h : i.code = front ++ Atom.op op :: rest) (hop : op ≠ .colon) :
    front = [] ∧ i.opcode = op := by
  cases front with
  | nil =>
    cases i with
    | plain => exact ⟨rfl, Atom.op.inj (List.cons.inj h).1⟩
    | header => exact ⟨rfl, Atom.op.inj (List.cons.inj h).1⟩
  | cons a front =>
    cases i with
    | plain op' operands =>
      have htail : operands.map Atom.operand = front ++ Atom.op op :: rest := (List.cons.inj h).2
      have hmem : Atom.op op ∈ operands.map Atom.operand := by simp [htail]
      simp at hmem
    | header name params =>
      have htail : .operand name :: (params.map Atom.operand ++ [Atom.op .colon]) =
          front ++ Atom.op op :: rest := (List.cons.inj h).2
      have hmem : Atom.op op ∈ .operand name :: (params.map Atom.operand ++ [Atom.op .colon]) := by
        simp [htail]
      simp [hop] at hmem

/-- An opcode other than the colon of a function stands first on its line. -/
theorem exists_line_of_codeOf_eq {ls : List Line} {front rest : Code} {op : Opcode}
    (h : codeOf ls = front ++ Atom.op op :: rest) (hop : op ≠ .colon) : ∃ before opener after,
      ls = before ++ opener :: after ∧ codeOf before = front ∧ opener.instruction.opcode = op := by
  induction ls generalizing front with
  | nil => simp at h
  | cons l ls ih =>
    rw [codeOf_cons] at h
    rcases List.append_eq_append_iff.mp h with ⟨front', rfl, hls⟩ | ⟨inside, hl, hrest⟩
    · obtain ⟨before, opener, after, rfl, hbefore, hopener⟩ := ih hls
      exact ⟨l :: before, opener, after, rfl, by rw [codeOf_cons, hbefore], hopener⟩
    · cases inside with
      | nil =>
        obtain ⟨before, opener, after, rfl, hbefore, hopener⟩ := @ih [] hrest.symm
        refine ⟨l :: before, opener, after, rfl, ?_, hopener⟩
        rw [codeOf_cons, hbefore, hl, List.append_nil, List.append_nil]
      | cons a inside =>
        obtain ⟨rfl, -⟩ := List.cons.inj hrest
        obtain ⟨rfl, hopener⟩ := Instruction.eq_nil_of_code_eq hl hop
        exact ⟨[], l, ls, rfl, rfl, hopener⟩

end Bytecode

namespace Lower

/-! ## Delimited lines -/

/-- The lines after `opener` start with those that it opens: deeper ones, whose code is well nested,
and then the line that was written to end them. -/
structure Encloses (opener : Line) (search : Search) (tail inside after : List Line) : Prop where
  tail_eq : tail = inside ++ ⟨opener.depth, .plain search.close []⟩ :: after
  deeper : ∀ l ∈ inside, opener.depth < l.depth
  nested : NestedLines .whole inside

/-- After every line that a search starts with stands what it opens. -/
def Delimited (ls : List Line) : Prop :=
  ∀ (before tail : List Line) (opener : Line) (search : Search), ls = before ++ opener :: tail →
    opener.instruction.opcode.search? = some search →
    ∃ inside after, Encloses opener search tail inside after

section

variable {ls ms : List Line} {i : Instruction} {search : Search}

theorem delimited_nil : Delimited [] := by
  intro before tail opener _ heq
  simp at heq

theorem delimited_line (hsearch : i.opcode.search? = none) (depth : Nat) :
    Delimited [⟨depth, i⟩] := by
  intro before tail opener search heq hsome
  have hmem : opener ∈ [⟨depth, i⟩] := by simp [heq]
  rw [List.mem_singleton.mp hmem, hsearch] at hsome
  cases hsome

theorem Delimited.append (hls : Delimited ls) (hms : Delimited ms) : Delimited (ls ++ ms) := by
  intro before tail opener search heq hsearch
  rcases List.append_eq_append_iff.mp heq with ⟨before', rfl, hms'⟩ | ⟨rest, hls', hrest⟩
  · exact hms before' tail opener search hms' hsearch
  · cases rest with
    | nil => exact hms [] tail opener search hrest.symm hsearch
    | cons l rest =>
      obtain ⟨rfl, rfl⟩ := List.cons.inj hrest
      obtain ⟨inside, after, h⟩ := hls before rest opener search hls' hsearch
      exact ⟨inside, after ++ ms, by simp [h.tail_eq], h.deeper, h.nested⟩

theorem Delimited.indent (hls : Delimited ls) : Delimited (indent ls) := by
  intro before tail opener search heq hsearch
  obtain ⟨before', rest, rfl, -, hrest⟩ := List.map_eq_append_iff.mp heq
  obtain ⟨opener', tail', rfl, rfl, rfl⟩ := List.map_eq_cons_iff.mp hrest
  obtain ⟨inside, after, h⟩ := hls before' tail' opener' search rfl hsearch
  refine ⟨Bytecode.indent inside, Bytecode.indent after, ?_, ?_, ?_⟩
  · simp [h.tail_eq, Bytecode.indent]
  · simpa [Bytecode.indent] using h.deeper
  · rw [NestedLines, codeOf_indent]
    exact h.nested

theorem Delimited.block (hls : Delimited ls) (hnested : NestedLines .whole ls)
    (hsearch : i.opcode.search? = some search)
    (hms : Delimited (⟨0, .plain search.close []⟩ :: ms)) :
    Delimited (block i ls ++ ⟨0, .plain search.close []⟩ :: ms) := by
  intro before tail opener search' heq hsearch'
  cases before with
  | nil =>
    obtain ⟨rfl, rfl⟩ := List.cons.inj heq
    obtain rfl := Option.some.inj (hsearch.symm.trans hsearch')
    refine ⟨Bytecode.indent ls, ms, rfl, by simp [Bytecode.indent], ?_⟩
    rw [NestedLines, codeOf_indent]
    exact hnested
  | cons l before =>
    exact (hls.indent.append hms) before tail opener search' (List.cons.inj heq).2 hsearch'

end

/-! ## The pieces of lowering -/

/-- Delimited lines of well-nested code. -/
structure DelimitedPart (part : Part) (ls : List Line) : Prop where
  delimited : Delimited ls
  nested : NestedLines part ls

section

variable {b c later : List Line}

theorem DelimitedPart.append (hb : DelimitedPart .whole b) (hc : DelimitedPart .whole c) :
    DelimitedPart .whole (b ++ c) :=
  ⟨hb.delimited.append hc.delimited, hb.nested.append hc.nested⟩

theorem delimited_bare (op : Opcode) (hrole : op.role = .plain ∨ op.isJump = true)
    (hcount : op.operandCount = 0) : DelimitedPart .whole (bare op) := by
  have hsearch : (Instruction.plain op []).opcode.search? = none := Opcode.search?_eq_none hrole
  refine ⟨delimited_line hsearch 0, ?_⟩
  rcases hrole with hrole | hjump
  · exact Structured.nested_bare op hrole hcount.symm
  · exact Structured.nested_jump op hjump

theorem delimited_unary (op : Opcode) (x : String) (hrole : op.role = .plain := by rfl)
    (hcount : 1 = op.operandCount := by rfl) : DelimitedPart .whole (unary op x) := by
  have hsearch : (Instruction.plain op [x]).opcode.search? = none :=
    Opcode.search?_eq_none (.inl hrole)
  exact ⟨delimited_line hsearch 0, Structured.nested_unary op x hrole hcount⟩

/-- A body is delimited by the opcode that closes its family of blocks. -/
theorem DelimitedPart.closed (hb : DelimitedPart .whole b) (i : Instruction) (family : Family)
    (hi : i.opcode.search? = some (.block family)) :
    Delimited (block i b ++ bare family.close) := by
  have hclose : (Instruction.plain family.close []).opcode.search? = none := by
    cases family <;> rfl
  exact hb.delimited.block hb.nested hi (delimited_line hclose 0)

theorem delimited_branchLines {op : Opcode} (hop : op.search? = some .condition)
    (hc : DelimitedPart .whole c) (hb : DelimitedPart .whole b) :
    Delimited (branchLines op c b) := by
  have hbody := hb.closed (.plain .thenOp []) .branch rfl
  have hcondition : (Instruction.plain op []).opcode.search? = some .condition := hop
  rw [branchLines, List.append_assoc]
  exact hc.delimited.block hc.nested hcondition hbody

theorem delimited_branch (hc : DelimitedPart .whole c) (hb : DelimitedPart .whole b)
    (hlater : DelimitedPart .chain later) :
    DelimitedPart .whole (branchLines .ifOp c b ++ later) :=
  ⟨(delimited_branchLines rfl hc hb).append hlater.delimited,
    Structured.nested_branchLines hc.nested hb.nested hlater.nested⟩

theorem delimited_noChain : DelimitedPart .chain [] := ⟨delimited_nil, .chainEnd⟩

theorem delimited_elif (hc : DelimitedPart .whole c) (hb : DelimitedPart .whole b)
    (hlater : DelimitedPart .chain later) :
    DelimitedPart .chain (branchLines .elifOp c b ++ later) := by
  refine ⟨(delimited_branchLines rfl hc hb).append hlater.delimited, ?_⟩
  rw [NestedLines, Structured.codeOf_branchLines]
  exact .chainElif hc.nested hb.nested hlater.nested

theorem delimited_otherwise (hb : DelimitedPart .whole b) :
    DelimitedPart .chain (otherwiseLines b) := by
  refine ⟨hb.closed (.plain .elseOp []) .branch rfl, ?_⟩
  simpa [NestedLines, otherwiseLines, Instruction.code] using WellNested.chainElse hb.nested

theorem delimited_loop (hb : DelimitedPart .whole b) : DelimitedPart .whole (loopLines b) :=
  ⟨hb.closed (.plain .loop []) .loop rfl, Structured.nested_loopLines hb.nested⟩

theorem delimited_function (name : String) (params : List String) (hb : DelimitedPart .whole b) :
    DelimitedPart .whole (functionLines name params b) :=
  ⟨hb.closed (.header name params) .function rfl, Structured.nested_functionLines hb.nested⟩

theorem delimited_breakWhen (hc : DelimitedPart .whole c) : DelimitedPart .whole (breakWhen c) := by
  have hbreak := delimited_branch hc (delimited_bare .breakOp (.inr rfl) rfl) delimited_noChain
  rwa [List.append_nil] at hbreak

theorem delimited_each (hidden key value : String) (hc : DelimitedPart .whole c)
    (hb : DelimitedPart .whole b) : DelimitedPart .whole (eachLines hidden key value c b) := by
  have hdone := ((delimited_unary .loadLocal key).append (delimited_unary .loadLocal "null")).append
    (delimited_bare .eq (.inl rfl) rfl)
  have hcall := ((delimited_unary .loadLocal hidden).append
    (delimited_bare .call (.inr rfl) rfl)).append (delimited_unary .declareLocal key)
  have hpass := ((hcall.append (delimited_unary .declareLocal value)).append
    (delimited_breakWhen hdone)).append hb
  exact ((hc.append (delimited_unary .declareLocal hidden)).append (delimited_loop hpass)).append
    (delimited_unary .delete hidden)

end

/-! ## Trees -/

theorem pieces_delimited (depth : Nat → Prop) : Pieces (.writable depth) DelimitedPart where
  null := isName_null
  bool := isName_bool
  nil := ⟨delimited_nil, .nil⟩
  append := .append
  bare := delimited_bare
  push _ _ := delimited_unary .push _
  pushName _ := delimited_unary .push _
  name hop _ := by
    simp only [List.mem_cons, List.not_mem_nil, or_false] at hop
    rcases hop with rfl | rfl | rfl | rfl <;> exact delimited_unary _ _
  storePath _ := delimited_unary .storePath _
  define {name path} _ _ :=
    ⟨delimited_line rfl 0, @WellNested.plain _ _ .define [name, libraryOperand path] [] rfl rfl
      trivial .nil⟩
  branch := delimited_branch
  noChain := delimited_noChain
  elif := delimited_elif
  otherwise := delimited_otherwise
  loop := delimited_loop
  function _ _ := delimited_function _ _
  each _ _ _ := delimited_each _ _ _

/-- **The lines of a program are delimited.** -/
theorem delimited_program {depth : Nat → Prop} (optimize : Bool) {body : Program}
    (h : (Spelling.writable depth).stmts body) : Delimited (program optimize body) := by
  have hbody := ((pieces_delimited depth).stmts optimize body h).run 0
  have hmain := delimited_function "main" [] hbody
  exact (hmain.append (delimited_unary .declareLocal "main")).delimited

end Lower

/-! ## Programs -/

/-- Every search in the code of `ls` finds its own end. -/
structure FindsOwnEnds (ls : List Line) : Prop where
  /-- An opcode that a search starts behind is alone on a line, or begins the header of a
  function. -/
  starts : ∀ (front rest : Code) (op : Opcode) (search : Search),
    codeOf ls = front ++ Atom.op op :: rest → op.search? = some search →
    ∃ (before tail : List Line) (opener : Line), ls = before ++ opener :: tail ∧
      codeOf before = front ∧ (opener.instruction = .plain op [] ∨
        op = .function ∧ ∃ name params, opener.instruction = .header name params)
  /-- The search behind the instruction of a line ends at the first line that is no deeper, and that
  is the one with the opcode that is looked for. -/
  ends : ∀ (before tail : List Line) (opener : Line) (search : Search),
    ls = before ++ opener :: tail → opener.instruction.opcode.search? = some search →
    ∃ inside after : List Line,
      tail = inside ++ ⟨opener.depth, .plain search.close []⟩ :: after ∧
      (∀ l ∈ inside, opener.depth < l.depth) ∧
      search.Finds (codeOf ls) (codeOf (before ++ [opener])).length
        (codeOf (before ++ opener :: inside)).length

/-- A legible instruction that a search starts behind is an opcode alone, or the header of a
function. -/
theorem Bytecode.Instruction.Legible.eq_of_search? {i : Instruction} (h : i.Legible)
    {search : Search} (hsearch : i.opcode.search? = some search) :
    i = .plain i.opcode [] ∨ i.opcode = .function ∧ ∃ name params, i = .header name params := by
  cases i with
  | header name params => exact .inr ⟨rfl, name, params, rfl⟩
  | plain op operands =>
    obtain ⟨hfunction, hlength⟩ := h.complete
    have hcount : op.operandCount = 0 := Opcode.operandCount_of_search? hsearch
    rw [hcount, List.length_eq_zero_iff] at hlength
    subst hlength
    exact .inl rfl

theorem Lower.Delimited.findsOwnEnds {ls : List Line} (h : Delimited ls)
    (hlegible : ∀ l ∈ ls, l.instruction.Legible) : FindsOwnEnds ls where
  starts front rest op search hcode hsearch := by
    have hcolon : op ≠ .colon := by
      rintro rfl
      cases hsearch
    obtain ⟨before, opener, tail, rfl, hbefore, rfl⟩ := exists_line_of_codeOf_eq hcode hcolon
    have hopener := (hlegible opener (by simp)).eq_of_search? hsearch
    exact ⟨before, tail, opener, rfl, hbefore, hopener⟩
  ends before tail opener search hls hsearch := by
    obtain ⟨inside, after, rfl, hdeeper, hnested⟩ := h before tail opener search hls hsearch
    have hfinds := WellNested.finds hnested search (codeOf (before ++ [opener])) (codeOf after)
    refine ⟨inside, after, rfl, hdeeper, ?_⟩
    simpa [hls, Instruction.code] using hfinds

/-- **Searches find their own end.** A compiled program is read as the code of its lines, also with
the call of `main` behind it, and every search in it finds its own end, if the paths of its
libraries can be written. -/
theorem searches_find_own_end {t : FileTree} {origin : Path} {optimize : Bool}
    {source text : String} (htext : compileSource t origin optimize source = .ok text)
    (hlibraries : ∀ body linked, parseSource source origin.text = .ok body →
      Link.program t origin body = .ok linked → Spelling.librariesWritable.stmts linked) :
    ∃ body linked, parseSource source origin.text = .ok body ∧
      Link.program t origin body = .ok linked ∧
      text = textOf (Lower.program optimize linked) ∧
      decode text = .ok (codeOf (Lower.program optimize linked)) ∧
      decode (text ++ callMain) = .ok (codeOf (Lower.program optimize linked) ++
        [.op .loadLocal, .operand "main", .op .call]) ∧
      FindsOwnEnds (Lower.program optimize linked) := by
  obtain ⟨body, linked, hbody, hlinked, rfl⟩ := compileSource_eq_ok_iff.mp htext
  have hjoins :
      Spelling.Joins (.counted fun _ ↦ True) .librariesWritable (.writable fun _ ↦ True) :=
    ⟨fun h _ ↦ h, fun _ h ↦ h, fun h _ ↦ h, fun h _ ↦ h⟩
  have hspelled := hjoins.stmts linked
    (Link.counted_of_program (fun _ _ _ _ _ _ _ ↦ trivial) (fun _ _ ↦ trivial) hbody hlinked)
    (hlibraries body linked hbody hlinked)
  have hlegible (l : Line) (hl : l ∈ Lower.program optimize linked) : l.instruction.Legible :=
    (Lower.allEmitted_program optimize hspelled _ (List.mem_map.mpr ⟨l, hl, rfl⟩)).legible
  have hnothing : decode "" = .ok [] := by cbv
  have hdecode := decode_textOf_append hlegible hnothing
  rw [String.append_empty, List.append_nil] at hdecode
  exact ⟨body, linked, hbody, hlinked, rfl, hdecode, decode_textOf_append hlegible decode_callMain,
    (Lower.delimited_program optimize hspelled).findsOwnEnds hlegible⟩

/-- The condition of a conditional is a call of a function that holds another conditional, with a
variable called `ENDIF`. -/
theorem searches_find_own_end_nested :
    let source := "if fn() \x7b if ENDIF \x7b \x7d \x7d() \x7b \x7d"
    ∃ text code, compileSource ⟨[], []⟩ ⟨""⟩ true source = .ok text ∧ decode text = .ok code ∧
      code[3]? = some (.op .ifOp) ∧ code[15]? = some (.op .thenOp) ∧
      Search.condition.Finds code 4 15 := by
  intro source
  let body : Program :=
    [.cond (.call (.function "_" [] [.cond (.name "ENDIF") [] [] none]) []) [] [] none]
  have hbody : parseSource source "" = .ok body := by cbv
  have hlinked : Link.program ⟨[], []⟩ ⟨""⟩ body = .ok body := rfl
  have htext := compileSource_eq_ok_iff.mpr
    ⟨body, body, hbody, hlinked, (rfl : textOf (Lower.program true body) = _)⟩
  obtain ⟨body', linked, hbody', hlinked', -, hdecode, -, hfinds⟩ :=
    searches_find_own_end htext fun body' linked hbody' hlinked' ↦ by
      obtain rfl := Except.ok.inj (hbody.symm.trans hbody')
      obtain rfl := Except.ok.inj (hlinked.symm.trans hlinked')
      simp [body, Spelling.librariesWritable, Spelling.stmts, Spelling.stmt, Spelling.expr,
        Spelling.arguments, Spelling.branches, Spelling.stmts?]
  obtain rfl := Except.ok.inj (hbody.symm.trans hbody')
  obtain rfl := Except.ok.inj (hlinked.symm.trans hlinked')
  refine ⟨_, _, htext, hdecode, by decide +kernel, by decide +kernel, ?_⟩
  have hlines : ∃ tail, Lower.program true body =
      [⟨0, .header "main" []⟩] ++ ⟨1, .plain .ifOp []⟩ :: tail ∧
        (codeOf (tail.takeWhile (1 < ·.depth))).length = 11 := ⟨_, by rfl, by decide +kernel⟩
  obtain ⟨tail, hlines, hlength⟩ := hlines
  obtain ⟨inside, after, htail, hdeeper, hends⟩ := hfinds.ends _ _ _ .condition hlines rfl
  have hinside : tail.takeWhile (1 < ·.depth) = inside := by
    rw [htail, List.takeWhile_append_of_pos (by simpa using hdeeper)]
    simp
  rw [hinside] at hlength
  simpa [Instruction.code, hlength] using hends

end GemLang
