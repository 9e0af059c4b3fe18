import GemLang.Proofs.Bytecode.Veiled
import GemLang.Proofs.Compile.Pieces

/-!
# Hidden names stay hidden

A program can only write down names that start like names. Hidden names start with a digit, so they
come into code by loops over iterators alone, and the code of every program is veiled for each of
them (`veiled_stmts`). That is so whatever hidden names there are in the code, the same one several
times included.
-/

namespace GemLang

open Bytecode

/-- A program whose names are names, as those of programs that were read from text are. -/
def Spelling.named : Spelling where
  name := IsName
  library _ := True
  reflect := True
  depth _ := True

namespace Lower

def VeiledLines (h : String) (part : Part) (ls : List Line) : Prop := Veiled h part (codeOf ls)

section

variable {h : String} {b c : List Line}

theorem VeiledLines.append {ls ms : List Line} (hls : VeiledLines h .whole ls)
    (hms : VeiledLines h .whole ms) : VeiledLines h .whole (ls ++ ms) := by
  rw [VeiledLines, codeOf_append]
  exact Veiled.append hls hms

theorem veiled_bare (op : Opcode) (hrole : op.role = .plain ∨ op.isJump = true)
    (hcount : op.operandCount = 0) : VeiledLines h .whole (bare op) := by
  rcases hrole with hrole | hjump
  · have hname : nameOf? op [] ≠ some h := by cases op <;> simp [nameOf?]
    exact @Veiled.plain h op [] [] hrole hcount.symm hname .nil
  · exact .jump hjump .nil

theorem veiled_unary {op : Opcode} {x : String} (hname : nameOf? op [x] ≠ some h)
    (hrole : op.role = .plain := by rfl) (hcount : 1 = op.operandCount := by rfl) :
    VeiledLines h .whole (unary op x) :=
  @Veiled.plain h op [x] [] hrole hcount hname .nil

theorem veiled_name (op : Opcode) {x : String} (hx : x ≠ h)
    (hop : op ∈ [Opcode.loadLocal, .declareLocal, .storeLocal, .delete]) :
    VeiledLines h .whole (unary op x) := by
  simp only [List.mem_cons, List.not_mem_nil, or_false] at hop
  rcases hop with rfl | rfl | rfl | rfl <;> exact veiled_unary (by simpa [nameOf?] using hx)

theorem veiled_branch {later : List Line} (hc : VeiledLines h .whole c)
    (hb : VeiledLines h .whole b) (hlater : VeiledLines h .chain later) :
    VeiledLines h .whole (branchLines .ifOp c b ++ later) := by
  simpa [VeiledLines, branchLines, Instruction.code] using Veiled.branch hc hb hlater .nil

theorem veiled_noChain : VeiledLines h .chain [] := .chainEnd

theorem veiled_elif {later : List Line} (hc : VeiledLines h .whole c)
    (hb : VeiledLines h .whole b) (hlater : VeiledLines h .chain later) :
    VeiledLines h .chain (branchLines .elifOp c b ++ later) := by
  simpa [VeiledLines, branchLines, Instruction.code] using Veiled.chainElif hc hb hlater

theorem veiled_otherwise (hb : VeiledLines h .whole b) :
    VeiledLines h .chain (otherwiseLines b) := by
  simpa [VeiledLines, otherwiseLines, Instruction.code] using Veiled.chainElse hb

theorem veiled_loop (hb : VeiledLines h .whole b) : VeiledLines h .whole (loopLines b) := by
  simpa [VeiledLines, loopLines, Instruction.code] using Veiled.loop hb .nil

theorem veiled_function (name : String) (params : List String) (hb : VeiledLines h .whole b) :
    VeiledLines h .whole (functionLines name params b) := by
  have hfunction : Veiled h .whole (.op .function :: .operand name :: (params.map .operand ++
      .op .colon :: (codeOf b ++ Atom.op .endFunction :: []))) := .function hb .nil
  simpa [VeiledLines, functionLines, Instruction.code] using hfunction

theorem veiled_breakWhen (hc : VeiledLines h .whole c) : VeiledLines h .whole (breakWhen c) := by
  have hbreak := veiled_branch hc (veiled_bare .breakOp (.inr rfl) rfl) veiled_noChain
  rwa [List.append_nil] at hbreak

/-- The part of a pass that comes after the iterator was loaded. -/
def stepLines (key value : String) (body : List Line) : List Line :=
  bare .call ++ unary .declareLocal key ++ unary .declareLocal value ++
    breakWhen (unary .loadLocal key ++ unary .loadLocal "null" ++ bare .eq) ++ body

theorem eachLines_eq (hidden key value : String) (iterator body : List Line) :
    eachLines hidden key value iterator body =
      iterator ++ (unary .declareLocal hidden ++
        (loopLines (unary .loadLocal hidden ++ stepLines key value body) ++
          unary .delete hidden)) := by
  simp [eachLines, stepLines]

theorem veiled_stepLines {key value : String} (hkey : key ≠ h) (hvalue : value ≠ h)
    (hnull : "null" ≠ h) (hb : VeiledLines h .whole b) :
    VeiledLines h .whole (stepLines key value b) := by
  have hread := (veiled_name .loadLocal hkey (by simp)).append
    (veiled_name .loadLocal hnull (by simp))
  have hdone := hread.append (veiled_bare .eq (.inl rfl) rfl)
  have hcall := (veiled_bare (h := h) .call (.inr rfl) rfl).append
    (veiled_name .declareLocal hkey (by simp))
  exact ((hcall.append (veiled_name _ hvalue (by simp))).append
    (veiled_breakWhen hdone)).append hb

theorem veiled_eachLines (hidden : String) {key value : String} {iterator : List Line}
    (hkey : key ≠ h) (hvalue : value ≠ h) (hnull : "null" ≠ h)
    (hi : VeiledLines h .whole iterator) (hb : VeiledLines h .whole b) :
    VeiledLines h .whole (eachLines hidden key value iterator b) := by
  have hstep := veiled_stepLines hkey hvalue hnull hb
  rw [eachLines_eq]
  refine hi.append ?_
  -- under the same name the loop is one construct, under another one its lines are as any others
  by_cases hhidden : hidden = h
  · subst hhidden
    have heach : Veiled hidden .whole _ := .each hstep .nil
    simpa [VeiledLines, loopLines, Instruction.code] using heach
  · refine (veiled_name _ hhidden (by simp)).append (.append (veiled_loop ?_) ?_)
    · exact (veiled_name _ hhidden (by simp)).append hstep
    · exact veiled_name _ hhidden (by simp)

end

/-! ## Trees -/

variable {h : String} (hh : ¬IsName h) (optimize : Bool)

include hh

theorem pieces_veiledLines : Pieces .named (VeiledLines h) where
  null := isName_null
  bool := isName_bool
  nil := .nil
  append := .append
  bare := veiled_bare
  push _ _ := veiled_unary (by simp [nameOf?])
  pushName _ := veiled_unary (by simp [nameOf?])
  name hop hx := veiled_name _ (fun heq ↦ hh (heq ▸ hx)) hop
  storePath _ := veiled_unary (by simp [nameOf?])
  define {name path} hname _ := by
    have hne : name ≠ h := fun heq ↦ hh (heq ▸ hname)
    refine @Veiled.plain h .define [name, libraryOperand path] [] rfl rfl ?_ .nil
    simpa [nameOf?] using hne
  branch := veiled_branch
  noChain := veiled_noChain
  elif := veiled_elif
  otherwise := veiled_otherwise
  loop := veiled_loop
  function {name params _} _ _ := veiled_function name params
  each n hkey hvalue := by
    have hne {x : String} (hx : IsName x) : x ≠ h := fun heq ↦ hh (heq ▸ hx)
    exact veiled_eachLines _ (hne hkey) (hne hvalue) (hne isName_null)

/-- **The code of expressions is veiled** for whatever a program cannot name. -/
theorem veiled_expr (e : Expr) (he : Spelling.named.expr e) (n : Nat) :
    Veiled h .whole (codeOf (expr optimize e n).1) :=
  ((pieces_veiledLines hh).expr optimize e he).run n

/-- **The code of statements is veiled** for whatever a program cannot name. -/
theorem veiled_stmts (ss : List Stmt) (hss : Spelling.named.stmts ss) (n : Nat) :
    Veiled h .whole (codeOf (stmts optimize ss n).1) :=
  ((pieces_veiledLines hh).stmts optimize ss hss).run n

end Lower

end GemLang
