import GemLang.Proofs.Bytecode.Nesting

/-!
# Code that leaves a hidden name alone

A loop over an iterator keeps the iterator under a hidden name: it declares the name, loads it at
the top of every pass, and deletes it in the end. Code is *veiled* for a hidden name if it uses the
name in such loops only. Then whoever runs the code, and wherever, finds under the name what a loop
of that very code has put there, and never what another loop keeps.

Veiled code is well-nested code with these loops as one more construct. It is closed under the same
ways to put code together.
-/

namespace GemLang.Bytecode

/-- The name that a plain instruction looks up, binds or deletes. -/
def nameOf? (op : Opcode) (operands : List String) : Option String :=
  match op, operands with
  | .declareLocal, [x] | .storeLocal, [x] | .loadLocal, [x] | .delete, [x] => some x
  | .define, [x, _] => some x
  | _, _ => none

/-- Well-nested code, functions in it included, that uses the name `h` only to keep iterators. -/
inductive Veiled (h : String) : Part → Code → Prop where
  | nil : Veiled h .whole []
  | plain {op : Opcode} {operands : List String} {rest : Code} (hrole : op.role = .plain)
      (hcount : operands.length = op.operandCount) (hname : nameOf? op operands ≠ some h)
      (hrest : Veiled h .whole rest) :
      Veiled h .whole (.op op :: (operands.map .operand ++ rest))
  | jump {op : Opcode} {rest : Code} (hjump : op.isJump = true) (hrest : Veiled h .whole rest) :
      Veiled h .whole (.op op :: rest)
  | branch {condition body chain rest : Code} (hcondition : Veiled h .whole condition)
      (hbody : Veiled h .whole body) (hchain : Veiled h .chain chain)
      (hrest : Veiled h .whole rest) :
      Veiled h .whole
        (.op .ifOp :: (condition ++ Atom.op .thenOp :: (body ++ Atom.op .endIf :: (chain ++ rest))))
  | loop {body rest : Code} (hbody : Veiled h .whole body) (hrest : Veiled h .whole rest) :
      Veiled h .whole (.op .loop :: (body ++ Atom.op .endLoop :: rest))
  /-- A loop that keeps something under the name, and loads it at the top of each pass. -/
  | each {body rest : Code} (hbody : Veiled h .whole body) (hrest : Veiled h .whole rest) :
      Veiled h .whole (.op .declareLocal :: .operand h ::
        .op .loop :: ((.op .loadLocal :: .operand h :: body) ++
          .op .endLoop :: .op .delete :: .operand h :: rest))
  | function {name : String} {params : List String} {body rest : Code}
      (hbody : Veiled h .whole body) (hrest : Veiled h .whole rest) :
      Veiled h .whole
        (.op .function :: .operand name ::
          (params.map .operand ++ Atom.op .colon :: (body ++ Atom.op .endFunction :: rest)))
  | chainEnd : Veiled h .chain []
  | chainElse {body : Code} (hbody : Veiled h .whole body) :
      Veiled h .chain (.op .elseOp :: (body ++ [Atom.op .endIf]))
  | chainElif {condition body chain : Code} (hcondition : Veiled h .whole condition)
      (hbody : Veiled h .whole body) (hchain : Veiled h .chain chain) :
      Veiled h .chain
        (.op .elifOp :: (condition ++ Atom.op .thenOp :: (body ++ Atom.op .endIf :: chain)))

variable {h : String}

theorem WellNested.load {B : Code → Prop} {c : Code} (hc : WellNested (fun _ _ ↦ True) B .whole c)
    (x : String) : WellNested (fun _ _ ↦ True) B .whole (.op .loadLocal :: .operand x :: c) :=
  @WellNested.plain _ B .loadLocal [x] c rfl rfl trivial hc

theorem Veiled.wellNested {part : Part} {c : Code} (hc : Veiled h part c) :
    WellNested (fun _ _ ↦ True) (Veiled h .whole) part c := by
  induction hc with
  | nil => exact .nil
  | plain hrole hcount _ _ ih => exact .plain hrole hcount trivial ih
  | jump hjump _ ih => exact .jump hjump ih
  | branch _ _ _ _ ihCondition ihBody ihChain ihRest =>
    exact .branch ihCondition ihBody ihChain ihRest
  | loop _ _ ihBody ihRest => exact .loop ihBody ihRest
  | each _ _ ihBody ihRest =>
    refine @WellNested.plain _ _ .declareLocal [h] _ rfl rfl trivial (.loop (ihBody.load h) ?_)
    exact @WellNested.plain _ _ .delete [h] _ rfl rfl trivial ihRest
  | function hbody _ ihBody ihRest => exact .function ihBody hbody ihRest
  | chainEnd => exact .chainEnd
  | chainElse _ ihBody => exact .chainElse ihBody
  | chainElif _ _ _ ihCondition ihBody ihChain => exact .chainElif ihCondition ihBody ihChain

theorem Veiled.append {a b : Code} (ha : Veiled h .whole a) (hb : Veiled h .whole b) :
    Veiled h .whole (a ++ b) := by
  generalize hpart : Part.whole = part at ha
  induction ha with
  | nil => exact hb
  | plain hrole hcount hname _ ih =>
    rw [List.cons_append, List.append_assoc]
    exact .plain hrole hcount hname (ih rfl)
  | jump hjump _ ih => exact .jump hjump (ih rfl)
  | branch hcondition hbody hchain _ _ _ _ ih =>
    simp only [List.cons_append, List.append_assoc]
    exact .branch hcondition hbody hchain (ih rfl)
  | loop hbody _ _ ih =>
    simp only [List.cons_append, List.append_assoc]
    exact .loop hbody (ih rfl)
  | each hbody _ _ ih =>
    have heach := Veiled.each hbody (ih rfl)
    simpa only [List.cons_append, List.append_assoc] using heach
  | function hbody _ _ ih =>
    simp only [List.cons_append, List.append_assoc]
    exact .function hbody (ih rfl)
  | chainEnd => cases hpart
  | chainElse => cases hpart
  | chainElif => cases hpart

end GemLang.Bytecode
