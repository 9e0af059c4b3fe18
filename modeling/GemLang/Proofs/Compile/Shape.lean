import GemLang.Bytecode.Line
import GemLang.Proofs.Bytecode.Nesting
import GemLang.Syntax

/-!
# The shape of compiled code

Many constructs of the language share a shape in code: a `while` loop is a loop around a
conditional, a negation is a subtraction, a table literal grows by one store per entry. `Shape` says
what shapes there are, construct by construct of the *code*. What holds of all compiled code is then
shown by induction on its shape, with no syntax tree and no lowering in sight; the first such fact
is that it is well nested.

## Member access

Reading `o.k` may leave two values on the stack in place of one: a method, and below it the value it
was found for. Right before a call this is what is wanted. Elsewhere the lower value is left behind.
A shape therefore comes in two kinds, and in the *tidy* kind a member is read only to be called. The
functions inside tidy code need not be tidy: making a function does not run it.

What a declaration of a foreign function leaves is settled by a number on the stack, that of its
types. In tidy code they are few enough for a float to hold their number exactly.
-/

namespace GemLang

open Bytecode

/-! ## Shapes -/

/-- What a shape leaves on the stack: a value, a function to be called, a number of values, or
nothing. The flag is set for tidy code. -/
inductive Form where
  | value (tidy : Bool)
  | callee (tidy : Bool)
  | values (tidy : Bool) (count : Nat)
  | body (tidy : Bool)
  /-- The rest of a conditional after its first branch. -/
  | chain (tidy : Bool)

/-- The shapes of compiled code. -/
inductive Shape : Form → List Instruction → Prop where
  | operand {t : Bool} {op : Opcode} {x : String} (hop : op = .push ∨ op = .loadLocal) :
      Shape (.value t) [.plain op [x]]
  | newTable {t : Bool} : Shape (.value t) [.plain .newTable []]
  | binary {t : Bool} {left right : List Instruction} (op : BinaryOp)
      (hleft : Shape (.value t) left) (hright : Shape (.value t) right) :
      Shape (.value t) (left ++ right ++ [Instruction.plain op.opcode []])
  | not {t : Bool} {x : List Instruction} (hx : Shape (.value t) x) :
      Shape (.value t) (x ++ [Instruction.plain .not []])
  | entry {t : Bool} {table value key : List Instruction} (htable : Shape (.value t) table)
      (hvalue : Shape (.value t) value) (hkey : Shape (.value t) key) :
      Shape (.value t) (table ++ value ++ key ++ [Instruction.plain .storeKey []])
  | member {object key : List Instruction} (hobject : Shape (.value false) object)
      (hkey : Shape (.value false) key) :
      Shape (.value false) (object ++ key ++ [Instruction.plain .loadKey []])
  | call {t : Bool} {count : Nat} {args callee : List Instruction}
      (hargs : Shape (.values t count) args) (hcallee : Shape (.callee t) callee) :
      Shape (.value t) (.plain .args [] :: (args ++ callee ++ [Instruction.plain .call []]))
  | function {t : Bool} (name : String) (params : List String) {body : List Instruction}
      (hbody : Shape (.body false) body) :
      Shape (.value t) (.header name params :: (body ++ [Instruction.plain .endFunction []]))
  | calleeValue {t : Bool} {x : List Instruction} (hx : Shape (.value t) x) : Shape (.callee t) x
  | calleeMember {t : Bool} {object key : List Instruction} (hobject : Shape (.value t) object)
      (hkey : Shape (.value t) key) :
      Shape (.callee t) (object ++ key ++ [Instruction.plain .loadKey []])
  | noValues {t : Bool} : Shape (.values t 0) []
  | moreValues {t : Bool} {count : Nat} {later x : List Instruction}
      (hlater : Shape (.values t count) later) (hx : Shape (.value t) x) :
      Shape (.values t (count + 1)) (later ++ x)
  | nothing {t : Bool} : Shape (.body t) []
  | sequence {t : Bool} {a b : List Instruction} (ha : Shape (.body t) a)
      (hb : Shape (.body t) b) : Shape (.body t) (a ++ b)
  | bind {t : Bool} {x : List Instruction} {op : Opcode} (name : String)
      (hop : op = .declareLocal ∨ op = .storeLocal) (hx : Shape (.value t) x) :
      Shape (.body t) (x ++ [Instruction.plain op [name]])
  | discard {t : Bool} {x : List Instruction} (hx : Shape (.value t) x) :
      Shape (.body t) (x ++ [Instruction.plain .pop []])
  | storePath {t : Bool} {count : Nat} (root : String) {x keys : List Instruction}
      (hx : Shape (.value t) x) (hkeys : Shape (.values t (count + 1)) keys) :
      Shape (.body t) (x ++ keys ++ [Instruction.plain .loadLocal [root],
        .plain .storePath [toString (count + 1)], .plain .storeLocal [root]])
  | branch {t : Bool} {condition body chain : List Instruction}
      (hcondition : Shape (.value t) condition) (hbody : Shape (.body t) body)
      (hchain : Shape (.chain t) chain) :
      Shape (.body t)
        (.plain .ifOp [] :: (condition ++ Instruction.plain .thenOp [] ::
          (body ++ Instruction.plain .endIf [] :: chain)))
  | loop {t : Bool} {body : List Instruction} (hbody : Shape (.body t) body) :
      Shape (.body t) (.plain .loop [] :: (body ++ [Instruction.plain .endLoop []]))
  /-- A loop that calls an iterator, which is kept under a hidden name, at the top of each pass. -/
  | each {t : Bool} (hidden key value : String) {body : List Instruction}
      (hbody : Shape (.body t) body) :
      Shape (.body t) (.plain .loop [] :: (.plain .loadLocal [hidden] :: .plain .call [] ::
        .plain .declareLocal [key] :: .plain .declareLocal [value] ::
          (body ++ [Instruction.plain .endLoop []])))
  | leave {t : Bool} {x : List Instruction} (hx : Shape (.value t) x) :
      Shape (.body t) (x ++ [Instruction.plain .returnOp []])
  | jump {t : Bool} {op : Opcode} (hop : op = .breakOp ∨ op = .continueOp) :
      Shape (.body t) [.plain op []]
  | delete {t : Bool} (name : String) : Shape (.body t) [.plain .delete [name]]
  | foreign {t : Bool} (name library returnType : String) {argTypes : List String}
      (hcount : t = true → argTypes.length < 2 ^ 53) :
      Shape (.body t) (argTypes.map (fun x ↦ Instruction.plain .push [x]) ++
        [Instruction.plain .push [returnType], .plain .push [toString argTypes.length],
          .plain .define [name, library]])
  | chainEnd {t : Bool} : Shape (.chain t) []
  | chainElse {t : Bool} {body : List Instruction} (hbody : Shape (.body t) body) :
      Shape (.chain t) (.plain .elseOp [] :: (body ++ [Instruction.plain .endIf []]))
  | chainElif {t : Bool} {condition body chain : List Instruction}
      (hcondition : Shape (.value t) condition) (hbody : Shape (.body t) body)
      (hchain : Shape (.chain t) chain) :
      Shape (.chain t)
        (.plain .elifOp [] :: (condition ++ Instruction.plain .thenOp [] ::
          (body ++ Instruction.plain .endIf [] :: chain)))

/-! ## Shapes are well nested -/

/-- The part of well-nested code that a shape is. -/
@[simp] def Form.part : Form → Part
  | .chain _ => .chain
  | _ => .whole

/-- A predicate on plain instructions, of an instruction. -/
def Bytecode.Instruction.Satisfies (P : Opcode → List String → Prop) : Instruction → Prop
  | .plain op operands => P op operands
  | .header _ _ => True

theorem Bytecode.Instruction.satisfies_plain {P : Opcode → List String → Prop} {op : Opcode}
    {operands : List String} : (Instruction.plain op operands).Satisfies P ↔ P op operands :=
  .rfl

def Bytecode.flatten (is : List Instruction) : Code := is.flatMap Instruction.code

@[simp] theorem flatten_nil : flatten [] = [] := rfl

@[simp] theorem flatten_append (is js : List Instruction) :
    flatten (is ++ js) = flatten is ++ flatten js := by
  simp [flatten]

@[simp] theorem flatten_plain_cons (op : Opcode) (operands : List String)
    (is : List Instruction) :
    flatten (.plain op operands :: is) = .op op :: (operands.map .operand ++ flatten is) := rfl

@[simp] theorem flatten_header_cons (name : String) (params : List String)
    (is : List Instruction) :
    flatten (.header name params :: is) =
      .op .function :: .operand name :: (params.map .operand ++ Atom.op .colon :: flatten is) := by
  simp [flatten, Instruction.code]

section

variable {P : Opcode → List String → Prop} {B : Code → Prop}

theorem Bytecode.WellNested.append_plain {c : Code} (hc : WellNested P B .whole c) {op : Opcode}
    {operands : List String} (hop : P op operands) (hrole : op.role = .plain := by rfl)
    (hcount : operands.length = op.operandCount := by rfl) :
    WellNested P B .whole (c ++ Atom.op op :: operands.map .operand) := by
  have h := WellNested.plain (B := B) hrole hcount hop .nil
  rw [List.append_nil] at h
  exact hc.append h

theorem Bytecode.WellNested.append_jump {c : Code} (hc : WellNested P B .whole c) (op : Opcode)
    (hjump : op.isJump = true := by rfl) : WellNested P B .whole (c ++ [Atom.op op]) :=
  hc.append (.jump hjump .nil)

/-- **Code of a shape is well nested**, with any predicate that all of its plain instructions
satisfy, and any predicate that all bodies of functions with such instructions satisfy. -/
theorem Shape.wellNested
    (hB : ∀ is, Shape (.body false) is → (∀ i ∈ is, i.Satisfies P) → B (flatten is))
    {form : Form} {is : List Instruction} (h : Shape form is) (hP : ∀ i ∈ is, i.Satisfies P) :
    WellNested P B form.part (flatten is) := by
  induction h with
  | operand hop =>
    rw [List.forall_mem_singleton] at hP
    rcases hop with rfl | rfl
    · exact .plain rfl rfl hP .nil
    · exact .plain rfl rfl hP .nil
  | newTable =>
    rw [List.forall_mem_singleton] at hP
    exact .plain rfl rfl hP .nil
  | binary op _ _ ihl ihr =>
    simp only [List.forall_mem_append, List.forall_mem_singleton, Instruction.satisfies_plain] at hP
    have hrole : op.opcode.role = .plain := by cases op <;> rfl
    have hcount : ([] : List String).length = op.opcode.operandCount := by cases op <;> rfl
    simpa using ((ihl hP.1.1).append (ihr hP.1.2)).append_plain hP.2 hrole hcount
  | not _ ih =>
    simp only [List.forall_mem_append, List.forall_mem_singleton, Instruction.satisfies_plain] at hP
    simpa using (ih hP.1).append_plain hP.2
  | entry _ _ _ iht ihv ihk =>
    simp only [List.forall_mem_append, List.forall_mem_singleton, Instruction.satisfies_plain] at hP
    simpa using
      (((iht hP.1.1.1).append (ihv hP.1.1.2)).append (ihk hP.1.2)).append_plain hP.2
  | member _ _ iho ihk =>
    simp only [List.forall_mem_append, List.forall_mem_singleton, Instruction.satisfies_plain] at hP
    simpa using ((iho hP.1.1).append (ihk hP.1.2)).append_plain hP.2
  | call _ _ iha ihf =>
    simp only [List.forall_mem_cons, List.forall_mem_append, Instruction.satisfies_plain] at hP
    obtain ⟨hargs, ⟨ha, hf⟩, -⟩ := hP
    have hstart := (WellNested.nil (B := B)).append_plain hargs
    simpa using (hstart.append ((iha ha).append (ihf hf))).append_jump .call
  | function _ _ hbody ih =>
    simp only [List.forall_mem_cons, List.forall_mem_append] at hP
    simpa using WellNested.function (ih hP.2.1) (hB _ hbody hP.2.1) .nil
  | calleeValue _ ih => exact ih hP
  | calleeMember _ _ iho ihk =>
    simp only [List.forall_mem_append, List.forall_mem_singleton, Instruction.satisfies_plain] at hP
    simpa using ((iho hP.1.1).append (ihk hP.1.2)).append_plain hP.2
  | noValues => exact .nil
  | moreValues _ _ ihl ih =>
    rw [List.forall_mem_append] at hP
    simpa using (ihl hP.1).append (ih hP.2)
  | nothing => exact .nil
  | sequence _ _ iha ihb =>
    rw [List.forall_mem_append] at hP
    simpa using (iha hP.1).append (ihb hP.2)
  | bind _ hop _ ih =>
    simp only [List.forall_mem_append, List.forall_mem_singleton, Instruction.satisfies_plain] at hP
    rcases hop with rfl | rfl
    · simpa using (ih hP.1).append_plain hP.2
    · simpa using (ih hP.1).append_plain hP.2
  | discard _ ih =>
    simp only [List.forall_mem_append, List.forall_mem_singleton, Instruction.satisfies_plain] at hP
    simpa using (ih hP.1).append_plain hP.2
  | storePath _ _ _ ihx ihk =>
    simp only [List.forall_mem_append, List.forall_mem_cons, Instruction.satisfies_plain] at hP
    obtain ⟨⟨hx, hk⟩, hload, hstore, hassign, -⟩ := hP
    have h := (ihx hx).append (ihk hk)
    simpa using ((h.append_plain hload).append_plain hstore).append_plain hassign
  | branch _ _ _ ihc ihb ihrest =>
    simp only [List.forall_mem_append, List.forall_mem_cons] at hP
    obtain ⟨-, hc, -, hb, -, hrest⟩ := hP
    simpa using WellNested.branch (ihc hc) (ihb hb) (ihrest hrest) .nil
  | loop _ ih =>
    simp only [List.forall_mem_cons, List.forall_mem_append] at hP
    simpa using WellNested.loop (ih hP.2.1) .nil
  | each _ _ _ _ ih =>
    simp only [List.forall_mem_cons, List.forall_mem_append, Instruction.satisfies_plain] at hP
    obtain ⟨-, hload, -, hkey, hvalue, hbody, -⟩ := hP
    have hcall := ((WellNested.nil (B := B)).append_plain hload).append_jump .call
    have hhead := (hcall.append_plain hkey).append_plain hvalue
    simpa using WellNested.loop (hhead.append (ih hbody)) .nil
  | leave _ ih =>
    rw [List.forall_mem_append] at hP
    simpa using (ih hP.1).append_jump .returnOp
  | jump hop =>
    rcases hop with rfl | rfl
    · exact .jump rfl .nil
    · exact .jump rfl .nil
  | delete =>
    rw [List.forall_mem_singleton] at hP
    exact .plain rfl rfl hP .nil
  | @foreign _ name library returnType argTypes _ =>
    have hpushes (xs : List String) (h : ∀ x ∈ xs, P .push [x]) :
        WellNested P B .whole (flatten (xs.map fun x ↦ Instruction.plain .push [x])) := by
      induction xs with
      | nil => exact .nil
      | cons x xs ih =>
        rw [List.forall_mem_cons] at h
        exact .plain rfl rfl h.1 (ih h.2)
    simp only [List.forall_mem_append, List.forall_mem_map, List.forall_mem_cons,
      Instruction.satisfies_plain] at hP
    obtain ⟨hargs, hresult, hcount, hdefine, -⟩ := hP
    have h := ((hpushes argTypes hargs).append_plain hresult).append_plain hcount
    simpa using h.append_plain hdefine
  | chainEnd => exact .chainEnd
  | chainElse _ ih =>
    simp only [List.forall_mem_cons, List.forall_mem_append] at hP
    simpa using WellNested.chainElse (ih hP.2.1)
  | chainElif _ _ _ ihc ihb ihrest =>
    simp only [List.forall_mem_append, List.forall_mem_cons] at hP
    obtain ⟨-, hc, -, hb, -, hrest⟩ := hP
    simpa using WellNested.chainElif (ihc hc) (ihb hb) (ihrest hrest)

/-- Code that is the body of a compiled function, with plain instructions that satisfy `P`. -/
def IsFunctionBody (P : Opcode → List String → Prop) (c : Code) : Prop :=
  ∃ is, Shape (.body false) is ∧ (∀ i ∈ is, i.Satisfies P) ∧ c = flatten is

theorem IsFunctionBody.wellNested {c : Code} (h : IsFunctionBody P c) :
    WellNested P (IsFunctionBody P) .whole c := by
  obtain ⟨is, hshape, hP, rfl⟩ := h
  exact hshape.wellNested (fun js hjs hP ↦ ⟨js, hjs, hP, rfl⟩) hP

end

end GemLang
