import GemLang.Bytecode.Words

/-!
# Code

Code is what the words of bytecode text mean: a list of opcodes with their operands. Which words are
operands is settled by the opcode before them, so an operand may be spelled like an opcode.
-/

namespace GemLang.Bytecode

/-- An opcode, or an operand of the opcode before it. -/
inductive Atom where
  | op (op : Opcode)
  | operand (text : String)
  deriving DecidableEq

def Atom.word : Atom → String
  | .op code => code.mnemonic
  | .operand text => text

abbrev Code := List Atom

/-- A stretch of code and the position of its first atom. Positions are only shown in messages. -/
structure Stretch where
  position : Nat
  code : Code

/-! ## Reading -/

/-- Takes `count` operands for `op` off the front of the words. -/
def takeOperands (op : Opcode) : Nat → List String → Except CodeFault (Code × List String)
  | 0, words => .ok ([], words)
  | _ + 1, [] => .error (.missingWord op)
  | count + 1, word :: words =>
    match takeOperands op count words with
    | .error e => .error e
    | .ok (code, rest) => .ok (.operand word :: code, rest)

/-- Takes the parameters of a function header off the front of the words, up to and including the
colon. -/
def takeParams : List String → Except CodeFault (Code × List String)
  | [] => .error .openHeader
  | word :: words =>
    if word = ":" then .ok ([.op .colon], words)
    else
      match takeParams words with
      | .error e => .error e
      | .ok (code, rest) => .ok (.operand word :: code, rest)

/-- Takes the operands of `op` off the front of the words. -/
def takeOperandsOf (op : Opcode) (words : List String) : Except CodeFault (Code × List String) :=
  if op = .function then
    match words with
    | [] => .error .namelessFunction
    | name :: words =>
      match takeParams words with
      | .error e => .error e
      | .ok (code, rest) => .ok (.operand name :: code, rest)
  else
    takeOperands op op.operandCount words

theorem takeOperands_length_le {op : Opcode} {count : Nat} {words : List String} {code : Code}
    {rest : List String} (h : takeOperands op count words = .ok (code, rest)) :
    rest.length ≤ words.length := by
  fun_induction takeOperands op count words generalizing code rest with
  | case1 words =>
    simp only [Except.ok.injEq, Prod.mk.injEq] at h
    simp [h.2]
  | case2 => simp at h
  | case3 => simp at h
  | case4 count word words code' rest' hcut ih =>
    simp only [Except.ok.injEq, Prod.mk.injEq] at h
    obtain ⟨-, rfl⟩ := h
    have := ih hcut
    simp only [List.length_cons]
    omega

theorem takeParams_length_le {words : List String} {code : Code} {rest : List String}
    (h : takeParams words = .ok (code, rest)) : rest.length ≤ words.length := by
  fun_induction takeParams words generalizing code rest with
  | case1 => simp at h
  | case2 words =>
    simp only [Except.ok.injEq, Prod.mk.injEq] at h
    simp [← h.2]
  | case3 => simp at h
  | case4 word words hne code' rest' hcut ih =>
    simp only [Except.ok.injEq, Prod.mk.injEq] at h
    obtain ⟨-, rfl⟩ := h
    have := ih hcut
    simp only [List.length_cons]
    omega

theorem takeOperandsOf_length_le {op : Opcode} {words : List String} {code : Code}
    {rest : List String} (h : takeOperandsOf op words = .ok (code, rest)) :
    rest.length ≤ words.length := by
  unfold takeOperandsOf at h
  split at h
  · split at h
    · simp at h
    · split at h
      · simp at h
      · next hparams =>
        simp only [Except.ok.injEq, Prod.mk.injEq] at h
        obtain ⟨-, rfl⟩ := h
        have := takeParams_length_le hparams
        simp only [List.length_cons]
        omega
  · exact takeOperands_length_le h

def ofWords (words : List String) : Except CodeFault Code :=
  match words with
  | [] => .ok []
  | word :: words =>
    match Opcode.ofWord? word with
    | none => .error (.unknownInstruction word)
    | some op =>
      match _h : takeOperandsOf op words with
      | .error e => .error e
      | .ok (operands, rest) =>
        match ofWords rest with
        | .error e => .error e
        | .ok code => .ok (.op op :: operands ++ code)
termination_by words.length
decreasing_by
  have := takeOperandsOf_length_le _h
  simp only [List.length_cons]
  omega

def decode (source : String) : Except CodeFault Code :=
  match split source with
  | .error e => .error e
  | .ok words => ofWords words

/-! ## Listing -/

/-- A number with at least four digits. -/
def fourDigits (n : Nat) : String :=
  let digits := Nat.toDigits 10 n
  String.ofList (List.replicate (4 - digits.length) '0' ++ digits)

/-- The listing of code from position `index` on: one line per opcode, with its position in front
and its operands after it. -/
def listingFrom (index : Nat) : Code → String
  | [] => "\n"
  | .op op :: code =>
    (if index = 0 then "" else "\n") ++ fourDigits index ++ " " ++ op.mnemonic ++
      listingFrom (index + 1) code
  | .operand text :: code => " " ++ text ++ listingFrom (index + 1) code

/-- A readable listing of code under a title. -/
def listing (title : String) (code : Code) : String :=
  "== " ++ title ++ " ==\n" ++ listingFrom 0 code

end GemLang.Bytecode
