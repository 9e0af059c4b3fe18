import GemLang.Proofs.Syntax.Spelling
import GemLang.Proofs.Token.Placed
import GemLang.Syntax.Parser

/-!
# What parsing consumes

The parser goes over the tokens of a file one by one: wherever it stands, it got there by single
steps (`Cursor.Steps`), none of which leads onto a token that is an error. It stops with an error
only for what it finds where it stands: a token out of place, or an error as the next token. So a
program that was parsed used up all tokens of its file, and a file with an error among its tokens is
refused no later than there.

One invariant carries this through the whole grammar. Fix the cursor that parsing started from; then
every parser that is begun at a cursor reached from it ends at a cursor reached from it, or stops at
one (`Walks`).
-/

namespace GemLang

/-! ## Steps -/

/-- A fault may be about a token: if it says what was found, it says that it was this one. -/
def ParseFault.IsAbout (t : Token) (fault : ParseFault) : Prop :=
  ∀ what got, fault = .expected what got → got = if t.kind = .eof then none else some t.text

/-- A number token that cannot be read as a number. -/
def Token.IsUnreadable (t : Token) : Prop := t.kind = .number ∧ numberValue? t.text = none

namespace Cursor

def tokens (c : Cursor) : List Token := c.current :: c.rest

def Step (file : String) (c c' : Cursor) : Prop :=
  ∃ h hless, c.advance file h = .ok ⟨c', hless⟩

abbrev Steps (file : String) : Cursor → Cursor → Prop := Relation.ReflTransGen (Step file)

/-- The error is about what is found at the cursor: the token there is out of place, or the next
one is an error. A number is a bad one only if it cannot be read. -/
inductive Rejects (file : String) (c : Cursor) : Error → Prop where
  | outOfPlace {fault : ParseFault} (hfault : fault.IsAbout c.current)
      (hnumber : fault = .badNumber → c.current.IsUnreadable) :
      Rejects file c (c.fail file fault)
  | next {e : Error} (h : c.current.kind ≠ .eof) (he : c.advance file h = .error e) :
      Rejects file c e

/-- The error is about what is found at a cursor reached from `c`. -/
def Stops (file : String) (c : Cursor) (e : Error) : Prop :=
  ∃ c', Steps file c c' ∧ Rejects file c' e

end Cursor

open Cursor (Step Steps Rejects Stops)

section Walks

variable {α β : Type} {file : String} {c₀ : Cursor} {p : Cursor → Prop} {R : β → Prop}

/-- An operation that only moves, in a parse that started from `c₀`. -/
def Goes (file : String) (c₀ : Cursor) (x : Except Error { c : Cursor // p c }) : Prop :=
  Delivers (Stops file c₀) (fun r ↦ Steps file c₀ r.1) x

/-- A parser that moves and has a result, in a parse that started from `c₀`. -/
def Walks (file : String) (c₀ : Cursor) (x : Except Error (α × { c : Cursor // p c })) : Prop :=
  Delivers (Stops file c₀) (fun r ↦ Steps file c₀ r.2.1) x

theorem Goes.bind {x : Except Error { c : Cursor // p c }}
    {f : { c : Cursor // p c } → Except Error β} (hx : Goes file c₀ x)
    (hf : ∀ c (h : p c), Steps file c₀ c → Delivers (Stops file c₀) R (f ⟨c, h⟩)) :
    Delivers (Stops file c₀) R (x >>= f) :=
  Delivers.bind hx fun r hr ↦ hf r.1 r.2 hr

theorem Walks.bind {x : Except Error (α × { c : Cursor // p c })}
    {f : α × { c : Cursor // p c } → Except Error β} (hx : Walks file c₀ x)
    (hf : ∀ a c (h : p c), Steps file c₀ c → Delivers (Stops file c₀) R (f (a, ⟨c, h⟩))) :
    Delivers (Stops file c₀) R (x >>= f) :=
  Delivers.bind hx fun r hr ↦ hf r.1 r.2.1 r.2.2 hr

theorem Delivers.eq_ok_or_error {E : Error → Prop} {x : Except Error β} (hx : Delivers E R x) :
    (∃ r, x = .ok r ∧ R r) ∨ ∃ e, x = .error e ∧ E e := by
  cases hx with
  | ok h => exact .inl ⟨_, rfl, h⟩
  | error h => exact .inr ⟨_, rfl, h⟩

theorem Walks.dite {P : Prop} [Decidable P] {x : P → Except Error (α × { c : Cursor // p c })}
    {y : ¬P → Except Error (α × { c : Cursor // p c })} (hx : ∀ h, Walks file c₀ (x h))
    (hy : ∀ h, Walks file c₀ (y h)) : Walks file c₀ (if h : P then x h else y h) := by
  by_cases h : P
  · rw [dif_pos h]
    exact hx h
  · rw [dif_neg h]
    exact hy h

theorem Walks.ite {P : Prop} [Decidable P] {x y : Except Error (α × { c : Cursor // p c })}
    (hx : Walks file c₀ x) (hy : Walks file c₀ y) : Walks file c₀ (if P then x else y) := by
  by_cases h : P
  · rw [if_pos h]
    exact hx
  · rw [if_neg h]
    exact hy

theorem Walks.fail {c : Cursor} (hc : Steps file c₀ c) {fault : ParseFault}
    (hfault : fault.IsAbout c.current) (hnumber : fault = .badNumber → c.current.IsUnreadable) :
    Walks file c₀ (.error (c.fail file fault) : Except Error (α × { c : Cursor // p c })) :=
  .error ⟨c, hc, .outOfPlace hfault hnumber⟩

theorem Walks.expected {c : Cursor} (hc : Steps file c₀ c) (what : String) :
    Walks file c₀ (.error (c.expected file what) : Except Error (α × { c : Cursor // p c })) := by
  refine .fail hc (fun what' got h ↦ ?_) nofun
  cases h
  rfl

end Walks

variable {file : String} {c₀ : Cursor}

namespace Cursor

variable {c : Cursor} (hc : Steps file c₀ c)

include hc

theorem goes_advance (hkind : c.current.kind ≠ .eof) : Goes file c₀ (c.advance file hkind) := by
  cases hstep : c.advance file hkind with
  | ok c' => exact .ok (hc.tail ⟨hkind, c'.2, hstep⟩)
  | error e => exact .error ⟨c, hc, .next hkind hstep⟩

theorem delivers_takeIf (kind : TokenKind) :
    Delivers (Stops file c₀) (fun o ↦ ∀ c' ∈ o, Steps file c₀ c'.1) (c.takeIf file kind) := by
  unfold Cursor.takeIf
  by_cases hkind : c.current.kind = kind ∧ kind ≠ .eof
  · rw [dif_pos hkind]
    obtain ⟨c', heq, hc'⟩ | ⟨e, heq, he⟩ :=
      (goes_advance hc (hkind.1 ▸ hkind.2)).eq_ok_or_error
    · rw [heq]
      exact .ok fun _ h ↦ Option.some.inj h ▸ hc'
    · rw [heq]
      exact .error he
  · rw [dif_neg hkind]
    exact .ok nofun

theorem bind_takeIf (kind : TokenKind) {β : Type} {R : β → Prop}
    {f : Option c.Shrunk → Except Error β} (hnone : Delivers (Stops file c₀) R (f none))
    (hsome : ∀ c' (h : c'.remaining < c.remaining), Steps file c₀ c' →
      Delivers (Stops file c₀) R (f (some ⟨c', h⟩))) :
    Delivers (Stops file c₀) R (c.takeIf file kind >>= f) := by
  refine (delivers_takeIf hc kind).bind fun o ho ↦ ?_
  rcases o with _ | ⟨c', h⟩
  · exact hnone
  · exact hsome c' h (ho ⟨c', h⟩ rfl)

theorem walks_consume (kind : TokenKind) (what : String) :
    Walks file c₀ (c.consume file kind what) := by
  unfold Cursor.consume
  refine .dite (fun hkind ↦ ?_) fun _ ↦ .expected hc what
  obtain ⟨c', heq, hc'⟩ | ⟨e, heq, he⟩ := (goes_advance hc (hkind.1 ▸ hkind.2)).eq_ok_or_error
  · rw [heq]
    exact .ok hc'
  · rw [heq]
    exact .error he

theorem walks_identifier : Walks file c₀ (c.identifier file) := by
  unfold Cursor.identifier
  obtain ⟨r, heq, hr⟩ | ⟨e, heq, he⟩ := (walks_consume hc .identifier _).eq_ok_or_error
  · rw [heq]
    exact .ok hr
  · rw [heq]
    exact .error he

omit hc in
theorem goes_skipSemicolons {c : Cursor} (hc : Steps file c₀ c) :
    Goes file c₀ (c.skipSemicolons file) := by
  unfold Cursor.skipSemicolons
  obtain ⟨_ | ⟨c₁, h₁⟩, heq, hc₁⟩ | ⟨e, heq, he⟩ :=
    (delivers_takeIf hc .semicolon).eq_ok_or_error
  · rw [heq]
    exact .ok hc
  · rw [heq]
    obtain ⟨c₂, heq, hc₂⟩ | ⟨e, heq, he⟩ :=
      (goes_skipSemicolons (hc₁ ⟨c₁, h₁⟩ rfl)).eq_ok_or_error
    · simp only [heq]
      exact .ok hc₂
    · simp only [heq]
      exact .error he
  · rw [heq]
    exact .error he
termination_by c.remaining
decreasing_by all_goals omega

omit hc in
theorem walks_moreNames {c : Cursor} (hc : Steps file c₀ c) (close : TokenKind) :
    Walks file c₀ (c.moreNames file close) := by
  unfold Cursor.moreNames
  refine (walks_identifier hc).bind fun name c₁ h₁ hc₁ ↦ ?_
  refine bind_takeIf hc₁ close ?_ fun c₂ h₂ hc₂ ↦ .ok hc₂
  refine (walks_consume hc₁ .comma _).bind fun _ c₂ h₂ hc₂ ↦ ?_
  exact (walks_moreNames hc₂ close).bind fun names c₃ h₃ hc₃ ↦ .ok hc₃
termination_by c.remaining
decreasing_by all_goals omega

theorem walks_nameList (close : TokenKind) : Walks file c₀ (c.nameList file close) := by
  unfold Cursor.nameList
  exact bind_takeIf hc close (walks_moreNames hc close) fun c₁ h₁ hc₁ ↦ .ok hc₁

end Cursor

namespace Parser

open Cursor

/-! ## Statements without expressions -/

theorem walks_stringLiteral {c : Cursor} (hc : Steps file c₀ c) :
    Walks file c₀ (stringLiteral file c) := by
  unfold stringLiteral
  obtain ⟨r, heq, hr⟩ | ⟨e, heq, he⟩ := (walks_consume hc .text _).eq_ok_or_error
  · rw [heq]
    exact .ok hr
  · rw [heq]
    exact .error he

theorem walks_reflectStatement {c : Cursor} (hc : Steps file c₀ c) :
    Walks file c₀ (reflectStatement file c) := by
  unfold reflectStatement
  refine (walks_stringLiteral hc).bind fun path c₁ h₁ hc₁ ↦ ?_
  refine bind_takeIf hc₁ .doubleColon (.ok hc₁) fun c₂ h₂ hc₂ ↦ ?_
  refine (walks_consume hc₂ .leftBrace _).bind fun _ c₃ h₃ hc₃ ↦ ?_
  exact (walks_nameList hc₃ .rightBrace).bind fun names c₄ h₄ hc₄ ↦ .ok hc₄

theorem walks_foreignStatement {c : Cursor} (hc : Steps file c₀ c) :
    Walks file c₀ (foreignStatement file c) := by
  unfold foreignStatement
  refine (walks_identifier hc).bind fun name c₁ h₁ hc₁ ↦ ?_
  refine (walks_consume hc₁ .doubleColon _).bind fun _ c₂ h₂ hc₂ ↦ ?_
  refine (walks_stringLiteral hc₂).bind fun path c₃ h₃ hc₃ ↦ ?_
  refine (walks_consume hc₃ .doubleColon _).bind fun _ c₄ h₄ hc₄ ↦ ?_
  refine (walks_consume hc₄ .leftParen _).bind fun _ c₅ h₅ hc₅ ↦ ?_
  refine (walks_nameList hc₅ .rightParen).bind fun argTypes c₆ h₆ hc₆ ↦ ?_
  refine (walks_consume hc₆ .arrow _).bind fun _ c₇ h₇ hc₇ ↦ ?_
  exact (walks_identifier hc₇).bind fun returnType c₈ h₈ hc₈ ↦ .ok hc₈

theorem walks_loopNames {c : Cursor} (hc : Steps file c₀ c) :
    Walks file c₀ (loopNames file c) := by
  unfold loopNames
  refine Walks.bind ?_ fun names c₁ h₁ hc₁ ↦ ?_
  · refine bind_takeIf hc .leftParen ?_ fun c₁ h₁ hc₁ ↦ ?_
    · exact (walks_identifier hc).bind fun name c₁ h₁ hc₁ ↦ .ok hc₁
    · exact (walks_nameList hc₁ .rightParen).bind fun names c₂ h₂ hc₂ ↦ .ok hc₂
  · exact (walks_consume hc₁ .kwIn _).bind fun _ c₂ h₂ hc₂ ↦ .ok hc₂

/-! ## Expressions -/

section Expressions

variable {b : Cursor} {expr : Below b Expr} {body : Below b (List Stmt)}
  (hexpr : ∀ c hless, Steps file c₀ c → Walks file c₀ (expr c hless))
  (hbody : ∀ c hless, Steps file c₀ c → Walks file c₀ (body c hless))

include hexpr

theorem walks_moreArguments {c : Cursor} (hless : c.remaining < b.remaining)
    (hc : Steps file c₀ c) : Walks file c₀ (moreArguments file expr c hless) := by
  unfold moreArguments
  refine (hexpr c hless hc).bind fun e c₁ h₁ hc₁ ↦ ?_
  refine bind_takeIf hc₁ .rightParen ?_ fun c₂ h₂ hc₂ ↦ .ok hc₂
  refine (walks_consume hc₁ .comma _).bind fun _ c₂ h₂ hc₂ ↦ ?_
  exact (walks_moreArguments (by omega) hc₂).bind fun es c₃ h₃ hc₃ ↦ .ok hc₃
termination_by c.remaining
decreasing_by all_goals omega

theorem walks_arguments {c : Cursor} (hless : c.remaining < b.remaining) (hc : Steps file c₀ c) :
    Walks file c₀ (arguments file expr c hless) := by
  unfold arguments
  exact bind_takeIf hc .rightParen (walks_moreArguments hexpr hless hc)
    fun c₁ h₁ hc₁ ↦ .ok hc₁

omit hexpr in
theorem walks_numberLiteral {c : Cursor} (hkind : c.current.kind = .number)
    (hc : Steps file c₀ c) : Walks file c₀ (numberLiteral file c hkind) := by
  unfold numberLiteral
  split
  · next hread => exact .fail hc nofun fun _ ↦ ⟨hkind, hread⟩
  · exact (goes_advance hc _).bind fun c₁ h₁ hc₁ ↦ .ok hc₁

omit hexpr in
theorem walks_tableKey {c : Cursor} (hc : Steps file c₀ c) : Walks file c₀ (tableKey file c) := by
  unfold tableKey
  split
  · exact walks_numberLiteral _ hc
  split
  · exact (walks_identifier hc).bind fun name c₁ h₁ hc₁ ↦ .ok hc₁
  · exact (walks_stringLiteral hc).bind fun value c₁ h₁ hc₁ ↦ .ok hc₁

theorem walks_tableEntry (position : Float) {c : Cursor} (hless : c.remaining < b.remaining)
    (hc : Steps file c₀ c) : Walks file c₀ (tableEntry file expr position c hless) := by
  unfold tableEntry
  split
  · refine (walks_tableKey hc).bind fun key c₁ h₁ hc₁ ↦ ?_
    refine (walks_consume hc₁ .colon _).bind fun _ c₂ h₂ hc₂ ↦ ?_
    exact (hexpr c₂ _ hc₂).bind fun value c₃ h₃ hc₃ ↦ .ok hc₃
  · exact (hexpr c hless hc).bind fun value c₁ h₁ hc₁ ↦ .ok hc₁

theorem walks_tableEntries (position : Float) {c : Cursor} (hless : c.remaining < b.remaining)
    (hc : Steps file c₀ c) : Walks file c₀ (tableEntries file expr position c hless) := by
  unfold tableEntries
  refine bind_takeIf hc .rightBrace ?_ fun c₁ h₁ hc₁ ↦ .ok hc₁
  refine (walks_tableEntry hexpr position hless hc).bind fun ⟨entry, next⟩ c₁ h₁ hc₁ ↦ ?_
  refine @Goes.bind _ file c₀ (fun c' ↦ c'.remaining ≤ c₁.remaining) _ _ _ ?_ fun c₂ h₂ hc₂ ↦ ?_
  · split
    · exact .ok hc₁
    · exact (walks_consume hc₁ .comma _).bind fun _ c₂ h₂ hc₂ ↦ .ok hc₂
  · exact (walks_tableEntries next (by omega) hc₂).bind fun es c₃ h₃ hc₃ ↦ .ok hc₃
termination_by c.remaining
decreasing_by all_goals omega

omit hexpr in
theorem walks_functionName {c : Cursor} (hc : Steps file c₀ c) :
    Walks file c₀ (functionName file c) := by
  unfold functionName
  split
  · exact (walks_identifier hc).bind fun name c₁ h₁ hc₁ ↦ .ok hc₁
  · exact .ok hc

omit hexpr in
include hbody in
theorem walks_function {c : Cursor} (hle : c.remaining ≤ b.remaining) (hc : Steps file c₀ c) :
    Walks file c₀ (function file body c hle) := by
  unfold function
  refine (walks_consume hc .kwFn _).bind fun _ c₁ h₁ hc₁ ↦ ?_
  refine (walks_functionName hc₁).bind fun name c₂ h₂ hc₂ ↦ ?_
  refine (walks_consume hc₂ .leftParen _).bind fun _ c₃ h₃ hc₃ ↦ ?_
  refine (walks_nameList hc₃ .rightParen).bind fun params c₄ h₄ hc₄ ↦ ?_
  exact (hbody c₄ _ hc₄).bind fun stmts c₅ h₅ hc₅ ↦ .ok hc₅

include hbody

theorem walks_primary {c : Cursor} (hle : c.remaining ≤ b.remaining) (hc : Steps file c₀ c) :
    Walks file c₀ (primary file expr body c hle) := by
  unfold primary
  -- in the order of the tokens that an operand may begin with
  refine .dite (fun _ ↦ walks_numberLiteral _ hc) fun _ ↦ .ite ?_ <| .dite (fun _ ↦ ?_)
    fun _ ↦ .dite (fun _ ↦ ?_) fun _ ↦ .ite ?_ <| .dite (fun _ ↦ ?_)
    fun _ ↦ .dite (fun _ ↦ ?_) fun _ ↦ .ite ?_ <| .expected hc _
  · exact (walks_stringLiteral hc).bind fun value c₁ h₁ hc₁ ↦ .ok hc₁
  · exact (goes_advance hc _).bind fun c₁ h₁ hc₁ ↦ .ok hc₁
  · exact (goes_advance hc _).bind fun c₁ h₁ hc₁ ↦ .ok hc₁
  · exact (walks_identifier hc).bind fun name c₁ h₁ hc₁ ↦ .ok hc₁
  · refine (goes_advance hc _).bind fun c₁ h₁ hc₁ ↦ ?_
    refine (hexpr c₁ _ hc₁).bind fun e c₂ h₂ hc₂ ↦ ?_
    exact (walks_consume hc₂ .rightParen _).bind fun _ c₃ h₃ hc₃ ↦ .ok hc₃
  · refine (goes_advance hc _).bind fun c₁ h₁ hc₁ ↦ ?_
    exact (walks_tableEntries hexpr 0 _ hc₁).bind fun es c₂ h₂ hc₂ ↦ .ok hc₂
  · exact (walks_function hbody hle hc).bind fun ⟨name, params, stmts⟩ c₁ h₁ hc₁ ↦ .ok hc₁

omit hbody in
theorem walks_suffixes (e : Expr) {c : Cursor} (hle : c.remaining ≤ b.remaining)
    (hc : Steps file c₀ c) : Walks file c₀ (suffixes file expr e c hle) := by
  unfold suffixes
  split
  · refine (goes_advance hc _).bind fun c₁ h₁ hc₁ ↦ ?_
    refine (walks_identifier hc₁).bind fun name c₂ h₂ hc₂ ↦ ?_
    exact (walks_suffixes _ _ hc₂).bind fun e' c₃ h₃ hc₃ ↦ .ok hc₃
  split
  · refine (goes_advance hc _).bind fun c₁ h₁ hc₁ ↦ ?_
    refine (hexpr c₁ _ hc₁).bind fun property c₂ h₂ hc₂ ↦ ?_
    refine (walks_consume hc₂ .rightBracket _).bind fun _ c₃ h₃ hc₃ ↦ ?_
    exact (walks_suffixes _ _ hc₃).bind fun e' c₄ h₄ hc₄ ↦ .ok hc₄
  split
  · refine (goes_advance hc _).bind fun c₁ h₁ hc₁ ↦ ?_
    refine (walks_arguments hexpr _ hc₁).bind fun args c₂ h₂ hc₂ ↦ ?_
    exact (walks_suffixes _ _ hc₂).bind fun e' c₃ h₃ hc₃ ↦ .ok hc₃
  · exact .ok hc
termination_by c.remaining
decreasing_by all_goals omega

theorem walks_suffixed {c : Cursor} (hle : c.remaining ≤ b.remaining) (hc : Steps file c₀ c) :
    Walks file c₀ (suffixed file expr body c hle) := by
  unfold suffixed
  refine (walks_primary hexpr hbody hle hc).bind fun e c₁ h₁ hc₁ ↦ ?_
  exact (walks_suffixes hexpr e _ hc₁).bind fun e' c₂ h₂ hc₂ ↦ .ok hc₂

theorem walks_unary {c : Cursor} (hle : c.remaining ≤ b.remaining) (hc : Steps file c₀ c) :
    Walks file c₀ (unary file expr body c hle) := by
  unfold unary
  split
  · refine (goes_advance hc _).bind fun c₁ h₁ hc₁ ↦ ?_
    exact (walks_unary _ hc₁).bind fun e c₂ h₂ hc₂ ↦ .ok hc₂
  · refine (walks_suffixed hexpr hbody hle hc).bind fun base c₁ h₁ hc₁ ↦ ?_
    refine bind_takeIf hc₁ .caret (.ok hc₁) fun c₂ h₂ hc₂ ↦ ?_
    exact (walks_unary _ hc₂).bind fun exponent c₃ h₃ hc₃ ↦ .ok hc₃
termination_by c.remaining
decreasing_by all_goals omega

end Expressions

section Levels

variable {b : Cursor} {operand : UpTo b Expr} (level : Level)
  (hoperand : ∀ c hle, Steps file c₀ c → Walks file c₀ (operand c hle))

include hoperand

theorem walks_binaryRest (left : Expr) {c : Cursor} (hle : c.remaining ≤ b.remaining)
    (hc : Steps file c₀ c) : Walks file c₀ (binaryRest file operand level left c hle) := by
  unfold binaryRest
  split
  · exact .ok hc
  · refine (goes_advance hc _).bind fun c₁ h₁ hc₁ ↦ ?_
    refine (hoperand c₁ _ hc₁).bind fun right c₂ h₂ hc₂ ↦ ?_
    exact (walks_binaryRest _ _ hc₂).bind fun e c₃ h₃ hc₃ ↦ .ok hc₃
termination_by c.remaining
decreasing_by all_goals omega

theorem walks_binary (c : Cursor) (hle : c.remaining ≤ b.remaining) (hc : Steps file c₀ c) :
    Walks file c₀ (binary file operand level c hle) := by
  unfold binary
  refine (hoperand c hle hc).bind fun left c₁ h₁ hc₁ ↦ ?_
  exact (walks_binaryRest level hoperand left _ hc₁).bind fun e c₂ h₂ hc₂ ↦ .ok hc₂

end Levels

theorem walks_expressionWith {b : Cursor} {expr : Below b Expr} {body : Below b (List Stmt)}
    (hexpr : ∀ c hless, Steps file c₀ c → Walks file c₀ (expr c hless))
    (hbody : ∀ c hless, Steps file c₀ c → Walks file c₀ (body c hless)) (c : Cursor)
    (hle : c.remaining ≤ b.remaining) (hc : Steps file c₀ c) :
    Walks file c₀ (expressionWith file expr body c hle) := by
  -- the levels stand on one another, from the tightest to the loosest
  refine walks_binary .or ?_ c hle hc
  refine walks_binary .and ?_
  refine walks_binary .comparison ?_
  refine walks_binary .additive ?_
  refine walks_binary .multiplicative ?_
  exact fun c hle hc ↦ walks_unary hexpr hbody hle hc

/-! ## Statements -/

section Statements

variable {b : Cursor} {expr : UpTo b Expr} {body : Below b (List Stmt)} {stmt : Below b Stmt}
  (hexpr : ∀ c hle, Steps file c₀ c → Walks file c₀ (expr c hle))
  (hbody : ∀ c hless, Steps file c₀ c → Walks file c₀ (body c hless))
  (hstmt : ∀ c hless, Steps file c₀ c → Walks file c₀ (stmt c hless))

include hexpr

theorem walks_varStatement {c : Cursor} (hless : c.remaining < b.remaining)
    (hc : Steps file c₀ c) : Walks file c₀ (varStatement file expr c hless) := by
  unfold varStatement
  refine (walks_identifier hc).bind fun name c₁ h₁ hc₁ ↦ ?_
  refine bind_takeIf hc₁ .equal (.ok hc₁) fun c₂ h₂ hc₂ ↦ ?_
  exact (hexpr c₂ _ hc₂).bind fun value c₃ h₃ hc₃ ↦ .ok hc₃

theorem walks_returnStatement (line : Nat) {c : Cursor} (hless : c.remaining < b.remaining)
    (hc : Steps file c₀ c) : Walks file c₀ (returnStatement expr line c hless) := by
  unfold returnStatement
  split
  · exact .ok hc
  · exact (hexpr c _ hc).bind fun value c₁ h₁ hc₁ ↦ .ok hc₁

theorem walks_expressionStatement {c : Cursor} (hle : c.remaining ≤ b.remaining)
    (hc : Steps file c₀ c) : Walks file c₀ (expressionStatement file expr c hle) := by
  unfold expressionStatement
  refine (hexpr c hle hc).bind fun e c₁ h₁ hc₁ ↦ ?_
  dsimp only
  split
  · exact .ok hc₁
  · split
    · exact Walks.fail hc₁ (by simp [ParseFault.IsAbout]) nofun
    · refine (goes_advance hc₁ _).bind fun c₂ h₂ hc₂ ↦ ?_
      exact (hexpr c₂ _ hc₂).bind fun value c₃ h₃ hc₃ ↦ .ok hc₃

include hbody

theorem walks_condRest {c : Cursor} (hle : c.remaining ≤ b.remaining) (hc : Steps file c₀ c) :
    Walks file c₀ (condRest file expr body c hle) := by
  unfold condRest
  refine (goes_skipSemicolons hc).bind fun c₁ h₁ hc₁ ↦ ?_
  refine bind_takeIf hc₁ .kwElif ?_ fun c₂ h₂ hc₂ ↦ ?_
  · refine bind_takeIf hc₁ .kwElse (.ok hc₁) fun c₂ h₂ hc₂ ↦ ?_
    exact (hbody c₂ _ hc₂).bind fun stmts c₃ h₃ hc₃ ↦ .ok hc₃
  · refine (hexpr c₂ _ hc₂).bind fun condition c₃ h₃ hc₃ ↦ ?_
    refine (hbody c₃ _ hc₃).bind fun stmts c₄ h₄ hc₄ ↦ ?_
    exact (walks_condRest _ hc₄).bind fun ⟨branches, otherwise⟩ c₅ h₅ hc₅ ↦ .ok hc₅
termination_by c.remaining
decreasing_by all_goals omega

theorem walks_condStatement {c : Cursor} (hless : c.remaining < b.remaining)
    (hc : Steps file c₀ c) : Walks file c₀ (condStatement file expr body c hless) := by
  unfold condStatement
  refine (hexpr c _ hc).bind fun condition c₁ h₁ hc₁ ↦ ?_
  refine (hbody c₁ _ hc₁).bind fun stmts c₂ h₂ hc₂ ↦ ?_
  exact (walks_condRest hexpr hbody _ hc₂).bind fun ⟨branches, otherwise⟩ c₃ h₃ hc₃ ↦ .ok hc₃

theorem walks_whileStatement {c : Cursor} (hless : c.remaining < b.remaining)
    (hc : Steps file c₀ c) : Walks file c₀ (whileStatement expr body c hless) := by
  unfold whileStatement
  refine (hexpr c _ hc).bind fun condition c₁ h₁ hc₁ ↦ ?_
  exact (hbody c₁ _ hc₁).bind fun stmts c₂ h₂ hc₂ ↦ .ok hc₂

theorem walks_forStatement {c : Cursor} (hless : c.remaining < b.remaining)
    (hc : Steps file c₀ c) : Walks file c₀ (forStatement file expr body c hless) := by
  have hbounds {c : Cursor} (hless : c.remaining < b.remaining) (hc : Steps file c₀ c) :
      Walks file c₀ (arguments file (fun c h ↦ expr c (Nat.le_of_lt h)) c hless) :=
    walks_arguments (fun c h hc ↦ hexpr c (Nat.le_of_lt h) hc) hless hc
  unfold forStatement
  refine (walks_loopNames hc).bind fun names c₁ h₁ hc₁ ↦ ?_
  dsimp only
  split
  · refine (walks_consume hc₁ .leftParen _).bind fun _ c₂ h₂ hc₂ ↦ ?_
    refine (hbounds _ hc₂).bind fun bounds c₃ h₃ hc₃ ↦ ?_
    dsimp only
    split
    · exact (hbody c₃ _ hc₃).bind fun stmts c₄ h₄ hc₄ ↦ .ok hc₄
    · exact (hbody c₃ _ hc₃).bind fun stmts c₄ h₄ hc₄ ↦ .ok hc₄
    · exact Walks.fail hc₃ (by simp [ParseFault.IsAbout]) nofun
  · refine (hexpr c₁ _ hc₁).bind fun iterator c₂ h₂ hc₂ ↦ ?_
    exact (hbody c₂ _ hc₂).bind fun stmts c₃ h₃ hc₃ ↦ .ok hc₃
  · exact Walks.fail hc₁ (by simp [ParseFault.IsAbout]) nofun

omit hexpr hbody in
include hstmt in
theorem walks_shineStatement {c : Cursor} (hless : c.remaining < b.remaining)
    (hc : Steps file c₀ c) : Walks file c₀ (shineStatement file stmt c hless) := by
  unfold shineStatement
  split
  · exact (hstmt c _ hc).bind fun inner c₁ h₁ hc₁ ↦ .ok hc₁
  · exact .expected hc _

include hstmt

theorem walks_bareStatement {c : Cursor} (hle : c.remaining ≤ b.remaining) (hc : Steps file c₀ c) :
    Walks file c₀ (bareStatement file expr body stmt c hle) := by
  unfold bareStatement
  -- in the order of the keywords, and with none of them an expression
  refine .dite (fun _ ↦ ?_) fun _ ↦ .dite (fun _ ↦ ?_) fun _ ↦ .dite (fun _ ↦ ?_)
    fun _ ↦ .dite (fun _ ↦ ?_) fun _ ↦ .dite (fun _ ↦ ?_) fun _ ↦ .dite (fun _ ↦ ?_)
    fun _ ↦ .dite (fun _ ↦ ?_) fun _ ↦ .dite (fun _ ↦ ?_) fun _ ↦ .dite (fun _ ↦ ?_)
    fun _ ↦ .dite (fun _ ↦ ?_) fun _ ↦ .dite (fun _ ↦ ?_) fun _ ↦ .dite (fun _ ↦ ?_)
    fun _ ↦ walks_expressionStatement hexpr hle hc
  · refine (goes_advance hc _).bind fun c₁ h₁ hc₁ ↦ ?_
    exact (walks_varStatement hexpr _ hc₁).bind fun s c₂ h₂ hc₂ ↦ .ok hc₂
  · exact (walks_function hbody hle hc).bind fun ⟨name, params, stmts⟩ c₁ h₁ hc₁ ↦ .ok hc₁
  · refine (goes_advance hc _).bind fun c₁ h₁ hc₁ ↦ ?_
    exact (walks_condStatement hexpr hbody _ hc₁).bind fun s c₂ h₂ hc₂ ↦ .ok hc₂
  · refine (goes_advance hc _).bind fun c₁ h₁ hc₁ ↦ ?_
    exact (walks_whileStatement hexpr hbody _ hc₁).bind fun s c₂ h₂ hc₂ ↦ .ok hc₂
  · refine (goes_advance hc _).bind fun c₁ h₁ hc₁ ↦ ?_
    exact (walks_forStatement hexpr hbody _ hc₁).bind fun s c₂ h₂ hc₂ ↦ .ok hc₂
  · refine (goes_advance hc _).bind fun c₁ h₁ hc₁ ↦ ?_
    exact (walks_returnStatement hexpr _ _ hc₁).bind fun s c₂ h₂ hc₂ ↦ .ok hc₂
  · exact (goes_advance hc _).bind fun c₁ h₁ hc₁ ↦ .ok hc₁
  · exact (goes_advance hc _).bind fun c₁ h₁ hc₁ ↦ .ok hc₁
  · refine (goes_advance hc _).bind fun c₁ h₁ hc₁ ↦ ?_
    exact (walks_reflectStatement hc₁).bind fun s c₂ h₂ hc₂ ↦ .ok hc₂
  · refine (goes_advance hc _).bind fun c₁ h₁ hc₁ ↦ ?_
    exact (walks_shineStatement hstmt _ hc₁).bind fun s c₂ h₂ hc₂ ↦ .ok hc₂
  · refine (goes_advance hc _).bind fun c₁ h₁ hc₁ ↦ ?_
    exact (walks_foreignStatement hc₁).bind fun s c₂ h₂ hc₂ ↦ .ok hc₂
  · refine (goes_advance hc _).bind fun c₁ h₁ hc₁ ↦ ?_
    exact (walks_identifier hc₁).bind fun name c₂ h₂ hc₂ ↦ .ok hc₂

theorem walks_statementWith {c : Cursor} (hle : c.remaining ≤ b.remaining) (hc : Steps file c₀ c) :
    Walks file c₀ (statementWith file expr body stmt c hle) := by
  unfold statementWith
  refine (walks_bareStatement hexpr hbody hstmt hle hc).bind fun s c₁ h₁ hc₁ ↦ ?_
  exact (goes_skipSemicolons hc₁).bind fun c₂ h₂ hc₂ ↦ .ok hc₂

end Statements

/-! ## Tying the knot -/

mutual

theorem walks_expression {c : Cursor} (hc : Steps file c₀ c) :
    Walks file c₀ (expression file c) := by
  rw [expression]
  exact walks_expressionWith (fun c' _ hc' ↦ walks_expression hc') (fun c' _ hc' ↦ walks_block hc')
    c _ hc
termination_by c.remaining * 4
decreasing_by all_goals omega

theorem walks_statement {c : Cursor} (hc : Steps file c₀ c) : Walks file c₀ (statement file c) := by
  rw [statement]
  exact walks_statementWith (fun c' _ hc' ↦ walks_expression hc') (fun c' _ hc' ↦ walks_block hc')
    (fun c' _ hc' ↦ walks_statement hc') _ hc
termination_by c.remaining * 4 + 1
decreasing_by all_goals omega

theorem walks_block {c : Cursor} (hc : Steps file c₀ c) : Walks file c₀ (block file c) := by
  rw [block]
  refine bind_takeIf hc .leftBrace ?_ fun c₁ h₁ hc₁ ↦ ?_
  · exact (walks_statement hc).bind fun s c₁ h₁ hc₁ ↦ .ok hc₁
  · exact (walks_blockRest hc₁).bind fun stmts c₂ h₂ hc₂ ↦ .ok hc₂
termination_by c.remaining * 4 + 3
decreasing_by all_goals omega

theorem walks_blockRest {c : Cursor} (hc : Steps file c₀ c) :
    Walks file c₀ (blockRest file c) := by
  rw [blockRest]
  refine (goes_skipSemicolons hc).bind fun c₁ h₁ hc₁ ↦ ?_
  refine bind_takeIf hc₁ .rightBrace ?_ fun c₂ h₂ hc₂ ↦ .ok hc₂
  dsimp only
  split
  · exact Walks.expected hc₁ _
  · refine (walks_statement hc₁).bind fun s c₂ h₂ hc₂ ↦ ?_
    exact (walks_blockRest hc₂).bind fun stmts c₃ h₃ hc₃ ↦ .ok hc₃
termination_by c.remaining * 4 + 2
decreasing_by all_goals omega

end

/-! ## Whole files -/

/-- Statements read one after the other, semicolons between them, up to the end of the file. -/
inductive ReadsTo (file : String) : Cursor → Program → Cursor → Prop where
  | done {c : Cursor} {last : c.Kept} (hskip : c.skipSemicolons file = .ok last)
      (hend : last.1.current.kind = .eof) : ReadsTo file c [] last.1
  | next {c last : Cursor} {c₁ : c.Kept} {s : Stmt} {c₂ : c₁.1.Shrunk} {body : Program}
      (hskip : c.skipSemicolons file = .ok c₁) (hmore : c₁.1.current.kind ≠ .eof)
      (hstmt : statement file c₁.1 = .ok (s, c₂)) (hrest : ReadsTo file c₂.1 body last) :
      ReadsTo file c (s :: body) last

theorem delivers_program {c : Cursor} (hc : Steps file c₀ c) :
    Delivers (Stops file c₀)
      (fun body ↦ ∃ last, ReadsTo file c body last ∧ Steps file c₀ last ∧ last.current.kind = .eof)
      (program file c) := by
  rw [program]
  obtain ⟨⟨c₁, h₁⟩, hskip, hc₁⟩ | ⟨e, heq, he⟩ := (goes_skipSemicolons hc).eq_ok_or_error
  · rw [hskip]
    by_cases hend : c₁.current.kind = .eof
    · simp only [bind, Except.bind, if_pos hend]
      exact .ok ⟨c₁, .done hskip hend, hc₁, hend⟩
    · simp only [bind, Except.bind, if_neg hend]
      obtain ⟨⟨s, c₂, h₂⟩, hstmt, hc₂⟩ | ⟨e, heq, he⟩ := (walks_statement hc₁).eq_ok_or_error
      · rw [hstmt]
        have hless : c₂.remaining < c.remaining := Nat.lt_of_lt_of_le h₂ h₁
        refine (delivers_program hc₂).bind fun body ⟨last, hreads, hlast, hend'⟩ ↦ ?_
        exact .ok ⟨last, .next hskip hend hstmt hreads, hlast, hend'⟩
      · rw [heq]
        exact .error he
  · rw [heq]
    exact .error he
termination_by c.remaining
decreasing_by all_goals omega

end Parser

def Token.IsError (t : Token) : Prop := ∃ fault, t.kind = .error fault

namespace Cursor

theorem checkLexical_eq_ok_iff {t : Token} : checkLexical file t = .ok () ↔ ¬t.IsError := by
  unfold checkLexical
  split
  · next fault hkind => simp [Token.IsError, hkind]
  · next hnone => simpa [Token.IsError] using hnone

theorem exists_of_checkLexical_eq_error {t : Token} {e : Error}
    (h : checkLexical file t = .error e) : ∃ fault, t.kind = .error fault ∧
      e = .lexical file t.position.line t.position.column fault := by
  unfold checkLexical at h
  split at h
  · next fault hkind => exact ⟨fault, hkind, (Except.error.inj h).symm⟩
  · cases h

/-- A step leads to the next token, which is no error. -/
theorem Step.next {c c' : Cursor} (h : Step file c c') (hrest : c.rest ≠ []) :
    c.rest = c'.tokens ∧ ¬c'.current.IsError := by
  obtain ⟨current, _ | ⟨t, ts⟩⟩ := c
  · exact absurd rfl hrest
  obtain ⟨hkind, hless, hstep⟩ := h
  simp only [advance] at hstep
  split at hstep
  · cases hstep
  · next hcheck =>
    cases hstep
    exact ⟨rfl, checkLexical_eq_ok_iff.mp hcheck⟩

/-- There is no step onto a token that is an error, and the error says where it is. -/
theorem exists_of_advance_eq_error {c : Cursor} {hkind : c.current.kind ≠ .eof} {e : Error}
    (h : c.advance file hkind = .error e) : ∃ t ts fault, c.rest = t :: ts ∧
      t.kind = .error fault ∧ e = .lexical file t.position.line t.position.column fault := by
  obtain ⟨current, _ | ⟨t, ts⟩⟩ := c
  · cases h
  simp only [advance] at h
  split at h
  · next hcheck =>
    cases h
    obtain ⟨fault, hfault, he⟩ := exists_of_checkLexical_eq_error hcheck
    exact ⟨t, ts, fault, rfl, hfault, he⟩
  · cases h

/-- The end of the file is the last token, and no other. -/
def Closed (c : Cursor) : Prop :=
  ∃ init last, c.tokens = init ++ [last] ∧ last.kind = .eof ∧ ∀ t ∈ init, t.kind ≠ .eof

theorem Closed.rest_eq_nil_iff {c : Cursor} (h : c.Closed) :
    c.rest = [] ↔ c.current.kind = .eof := by
  obtain ⟨_ | ⟨t, ts⟩, last, htokens, hlast, hinit⟩ := h
  · obtain ⟨rfl, hrest⟩ := List.cons.inj htokens
    simp [hrest, hlast]
  · obtain ⟨rfl, hrest⟩ := List.cons.inj htokens
    simp [hrest, hinit]

theorem Closed.step {c c' : Cursor} (hc : c.Closed) (h : Step file c c') :
    c'.Closed ∧ c.rest = c'.tokens ∧ ¬c'.current.IsError := by
  have hmore : c.rest ≠ [] := mt hc.rest_eq_nil_iff.mp h.1
  obtain ⟨hrest, hsound⟩ := h.next hmore
  refine ⟨?_, hrest, hsound⟩
  obtain ⟨_ | ⟨t, ts⟩, last, htokens, hlast, hinit⟩ := hc
  · exact absurd (List.cons.inj htokens).2 hmore
  · rw [(List.cons.inj htokens).2] at hrest
    exact ⟨ts, last, hrest.symm, hlast, fun t ht ↦ hinit t (List.mem_cons_of_mem _ ht)⟩

/-- Steps pass over the tokens before the one they lead to, and none of them is an error. -/
theorem Closed.steps {c c' : Cursor} (hc : c.Closed) (hsound : ¬c.current.IsError)
    (h : Steps file c c') : c'.Closed ∧ ¬c'.current.IsError ∧
      ∃ passed, c.tokens = passed ++ c'.tokens ∧ ∀ t ∈ passed, ¬t.IsError := by
  induction h with
  | refl => exact ⟨hc, hsound, [], rfl, nofun⟩
  | @tail c₁ c₂ _ hstep ih =>
    obtain ⟨hc₁, hsound₁, passed, htokens, hpassed⟩ := ih
    obtain ⟨hc₂, hrest, hsound₂⟩ := hc₁.step hstep
    refine ⟨hc₂, hsound₂, passed ++ [c₁.current], ?_, ?_⟩
    · rw [htokens, tokens, hrest, List.append_assoc]
      rfl
    · exact List.forall_mem_append.mpr ⟨hpassed, List.forall_mem_singleton.mpr hsound₁⟩

/-- The first error is still ahead of everything that is none. -/
theorem exists_append_of_first {before after passed rest : List Token} {bad : Token}
    (h : before ++ bad :: after = passed ++ rest) (hbad : bad.IsError)
    (hpassed : ∀ t ∈ passed, ¬t.IsError) :
    ∃ ahead, before = passed ++ ahead ∧ rest = ahead ++ bad :: after := by
  obtain ⟨more, hmore, hcons⟩ | h := List.append_eq_append_iff.mp h
  · rcases more with _ | ⟨t, more⟩
    · exact ⟨[], by simpa using hmore.symm, hcons.symm⟩
    · have hmem : bad ∈ passed := by
        rw [hmore, (List.cons.inj hcons).1]
        simp
      exact absurd hbad (hpassed bad hmem)
  · exact h

/-- A parse that stops does so before the first error or at it. -/
theorem Closed.stops {c : Cursor} (hc : c.Closed) (hsound : ¬c.current.IsError) {e : Error}
    (h : Stops file c e) {before after : List Token} {bad : Token} {fault : ScanFault}
    (htokens : c.tokens = before ++ bad :: after) (hbefore : ∀ t ∈ before, ¬t.IsError)
    (hbad : bad.kind = .error fault) :
    e = .lexical file bad.position.line bad.position.column fault ∨
      ∃ t ∈ before, ∃ what, e = .parse file t.position.line t.position.column what := by
  obtain ⟨c', hsteps, hrejects⟩ := h
  obtain ⟨-, hsound', passed, hpassed, hnone⟩ := hc.steps hsound hsteps
  have hsplit : before ++ bad :: after = (passed ++ [c'.current]) ++ c'.rest := by
    rw [← htokens, hpassed, List.append_assoc]
    rfl
  obtain ⟨ahead, rfl, hrest⟩ := exists_append_of_first hsplit ⟨fault, hbad⟩
    (List.forall_mem_append.mpr ⟨hnone, List.forall_mem_singleton.mpr hsound'⟩)
  cases hrejects with
  | @outOfPlace what _ _ => exact .inr ⟨c'.current, by simp, what, rfl⟩
  | next hkind hadvance =>
    obtain ⟨t, ts, fault', hrest', hfault, rfl⟩ := exists_of_advance_eq_error hadvance
    rcases ahead with _ | ⟨t', ahead⟩
    · -- the next token is the first error
      obtain ⟨rfl, -⟩ := List.cons.inj (hrest'.symm.trans hrest)
      rw [hfault] at hbad
      cases hbad
      exact .inl rfl
    · -- the next token comes before it, and is no error
      obtain ⟨rfl, -⟩ := List.cons.inj (hrest'.symm.trans hrest)
      exact absurd ⟨fault', hfault⟩ (hbefore t (by simp))

end Cursor

theorem exists_cursor_of_scan (source : String) :
    ∃ c : Cursor, c.tokens = scan source ∧ c.Closed := by
  obtain ⟨placed, hscan, hkinds, -⟩ := exists_placed [] source.toList
  have hinit : ∀ t ∈ placed.map (·.2), t.kind ≠ .eof := by
    rintro t ht
    obtain ⟨p, hp, rfl⟩ := List.mem_map.mp ht
    exact hkinds p hp
  have hscan : scan source = _ := hscan
  cases htokens : scan source with
  | nil => exact absurd (htokens.symm.trans hscan) (by simp)
  | cons t ts => exact ⟨⟨t, ts⟩, rfl, _, _, htokens.symm.trans hscan, rfl, hinit⟩

theorem parseSource_of_tokens {c : Cursor} {source : String} (h : c.tokens = scan source)
    (file : String) : parseSource source file =
      (Cursor.checkLexical file c.current >>= fun _ ↦ Parser.program file c) := by
  rw [parseSource, ← h]
  rfl

/-- A file that is refused has an error for its first token, or parsing stops somewhere. -/
theorem exists_cursor_of_parseSource_eq_error {source file : String} {e : Error}
    (h : parseSource source file = .error e) : ∃ c : Cursor, c.tokens = scan source ∧ c.Closed ∧
      (Cursor.checkLexical file c.current = .error e ∨
        ¬c.current.IsError ∧ Cursor.Stops file c e) := by
  obtain ⟨c, hscan, hclosed⟩ := exists_cursor_of_scan source
  rw [parseSource_of_tokens hscan] at h
  refine ⟨c, hscan, hclosed, ?_⟩
  cases hcheck : Cursor.checkLexical file c.current with
  | error e' =>
    rw [hcheck] at h
    cases h
    exact .inl rfl
  | ok _ =>
    rw [hcheck] at h
    have hprogram : Parser.program file c = .error e := h
    have hdelivers := @Parser.delivers_program file c c .refl
    rw [hprogram] at hdelivers
    cases hdelivers with
    | error hstops => exact .inr ⟨Cursor.checkLexical_eq_ok_iff.mp hcheck, hstops⟩

/-- A number is found to be a bad one only if it cannot be read. -/
theorem exists_isUnreadable {source file name : String} {line column : Nat}
    (h : parseSource source file = .error (.parse name line column .badNumber)) :
    ∃ t ∈ scan source, t.IsUnreadable := by
  obtain ⟨c, hscan, hclosed, hlexical | ⟨hsound, c', hsteps, hrejects⟩⟩ :=
    exists_cursor_of_parseSource_eq_error h
  · obtain ⟨fault, -, heq⟩ := Cursor.exists_of_checkLexical_eq_error hlexical
    cases heq
  · obtain ⟨-, -, passed, htokens, -⟩ := hclosed.steps hsound hsteps
    refine ⟨c'.current, ?_, ?_⟩
    · rw [← hscan, htokens]
      exact List.mem_append_right _ List.mem_cons_self
    · generalize herror : Error.parse name line column .badNumber = e at hrejects
      cases hrejects with
      | outOfPlace hfault hnumber =>
        cases herror
        exact hnumber rfl
      | next hkind hadvance =>
        obtain ⟨t, ts, fault, -, -, rfl⟩ := Cursor.exists_of_advance_eq_error hadvance
        cases herror

/-- **No part of a file is passed over in silence.** A program that parses was read statement by
statement, one step after the other, from the first token to the end of the file, and none of the
tokens is an error. If there is an error among the tokens, parsing fails: with the first of these
errors and its place, or for a token before it. -/
theorem parseSource_consumes (source file : String) :
    (∀ body, parseSource source file = .ok body → (∀ t ∈ scan source, ¬t.IsError) ∧
      ∃ first last : Cursor, first.tokens = scan source ∧ Cursor.Steps file first last ∧
        Parser.ReadsTo file first body last ∧ last.current.kind = .eof ∧ last.rest = []) ∧
    (∀ before bad after fault, scan source = before ++ bad :: after →
      (∀ t ∈ before, ¬t.IsError) → bad.kind = .error fault →
      parseSource source file =
          .error (.lexical file bad.position.line bad.position.column fault) ∨
        ∃ t ∈ before, ∃ what, parseSource source file =
          .error (.parse file t.position.line t.position.column what)) := by
  obtain ⟨c, hscan, hclosed⟩ := exists_cursor_of_scan source
  rw [parseSource_of_tokens hscan, ← hscan]
  cases hcheck : Cursor.checkLexical file c.current with
  | error e =>
    -- the first token is the first error
    obtain ⟨fault, hfault, rfl⟩ := Cursor.exists_of_checkLexical_eq_error hcheck
    refine ⟨nofun, fun before bad after fault' htokens hbefore hbad ↦ .inl ?_⟩
    rcases before with _ | ⟨t, before⟩
    · obtain ⟨rfl, -⟩ := List.cons.inj htokens
      rw [hfault] at hbad
      cases hbad
      rfl
    · obtain ⟨rfl, -⟩ := List.cons.inj htokens
      exact absurd ⟨fault, hfault⟩ (hbefore c.current List.mem_cons_self)
  | ok _ =>
    have hsound : ¬c.current.IsError := Cursor.checkLexical_eq_ok_iff.mp hcheck
    obtain ⟨body, hbody, last, hreads, hsteps, hend⟩ | ⟨e, herror, hstops⟩ :=
      (@Parser.delivers_program file c c .refl).eq_ok_or_error
    · obtain ⟨hlast, hsound', passed, htokens, hpassed⟩ := hclosed.steps hsound hsteps
      have hrest : last.rest = [] := hlast.rest_eq_nil_iff.mpr hend
      have hnone : ∀ t ∈ c.tokens, ¬t.IsError := by
        rw [htokens, Cursor.tokens, hrest]
        exact List.forall_mem_append.mpr ⟨hpassed, List.forall_mem_singleton.mpr hsound'⟩
      rw [hbody]
      refine ⟨fun body' hbody' ↦ ?_, fun before bad after fault htokens' _ hbad ↦ ?_⟩
      · cases hbody'
        exact ⟨hnone, c, last, rfl, hsteps, hreads, hend, hrest⟩
      · exact absurd ⟨fault, hbad⟩ (hnone bad (by simp [htokens']))
    · rw [herror]
      refine ⟨nofun, fun before bad after fault htokens hbefore hbad ↦ ?_⟩
      obtain rfl | ⟨t, ht, what, rfl⟩ := hclosed.stops hsound hstops htokens hbefore hbad
      · exact .inl rfl
      · exact .inr ⟨t, ht, what, rfl⟩

/-! Both ways to be refused occur: at an error of the scanner, and before one. -/

example : parseSource "x = \"a" "main.gem" = .error (.lexical "main.gem" 1 5 .openText) := by cbv

example : parseSource "var = \"a" "main.gem" =
    .error (.parse "main.gem" 1 5 (.expected "identifier" (some "="))) := by cbv

end GemLang
