import GemLang.Proofs.Compile.Operand
import GemLang.Proofs.Syntax.Spelling
import GemLang.Syntax.Parser

/-!
# What parsing spells

Every name in a tree that was parsed is the text of a name in the source, and the target of an
assignment has fewer keys than the source has tokens: every key was written with a token of its own.

The parser is a function of the parsers for shorter inputs. So is the proof: for each construct,
what holds of the parsers it is given holds of its own result, and the knot is tied at the end by
the same recursion on the number of tokens left.
-/

namespace GemLang

/-! ## Tokens -/

/-- Every name among the tokens of a cursor is one. -/
def Cursor.Named (c : Cursor) : Prop :=
  ∀ t ∈ c.current :: c.rest, t.kind = .identifier → IsName t.text

/-- The spelling of what is parsed from at most `limit` tokens. -/
def Spelling.parsed (limit : Nat) : Spelling where
  name := IsName
  library _ := True
  reflect := True
  depth n := n < limit

/-- How many members of members an expression is. -/
def Expr.memberDepth : Expr → Nat
  | .member object _ _ => object.memberDepth + 1
  | _ => 0

theorem Expr.length_of_target? {e : Expr} {root : String} {path : List (Expr × Bool)}
    (h : e.target? = some (root, path)) : path.length = e.memberDepth := by
  fun_induction Expr.target? e generalizing root path with
  | case1 name =>
    simp only [Option.some.injEq, Prod.mk.injEq] at h
    simp [← h.2, memberDepth]
  | case2 object property computed ih =>
    simp only [Option.map_eq_some_iff, Prod.mk.injEq, Prod.exists] at h
    obtain ⟨r, p, hobject, rfl, rfl⟩ := h
    simp [memberDepth, ih hobject]
  | case3 => simp at h

theorem Spelling.target?_spelled {S : Spelling} {e : Expr} (he : S.expr e) {root : String}
    {path : List (Expr × Bool)} (h : e.target? = some (root, path)) :
    S.name root ∧ S.path path := by
  fun_induction Expr.target? e generalizing root path with
  | case1 name =>
    simp only [Option.some.injEq, Prod.mk.injEq] at h
    obtain ⟨rfl, rfl⟩ := h
    exact ⟨he, trivial⟩
  | case2 object property computed ih =>
    simp only [Option.map_eq_some_iff, Prod.mk.injEq, Prod.exists] at h
    obtain ⟨r, p, hobject, rfl, rfl⟩ := h
    obtain ⟨hroot, hpath⟩ := ih he.1 hobject
    exact ⟨hroot, path_append.mpr ⟨hpath, he.2, trivial⟩⟩
  | case3 => simp at h

/-! ## Steps -/

section Steps

variable {α β : Type} {p : Cursor → Prop} {Q : α → Cursor → Prop} {R : β → Prop}

/-- A step that only moves goes to a cursor whose names are names. -/
def Moves (x : Except Error { c : Cursor // p c }) : Prop := Ensures (fun r ↦ r.1.Named) x

/-- A step that reads something: `Q` says what, and where it ends. -/
def Reads (Q : α → Cursor → Prop) (x : Except Error (α × { c : Cursor // p c })) : Prop :=
  Ensures (fun r ↦ Q r.1 r.2.1 ∧ r.2.1.Named) x

theorem Moves.bind {x : Except Error { c : Cursor // p c }}
    {f : { c : Cursor // p c } → Except Error β} (hx : Moves x)
    (hf : ∀ c (h : p c), c.Named → Ensures R (f ⟨c, h⟩)) : Ensures R (x >>= f) :=
  Ensures.bind hx fun r hr ↦ hf r.1 r.2 hr

theorem Reads.bind {x : Except Error (α × { c : Cursor // p c })}
    {f : α × { c : Cursor // p c } → Except Error β} (hx : Reads Q x)
    (hf : ∀ a c (h : p c), Q a c → c.Named → Ensures R (f (a, ⟨c, h⟩))) :
    Ensures R (x >>= f) :=
  Ensures.bind hx fun r hr ↦ hf r.1 r.2.1 r.2.2 hr.1 hr.2

theorem Reads.dite {P : Prop} [Decidable P] {x : P → Except Error (α × { c : Cursor // p c })}
    {y : ¬P → Except Error (α × { c : Cursor // p c })} (hx : ∀ h, Reads Q (x h))
    (hy : ∀ h, Reads Q (y h)) : Reads Q (if h : P then x h else y h) := by
  by_cases h : P
  · rw [dif_pos h]
    exact hx h
  · rw [dif_neg h]
    exact hy h

theorem Reads.ite {P : Prop} [Decidable P] {x y : Except Error (α × { c : Cursor // p c })}
    (hx : Reads Q x) (hy : Reads Q y) : Reads Q (if P then x else y) :=
  Reads.dite (fun _ ↦ hx) fun _ ↦ hy

theorem Reads.mono {Q' : α → Cursor → Prop} {x : Except Error (α × { c : Cursor // p c })}
    (hx : Reads Q x) (h : ∀ a c, Q a c → Q' a c) : Reads Q' x :=
  Ensures.mono hx fun _ hr ↦ ⟨h _ _ hr.1, hr.2⟩

end Steps

namespace Cursor

variable {file : String} {c : Cursor}

theorem Named.advance (h : c.Named) (hkind : c.current.kind ≠ .eof) :
    Moves (c.advance file hkind) := by
  unfold Cursor.advance
  split
  · next t ts hrest =>
    split
    · exact .error
    · refine .ok fun u hu ↦ ?_
      exact h u (List.mem_cons_of_mem _ (hrest ▸ hu))
  · refine .ok fun u hu ↦ ?_
    obtain rfl : u = _ := by simpa using hu
    simp

theorem Named.takeIf (h : c.Named) (kind : TokenKind) :
    Ensures (fun o : Option c.Shrunk ↦ ∀ c' ∈ o, c'.1.Named) (c.takeIf file kind) := by
  unfold Cursor.takeIf
  split
  · next hkind =>
    have hstep : Moves (c.advance file (hkind.1 ▸ hkind.2)) := h.advance _
    split
    · exact .error
    · next heq => exact .ok (by simpa using hstep.of_eq_ok heq)
  · exact .ok (by simp)

theorem Named.bind_takeIf (h : c.Named) (kind : TokenKind) {β : Type} {R : β → Prop}
    {f : Option c.Shrunk → Except Error β} (hnone : Ensures R (f none))
    (hsome : ∀ c' (h' : c'.remaining < c.remaining), c'.Named → Ensures R (f (some ⟨c', h'⟩))) :
    Ensures R (c.takeIf file kind >>= f) := by
  refine (h.takeIf kind).bind fun o ho ↦ ?_
  match o with
  | none => exact hnone
  | some ⟨c', h'⟩ => exact hsome c' h' (ho _ rfl)

theorem Named.consume (h : c.Named) (kind : TokenKind) (what : String) :
    Reads (fun t _ ↦ kind = .identifier → IsName t.text) (c.consume file kind what) := by
  unfold Cursor.consume
  split
  · next hkind =>
    have hstep : Moves (c.advance file (hkind.1 ▸ hkind.2)) := h.advance _
    split
    · exact .error
    · next heq =>
      exact .ok ⟨fun hident ↦ h _ List.mem_cons_self (hkind.1.trans hident), hstep.of_eq_ok heq⟩
  · exact .error

theorem Named.identifier (h : c.Named) : Reads (fun x _ ↦ IsName x) (c.identifier file) := by
  unfold Cursor.identifier
  have hstep : Reads _ (c.consume file .identifier "identifier") := h.consume _ _
  split
  · exact .error
  · next heq =>
    obtain ⟨hname, hnamed⟩ := hstep.of_eq_ok heq
    exact .ok ⟨hname rfl, hnamed⟩

theorem Named.skipSemicolons {c : Cursor} (h : c.Named) : Moves (c.skipSemicolons file) := by
  unfold Cursor.skipSemicolons
  have hstep : Ensures _ (c.takeIf file .semicolon) := h.takeIf _
  split
  · exact .error
  · exact .ok h
  · next c₁ h₁ heq =>
    have hnamed : c₁.Named := by simpa using hstep.of_eq_ok heq
    have ih := Named.skipSemicolons hnamed
    split
    · exact .error
    · next heq' => exact .ok (ih.of_eq_ok heq')
termination_by c.remaining
decreasing_by all_goals omega

theorem Named.moreNames {c : Cursor} (h : c.Named) (close : TokenKind) :
    Reads (fun xs _ ↦ ∀ x ∈ xs, IsName x) (c.moreNames file close) := by
  unfold Cursor.moreNames
  refine h.identifier.bind fun name c₁ h₁ hname hc₁ ↦ ?_
  refine hc₁.bind_takeIf close ?_ fun c₂ h₂ hc₂ ↦ .ok ⟨by simpa using hname, hc₂⟩
  refine (hc₁.consume .comma "','").bind fun _ c₂ h₂ _ hc₂ ↦ ?_
  refine (Named.moreNames hc₂ close).bind fun names c₃ h₃ hnames hc₃ ↦ ?_
  exact .ok ⟨List.forall_mem_cons.mpr ⟨hname, hnames⟩, hc₃⟩
termination_by c.remaining
decreasing_by all_goals omega

theorem Named.nameList (h : c.Named) (close : TokenKind) :
    Reads (fun xs _ ↦ ∀ x ∈ xs, IsName x) (c.nameList file close) := by
  unfold Cursor.nameList
  exact h.bind_takeIf close (h.moreNames close) fun c₁ h₁ hc₁ ↦ .ok ⟨by simp, hc₁⟩

end Cursor

namespace Parser

open Cursor (Named)

variable {file : String} {limit : Nat}

/-! ## Statements without expressions -/

theorem reads_stringLiteral {c : Cursor} (h : c.Named) :
    Reads (fun _ _ ↦ True) (stringLiteral file c) := by
  unfold stringLiteral
  have hstep : Reads _ (c.consume file .text "string") := h.consume _ _
  split
  · exact .error
  · next heq => exact .ok ⟨trivial, (hstep.of_eq_ok heq).2⟩

/-- What a parsed statement satisfies. -/
def IsStmt (limit : Nat) (s : Stmt) (_ : Cursor) : Prop := (Spelling.parsed limit).stmt s

/-- What parsed statements satisfy. -/
def IsBody (limit : Nat) (ss : List Stmt) (_ : Cursor) : Prop := (Spelling.parsed limit).stmts ss

variable (limit) in
theorem reads_reflectStatement {c : Cursor} (h : c.Named) :
    Reads (IsStmt limit) (reflectStatement file c) := by
  unfold reflectStatement
  refine (reads_stringLiteral h).bind fun path c₁ h₁ _ hc₁ ↦ ?_
  refine hc₁.bind_takeIf .doubleColon (.ok ⟨trivial, hc₁⟩) fun c₂ h₂ hc₂ ↦ ?_
  refine (hc₂.consume .leftBrace _).bind fun _ c₃ h₃ _ hc₃ ↦ ?_
  refine (hc₃.nameList .rightBrace).bind fun names c₄ h₄ _ hc₄ ↦ ?_
  exact .ok ⟨trivial, hc₄⟩

variable (limit) in
theorem reads_foreignStatement {c : Cursor} (h : c.Named) :
    Reads (IsStmt limit) (foreignStatement file c) := by
  unfold foreignStatement
  refine h.identifier.bind fun name c₁ h₁ hname hc₁ ↦ ?_
  refine (hc₁.consume .doubleColon _).bind fun _ c₂ h₂ _ hc₂ ↦ ?_
  refine (reads_stringLiteral hc₂).bind fun path c₃ h₃ _ hc₃ ↦ ?_
  refine (hc₃.consume .doubleColon _).bind fun _ c₄ h₄ _ hc₄ ↦ ?_
  refine (hc₄.consume .leftParen _).bind fun _ c₅ h₅ _ hc₅ ↦ ?_
  refine (hc₅.nameList .rightParen).bind fun argTypes c₆ h₆ hargs hc₆ ↦ ?_
  refine (hc₆.consume .arrow _).bind fun _ c₇ h₇ _ hc₇ ↦ ?_
  refine hc₇.identifier.bind fun returnType c₈ h₈ hresult hc₈ ↦ ?_
  exact .ok ⟨⟨hname, trivial, hargs, hresult⟩, hc₈⟩

theorem reads_loopNames {c : Cursor} (h : c.Named) :
    Reads (fun xs _ ↦ ∀ x ∈ xs, IsName x) (loopNames file c) := by
  unfold loopNames
  refine Reads.bind (Q := fun xs _ ↦ ∀ x ∈ xs, IsName x) ?_ fun names c₁ h₁ hnames hc₁ ↦ ?_
  · refine h.bind_takeIf .leftParen ?_ fun c₁ h₁ hc₁ ↦ ?_
    · refine h.identifier.bind fun name c₁ h₁ hname hc₁ ↦ ?_
      exact .ok ⟨by simpa using hname, hc₁⟩
    · refine (hc₁.nameList .rightParen).bind fun names c₂ h₂ hnames hc₂ ↦ ?_
      exact .ok ⟨hnames, hc₂⟩
  · refine (hc₁.consume .kwIn _).bind fun _ c₂ h₂ _ hc₂ ↦ ?_
    exact .ok ⟨hnames, hc₂⟩

/-! ## Expressions -/

/-- What an expression that was parsed from `c` up to another cursor satisfies. -/
def IsExpr (limit : Nat) (c : Cursor) (e : Expr) (c' : Cursor) : Prop :=
  (Spelling.parsed limit).expr e ∧ e.memberDepth + c'.remaining ≤ c.remaining

section Expressions

variable {b : Cursor} {expr : Below b Expr} {body : Below b (List Stmt)}
  (hexpr : ∀ c hc, c.Named → Reads (IsExpr limit c) (expr c hc))
  (hbody : ∀ c hc, c.Named → Reads (IsBody limit) (body c hc))

include hexpr

theorem reads_moreArguments {c : Cursor} (hc : c.remaining < b.remaining) (h : c.Named) :
    Reads (fun es _ ↦ (Spelling.parsed limit).arguments es) (moreArguments file expr c hc) := by
  unfold moreArguments
  refine (hexpr c hc h).bind fun e c₁ h₁ he hc₁ ↦ ?_
  refine hc₁.bind_takeIf .rightParen ?_ fun c₂ h₂ hc₂ ↦ .ok ⟨⟨he.1, trivial⟩, hc₂⟩
  refine (hc₁.consume .comma _).bind fun _ c₂ h₂ _ hc₂ ↦ ?_
  refine (reads_moreArguments (by omega) hc₂).bind fun es c₃ h₃ hes hc₃ ↦ ?_
  exact .ok ⟨⟨he.1, hes⟩, hc₃⟩
termination_by c.remaining
decreasing_by all_goals omega

theorem reads_arguments {c : Cursor} (hc : c.remaining < b.remaining) (h : c.Named) :
    Reads (fun es _ ↦ (Spelling.parsed limit).arguments es) (arguments file expr c hc) := by
  unfold arguments
  exact h.bind_takeIf .rightParen (reads_moreArguments hexpr hc h) fun c₁ h₁ hc₁ ↦
    .ok ⟨trivial, hc₁⟩

omit hexpr in
theorem reads_numberLiteral {c : Cursor} (hkind : c.current.kind = .number) (h : c.Named) :
    Reads (IsExpr limit c) (numberLiteral file c hkind) := by
  unfold numberLiteral
  split
  · exact .error
  · refine (h.advance _).bind fun c₁ h₁ hc₁ ↦ ?_
    exact .ok ⟨⟨trivial, by simp only [Expr.memberDepth]; omega⟩, hc₁⟩

omit hexpr in
variable (limit) in
theorem reads_tableKey {c : Cursor} (h : c.Named) :
    Reads (fun e _ ↦ (Spelling.parsed limit).expr e) (tableKey file c) := by
  unfold tableKey
  split
  · next hkind =>
    have hnumber : Reads (IsExpr limit c) (numberLiteral file c hkind) :=
      reads_numberLiteral hkind h
    exact hnumber.mono fun e c' he ↦ he.1
  split
  · refine h.identifier.bind fun name c₁ h₁ _ hc₁ ↦ ?_
    exact .ok ⟨trivial, hc₁⟩
  · refine (reads_stringLiteral h).bind fun value c₁ h₁ _ hc₁ ↦ ?_
    exact .ok ⟨trivial, hc₁⟩

theorem reads_tableEntry (position : Float) {c : Cursor} (hc : c.remaining < b.remaining)
    (h : c.Named) :
    Reads (fun r _ ↦ (Spelling.parsed limit).expr r.1.1 ∧ (Spelling.parsed limit).expr r.1.2)
      (tableEntry file expr position c hc) := by
  unfold tableEntry
  split
  · refine (reads_tableKey limit h).bind fun key c₁ h₁ hkey hc₁ ↦ ?_
    refine (hc₁.consume .colon _).bind fun _ c₂ h₂ _ hc₂ ↦ ?_
    refine (hexpr c₂ _ hc₂).bind fun value c₃ h₃ hvalue hc₃ ↦ ?_
    exact .ok ⟨⟨hkey, hvalue.1⟩, hc₃⟩
  · refine (hexpr c hc h).bind fun value c₁ h₁ hvalue hc₁ ↦ ?_
    exact .ok ⟨⟨trivial, hvalue.1⟩, hc₁⟩

theorem reads_tableEntries (position : Float) {c : Cursor} (hc : c.remaining < b.remaining)
    (h : c.Named) :
    Reads (fun es _ ↦ (Spelling.parsed limit).entries es)
      (tableEntries file expr position c hc) := by
  unfold tableEntries
  refine h.bind_takeIf .rightBrace ?_ fun c₁ h₁ hc₁ ↦ .ok ⟨trivial, hc₁⟩
  refine (reads_tableEntry hexpr position hc h).bind
    fun ⟨⟨key, value⟩, next⟩ c₁ h₁ hentry hc₁ ↦ ?_
  refine Moves.bind (p := fun c' ↦ c'.remaining ≤ c₁.remaining) ?_ fun c₂ h₂ hc₂ ↦ ?_
  · split
    · exact .ok hc₁
    · refine (hc₁.consume .comma _).bind fun _ c₂ h₂ _ hc₂ ↦ ?_
      exact .ok hc₂
  · refine (reads_tableEntries next (by omega) hc₂).bind fun es c₃ h₃ hes hc₃ ↦ ?_
    exact .ok ⟨⟨hentry.1, hentry.2, hes⟩, hc₃⟩
termination_by c.remaining
decreasing_by all_goals omega

omit hexpr in
theorem reads_functionName {c : Cursor} (h : c.Named) :
    Reads (fun x _ ↦ IsName x) (functionName file c) := by
  unfold functionName
  split
  · refine h.identifier.bind fun name c₁ h₁ hname hc₁ ↦ ?_
    exact .ok ⟨hname, hc₁⟩
  · have hname : IsName "_" := by decide
    exact .ok ⟨hname, h⟩

omit hexpr in
include hbody in
theorem reads_function {c : Cursor} (hc : c.remaining ≤ b.remaining) (h : c.Named) :
    Reads (fun r _ ↦ IsName r.1 ∧ (∀ x ∈ r.2.1, IsName x) ∧ (Spelling.parsed limit).stmts r.2.2)
      (function file body c hc) := by
  unfold function
  refine (h.consume .kwFn _).bind fun _ c₁ h₁ _ hc₁ ↦ ?_
  refine (reads_functionName hc₁).bind fun name c₂ h₂ hname hc₂ ↦ ?_
  refine (hc₂.consume .leftParen _).bind fun _ c₃ h₃ _ hc₃ ↦ ?_
  refine (hc₃.nameList .rightParen).bind fun params c₄ h₄ hparams hc₄ ↦ ?_
  refine (hbody c₄ _ hc₄).bind fun stmts c₅ h₅ hstmts hc₅ ↦ ?_
  exact .ok ⟨⟨hname, hparams, hstmts⟩, hc₅⟩

include hbody

theorem reads_primary {c : Cursor} (hc : c.remaining ≤ b.remaining) (h : c.Named) :
    Reads (IsExpr limit c) (primary file expr body c hc) := by
  -- all but an expression in parentheses are no member of anything
  have hplain {e : Expr} {c' : Cursor} (he : (Spelling.parsed limit).expr e)
      (hdepth : e.memberDepth = 0) (hc' : c'.remaining < c.remaining) : IsExpr limit c e c' :=
    ⟨he, by omega⟩
  unfold primary
  -- in the order of the tokens that an operand may begin with
  refine .dite (fun hkind ↦ reads_numberLiteral hkind h) fun _ ↦ .ite ?_ <| .dite (fun _ ↦ ?_)
    fun _ ↦ .dite (fun _ ↦ ?_) fun _ ↦ .ite ?_ <| .dite (fun _ ↦ ?_)
    fun _ ↦ .dite (fun _ ↦ ?_) fun _ ↦ .ite ?_ .error
  · refine (reads_stringLiteral h).bind fun value c₁ h₁ _ hc₁ ↦ ?_
    exact .ok ⟨hplain trivial rfl h₁, hc₁⟩
  · refine (h.advance _).bind fun c₁ h₁ hc₁ ↦ ?_
    exact .ok ⟨hplain trivial rfl h₁, hc₁⟩
  · refine (h.advance _).bind fun c₁ h₁ hc₁ ↦ ?_
    exact .ok ⟨hplain trivial rfl h₁, hc₁⟩
  · refine h.identifier.bind fun name c₁ h₁ hname hc₁ ↦ ?_
    exact .ok ⟨hplain hname rfl h₁, hc₁⟩
  · refine (h.advance _).bind fun c₁ h₁ hc₁ ↦ ?_
    refine (hexpr c₁ _ hc₁).bind fun e c₂ h₂ he hc₂ ↦ ?_
    refine (hc₂.consume .rightParen _).bind fun _ c₃ h₃ _ hc₃ ↦ ?_
    obtain ⟨he, hdepth⟩ := he
    exact .ok ⟨⟨he, by simp only; omega⟩, hc₃⟩
  · refine (h.advance _).bind fun c₁ h₁ hc₁ ↦ ?_
    refine (reads_tableEntries hexpr 0 _ hc₁).bind fun es c₂ h₂ hes hc₂ ↦ ?_
    exact .ok ⟨hplain hes rfl (Nat.lt_trans h₂ h₁), hc₂⟩
  · refine (reads_function hbody hc h).bind fun ⟨name, params, stmts⟩ c₁ h₁ hf hc₁ ↦ ?_
    exact .ok ⟨hplain hf rfl h₁, hc₁⟩

omit hbody in
theorem reads_suffixes {e : Expr} {c : Cursor} (hc : c.remaining ≤ b.remaining) (h : c.Named)
    (he : (Spelling.parsed limit).expr e) :
    Reads (fun e' c' ↦ (Spelling.parsed limit).expr e' ∧
      e'.memberDepth + c'.remaining ≤ e.memberDepth + c.remaining)
      (suffixes file expr e c hc) := by
  unfold suffixes
  split
  · refine (h.advance _).bind fun c₁ h₁ hc₁ ↦ ?_
    refine hc₁.identifier.bind fun name c₂ h₂ _ hc₂ ↦ ?_
    refine (reads_suffixes (e := .member e (.text name) false) _ hc₂ ⟨he, trivial⟩).bind
      fun e' c₃ h₃ he' hc₃ ↦ ?_
    simp only [Expr.memberDepth] at he'
    exact .ok ⟨⟨he'.1, by simp only; omega⟩, hc₃⟩
  split
  · refine (h.advance _).bind fun c₁ h₁ hc₁ ↦ ?_
    refine (hexpr c₁ _ hc₁).bind fun property c₂ h₂ hproperty hc₂ ↦ ?_
    refine (hc₂.consume .rightBracket _).bind fun _ c₃ h₃ _ hc₃ ↦ ?_
    refine (reads_suffixes (e := .member e property true) _ hc₃ ⟨he, hproperty.1⟩).bind
      fun e' c₄ h₄ he' hc₄ ↦ ?_
    simp only [Expr.memberDepth] at he'
    exact .ok ⟨⟨he'.1, by simp only; omega⟩, hc₄⟩
  split
  · refine (h.advance _).bind fun c₁ h₁ hc₁ ↦ ?_
    refine (reads_arguments hexpr _ hc₁).bind fun args c₂ h₂ hargs hc₂ ↦ ?_
    refine (reads_suffixes (e := .call e args) _ hc₂ ⟨he, hargs⟩).bind
      fun e' c₃ h₃ he' hc₃ ↦ ?_
    simp only [Expr.memberDepth] at he'
    exact .ok ⟨⟨he'.1, by simp only; omega⟩, hc₃⟩
  · exact .ok ⟨⟨he, Nat.le_refl _⟩, h⟩
termination_by c.remaining
decreasing_by all_goals omega

theorem reads_suffixed {c : Cursor} (hc : c.remaining ≤ b.remaining) (h : c.Named) :
    Reads (IsExpr limit c) (suffixed file expr body c hc) := by
  unfold suffixed
  refine (reads_primary hexpr hbody hc h).bind fun e c₁ h₁ he hc₁ ↦ ?_
  refine (reads_suffixes hexpr _ hc₁ he.1).bind fun e' c₂ h₂ he' hc₂ ↦ ?_
  have hdepth := he.2
  exact .ok ⟨⟨he'.1, by simp only; omega⟩, hc₂⟩

theorem reads_unary {c : Cursor} (hc : c.remaining ≤ b.remaining) (h : c.Named) :
    Reads (IsExpr limit c) (unary file expr body c hc) := by
  unfold unary
  split
  · refine (h.advance _).bind fun c₁ h₁ hc₁ ↦ ?_
    refine (reads_unary _ hc₁).bind fun e c₂ h₂ he hc₂ ↦ ?_
    exact .ok ⟨⟨he.1, by simp only [Expr.memberDepth]; omega⟩, hc₂⟩
  · refine (reads_suffixed hexpr hbody hc h).bind fun base c₁ h₁ hbase hc₁ ↦ ?_
    refine hc₁.bind_takeIf .caret (.ok ⟨hbase, hc₁⟩) fun c₂ h₂ hc₂ ↦ ?_
    refine (reads_unary _ hc₂).bind fun exponent c₃ h₃ hexponent hc₃ ↦ ?_
    exact .ok ⟨⟨⟨hbase.1, hexponent.1⟩, by simp only [Expr.memberDepth]; omega⟩, hc₃⟩
termination_by c.remaining
decreasing_by all_goals omega

end Expressions

section Levels

variable {b : Cursor} {operand : UpTo b Expr}
  (hoperand : ∀ c hc, c.Named → Reads (IsExpr limit c) (operand c hc)) {level : Level}

include hoperand

theorem reads_binaryRest {left : Expr} {c : Cursor} (hc : c.remaining ≤ b.remaining)
    (h : c.Named) (hleft : (Spelling.parsed limit).expr left) :
    Reads (fun e' c' ↦ (Spelling.parsed limit).expr e' ∧
      e'.memberDepth + c'.remaining ≤ left.memberDepth + c.remaining)
      (binaryRest file operand level left c hc) := by
  unfold binaryRest
  split
  · exact .ok ⟨⟨hleft, Nat.le_refl _⟩, h⟩
  · next op hop =>
    refine (h.advance _).bind fun c₁ h₁ hc₁ ↦ ?_
    refine (hoperand c₁ _ hc₁).bind fun right c₂ h₂ hright hc₂ ↦ ?_
    have hjoined : (Spelling.parsed limit).expr (.binary op left right) := ⟨hleft, hright.1⟩
    refine (reads_binaryRest _ hc₂ hjoined).bind
      fun e' c₃ h₃ he' hc₃ ↦ ?_
    simp only [Expr.memberDepth] at he'
    exact .ok ⟨⟨he'.1, by simp only; omega⟩, hc₃⟩
termination_by c.remaining
decreasing_by all_goals omega

theorem reads_binary {c : Cursor} (hc : c.remaining ≤ b.remaining) (h : c.Named) :
    Reads (IsExpr limit c) (binary file operand level c hc) := by
  unfold binary
  refine (hoperand c hc h).bind fun left c₁ h₁ hleft hc₁ ↦ ?_
  refine (reads_binaryRest hoperand _ hc₁ hleft.1).bind fun e' c₂ h₂ he' hc₂ ↦ ?_
  have hdepth := hleft.2
  exact .ok ⟨⟨he'.1, by simp only; omega⟩, hc₂⟩

end Levels

theorem reads_expressionWith {b : Cursor} {expr : Below b Expr} {body : Below b (List Stmt)}
    (hexpr : ∀ c hc, c.Named → Reads (IsExpr limit c) (expr c hc))
    (hbody : ∀ c hc, c.Named → Reads (IsBody limit) (body c hc)) {c : Cursor}
    (hc : c.remaining ≤ b.remaining) (h : c.Named) :
    Reads (IsExpr limit c) (expressionWith file expr body c hc) :=
  -- one level of operators around the other, from the tightest out
  reads_binary
    (fun _ hc h ↦ reads_binary
      (fun _ hc h ↦ reads_binary
        (fun _ hc h ↦ reads_binary
          (fun _ hc h ↦ reads_binary
            (fun _ hc h ↦ reads_unary hexpr hbody hc h) hc h) hc h) hc h) hc h) hc h

/-! ## Statements -/

section Statements

variable {b : Cursor} {expr : UpTo b Expr} {body : Below b (List Stmt)} {stmt : Below b Stmt}
  (hexpr : ∀ c hc, c.Named → Reads (IsExpr limit c) (expr c hc))
  (hbody : ∀ c hc, c.Named → Reads (IsBody limit) (body c hc))
  (hstmt : ∀ c hc, c.Named → Reads (IsStmt limit) (stmt c hc))

include hexpr

theorem reads_varStatement {c : Cursor} (hc : c.remaining < b.remaining) (h : c.Named) :
    Reads (IsStmt limit) (varStatement file expr c hc) := by
  unfold varStatement
  refine h.identifier.bind fun name c₁ h₁ hname hc₁ ↦ ?_
  refine hc₁.bind_takeIf .equal (.ok ⟨⟨hname, trivial⟩, hc₁⟩) fun c₂ h₂ hc₂ ↦ ?_
  refine (hexpr c₂ _ hc₂).bind fun value c₃ h₃ hvalue hc₃ ↦ ?_
  exact .ok ⟨⟨hname, hvalue.1⟩, hc₃⟩

theorem reads_returnStatement (line : Nat) {c : Cursor} (hc : c.remaining < b.remaining)
    (h : c.Named) : Reads (IsStmt limit) (returnStatement expr line c hc) := by
  unfold returnStatement
  split
  · exact .ok ⟨trivial, h⟩
  · refine (hexpr c _ h).bind fun value c₁ h₁ hvalue hc₁ ↦ ?_
    exact .ok ⟨hvalue.1, hc₁⟩

theorem reads_expressionStatement (hlimit : b.remaining ≤ limit) {c : Cursor}
    (hc : c.remaining ≤ b.remaining) (h : c.Named) :
    Reads (IsStmt limit) (expressionStatement file expr c hc) := by
  unfold expressionStatement
  refine (hexpr c hc h).bind fun e c₁ h₁ he hc₁ ↦ ?_
  simp only
  split
  · exact .ok ⟨he.1, hc₁⟩
  · next op hop =>
    split
    · exact .error
    · next root path htarget =>
      obtain ⟨hroot, hpath⟩ := Spelling.target?_spelled he.1 htarget
      have hkind : c₁.current.kind ≠ .eof := by
        intro heof
        rw [heof] at hop
        cases hop
      have hdepth : (Spelling.parsed limit).depth path.length := by
        have hlength := Expr.length_of_target? htarget
        have hpos : 0 < c₁.remaining := by simp [Cursor.remaining, hkind]
        have hused := he.2
        change path.length < limit
        omega
      refine (hc₁.advance _).bind fun c₂ h₂ hc₂ ↦ ?_
      refine (hexpr c₂ _ hc₂).bind fun value c₃ h₃ hvalue hc₃ ↦ ?_
      refine .ok ⟨⟨hroot, hdepth, hpath, ?_⟩, hc₃⟩
      cases op with
      | none => exact hvalue.1
      | some op => exact ⟨he.1, hvalue.1⟩

include hbody

theorem reads_condRest {c : Cursor} (hc : c.remaining ≤ b.remaining) (h : c.Named) :
    Reads (fun r _ ↦ (Spelling.parsed limit).branches r.1 ∧ (Spelling.parsed limit).stmts? r.2)
      (condRest file expr body c hc) := by
  unfold condRest
  refine h.skipSemicolons.bind fun c₁ h₁ hc₁ ↦ ?_
  refine hc₁.bind_takeIf .kwElif ?_ fun c₂ h₂ hc₂ ↦ ?_
  · refine hc₁.bind_takeIf .kwElse (.ok ⟨⟨trivial, trivial⟩, hc₁⟩) fun c₂ h₂ hc₂ ↦ ?_
    refine (hbody c₂ _ hc₂).bind fun stmts c₃ h₃ hstmts hc₃ ↦ ?_
    exact .ok ⟨⟨trivial, hstmts⟩, hc₃⟩
  · refine (hexpr c₂ _ hc₂).bind fun condition c₃ h₃ hcondition hc₃ ↦ ?_
    refine (hbody c₃ _ hc₃).bind fun stmts c₄ h₄ hstmts hc₄ ↦ ?_
    refine (reads_condRest _ hc₄).bind fun ⟨branches, otherwise⟩ c₅ h₅ hrest hc₅ ↦ ?_
    exact .ok ⟨⟨⟨hcondition.1, hstmts, hrest.1⟩, hrest.2⟩, hc₅⟩
termination_by c.remaining
decreasing_by all_goals omega

theorem reads_condStatement {c : Cursor} (hc : c.remaining < b.remaining) (h : c.Named) :
    Reads (IsStmt limit) (condStatement file expr body c hc) := by
  unfold condStatement
  refine (hexpr c _ h).bind fun condition c₁ h₁ hcondition hc₁ ↦ ?_
  refine (hbody c₁ _ hc₁).bind fun stmts c₂ h₂ hstmts hc₂ ↦ ?_
  refine (reads_condRest hexpr hbody _ hc₂).bind fun ⟨branches, otherwise⟩ c₃ h₃ hrest hc₃ ↦ ?_
  exact .ok ⟨⟨hcondition.1, hstmts, hrest.1, hrest.2⟩, hc₃⟩

theorem reads_whileStatement {c : Cursor} (hc : c.remaining < b.remaining) (h : c.Named) :
    Reads (IsStmt limit) (whileStatement expr body c hc) := by
  unfold whileStatement
  refine (hexpr c _ h).bind fun condition c₁ h₁ hcondition hc₁ ↦ ?_
  refine (hbody c₁ _ hc₁).bind fun stmts c₂ h₂ hstmts hc₂ ↦ ?_
  exact .ok ⟨⟨hcondition.1, hstmts⟩, hc₂⟩

theorem reads_forStatement {c : Cursor} (hc : c.remaining < b.remaining) (h : c.Named) :
    Reads (IsStmt limit) (forStatement file expr body c hc) := by
  unfold forStatement
  refine (reads_loopNames h).bind fun names c₁ h₁ hnames hc₁ ↦ ?_
  simp only
  split
  · next counter =>
    have hcounter := hnames counter (by simp)
    refine (hc₁.consume .leftParen _).bind fun _ c₂ h₂ _ hc₂ ↦ ?_
    refine (reads_arguments (fun c hc h ↦ hexpr c (Nat.le_of_lt hc) h) _ hc₂).bind
      fun bounds c₃ h₃ hbounds hc₃ ↦ ?_
    simp only
    split
    · next start stop =>
      refine (hbody c₃ _ hc₃).bind fun stmts c₄ h₄ hstmts hc₄ ↦ ?_
      exact .ok ⟨⟨hcounter, hbounds.1, hbounds.2.1, trivial, hstmts⟩, hc₄⟩
    · next start stop step =>
      refine (hbody c₃ _ hc₃).bind fun stmts c₄ h₄ hstmts hc₄ ↦ ?_
      exact .ok ⟨⟨hcounter, hbounds.1, hbounds.2.1, hbounds.2.2.1, hstmts⟩, hc₄⟩
    · exact .error
  · next key value =>
    refine (hexpr c₁ _ hc₁).bind fun iterator c₂ h₂ hiterator hc₂ ↦ ?_
    refine (hbody c₂ _ hc₂).bind fun stmts c₃ h₃ hstmts hc₃ ↦ ?_
    exact .ok ⟨⟨hnames key (by simp), hnames value (by simp), hiterator.1, hstmts⟩, hc₃⟩
  · exact .error

include hstmt

omit hexpr hbody in
theorem reads_shineStatement {c : Cursor} (hc : c.remaining < b.remaining) (h : c.Named) :
    Reads (IsStmt limit) (shineStatement file stmt c hc) := by
  unfold shineStatement
  split
  · refine (hstmt c hc h).bind fun inner c₁ h₁ hinner hc₁ ↦ ?_
    exact .ok ⟨hinner, hc₁⟩
  · exact .error

theorem reads_bareStatement (hlimit : b.remaining ≤ limit) {c : Cursor}
    (hc : c.remaining ≤ b.remaining) (h : c.Named) :
    Reads (IsStmt limit) (bareStatement file expr body stmt c hc) := by
  unfold bareStatement
  refine .dite (fun _ ↦ ?_) fun _ ↦ .ite ?_ <| .dite (fun _ ↦ ?_) fun _ ↦ .dite (fun _ ↦ ?_)
    fun _ ↦ .dite (fun _ ↦ ?_) fun _ ↦ .dite (fun _ ↦ ?_) fun _ ↦ .dite (fun _ ↦ ?_)
    fun _ ↦ .dite (fun _ ↦ ?_) fun _ ↦ .dite (fun _ ↦ ?_) fun _ ↦ .dite (fun _ ↦ ?_)
    fun _ ↦ .dite (fun _ ↦ ?_) fun _ ↦ .dite (fun _ ↦ ?_)
    fun _ ↦ reads_expressionStatement hexpr hlimit hc h
  · refine (h.advance _).bind fun c₁ h₁ hc₁ ↦ ?_
    refine (reads_varStatement hexpr _ hc₁).bind fun s c₂ h₂ hs hc₂ ↦ ?_
    exact .ok ⟨hs, hc₂⟩
  · refine (reads_function hbody hc h).bind fun ⟨name, params, stmts⟩ c₁ h₁ hf hc₁ ↦ ?_
    exact .ok ⟨hf, hc₁⟩
  · refine (h.advance _).bind fun c₁ h₁ hc₁ ↦ ?_
    refine (reads_condStatement hexpr hbody _ hc₁).bind fun s c₂ h₂ hs hc₂ ↦ ?_
    exact .ok ⟨hs, hc₂⟩
  · refine (h.advance _).bind fun c₁ h₁ hc₁ ↦ ?_
    refine (reads_whileStatement hexpr hbody _ hc₁).bind fun s c₂ h₂ hs hc₂ ↦ ?_
    exact .ok ⟨hs, hc₂⟩
  · refine (h.advance _).bind fun c₁ h₁ hc₁ ↦ ?_
    refine (reads_forStatement hexpr hbody _ hc₁).bind fun s c₂ h₂ hs hc₂ ↦ ?_
    exact .ok ⟨hs, hc₂⟩
  · refine (h.advance _).bind fun c₁ h₁ hc₁ ↦ ?_
    refine (reads_returnStatement hexpr _ _ hc₁).bind fun s c₂ h₂ hs hc₂ ↦ ?_
    exact .ok ⟨hs, hc₂⟩
  · refine (h.advance _).bind fun c₁ h₁ hc₁ ↦ ?_
    exact .ok ⟨trivial, hc₁⟩
  · refine (h.advance _).bind fun c₁ h₁ hc₁ ↦ ?_
    exact .ok ⟨trivial, hc₁⟩
  · refine (h.advance _).bind fun c₁ h₁ hc₁ ↦ ?_
    refine (reads_reflectStatement limit hc₁).bind fun s c₂ h₂ hs hc₂ ↦ ?_
    exact .ok ⟨hs, hc₂⟩
  · refine (h.advance _).bind fun c₁ h₁ hc₁ ↦ ?_
    refine (reads_shineStatement hstmt _ hc₁).bind fun s c₂ h₂ hs hc₂ ↦ ?_
    exact .ok ⟨hs, hc₂⟩
  · refine (h.advance _).bind fun c₁ h₁ hc₁ ↦ ?_
    refine (reads_foreignStatement limit hc₁).bind fun s c₂ h₂ hs hc₂ ↦ ?_
    exact .ok ⟨hs, hc₂⟩
  · refine (h.advance _).bind fun c₁ h₁ hc₁ ↦ ?_
    refine hc₁.identifier.bind fun name c₂ h₂ hname hc₂ ↦ ?_
    exact .ok ⟨hname, hc₂⟩

theorem reads_statementWith (hlimit : b.remaining ≤ limit) {c : Cursor}
    (hc : c.remaining ≤ b.remaining) (h : c.Named) :
    Reads (IsStmt limit) (statementWith file expr body stmt c hc) := by
  unfold statementWith
  refine (reads_bareStatement hexpr hbody hstmt hlimit hc h).bind fun s c₁ h₁ hs hc₁ ↦ ?_
  refine hc₁.skipSemicolons.bind fun c₂ h₂ hc₂ ↦ ?_
  exact .ok ⟨hs, hc₂⟩

end Statements

/-! ## Tying the knot -/

mutual

theorem reads_expression {c : Cursor} (hlimit : c.remaining ≤ limit) (h : c.Named) :
    Reads (IsExpr limit c) (expression file c) := by
  unfold expression
  exact reads_expressionWith (fun c' hc' h' ↦ reads_expression (by omega) h')
    (fun c' hc' h' ↦ reads_block (by omega) h') _ h
termination_by c.remaining * 4
decreasing_by all_goals omega

theorem reads_statement {c : Cursor} (hlimit : c.remaining ≤ limit) (h : c.Named) :
    Reads (IsStmt limit) (statement file c) := by
  unfold statement
  exact reads_statementWith (fun c' hc' h' ↦ reads_expression (by omega) h')
    (fun c' hc' h' ↦ reads_block (by omega) h')
    (fun c' hc' h' ↦ reads_statement (by omega) h') hlimit _ h
termination_by c.remaining * 4 + 1
decreasing_by all_goals omega

theorem reads_block {c : Cursor} (hlimit : c.remaining ≤ limit) (h : c.Named) :
    Reads (IsBody limit) (block file c) := by
  unfold block
  refine h.bind_takeIf .leftBrace ?_ fun c₁ h₁ hc₁ ↦ ?_
  · refine (reads_statement hlimit h).bind fun s c₁ h₁ hs hc₁ ↦ ?_
    exact .ok ⟨⟨hs, trivial⟩, hc₁⟩
  · refine (reads_blockRest (by omega) hc₁).bind fun ss c₂ h₂ hss hc₂ ↦ ?_
    exact .ok ⟨hss, hc₂⟩
termination_by c.remaining * 4 + 3
decreasing_by all_goals omega

theorem reads_blockRest {c : Cursor} (hlimit : c.remaining ≤ limit) (h : c.Named) :
    Reads (IsBody limit) (blockRest file c) := by
  unfold blockRest
  refine h.skipSemicolons.bind fun c₁ h₁ hc₁ ↦ ?_
  refine hc₁.bind_takeIf .rightBrace ?_ fun c₂ h₂ hc₂ ↦ .ok ⟨trivial, hc₂⟩
  dsimp only
  split
  · exact .error
  · refine (reads_statement (by omega) hc₁).bind fun s c₂ h₂ hs hc₂ ↦ ?_
    refine (reads_blockRest (by omega) hc₂).bind fun ss c₃ h₃ hss hc₃ ↦ ?_
    exact .ok ⟨⟨hs, hss⟩, hc₃⟩
termination_by c.remaining * 4 + 2
decreasing_by all_goals omega

end

theorem ensures_program {c : Cursor} (hlimit : c.remaining ≤ limit) (h : c.Named) :
    Ensures (Spelling.parsed limit).stmts (program file c) := by
  unfold program
  refine h.skipSemicolons.bind fun c₁ h₁ hc₁ ↦ ?_
  simp only
  split
  · exact .ok trivial
  · have hless : c₁.remaining ≤ limit := by omega
    refine (reads_statement hless hc₁).bind fun s c₂ h₂ hs hc₂ ↦ ?_
    refine (ensures_program (by omega) hc₂).bind fun body hbody ↦ ?_
    exact .ok ⟨hs, hbody⟩
termination_by c.remaining
decreasing_by all_goals omega

end Parser

/-! ## Scanning -/

theorem piece_otherLexeme_ne (c : Char) (cs : List Char) :
    (otherLexeme c cs).piece ≠ .token .identifier := by
  have hsingle : ∀ x ∈ singleSymbols, x.2 ≠ .identifier := by decide
  have hdouble : ∀ x ∈ doubleSymbols, x.2.2.1 ≠ .identifier ∧ x.2.2.2 ≠ .identifier := by decide
  unfold otherLexeme
  split
  · next hfind => simpa using hsingle _ (List.mem_of_find?_eq_some hfind)
  split
  · next hfind =>
    have hkinds := hdouble _ (List.mem_of_find?_eq_some hfind)
    unfold symbolLexeme
    split
    · split <;> simp [hkinds]
    · simp [hkinds]
  · simp

theorem isName_of_lexeme {c : Char} {cs : List Char}
    (h : (lexeme c cs).piece = .token .identifier) :
    IsName (String.ofList (lexeme c cs).text) := by
  revert h
  unfold lexeme
  split
  · intro h
    cases h
  split
  · intro h
    unfold commentLexeme at h
    repeat' split at h
    all_goals cases h
  split
  · intro h
    unfold textLexeme at h
    split at h <;> cases h
  split
  · intro h
    unfold numberLexeme numberTail finishNumber at h
    simp only at h
    repeat' split at h
    all_goals cases h
  split
  · intro h
    unfold minusLexeme symbolLexeme at h
    repeat' split at h
    all_goals cases h
  split
  · next hstart =>
    intro _
    have hchar := Text.isNameChar_of_isNameStart hstart
    refine ⟨c, cs.takeWhile Text.isNameChar, by simp [wordLexeme, hchar], hstart, ?_⟩
    exact List.all_eq_true.mp List.all_takeWhile
  · intro h
    exact absurd h (piece_otherLexeme_ne c cs)

theorem scanFrom_named (p : Position) (cs : List Char) :
    ∀ t ∈ scanFrom p cs, t.kind = .identifier → IsName t.text := by
  fun_induction scanFrom p cs with
  | case1 p => simp
  | case2 p c cs x following kind hpiece ih =>
    refine List.forall_mem_cons.mpr ⟨fun hkind ↦ ?_, ih⟩
    simp only at hkind
    exact isName_of_lexeme (hkind ▸ hpiece)
  | case3 p c cs x following hpiece ih => exact ih

/-- There are no more tokens than characters, the end of the text apart. -/
theorem length_scanFrom_le (p : Position) (cs : List Char) :
    (scanFrom p cs).length ≤ cs.length + 1 := by
  fun_induction scanFrom p cs with
  | case1 p => simp
  | case2 p c cs x following kind hpiece ih =>
    have hlt : x.rest.length < (c :: cs).length := lexeme_rest_length_lt c cs
    have hfollowing : following.length ≤ x.rest.length + 1 := ih
    simp only [List.length_cons] at hlt ⊢
    omega
  | case3 p c cs x following hpiece ih =>
    have hlt : x.rest.length < (c :: cs).length := lexeme_rest_length_lt c cs
    have hfollowing : following.length ≤ x.rest.length + 1 := ih
    simp only [List.length_cons] at hlt ⊢
    omega

/-- **A program that was parsed is spelled with the names of its source**, and no target of an
assignment in it has more keys than the source has characters. -/
theorem ensures_parseSource (source file : String) :
    Ensures (Spelling.parsed (source.length + 1)).stmts (parseSource source file) := by
  unfold parseSource parse scan
  have hnamed := scanFrom_named .start source.toList
  have hlength := length_scanFrom_le .start source.toList
  split
  · exact .ok trivial
  · next t ts hscan =>
    rw [hscan] at hnamed hlength
    have hremaining : Cursor.remaining ⟨t, ts⟩ ≤ source.length + 1 := by
      simp only [List.length_cons, String.length_toList] at hlength
      simp only [Cursor.remaining]
      split <;> omega
    have hcheck : Ensures (fun _ ↦ True) (Cursor.checkLexical file t) := by
      cases Cursor.checkLexical file t with
      | ok _ => exact .ok trivial
      | error e => exact .error
    exact hcheck.bind fun _ _ ↦ Parser.ensures_program hremaining hnamed

end GemLang
