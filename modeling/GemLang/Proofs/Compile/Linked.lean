import GemLang.Compile.Link
import GemLang.Proofs.Syntax.Parsed

/-!
# What linking spells

Linking puts statements of other files in place of `reflect` statements and changes the paths of
libraries. It makes up no names and changes no targets of assignments. So what a linked program is
spelled with follows from what its files are spelled with (`Resolver.Carries`), and a program that
reflects nothing is linked without a fault.
-/

namespace GemLang

namespace Resolver

/-- Resolving takes what satisfies the spelling `S` to what satisfies the spelling `T`, and fails
only with errors that satisfy `E`. -/
structure Carries (E : Error → Prop) (S T : Spelling) (r : Resolver) : Prop where
  name {x : String} : S.name x → T.name x
  library {p : String} : S.library p → T.library (r.library p)
  reflect : S.reflect → ∀ path names, Delivers E T.stmts (r.reflect path names)
  depth {n : Nat} : S.depth n → T.depth n

variable {E : Error → Prop} {S T : Spelling} {r : Resolver}

theorem Carries.names (hr : r.Carries E S T) {xs : List String} (h : ∀ x ∈ xs, S.name x) :
    ∀ x ∈ xs, T.name x :=
  fun x hx ↦ hr.name (h x hx)

mutual

theorem delivers_expr (hr : r.Carries E S T) (e : Expr) (h : S.expr e) :
    Delivers E T.expr (r.expr e) := by
  match e with
  | .number _ | .text _ | .bool _ => exact .ok trivial
  | .name x => exact .ok (hr.name h)
  | .binary op left right =>
    refine (delivers_expr hr left h.1).bind fun left hleft ↦ ?_
    refine (delivers_expr hr right h.2).bind fun right hright ↦ ?_
    exact .ok ⟨hleft, hright⟩
  | .unary op operand =>
    refine (delivers_expr hr operand h).bind fun operand hoperand ↦ ?_
    exact .ok hoperand
  | .call callee args =>
    refine (delivers_arguments hr args h.2).bind fun args hargs ↦ ?_
    refine (delivers_expr hr callee h.1).bind fun callee hcallee ↦ ?_
    exact .ok ⟨hcallee, hargs⟩
  | .member object property computed =>
    refine (delivers_expr hr object h.1).bind fun object hobject ↦ ?_
    refine (delivers_expr hr property h.2).bind fun property hproperty ↦ ?_
    exact .ok ⟨hobject, hproperty⟩
  | .table es =>
    refine (delivers_entries hr es h).bind fun es hes ↦ ?_
    exact .ok hes
  | .function name params body =>
    refine (delivers_stmts hr body h.2.2).bind fun body hbody ↦ ?_
    exact .ok ⟨hr.name h.1, hr.names h.2.1, hbody⟩

theorem delivers_arguments (hr : r.Carries E S T) (es : List Expr) (h : S.arguments es) :
    Delivers E T.arguments (r.arguments es) := by
  match es with
  | [] => exact .ok trivial
  | e :: es =>
    refine (delivers_arguments hr es h.2).bind fun es hes ↦ ?_
    refine (delivers_expr hr e h.1).bind fun e he ↦ ?_
    exact .ok ⟨he, hes⟩

theorem delivers_entries (hr : r.Carries E S T) (es : List (Expr × Expr)) (h : S.entries es) :
    Delivers E T.entries (r.entries es) := by
  match es with
  | [] => exact .ok trivial
  | (key, value) :: es =>
    refine (delivers_expr hr value h.2.1).bind fun value hvalue ↦ ?_
    refine (delivers_expr hr key h.1).bind fun key hkey ↦ ?_
    refine (delivers_entries hr es h.2.2).bind fun es hes ↦ ?_
    exact .ok ⟨hkey, hvalue, hes⟩

/-- A path keeps its length. -/
theorem delivers_path (hr : r.Carries E S T) (ks : List (Expr × Bool)) (h : S.path ks) :
    Delivers E (fun ks' ↦ T.path ks' ∧ ks'.length = ks.length) (r.path ks) := by
  match ks with
  | [] => exact .ok ⟨trivial, rfl⟩
  | (key, computed) :: ks =>
    refine (delivers_path hr ks h.2).bind fun ks' hks ↦ ?_
    refine (delivers_expr hr key h.1).bind fun key hkey ↦ ?_
    exact .ok ⟨⟨hkey, hks.1⟩, by simp [hks.2]⟩

theorem delivers_expr? (hr : r.Carries E S T) (e : Option Expr) (h : S.expr? e) :
    Delivers E T.expr? (r.expr? e) := by
  match e with
  | none => exact .ok trivial
  | some e =>
    refine (delivers_expr hr e h).bind fun e he ↦ ?_
    exact .ok he

theorem delivers_stmts (hr : r.Carries E S T) (ss : List Stmt) (h : S.stmts ss) :
    Delivers E T.stmts (r.stmts ss) := by
  match ss with
  | [] => exact .ok trivial
  | s :: ss =>
    refine (delivers_stmt hr s h.1).bind fun s hs ↦ ?_
    refine (delivers_stmts hr ss h.2).bind fun ss hss ↦ ?_
    exact .ok (Spelling.stmts_append.mpr ⟨hs, hss⟩)

theorem delivers_stmts? (hr : r.Carries E S T) (ss : Option (List Stmt)) (h : S.stmts? ss) :
    Delivers E T.stmts? (r.stmts? ss) := by
  match ss with
  | none => exact .ok trivial
  | some ss =>
    refine (delivers_stmts hr ss h).bind fun ss hss ↦ ?_
    exact .ok hss

theorem delivers_stmt (hr : r.Carries E S T) (s : Stmt) (h : S.stmt s) :
    Delivers E T.stmts (r.stmt s) := by
  match s with
  | .var name value =>
    refine (delivers_expr hr value h.2).bind fun value hvalue ↦ ?_
    exact .ok ⟨⟨hr.name h.1, hvalue⟩, trivial⟩
  | .function name params body =>
    refine (delivers_stmts hr body h.2.2).bind fun body hbody ↦ ?_
    exact .ok ⟨⟨hr.name h.1, hr.names h.2.1, hbody⟩, trivial⟩
  | .assign root keys value =>
    refine (delivers_expr hr value h.2.2.2).bind fun value hvalue ↦ ?_
    refine (delivers_path hr keys h.2.2.1).bind fun keys' hkeys ↦ ?_
    exact .ok ⟨⟨hr.name h.1, hkeys.2 ▸ hr.depth h.2.1, hkeys.1, hvalue⟩, trivial⟩
  | .cond condition body more otherwise =>
    refine (delivers_expr hr condition h.1).bind fun condition hcondition ↦ ?_
    refine (delivers_stmts hr body h.2.1).bind fun body hbody ↦ ?_
    refine (delivers_branches hr more h.2.2.1).bind fun more hmore ↦ ?_
    refine (delivers_stmts? hr otherwise h.2.2.2).bind fun otherwise hotherwise ↦ ?_
    exact .ok ⟨⟨hcondition, hbody, hmore, hotherwise⟩, trivial⟩
  | .while condition body =>
    refine (delivers_expr hr condition h.1).bind fun condition hcondition ↦ ?_
    refine (delivers_stmts hr body h.2).bind fun body hbody ↦ ?_
    exact .ok ⟨⟨hcondition, hbody⟩, trivial⟩
  | .forRange counter start stop step body =>
    refine (delivers_expr hr start h.2.1).bind fun start hstart ↦ ?_
    refine (delivers_expr? hr step h.2.2.2.1).bind fun step hstep ↦ ?_
    refine (delivers_expr hr stop h.2.2.1).bind fun stop hstop ↦ ?_
    refine (delivers_stmts hr body h.2.2.2.2).bind fun body hbody ↦ ?_
    exact .ok ⟨⟨hr.name h.1, hstart, hstop, hstep, hbody⟩, trivial⟩
  | .forEach key value iterator body =>
    refine (delivers_expr hr iterator h.2.2.1).bind fun iterator hiterator ↦ ?_
    refine (delivers_stmts hr body h.2.2.2).bind fun body hbody ↦ ?_
    exact .ok ⟨⟨hr.name h.1, hr.name h.2.1, hiterator, hbody⟩, trivial⟩
  | .return value =>
    refine (delivers_expr? hr value h).bind fun value hvalue ↦ ?_
    exact .ok ⟨hvalue, trivial⟩
  | .break | .continue => exact .ok ⟨trivial, trivial⟩
  | .reflect file names => exact hr.reflect h file names
  | .shine inner => exact delivers_stmt hr inner h
  | .foreign name file argTypes returnType =>
    exact .ok ⟨⟨hr.name h.1, hr.library h.2.1, hr.names h.2.2.1, hr.name h.2.2.2⟩, trivial⟩
  | .delete name => exact .ok ⟨hr.name h, trivial⟩
  | .expr value =>
    refine (delivers_expr hr value h).bind fun value hvalue ↦ ?_
    exact .ok ⟨hvalue, trivial⟩

theorem delivers_branches (hr : r.Carries E S T) (bs : List (Expr × List Stmt))
    (h : S.branches bs) : Delivers E T.branches (r.branches bs) := by
  match bs with
  | [] => exact .ok trivial
  | (condition, body) :: more =>
    refine (delivers_expr hr condition h.1).bind fun condition hcondition ↦ ?_
    refine (delivers_stmts hr body h.2.1).bind fun body hbody ↦ ?_
    refine (delivers_branches hr more h.2.2).bind fun more hmore ↦ ?_
    exact .ok ⟨hcondition, hbody, hmore⟩

end

end Resolver

/-! ## Files -/

/-- The spelling of a linked program: its names are names, and the numbers of keys in targets of
assignments satisfy `depth`. -/
def Spelling.counted (depth : Nat → Prop) : Spelling where
  name := IsName
  library _ := True
  reflect := True
  depth := depth

/-- The spelling of a linked program: its names are names, and no target of an assignment has more
keys than can be counted. -/
def Spelling.linked : Spelling where
  name := IsName
  library _ := True
  reflect := True
  depth n := n < UInt64.size

/-- No file is longer than can be counted. -/
def FileTree.IsSized (t : FileTree) : Prop :=
  ∀ place content source, t.content? place = some content → content.text = .ok source →
    source.length < UInt64.size

namespace Link

variable {t : FileTree}

/-- What the statements of a file stand for while the files `reflecting` are being brought in. -/
def resolver (t : FileTree) (file : Path) (reflecting : List Path) : Resolver :=
  ⟨fun path names ↦ inline t file reflecting path names, library t file⟩

/-- The statements behind a `reflect` whose file can be read, and is not being brought in. -/
theorem inline_of_text {origin : Path} {reflecting : List Path} {path : String} {place : Place}
    {content : Content} {source : String} (hfollow : t.follow (candidate t origin path) = .ok place)
    (hnew : isReflecting reflecting (FileTree.pathOf place) = false)
    (hcontent : t.content? place = some content) (hsource : content.text = .ok source)
    (names : List String) : inline t origin reflecting path names =
      (parseSource source (FileTree.pathOf place).text >>= fun body ↦
        (resolver t (FileTree.pathOf place) (FileTree.pathOf place :: reflecting)).stmts
          (body.filter (Stmt.isTakenOver names))) := by
  unfold inline
  dsimp only
  split
  · next heq => cases hfollow.symm.trans heq
  · next place' heq =>
    obtain rfl := Except.ok.inj (hfollow.symm.trans heq)
    rw [dif_neg (by simp [hnew])]
    split
    · next heq => cases hcontent.symm.trans heq
    · next content' heq =>
      obtain rfl := Option.some.inj (hcontent.symm.trans heq)
      split
      · next heq => cases hsource.symm.trans heq
      · next source' heq =>
        obtain rfl := Except.ok.inj (hsource.symm.trans heq)
        rfl

/-- What is parsed from a text may be put into a linked program, if the lengths of its paths of keys
are as they should be. -/
theorem carries_counted {depth : Nat → Prop} {source : String}
    (hsource : ∀ n ≤ source.length, depth n) {r : Resolver}
    (hr : ∀ path names, Ensures (Spelling.counted depth).stmts (r.reflect path names)) :
    r.Carries (fun _ ↦ True) (Spelling.parsed (source.length + 1)) (.counted depth) where
  name h := h
  library _ := trivial
  reflect _ := hr
  depth h := hsource _ (Nat.le_of_lt_succ h)

/-- The statements behind a `reflect` are spelled like a linked program. -/
theorem ensures_inline {depth : Nat → Prop}
    (ht : ∀ place content source, t.content? place = some content → content.text = .ok source →
      ∀ n ≤ source.length, depth n)
    (origin : Path) (reflecting : List Path) (path : String) (names : List String) :
    Ensures (Spelling.counted depth).stmts (inline t origin reflecting path names) := by
  unfold inline
  simp only
  split
  · split
    · exact .error
    · exact .error
  · next place hplace =>
    split
    · exact .error
    · next hnew =>
      split
      · exact .error
      · next content hcontent =>
        split
        · exact .error
        · next source hsource =>
          refine (ensures_parseSource source _).bind fun body hbody ↦ ?_
          have hfewer := unreflected_cons_lt t hcontent (by simpa using hnew)
          refine Resolver.delivers_stmts (carries_counted (ht _ _ _ hcontent hsource) ?_) _ ?_
          · exact fun path names ↦ ensures_inline ht _ _ path names
          · exact Spelling.stmts_iff.mpr fun s hs ↦
              Spelling.stmts_iff.mp hbody s (List.mem_filter.mp hs).1
termination_by unreflected t reflecting

/-- **A linked program is spelled with names**, and the lengths of its paths of keys are as they
should be if those in its files are. -/
theorem counted_of_program {depth : Nat → Prop}
    (ht : ∀ place content source, t.content? place = some content → content.text = .ok source →
      ∀ n ≤ source.length, depth n)
    {source : String} (hsource : ∀ n ≤ source.length, depth n) {origin : Path}
    {body linked : Program} (hbody : parseSource source origin.text = .ok body)
    (hlinked : program t origin body = .ok linked) : (Spelling.counted depth).stmts linked := by
  have hr := carries_counted
    (r := ⟨fun path names ↦ inline t origin [t.canonical origin] path names, library t origin⟩)
    hsource fun path names ↦ ensures_inline ht origin _ path names
  have hdelivers := Resolver.delivers_stmts hr body ((ensures_parseSource _ _).of_eq_ok hbody)
  exact Ensures.of_eq_ok hdelivers hlinked

/-- No path of keys is too long to be counted, if no file is. -/
theorem spelled_of_program (ht : t.IsSized) {source : String}
    (hsource : source.length < UInt64.size) {origin : Path} {body linked : Program}
    (hbody : parseSource source origin.text = .ok body)
    (hlinked : program t origin body = .ok linked) : Spelling.linked.stmts linked :=
  counted_of_program (fun _ _ _ hcontent htext _ hn ↦ hn.trans_lt (ht _ _ _ hcontent htext))
    (fun _ hn ↦ hn.trans_lt hsource) hbody hlinked

end Link

end GemLang
