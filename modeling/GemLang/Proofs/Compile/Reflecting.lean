import GemLang.Compile
import GemLang.Proofs.Compile.Diagnosed
import GemLang.Proofs.Compile.Reflects

/-!
# Bringing in files, step by step

Linking with everything that it goes through on the way: the file whose statements are being gone
over, and the files that are being brought in, which are changed when a file is entered and changed
back when it is left. Here a file may reflect any file, itself included, and there is nothing in the
recursion that gets smaller. So it is given how deep it may go, and it gives up if that is not
enough (`walk`).

It never gives up if it may go deeper than there are files, since no file is entered while it is
being brought in. That the files being brought in are distinct is what every step keeps, and it
holds at every moment of a walk (`reflecting_ends`).
-/

namespace GemLang

namespace Link

/-! ## Loading -/

variable (t : FileTree)

/-- The file that a request means, by the one path it has, or the path as it is if there is none. -/
def resolved (origin : Path) (path : String) : Path := t.canonical (candidate t origin path)

/-- The file that a request means and the program in it, unless the file is being brought in. -/
def load (origin : Path) (reflecting : List Path) (path : String) :
    Except Error (Path × Program) :=
  let file := resolved t origin path
  if isReflecting reflecting file then .error (.reflectCycle file.text origin.text)
  else
    match t.follow (candidate t origin path) with
    | .error fault => .error (.unreadable file.text ((FileTree.refusal? file).getD fault))
    | .ok place =>
      match t.content? place with
      | none => .error (.unreadable file.text .isDirectory)
      | some content =>
        match content.text with
        | .error fault => .error (.unreadable file.text fault)
        | .ok source => (parseSource source file.text).map fun body ↦ (file, body)

variable {t} {origin file : Path} {reflecting : List Path} {path : String}

/-- A file that was loaded is not being brought in, and there is a file less then that could be. -/
theorem load_eq_ok {body : Program} (h : load t origin reflecting path = .ok (file, body)) :
    isReflecting reflecting file = false ∧
      unreflected t (file :: reflecting) < unreflected t reflecting := by
  unfold load at h
  dsimp only at h
  split at h
  · cases h
  · next hnew =>
    split at h
    · cases h
    · next place hplace =>
      have hfile : resolved t origin path = FileTree.pathOf place := by
        rw [resolved, FileTree.canonical, hplace]
      rw [hfile] at h hnew
      split at h
      · cases h
      · next content hcontent =>
        split at h
        · cases h
        · next source _ =>
          obtain rfl : FileTree.pathOf place = file := by
            cases hparse : parseSource source (FileTree.pathOf place).text with
            | error e =>
              rw [hparse] at h
              cases h
            | ok body' =>
              rw [hparse] at h
              exact congrArg Prod.fst (Except.ok.inj h)
          have hnew := Bool.eq_false_iff.mpr hnew
          exact ⟨hnew, unreflected_cons_lt t hcontent hnew⟩

/-- What the parser finds in a file is no cycle. -/
theorem parseSource_ne_cycle {source name p q : String} :
    parseSource source name ≠ .error (.reflectCycle p q) := by
  intro h
  obtain ⟨_, _, _, _, _, hblames⟩ := exists_blamed h
  exact nomatch hblames

/-- A request is refused for a cycle just if its file is being brought in. -/
theorem load_eq_cycle_iff {p q : String} :
    load t origin reflecting path = .error (.reflectCycle p q) ↔
      isReflecting reflecting (resolved t origin path) = true ∧
        (resolved t origin path).text = p ∧ origin.text = q := by
  by_cases hcycle : isReflecting reflecting (resolved t origin path) = true
  · simp [load, hcycle]
  · simp only [load, hcycle, Bool.false_eq_true, ↓reduceIte, false_and, iff_false]
    intro h
    split at h
    · cases h
    · split at h
      · cases h
      · split at h
        · cases h
        · next source _ =>
          cases hparse : parseSource source (resolved t origin path).text with
          | error e =>
            rw [hparse] at h
            obtain rfl : e = .reflectCycle p q := Except.error.inj h
            exact parseSource_ne_cycle hparse
          | ok body =>
            rw [hparse] at h
            cases h

variable (t origin reflecting path) in
/-- What stands behind a request is what is taken over from the program in its file. -/
theorem inline_eq_load (names : List String) : inline t origin reflecting path names =
    (load t origin reflecting path >>= fun (file, body) ↦
      (resolver t file (file :: reflecting)).stmts (body.filter (Stmt.isTakenOver names))) := by
  unfold inline
  dsimp only
  split
  · next hfollow =>
    have hresolved : resolved t origin path = candidate t origin path := by
      rw [resolved, FileTree.canonical, hfollow]
    simp only [load, hresolved, hfollow]
    split <;> rfl
  · next place hfollow =>
    have hresolved : resolved t origin path = FileTree.pathOf place := by
      rw [resolved, FileTree.canonical, hfollow]
    simp only [load, hresolved, hfollow]
    split
    · rfl
    · split
      · next hcontent =>
        simp only [hcontent]
        rfl
      · next content hcontent =>
        simp only [hcontent]
        cases content.text with
        | error fault => rfl
        | ok source =>
          dsimp only
          cases parseSource source (FileTree.pathOf place).text <;> rfl

/-! ## Walking -/

/-- What is changed on the way: the file whose statements are being gone over, and the files that
are being brought in, the innermost first. -/
structure Moment where
  origin : Path
  reflecting : List Path

/-- Everything on the way: how things are, every way they have been, and the requests that were met,
with how things were then. -/
structure State extends Moment where
  past : List Moment
  met : List (Moment × String)

/-- Why a walk stops early. -/
inductive Halt where
  | error (error : Error)
  | tooDeep

abbrev Walk := EStateM Halt State Unit

/-- How a walk ends. -/
abbrev Walked := EStateM.Result Halt State Unit

/-- The state when a program starts: it is itself the one file being brought in. -/
def State.start (t : FileTree) (origin : Path) : State where
  origin := origin
  reflecting := [t.canonical origin]
  past := [⟨origin, [t.canonical origin]⟩]
  met := []

/-- Things come to be different. -/
def State.turn (s : State) (m : Moment) : State :=
  { toMoment := m, past := s.past ++ [m], met := s.met }

/-- A request is met. -/
def State.meet (s : State) (path : String) : State :=
  { s with met := s.met ++ [(s.toMoment, path)] }

/-- A file is entered. -/
def State.enter (s : State) (file : Path) : State := s.turn ⟨file, file :: s.reflecting⟩

/-- The file that was entered last is left for the file `outer`. -/
def State.leave (s : State) (outer : Path) : State := s.turn ⟨outer, s.reflecting.tail⟩

/-- Goes through something inside a file, and leaves the file however that ends. -/
def inside (file : Path) (x : Walk) : Walk := fun s ↦
  match x (s.enter file) with
  | .ok _ s' => .ok () (s'.leave s.origin)
  | .error e s' => .error e (s'.leave s.origin)

def walkAll (f : Request → Walk) : List Request → Walk
  | [] => pure ()
  | q :: qs => do
    f q
    walkAll f qs

variable (t) in
/-- Goes through a request, and through the requests in its file. Files may be entered inside each
other as deep as is said. -/
def walk : Nat → Request → Walk
  | 0, _ => throw .tooDeep
  | depth + 1, (path, names) => do
    modify (State.meet · path)
    let s ← get
    match load t s.origin s.reflecting path with
    | .error e => throw (.error e)
    | .ok (file, body) =>
      inside file (walkAll (walk depth) (Requests.stmts (body.filter (Stmt.isTakenOver names))))

/-! ## Coming back -/

def final : Walked → State
  | .ok _ s | .error _ s => s

/-- However it ends, things are as they were. -/
def Restores (x : Walk) : Prop := ∀ s, (final (x s)).toMoment = s.toMoment

theorem then_apply (x y : Walk) (s : State) : (x >>= fun _ ↦ y) s =
    match x s with
    | .ok _ s' => y s'
    | .error e s' => .error e s' := by
  change EStateM.bind x (fun _ ↦ y) s = _
  unfold EStateM.bind
  cases x s <;> rfl

theorem Restores.then {x y : Walk} (hx : Restores x) (hy : Restores y) :
    Restores (x >>= fun _ ↦ y) := by
  intro s
  have hs := hx s
  rw [then_apply]
  cases hrun : x s with
  | ok _ s' =>
    rw [hrun] at hs
    exact (hy s').trans hs
  | error e s' =>
    rw [hrun] at hs
    exact hs

theorem final_inside (file : Path) (x : Walk) (s : State) :
    final (inside file x s) = (final (x (s.enter file))).leave s.origin := by
  unfold inside
  cases x (s.enter file) <;> rfl

/-- Leaving takes off the file that entering put on, since nothing in between changes that. -/
theorem Restores.inside {x : Walk} (hx : Restores x) (file : Path) :
    Restores (inside file x) := by
  intro s
  have hs := hx (s.enter file)
  rw [final_inside]
  change Moment.mk s.origin (final (x (s.enter file))).toMoment.reflecting.tail = s.toMoment
  rw [hs]
  rfl

theorem Restores.walkAll {f : Request → Walk} (hf : ∀ q, Restores (f q)) (qs : List Request) :
    Restores (walkAll f qs) := by
  induction qs with
  | nil => exact fun _ ↦ rfl
  | cons q qs ih => exact (hf q).then ih

variable (t) in
theorem walk_succ (depth : Nat) (q : Request) (s : State) : walk t (depth + 1) q s =
    match load t s.origin s.reflecting q.1 with
    | .error e => .error (.error e) (s.meet q.1)
    | .ok (file, body) =>
      inside file (walkAll (walk t depth) (Requests.stmts (body.filter (Stmt.isTakenOver q.2))))
        (s.meet q.1) := by
  change (match load t s.origin s.reflecting q.1 with
    | .error e => throw (Halt.error e)
    | .ok (file, body) =>
      inside file (walkAll (walk t depth) (Requests.stmts (body.filter (Stmt.isTakenOver q.2)))) :
        Walk) (s.meet q.1) = _
  cases load t s.origin s.reflecting q.1 <;> rfl

variable (t) in
/-- **After a request things are as they were before it**, however deep it may go and however it
ends. -/
theorem restores_walk (depth : Nat) (q : Request) : Restores (walk t depth q) := by
  induction depth generalizing q with
  | zero => exact fun _ ↦ rfl
  | succ depth ih =>
    intro s
    rw [walk_succ]
    cases load t s.origin s.reflecting q.1 with
    | error e => rfl
    | ok loaded => exact (Restores.walkAll ih _).inside loaded.1 (s.meet q.1)

/-! ## Coming to an end -/

/-- The files being brought in are pairwise different. -/
def Distinct (reflecting : List Path) : Prop := reflecting.Pairwise fun p q ↦ p.same q = false

theorem Distinct.cons (h : Distinct reflecting) (hnew : isReflecting reflecting file = false) :
    Distinct (file :: reflecting) := by
  refine List.pairwise_cons.mpr ⟨fun p hp ↦ ?_, h⟩
  have hsame : p.same file = false := by
    simpa using List.any_eq_false.mp hnew p hp
  rw [Path.same, BEq.comm]
  exact hsame

variable (t) in
/-- A request is for a file that is being brought in. -/
def MeetsItself (q : Moment × String) : Prop :=
  isReflecting q.1.reflecting (resolved t q.1.origin q.2) = true

variable (t) in
/-- The error for such a request. -/
def cycleError (q : Moment × String) : Error :=
  .reflectCycle (resolved t q.1.origin q.2).text q.1.origin.text

variable (t) in
/-- What is on the way of a walk from `s` that ends as `y` does. No file is ever brought in inside
itself, and a request for that is what an error for it is about. -/
structure Keeps (s : State) (y : Except Error Unit) (s' : State) : Prop where
  distinct : ∀ m ∈ s'.past, m ∈ s.past ∨ Distinct m.reflecting
  cycle : ∀ q ∈ s'.met, q ∈ s.met ∨ (MeetsItself t q → y = .error (cycleError t q))
  found : ∀ p q, y = .error (.reflectCycle p q) → ∃ q ∈ s'.met, MeetsItself t q

/-- A walk ends like `y`. -/
inductive EndsLike : Walked → Except Error Unit → Prop where
  | ok (s : State) : EndsLike (.ok () s) (.ok ())
  | error (e : Error) (s : State) : EndsLike (.error (.error e) s) (.error e)

variable (t) in
/-- A walk ends like `y` from wherever things are as they are at `m`. -/
def Ends (m : Moment) (y : Except Error Unit) (x : Walk) : Prop :=
  ∀ s : State, s.toMoment = m → EndsLike (x s) y ∧ Keeps t s y (final (x s))

theorem Keeps.trans {s s' s'' : State} {y : Except Error Unit} (h : Keeps t s (.ok ()) s')
    (h' : Keeps t s' y s'') : Keeps t s y s'' where
  distinct m hm := by
    rcases h'.distinct m hm with hm | hm
    · exact h.distinct m hm
    · exact .inr hm
  cycle q hq := by
    rcases h'.cycle q hq with hq | hq
    · refine (h.cycle q hq).imp_right fun hcycle hmeets ↦ ?_
      exact nomatch hcycle hmeets
    · exact .inr hq
  found := h'.found

/-- A request is met before anything is known of its file. -/
theorem Keeps.of_meet {s s' : State} {y : Except Error Unit} {path : String}
    (h : Keeps t (s.meet path) y s')
    (hself : MeetsItself t (s.toMoment, path) → y = .error (cycleError t (s.toMoment, path))) :
    Keeps t s y s' where
  distinct := h.distinct
  cycle q hq := by
    rcases h.cycle q hq with hq | hq
    · refine (List.mem_append.mp hq).imp_right fun hq ↦ ?_
      rw [List.mem_singleton.mp hq]
      exact hself
    · exact .inr hq
  found := h.found

theorem Ends.nil (m : Moment) : Ends t m (.ok ()) (pure ()) :=
  fun s _ ↦ ⟨.ok s, fun _ hm ↦ .inl hm, fun _ hq ↦ .inl hq, nofun⟩

theorem Ends.then {m : Moment} {y y' : Except Error Unit} {x x' : Walk} (hrestores : Restores x)
    (hx : Ends t m y x) (hx' : Ends t m y' x') :
    Ends t m (y >>= fun _ ↦ y') (x >>= fun _ ↦ x') := by
  intro s hs
  have hback := hrestores s
  obtain ⟨hlike, hkeeps⟩ := hx s hs
  rw [then_apply]
  cases hrun : x s with
  | ok _ s' =>
    rw [hrun] at hback hlike hkeeps
    obtain ⟨hlike', hkeeps'⟩ := hx' s' (hback.trans hs)
    cases hlike
    exact ⟨hlike', hkeeps.trans hkeeps'⟩
  | error e s' =>
    rw [hrun] at hlike hkeeps
    cases hlike
    exact ⟨.error _ _, hkeeps⟩

theorem Ends.walkAll {m : Moment} {f : Request → Walk} {g : Request → Except Error Unit}
    (hrestores : ∀ q, Restores (f q)) (hf : ∀ q, Ends t m (g q) (f q)) (qs : List Request) :
    Ends t m (settle g qs) (walkAll f qs) := by
  induction qs with
  | nil => exact .nil m
  | cons q qs ih => exact (hf q).then (hrestores q) ih

/-- Inside a file one more file is being brought in, and both on entering and on leaving it those
are distinct. -/
theorem Ends.inside {y : Except Error Unit} {x : Walk} (hrestores : Restores x)
    (hdistinct : Distinct reflecting) (hnew : isReflecting reflecting file = false)
    (hx : Ends t ⟨file, file :: reflecting⟩ y x) :
    Ends t ⟨origin, reflecting⟩ y (inside file x) := by
  intro s hs
  have horigin : s.origin = origin := congrArg Moment.origin hs
  have hreflecting : s.reflecting = reflecting := congrArg Moment.reflecting hs
  have henter : (s.enter file).toMoment = ⟨file, file :: reflecting⟩ := by
    rw [← hreflecting]
    rfl
  have hback : (final (x (s.enter file))).toMoment = ⟨file, file :: reflecting⟩ :=
    (hrestores _).trans henter
  obtain ⟨hlike, hkeeps⟩ := hx (s.enter file) henter
  constructor
  · unfold Link.inside
    cases hrun : x (s.enter file) with
    | ok _ s' =>
      rw [hrun] at hlike
      cases hlike
      exact .ok _
    | error e s' =>
      rw [hrun] at hlike
      cases hlike
      exact .error _ _
  · rw [final_inside]
    refine ⟨fun m hm ↦ ?_, hkeeps.cycle, hkeeps.found⟩
    -- a moment inside the file, where entering it is the first one, or the one when it is left
    rcases List.mem_append.mp hm with hm | hm
    · rcases hkeeps.distinct m hm with hm | hm
      · refine (List.mem_append.mp hm).imp_right fun hm ↦ ?_
        rw [List.mem_singleton.mp hm, hreflecting]
        exact hdistinct.cons hnew
      · exact .inr hm
    · have hleft : m = ⟨s.origin, (final (x (s.enter file))).toMoment.reflecting.tail⟩ :=
        List.mem_singleton.mp hm
      rw [hback] at hleft
      rw [hleft]
      exact .inr hdistinct

variable (t) in
/-- A request that may go deep enough ends as what stands behind it does. How deep that is, is
measured by the files that could still be brought in. -/
theorem ends_walk (depth : Nat) {m : Moment} (hdistinct : Distinct m.reflecting)
    (hdepth : unreflected t m.reflecting < depth) (q : Request) :
    Ends t m ((resolver t m.origin m.reflecting).settles q) (walk t depth q) := by
  induction depth generalizing m q with
  | zero => exact absurd hdepth (Nat.not_lt_zero _)
  | succ depth ih =>
    obtain ⟨origin, reflecting⟩ := m
    obtain ⟨path, names⟩ := q
    intro s hs
    have horigin : s.origin = origin := congrArg Moment.origin hs
    have hreflecting : s.reflecting = reflecting := congrArg Moment.reflecting hs
    have hmeets : MeetsItself t (s.toMoment, path) ↔
        load t origin reflecting path = .error (cycleError t (s.toMoment, path)) := by
      rw [hs, cycleError, load_eq_cycle_iff]
      exact (and_iff_left ⟨rfl, rfl⟩).symm
    have hsettles : (resolver t origin reflecting).settles (path, names) =
        outcome (load t origin reflecting path >>= fun (file, body) ↦
          (resolver t file (file :: reflecting)).stmts (body.filter (Stmt.isTakenOver names))) :=
      congrArg outcome (inline_eq_load t origin reflecting path names)
    rw [walk_succ, hsettles, horigin, hreflecting]
    cases hload : load t origin reflecting path with
    | error e =>
      refine ⟨.error e _, .of_meet ⟨fun _ ↦ .inl, fun _ ↦ .inl, fun p through he ↦ ?_⟩ ?_⟩
      · obtain rfl : e = .reflectCycle p through := Except.error.inj he
        obtain ⟨hself, rfl, rfl⟩ := load_eq_cycle_iff.mp hload
        refine ⟨(s.toMoment, path), List.mem_append_right _ (List.mem_singleton_self _), ?_⟩
        rw [hs]
        exact hself
      · intro hself
        have hcycle := hload.symm.trans (hmeets.mp hself)
        exact congrArg Except.error (Except.error.inj hcycle)
    | ok loaded =>
      obtain ⟨file, body⟩ := loaded
      obtain ⟨hnew, hfewer⟩ := load_eq_ok hload
      have hless : unreflected t (file :: reflecting) < depth :=
        Nat.lt_of_lt_of_le hfewer (Nat.le_of_lt_succ hdepth)
      have hinside : Ends t ⟨file, file :: reflecting⟩
          (settle (resolver t file (file :: reflecting)).settles _) (walkAll (walk t depth) _) :=
        .walkAll (restores_walk t depth) (ih (hdistinct.cons hnew) hless)
          (Requests.stmts (body.filter (Stmt.isTakenOver names)))
      rw [← Resolver.settles_stmts] at hinside
      obtain ⟨hlike, hkeeps⟩ := Ends.inside
        (Restores.walkAll (restores_walk t depth) _) hdistinct hnew hinside (s.meet path) hs
      refine ⟨hlike, hkeeps.of_meet fun hself ↦ ?_⟩
      exact nomatch hload.symm.trans (hmeets.mp hself)

end Link

open Link

/-- What compiling comes to is settled by linking, which is all that can fail. -/
theorem outcome_compile (t : FileTree) (origin : Path) (optimize : Bool) (body : Program) :
    outcome (compile t origin optimize body) =
      settle (resolver t origin [t.canonical origin]).settles (Requests.stmts body) :=
  (outcome_map _ _).trans (Resolver.settles_stmts _ body)

theorem outcome_eq_error_iff {α : Type} {x : Except Error α} {e : Error} :
    outcome x = .error e ↔ x = .error e := by
  cases x with
  | error e' => simp [outcome, Except.map]
  | ok a => simp [outcome, Except.map]

/-- **Reflecting always ends, and no file is brought into itself.** Going through the requests of a
program never gives up if files may be entered inside each other at least as deep as there are
files, and it ends as compiling the program does. At every moment on the way the files being brought
in are distinct; a request for one of them is an error, and no other request is refused for a cycle.
Before and after every request, however deep it may go and however it ends, things are the same. -/
theorem reflecting_ends (t : FileTree) (origin : Path) (optimize : Bool) (body : Program)
    (more : Nat) :
    let compiled := compile t origin optimize body
    let walked := walkAll (walk t (t.files.length + 1 + more)) (Requests.stmts body)
      (State.start t origin)
    EndsLike walked (outcome compiled) ∧
      (∀ m ∈ (final walked).past, Distinct m.reflecting) ∧
      (∀ q ∈ (final walked).met, MeetsItself t q → compiled = .error (cycleError t q)) ∧
      (∀ path through, compiled = .error (.reflectCycle path through) →
        ∃ q ∈ (final walked).met, MeetsItself t q ∧
          cycleError t q = .reflectCycle path through) ∧
      (final walked).toMoment = (State.start t origin).toMoment ∧
      ∀ depth q s, (final (walk t depth q s)).toMoment = s.toMoment := by
  intro compiled walked
  have hdistinct : Distinct [t.canonical origin] := List.pairwise_singleton _ _
  have hdepth : unreflected t [t.canonical origin] < t.files.length + 1 + more := by
    have hle : unreflected t [t.canonical origin] ≤ t.files.length := List.countP_le_length
    omega
  obtain ⟨hlike, hkeeps⟩ : EndsLike walked (outcome compiled) ∧
      Keeps t (State.start t origin) (outcome compiled) (final walked) := by
    rw [outcome_compile]
    exact Ends.walkAll (restores_walk t _)
      (fun q ↦ ends_walk t _ (m := ⟨origin, [t.canonical origin]⟩) hdistinct hdepth q) _ _ rfl
  have hcycle : ∀ q ∈ (final walked).met, MeetsItself t q →
      compiled = .error (cycleError t q) := by
    intro q hq hmeets
    rcases hkeeps.cycle q hq with hq | hq
    · exact absurd hq List.not_mem_nil
    · exact outcome_eq_error_iff.mp (hq hmeets)
  refine ⟨hlike, fun m hm ↦ ?_, hcycle, fun path through he ↦ ?_, ?_, restores_walk t⟩
  · rcases hkeeps.distinct m hm with hm | hm
    · rw [List.mem_singleton.mp hm]
      exact hdistinct
    · exact hm
  · obtain ⟨q, hq, hmeets⟩ := hkeeps.found path through (outcome_eq_error_iff.mpr he)
    have heq := hcycle q hq hmeets
    rw [he] at heq
    exact ⟨q, hq, hmeets, (Except.error.inj heq).symm⟩
  · exact Restores.walkAll (restores_walk t _) _ _

end GemLang
