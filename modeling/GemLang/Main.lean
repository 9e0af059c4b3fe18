import GemLang.Command

/-!
# The program around the command

The command works on a tree of files, so the files it needs are looked up first: the file it is
about, the directory it writes to, and whatever compiling asks for and does not find. Then the
command is carried out, what it wrote is written, and its report is shown.
-/

namespace GemLang

/-- The steps that a run may take: more than any run will. -/
def unboundedSteps : Nat := 1000000000000000000

/-- The place of an absolute path. -/
def placeOf (path : String) : Place := (path.splitOn "/").filter (· != "")

/-- The tree with what a path leads to on disk, if that is new. An empty name keeps a directory. -/
def lookUp (t : FileTree) (path : String) : IO (Option FileTree) := do
  try
    let real ← IO.FS.realPath path
    let place := placeOf real.toString
    if t.occupied place then
      return none
    else if ← real.isDir then
      return some (t.put (place ++ [""]) (.plain ""))
    else
      return some (t.put place (.bytes (← IO.FS.readBinFile real).toList))
  catch _ =>
    return none

/-- The tree with what any of some paths leads to, tried in turn. -/
def lookUpFirst (t : FileTree) : List String → IO (Option FileTree)
  | [] => return none
  | path :: paths => do
    match ← lookUp t path with
    | some t => return some t
    | none => lookUpFirst t paths

/-- Looks up files until compiling finds all it asks for, or asks for one that is not there. -/
partial def lookUpSources (c : Command) (t : FileTree) : IO FileTree := do
  match t.readText c.file with
  | .error _ => return t
  | .ok source =>
    match compileSource t c.file (c.has .optimize) source with
    | .error (.unreadable path _) =>
      match ← lookUpFirst t [path, path ++ ".gem"] with
      | some t => lookUpSources c t
      | none => return t
    | _ => return t

/-- The files that a command can see. -/
def lookUpFiles (c : Command) : IO FileTree := do
  let here : FileTree := ⟨placeOf (← IO.currentDir).toString, []⟩
  let t := (← lookUp here c.file.text).getD here
  let t := (← lookUp t c.target.directory.text).getD t
  let t := (← lookUp t c.target.text).getD t
  if c.has .bytecode then return t else lookUpSources c t

/-- Writes the file that a command wrote. -/
def writeBack (c : Command) (before after : FileTree) : IO Unit := do
  match before.writable c.target with
  | .error _ => return
  | .ok place =>
    match after.content? place with
    | some (.plain text) => IO.FS.writeFile c.target.text text
    | _ => return

/-- A number of thousandths, shown with three decimals. -/
def thousandths (n : Nat) : String :=
  let digits := Nat.toDigits 10 (n % 1000)
  toString (n / 1000) ++ "." ++ String.ofList (List.replicate (3 - digits.length) '0' ++ digits)

/-- The memory in use, in kilobytes, as far as the system tells. -/
def residentKilobytes : IO Nat := do
  try
    let status ← IO.FS.readFile "/proc/self/status"
    match (status.splitOn "\n").find? (·.startsWith "VmRSS:") with
    | some line =>
      return Number.digitsValue (line.toList.filter Char.isDigit)
    | none => return 0
  catch _ =>
    return 0

/-- What is shown after a measured command: the time of one run on average, given the microseconds
of all, and how much memory was taken. -/
def benchmarkLine (microseconds kilobytes : Nat) : String :=
  s!"{Command.benchmarkCount} iterations, " ++
    thousandths (microseconds / Command.benchmarkCount) ++
    s!" ms average, {kilobytes} kB resident growth\n"

/-- Carries out a command, shows its report and gives its exit code. -/
def carryOut (c : Command) (args : List String) : IO UInt32 := do
  let files ← lookUpFiles c
  let memory ← residentKilobytes
  let start ← IO.monoNanosNow
  let report := Report.ofArguments unboundedSteps files args
  if c.has .emit then
    writeBack c files report.files
  IO.print report.output
  IO.eprint report.complaint
  if c.has .benchmark && report.code = 0 then
    let elapsed := (← IO.monoNanosNow) - start
    IO.print (benchmarkLine (elapsed / 1000) ((← residentKilobytes) - memory))
  return UInt32.ofNat report.code

end GemLang

def main (args : List String) : IO UInt32 := do
  match GemLang.Command.ofArguments? args with
  | none =>
    IO.eprint GemLang.usage
    return 2
  | some c => GemLang.carryOut c args
