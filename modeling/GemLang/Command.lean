import GemLang.Compile
import GemLang.Foreign.Loader
import GemLang.Machine.Run

/-!
# The command

What the command does with its arguments and with the files it can see: it runs a source file or a
bytecode file, or writes the bytecode of a source file. Everything it decides is decided here, on a
tree of files. The program around it only looks files up and shows the report.
-/

namespace GemLang

/-! ## Arguments -/

/-- The switches of the command. -/
inductive Flag where
  | bytecode
  | emit
  | verbose
  | optimize
  | benchmark
  | strict
  deriving DecidableEq

def Flag.ofLong? : String → Option Flag
  | "bytecode" => some .bytecode
  | "emit" => some .emit
  | "verbose" => some .verbose
  | "optimize" => some .optimize
  | "benchmark" => some .benchmark
  | "strict" => some .strict
  | _ => none

def Flag.ofShort? : Char → Option Flag
  | 'b' => some .bytecode
  | 'o' => some .emit
  | _ => none

/-- The switches and the paths among arguments. Short switches can share a dash, a lone dash is a
path, and so is everything after two lone dashes. -/
def sortArguments : List String → Option (List Flag × List String)
  | [] => some ([], [])
  | "--" :: paths => some ([], paths)
  | arg :: args => do
    let (flags, paths) ← sortArguments args
    match arg.toList with
    | '-' :: '-' :: name =>
      let flag ← Flag.ofLong? (String.ofList name)
      return (flag :: flags, paths)
    | '-' :: c :: cs =>
      let more ← (c :: cs).mapM Flag.ofShort?
      return (more ++ flags, paths)
    | _ => return (flags, arg :: paths)

/-- A command: the file it is about, where bytecode goes if that is said, and the switches. -/
structure Command where
  file : Path
  outfile : Option Path
  flags : List Flag

namespace Command

/-- The command that arguments spell, if they spell one. No switch may come twice, running bytecode
and writing it exclude each other, and no path is empty. -/
def ofArguments? (args : List String) : Option Command := do
  let (flags, paths) ← sortArguments args
  if !decide flags.Nodup || (flags.contains .bytecode && flags.contains .emit) then none
  else if paths.contains "" then none
  else
    match paths with
    | [file] => some ⟨⟨file⟩, none, flags⟩
    | [file, outfile] => some ⟨⟨file⟩, some ⟨outfile⟩, flags⟩
    | _ => none

variable (c : Command)

def has (flag : Flag) : Bool := c.flags.contains flag

/-- Where bytecode is written: next to the source if nothing else is said. -/
def target : Path := c.outfile.getD (c.file.withExtension "o")

end Command

/-! ## Failures -/

/-- Why a command failed. -/
inductive Failure where
  | unreadable (path : Path) (fault : FileFault)
  /-- The source could not be compiled. -/
  | rejected (error : Error) (source : String)
  | unwritable (path : Path) (fault : FileFault)
  /-- The run stopped. -/
  | stopped (stop : Stop)

namespace Failure

def text : Failure → String
  | .unreadable path fault => (Error.unreadable path.text fault).message
  | .rejected error source => error.render source
  | .unwritable path _ => "writing " ++ path.text
  | .stopped (.error error) => error.message
  | .stopped .outOfSteps => "out of steps"

/-- The fault of the system that lies behind a failure. -/
def cause? : Failure → Option String
  | .unreadable _ fault => some fault.message
  | .unwritable _ fault => some fault.message
  | .stopped (.error (.output reason)) => some reason
  | _ => none

/-- How a failure is reported: what it says, and below that its cause. -/
def report (f : Failure) : String :=
  match f.cause? with
  | none => "Error: " ++ f.text ++ "\n"
  | some cause => "Error: " ++ f.text ++ "\n\nCaused by:\n    " ++ cause ++ "\n"

end Failure

/-! ## Doing it -/

/-- What a command came to: what it printed, the files after it, and how it failed if it did. -/
structure Outcome where
  output : String
  files : FileTree
  failure : Option Failure

namespace Command

variable (c : Command)

/-- What the command provides to a machine: it prints everything, and libraries are files. -/
def host (t : FileTree) : Host := ⟨.reliable, .ofFiles t⟩

/-- Runs bytecode on a new machine. -/
def execute (fuel : Nat) (t : FileTree) (bytecode : String) : Outcome :=
  match evaluate fuel bytecode (Machine.start (.standard (c.has .strict)) (host t)) with
  | .ok _ m => ⟨m.output, t, none⟩
  | .error stop m => ⟨m.output, t, some (.stopped stop)⟩

/-- Writes bytecode. -/
def write (t : FileTree) (bytecode : String) : Outcome :=
  match t.writeText c.target bytecode with
  | .ok t => ⟨"", t, none⟩
  | .error fault => ⟨"", t, some (.unwritable c.target fault)⟩

def once (fuel : Nat) (t : FileTree) : Outcome :=
  match t.readText c.file with
  | .error fault => ⟨"", t, some (.unreadable c.file fault)⟩
  | .ok source =>
    if c.has .bytecode then
      c.execute fuel t source
    else
      match compileSource t c.file (c.has .optimize) source with
      | .error e => ⟨"", t, some (.rejected e source)⟩
      | .ok bytecode => if c.has .emit then c.write t bytecode else c.execute fuel t bytecode

/-- Does a number of times what the command says, up to the first failure. -/
def times (fuel : Nat) : Nat → FileTree → Outcome
  | 0, t => ⟨"", t, none⟩
  | count + 1, t =>
    let first := c.once fuel t
    match first.failure with
    | some _ => first
    | none =>
      let others := times fuel count first.files
      { others with output := first.output ++ others.output }

/-- How often a measured command is done. -/
def benchmarkCount : Nat := 1000

def perform (fuel : Nat) (t : FileTree) : Outcome :=
  if c.has .benchmark then c.times fuel benchmarkCount t else c.once fuel t

end Command

/-! ## The report -/

/-- What the user gets to see of a command, and the files after it. -/
structure Report where
  code : Nat
  output : String
  complaint : String
  files : FileTree

/-- What is said about arguments that spell no command. -/
def usage : String := "Usage: gem [OPTIONS] <FILE> [OUTFILE]\n"

/-- Carries out the command that arguments spell. -/
def Report.ofArguments (fuel : Nat) (t : FileTree) (args : List String) : Report :=
  match Command.ofArguments? args with
  | none => ⟨2, "", usage, t⟩
  | some c =>
    let outcome := c.perform fuel t
    match outcome.failure with
    | none => ⟨0, outcome.output, "", outcome.files⟩
    | some failure => ⟨1, outcome.output, failure.report, outcome.files⟩

end GemLang
