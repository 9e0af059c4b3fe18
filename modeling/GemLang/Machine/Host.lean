import GemLang.Foreign.CData
import GemLang.Path

/-!
# What the system provides

A machine prints to a writer and has libraries opened for it. Neither is part of the program, and
either may fail, so a machine is given them and knows them by their answers alone. An answer may
depend on all that was asked before, which is why what was asked is kept.
-/

namespace GemLang

/-! ## Printing -/

/-- What a writer is asked to do. -/
inductive Writer.Request where
  | write (text : String)
  | flush

def Writer.Request.text : Writer.Request → String
  | .write text => text
  | .flush => ""

structure Writer where
  /-- Why a request is not carried out, if it is not, given the requests before it, the latest one
  first. How much of a text was taken before the writer failed is not told. -/
  fault? : List Writer.Request → Writer.Request → Option String

/-- A writer that carries out every request. -/
def Writer.reliable : Writer := ⟨fun _ _ ↦ none⟩

/-! ## Libraries -/

/-- A library that is open: the function under a symbol, or why there is none. -/
abbrev Foreign.OpenLibrary := String → Except String Foreign.CFunction

/-- What opens libraries. -/
structure Foreign.Loader where
  /-- The library at a path, or why it cannot be opened, given the paths of the libraries that are
  open, the first one opened first. -/
  openLibrary : List Path → String → Except String Foreign.OpenLibrary

/-- A loader that finds no library. -/
def Foreign.Loader.empty : Foreign.Loader := ⟨fun _ _ ↦ .error "no such library"⟩

/-! ## Both -/

/-- What the system provides to a machine. -/
structure Host where
  writer : Writer
  loader : Foreign.Loader

/-- A host that prints everything and has no libraries. -/
def Host.plain : Host := ⟨.reliable, .empty⟩

end GemLang
