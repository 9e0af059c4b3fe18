import GemLang.Compile.Link
import GemLang.Compile.Lower

/-!
# Compiling

A source text is parsed, linked with the files it reflects, and lowered to bytecode text.
-/

namespace GemLang

/-- The bytecode text of a program that came from the file `origin`. -/
def compile (t : FileTree) (origin : Path) (optimize : Bool) (body : Program) :
    Except Error String := do
  let linked ← Link.program t origin body
  return Bytecode.textOf (Lower.program optimize linked)

/-- The bytecode text of a source text that came from the file `origin`. -/
def compileSource (t : FileTree) (origin : Path) (optimize : Bool) (source : String) :
    Except Error String := do
  let body ← parseSource source origin.text
  compile t origin optimize body

end GemLang
