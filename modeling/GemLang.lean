import GemLang.Foreign.Sample
import GemLang.Main
import GemLang.Proofs.Bytecode.Continued
import GemLang.Proofs.Bytecode.Layout
import GemLang.Proofs.Bytecode.Legible
import GemLang.Proofs.Bytecode.Nesting
import GemLang.Proofs.Bytecode.Unspaced
import GemLang.Proofs.Bytecode.Veiled
import GemLang.Proofs.Compile.Diagnosed
import GemLang.Proofs.Compile.Emitted
import GemLang.Proofs.Compile.Hidden
import GemLang.Proofs.Compile.Linked
import GemLang.Proofs.Compile.Literal
import GemLang.Proofs.Compile.Lowered
import GemLang.Proofs.Compile.Operand
import GemLang.Proofs.Compile.Pieces
import GemLang.Proofs.Compile.Reflecting
import GemLang.Proofs.Compile.Reflects
import GemLang.Proofs.Compile.Shape
import GemLang.Proofs.Foreign.Crossing
import GemLang.Proofs.Foreign.Declared
import GemLang.Proofs.Machine.Arguments
import GemLang.Proofs.Machine.Balance
import GemLang.Proofs.Machine.Behavior
import GemLang.Proofs.Machine.Calls
import GemLang.Proofs.Machine.Contents
import GemLang.Proofs.Machine.Counting
import GemLang.Proofs.Machine.Effect
import GemLang.Proofs.Machine.Ending
import GemLang.Proofs.Machine.Ends
import GemLang.Proofs.Machine.Evaluation
import GemLang.Proofs.Machine.Folding
import GemLang.Proofs.Machine.Frames
import GemLang.Proofs.Machine.Guarded
import GemLang.Proofs.Machine.Heap
import GemLang.Proofs.Machine.Holding
import GemLang.Proofs.Machine.Iterators
import GemLang.Proofs.Machine.Keeping
import GemLang.Proofs.Machine.Limits
import GemLang.Proofs.Machine.Lockstep
import GemLang.Proofs.Machine.Malformed
import GemLang.Proofs.Machine.Names
import GemLang.Proofs.Machine.Passes
import GemLang.Proofs.Machine.Plain
import GemLang.Proofs.Machine.Reached
import GemLang.Proofs.Machine.Recovery
import GemLang.Proofs.Machine.Region
import GemLang.Proofs.Machine.Rules
import GemLang.Proofs.Machine.Running
import GemLang.Proofs.Machine.Runs
import GemLang.Proofs.Machine.Searches
import GemLang.Proofs.Machine.Session
import GemLang.Proofs.Machine.Signature
import GemLang.Proofs.Machine.Steps
import GemLang.Proofs.Machine.Storing
import GemLang.Proofs.Machine.Strict
import GemLang.Proofs.Machine.Structured
import GemLang.Proofs.Machine.Tidy
import GemLang.Proofs.Machine.Veiling
import GemLang.Proofs.Machine.Visiting
import GemLang.Proofs.Number.Binary
import GemLang.Proofs.Number.Overflow
import GemLang.Proofs.Number.ReadBack
import GemLang.Proofs.Number.Reading
import GemLang.Proofs.Number.Rounding
import GemLang.Proofs.Number.Shortest
import GemLang.Proofs.Number.Whole
import GemLang.Proofs.Syntax.Consumed
import GemLang.Proofs.Syntax.Descends
import GemLang.Proofs.Syntax.Descent
import GemLang.Proofs.Syntax.Ended
import GemLang.Proofs.Syntax.Parsed
import GemLang.Proofs.Syntax.Spelling
import GemLang.Proofs.Syntax.Written
import GemLang.Proofs.Table.Entries
import GemLang.Proofs.Table.Equality
import GemLang.Proofs.Table.History
import GemLang.Proofs.Table.Keys
import GemLang.Proofs.Table.Path
import GemLang.Proofs.Table.Reported
import GemLang.Proofs.Text.Lines
import GemLang.Proofs.Text.Quoted
import GemLang.Proofs.Text.Utf8
import GemLang.Proofs.Token.Decimal
import GemLang.Proofs.Token.Placed
