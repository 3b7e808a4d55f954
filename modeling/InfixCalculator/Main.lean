import InfixCalculator.Console.Program

/-!
# The command line

Reads the arguments and the standard input, and writes what the program
answers.  An interactive run reads a line only after its prompt is written.
-/

namespace InfixCalculator

/-- Writes a text at once. -/
def writeNow (stream : IO.FS.Stream) (text : String) : IO Unit := do
  stream.putStr text
  stream.flush

/-- Writes all that a run writes and gives its exit code. -/
def writeOutcome (outcome : Outcome) : IO UInt32 := do
  writeNow (← IO.getStdout) outcome.output
  writeNow (← IO.getStderr) outcome.errors
  return UInt32.ofNat outcome.code

/-- Reads the bytes of a line, up to and with its line feed. -/
partial def readLine (input : IO.FS.Stream) (line : List UInt8) : IO (List UInt8) := do
  match (← input.read 1).toList with
  | [] => return line.reverse
  | byte :: _ =>
      if byte = lineFeed then return (byte :: line).reverse
      else readLine input (byte :: line)

/-- Prompts for lines and takes turns with them until the program ends, as `interact` does with
lines that are there already. -/
partial def converse (showPostfixForm : Bool) : IO UInt32 := do
  writeNow (← IO.getStdout) prompt
  match ← readLine (← IO.getStdin) [] with
  | [] => return 0
  | line =>
      let reply := replyTo OperatorTable.standard showPostfixForm line
      let code ← writeOutcome reply.outcome
      if reply.endsRun then return code else converse showPostfixForm

end InfixCalculator

open InfixCalculator in
/-- Runs the program on the arguments of the command line. -/
def main (arguments : List String) : IO UInt32 := do
  match Arguments.parse? arguments with
  | some { listOperators := false, expression := none, showPostfixForm } =>
      writeNow (← IO.getStdout) banner
      converse showPostfixForm
  | _ => writeOutcome (runProgram arguments [])
