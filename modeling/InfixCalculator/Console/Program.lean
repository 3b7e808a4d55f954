import InfixCalculator.Calculator
import InfixCalculator.Console.Input

/-!
# The program

The program calculates the expression among its arguments, or lists the
operators, or reads expressions line by line until `exit` or the end of the
input.  Results go to the standard output and failures to the standard error.
The answers to the questions for help and for the version, and what is written
about arguments that are not in order, are left out.

## Main definitions

* `Outcome` — the exit code of a run and what it writes.
* `calculateOnce` — the run for one expression.
* `Reply`, `replyTo` — what the interactive program does with one line; what it
  writes then and whether it goes on are `Reply.outcome` and `Reply.endsRun`.
* `interact` — the interactive program on the lines of an input.
* `runProgram` — the program on its arguments and its input.
-/

namespace InfixCalculator

/-- The exit code of a run and all that it writes. -/
structure Outcome where
  /-- The exit code. -/
  code : Nat := 0
  /-- What is written to the standard output. -/
  output : String := ""
  /-- What is written to the standard error. -/
  errors : String := ""
deriving DecidableEq, Repr

namespace Outcome

/-- A run that writes one line to the standard output. -/
def success (line : String) : Outcome := { output := line ++ "\n" }

/-- A run that writes one line to the standard error and fails. -/
def failure (line : String) : Outcome := { code := 1, errors := line ++ "\n" }

/-- A run whose arguments are not in order.  The text about their use that is
written to the standard error is not modelled. -/
def usage : Outcome := { code := 2 }

/-- The run that writes some text and then goes on with another run. -/
def andThen (output errors : String) (later : Outcome) : Outcome :=
  { code := later.code
    output := output ++ later.output
    errors := errors ++ later.errors }

end Outcome

/-- The text of an operator in the list of operators: every minus is shown as
the sign that is written. -/
def shownSymbol (op : Operator) : String :=
  if op.symbol ∈ Minus.symbols then "-" else op.symbol

/-- A text with blanks before it, up to a width. -/
def alignRight (width : Nat) (text : String) : String :=
  String.ofList (text.toList.leftpad width ' ')

/-- A text with blanks after it, up to a width. -/
def alignLeft (width : Nat) (text : String) : String :=
  String.ofList (text.toList.rightpad width ' ')

/-- One line of the list of operators. -/
def operatorLine (op : Operator) : String :=
  alignRight 3 (shownSymbol op) ++ "  " ++ alignLeft 16 op.name ++ " "
    ++ alignLeft 8 op.placement.word ++ " precedence " ++ toString op.precedence ++ "\n"

/-- The list of the operators of a table. -/
def operatorList (table : OperatorTable) : String :=
  String.join (table.operators.map operatorLine)

/-- The postfix form of an expression as text. -/
def postfixText (table : OperatorTable) (expression : String) : Except SyntaxError String :=
  (table.postfixForm expression).map Token.sequenceText

/-- The value of an expression as text. -/
def valueText (table : OperatorTable) (expression : String) : Except CalculationError String :=
  (table.calculate expression).map Number.resultText

/-- **The run for one expression**: its postfix form or its value is written, or
why it has none. -/
def calculateOnce (table : OperatorTable) (showPostfixForm : Bool) (expression : String) :
    Outcome :=
  let result :=
    if showPostfixForm then (postfixText table expression).mapError SyntaxError.message
    else (valueText table expression).mapError CalculationError.message
  match result with
  | .ok text => .success text
  | .error message => .failure message

/-- What the interactive program writes first. -/
def banner : String := "Type an expression to evaluate it, `exit` to quit.\n"

/-- What the interactive program writes before it reads a line. -/
def prompt : String := "Input expression: "

/-- What is written when a line is not text. -/
def unreadableMessage : String :=
  "Failed to read from standard input: stream did not contain valid UTF-8\n"

/-- What the interactive program does with one line. -/
inductive Reply where
  /-- It ends. -/
  | stop
  /-- It ends because the line is not text. -/
  | unreadable
  /-- It writes to the standard output and the standard error, and goes on. -/
  | answer (output errors : String)
deriving DecidableEq, Repr

/-- What a reply writes, and the exit code if nothing follows it. -/
def Reply.outcome : Reply → Outcome
  | stop => {}
  | unreadable => { code := 1, errors := unreadableMessage }
  | answer output errors => { output, errors }

/-- Whether the program ends with a reply. -/
def Reply.endsRun : Reply → Bool
  | stop | unreadable => true
  | answer _ _ => false

/-- What is written for one expression that was typed: its value or why it has
none, and its postfix form before that if it is asked for and there is one. -/
def answerTo (table : OperatorTable) (showPostfixForm : Bool) (expression : String) : Reply :=
  let shown :=
    match showPostfixForm, postfixText table expression with
    | true, .ok text => "postfix: " ++ text ++ "\n"
    | _, _ => ""
  match valueText table expression with
  | .ok text => .answer (shown ++ text ++ "\n") ""
  | .error error => .answer shown (error.message ++ "\n")

/-- **The reply to one line of input.**  Nothing is written for a blank line. -/
def replyTo (table : OperatorTable) (showPostfixForm : Bool) (line : List UInt8) : Reply :=
  match String.fromUTF8? line.toByteArray with
  | none => .unreadable
  | some text =>
      let expression := withoutLineEnd text
      if expression = "exit" then .stop
      else if isBlank expression then .answer "" ""
      else answerTo table showPostfixForm expression

/-- **The interactive program after its banner**, by structural recursion on the
lines that are still to be read.  At the end of the input it stops. -/
def interact (table : OperatorTable) (showPostfixForm : Bool) : List (List UInt8) → Outcome
  | [] => { output := prompt }
  | line :: lines =>
      let reply := replyTo table showPostfixForm line
      let turn := Outcome.andThen prompt "" reply.outcome
      if reply.endsRun then turn
      else .andThen turn.output turn.errors (interact table showPostfixForm lines)

/-- **The program with the standard operators**, on its arguments and its
input. -/
def runProgram (arguments : List String) (input : List UInt8) : Outcome :=
  let table := OperatorTable.standard
  match Arguments.parse? arguments with
  | none => .usage
  | some { listOperators := true, .. } => { output := operatorList table }
  | some { expression := some expression, showPostfixForm, .. } =>
      calculateOnce table showPostfixForm expression
  | some { showPostfixForm, .. } =>
      .andThen banner "" (interact table showPostfixForm (splitLines input))

end InfixCalculator
