/-!
# What the program is given

The program takes two flags, each at most once, and at most one expression.  Short flags may
be joined, flags may follow the expression, and `--` ends them.  The questions for help and
for the version, and the text about arguments that are not in order, are answered by the
library that reads the arguments and are left out: `Arguments.parse?` gives `none` for all of
them, which describes the program for arguments that are not in order only.

The standard input is a sequence of bytes.  A line ends with a line feed, which belongs to it;
the last line may end without one.  What was typed is the line without the line feeds and
carriage returns at its end, and it is blank if it holds only characters with the Unicode
property `White_Space`.

## Main definitions

* `Arguments` — what the arguments ask for; `Arguments.parse?` reads them.
* `splitLines` — the lines of an input.
* `withoutLineEnd` — a line without the characters that end it; `isBlank`.
-/

namespace InfixCalculator

/-- What the arguments of the program ask for. -/
structure Arguments where
  /-- Show expressions in postfix order. -/
  showPostfixForm : Bool := false
  /-- List the operators. -/
  listOperators : Bool := false
  /-- The expression to calculate; without one the program is interactive. -/
  expression : Option String := none
deriving DecidableEq, Repr

namespace Arguments

/-- Adds the flag of a letter; there is none for other letters, nor for one
that was given already. -/
def addFlag? (arguments : Arguments) : Char → Option Arguments
  | 'p' =>
      if arguments.showPostfixForm then none
      else some { arguments with showPostfixForm := true }
  | 'o' =>
      if arguments.listOperators then none
      else some { arguments with listOperators := true }
  | _ => none

/-- Adds the expression, unless there is one already. -/
def addExpression? (arguments : Arguments) (expression : String) : Option Arguments :=
  match arguments.expression with
  | some _ => none
  | none => some { arguments with expression := some expression }

/-- The letter of a flag that is written in full. -/
def letterOf? (name : List Char) : Option Char :=
  if name = "postfix".toList then some 'p'
  else if name = "operators".toList then some 'o'
  else none

/-- Adds an argument that stands before a `--`.  A minus sign that nothing
follows is an expression. -/
def add? (arguments : Arguments) (argument : String) : Option Arguments :=
  match argument.toList with
  | '-' :: '-' :: name => (letterOf? name).bind arguments.addFlag?
  | '-' :: letter :: letters => (letter :: letters).foldlM addFlag? arguments
  | _ => arguments.addExpression? argument

/-- Adds arguments in their order, by structural recursion.  All that follows a
`--` are expressions. -/
def addAll? (arguments : Arguments) : List String → Option Arguments
  | [] => some arguments
  | argument :: rest =>
      if argument = "--" then rest.foldlM addExpression? arguments
      else (arguments.add? argument).bind fun arguments => addAll? arguments rest

/-- **What the arguments ask for**; `none` if they are not in order. -/
def parse? (arguments : List String) : Option Arguments := addAll? {} arguments

end Arguments

/-! ## Lines -/

/-- The byte of a line feed. -/
def lineFeed : UInt8 := 10

/-- **The lines of an input**, by structural recursion on its bytes. -/
def splitLines : List UInt8 → List (List UInt8)
  | [] => []
  | byte :: rest =>
      if byte = lineFeed then [byte] :: splitLines rest
      else match splitLines rest with
        | [] => [[byte]]
        | line :: lines => (byte :: line) :: lines

/-- Whether a character ends a line. -/
def endsLine (c : Char) : Bool := c = '\n' || c = '\r'

/-- A line without the line feeds and carriage returns at its end. -/
def withoutLineEnd (line : String) : String :=
  String.ofList (line.toList.reverse.dropWhile endsLine).reverse

/-- The code points with the property `White_Space`, as first and last of each
range. -/
def whiteSpaceRanges : List (Nat × Nat) :=
  [ (0x0009, 0x000D), (0x0020, 0x0020), (0x0085, 0x0085), (0x00A0, 0x00A0), (0x1680, 0x1680),
    (0x2000, 0x200A), (0x2028, 0x2029), (0x202F, 0x202F), (0x205F, 0x205F), (0x3000, 0x3000) ]

/-- Whether a character has the property `White_Space`. -/
def isWhiteSpace (c : Char) : Bool :=
  whiteSpaceRanges.any fun range => range.1 ≤ c.toNat && c.toNat ≤ range.2

/-- Whether a text is blank. -/
def isBlank (text : String) : Bool := text.toList.all isWhiteSpace

end InfixCalculator
