import InfixCalculator.Console.Program
import Mathlib.Data.List.DropRight

/-!
# Conversations

The interactive program is its own run for one expression, line after line.  A conversation is
said here without the program: which lines an input has (`LinesOf`), what was typed on them
(`TypedOn`), and where the reading ends (`Conversation`).  What is written for one line is said
by runs for its expression alone (`lineOutcome`).

A line of a conversation is answered as these runs answer (`replyTo_of_typedOn`); by induction on
the conversation, the program writes what these answers add up to, whatever follows the end
(`interact_of_conversation`).
-/

namespace InfixCalculator

/-! ## Lines and their texts -/

/-- **The lines of an input.**  A line feed ends each of them and stands nowhere else in it; only
the last may lack it. -/
inductive LinesOf : List UInt8 → List (List UInt8) → Prop where
  | none : LinesOf [] []
  | unended {line : List UInt8} (typed : line ≠ []) (notIn : lineFeed ∉ line) : LinesOf line [line]
  | ended (body : List UInt8) {rest : List UInt8} {lines : List (List UInt8)}
      (notIn : lineFeed ∉ body) (later : LinesOf rest lines) :
      LinesOf (body ++ lineFeed :: rest) ((body ++ [lineFeed]) :: lines)

/-- The bytes of a text in UTF-8. -/
def utf8Bytes (text : String) : List UInt8 := text.toList.flatMap String.utf8EncodeChar

/-- **What was typed in a text**: all of it but the line feeds and carriage returns at its end. -/
def TypedIn (text expression : String) : Prop :=
  (∀ c, expression.toList.getLast? = some c → endsLine c = false) ∧
    ∃ lineEnd : String, (∀ c ∈ lineEnd.toList, endsLine c = true) ∧ text = expression ++ lineEnd

/-- **What was typed on a line**: what was typed in its text. -/
def TypedOn (line : List UInt8) (expression : String) : Prop :=
  ∃ text, line = utf8Bytes text ∧ TypedIn text expression

variable {input line body rest : List UInt8} {lines : List (List UInt8)}
variable {text expression : String}

theorem splitLines_of_not_mem (typed : line ≠ []) (notIn : lineFeed ∉ line) :
    splitLines line = [line] := by
  induction line with
  | nil => exact absurd rfl typed
  | cons byte line ih =>
    obtain ⟨first, later⟩ := List.ne_and_not_mem_of_not_mem_cons notIn
    rw [splitLines, if_neg (Ne.symm first)]
    cases line with
    | nil => rfl
    | cons next line => rw [ih (List.cons_ne_nil _ _) later]

theorem splitLines_append_lineFeed (notIn : lineFeed ∉ body) :
    splitLines (body ++ lineFeed :: rest) = (body ++ [lineFeed]) :: splitLines rest := by
  induction body with
  | nil => simp [splitLines]
  | cons byte body ih =>
    obtain ⟨first, later⟩ := List.ne_and_not_mem_of_not_mem_cons notIn
    rw [List.cons_append, splitLines, if_neg (Ne.symm first), ih later]
    rfl

theorem linesOf_splitLines (input : List UInt8) : LinesOf input (splitLines input) := by
  induction input with
  | nil => exact .none
  | cons byte rest ih =>
    rw [splitLines]
    split
    next first =>
      subst first
      exact .ended [] List.not_mem_nil ih
    next first =>
      -- the first line of the rest is the one that the byte is put before
      generalize splitLines rest = lines at ih
      cases ih with
      | none => exact .unended (List.cons_ne_nil _ _) (by simpa using Ne.symm first)
      | unended _ notIn =>
        exact .unended (List.cons_ne_nil _ _)
          (List.not_mem_cons_of_ne_of_not_mem (Ne.symm first) notIn)
      | ended body notIn later =>
        exact .ended (byte :: body)
          (List.not_mem_cons_of_ne_of_not_mem (Ne.symm first) notIn) later

/-- An input has one sequence of lines. -/
theorem linesOf_iff : LinesOf input lines ↔ splitLines input = lines := by
  constructor
  · intro made
    induction made with
    | none => rfl
    | unended typed notIn => exact splitLines_of_not_mem typed notIn
    | ended body notIn _ ih => rw [splitLines_append_lineFeed notIn, ih]
  · rintro rfl
    exact linesOf_splitLines input

theorem fromUTF8?_eq_some_iff :
    String.fromUTF8? line.toByteArray = some text ↔ line = utf8Bytes text := by
  have encoded : (utf8Bytes text).toByteArray = text.toByteArray := by
    rw [← String.utf8Encode_toList]
    rfl
  rw [← List.toByteArray_inj, encoded, String.fromUTF8?]
  split
  next valid => rw [Option.some.injEq, ← String.toByteArray_inj]; rfl
  next invalid =>
    refine ⟨nofun, fun same => absurd ?_ invalid⟩
    rw [same]
    exact text.isValidUTF8

theorem fromUTF8?_eq_none_iff :
    String.fromUTF8? line.toByteArray = none ↔ ∀ text, line ≠ utf8Bytes text := by
  simp only [Option.eq_none_iff_forall_ne_some, ne_eq, fromUTF8?_eq_some_iff]

theorem withoutLineEnd_eq_iff : withoutLineEnd text = expression ↔ TypedIn text expression := by
  have dropped : (withoutLineEnd text).toList = text.toList.rdropWhile endsLine := by
    rw [withoutLineEnd, String.toList_ofList, List.rdropWhile]
  constructor
  · rintro rfl
    refine ⟨fun c last => ?_, String.ofList (text.toList.rtakeWhile endsLine),
      fun c member => ?_, ?_⟩
    · rw [dropped] at last
      obtain ⟨typed, rfl⟩ := List.mem_getLast?_eq_getLast last
      simpa using List.rdropWhile_last_not endsLine text.toList typed
    · rw [String.toList_ofList] at member
      exact List.mem_rtakeWhile_imp member
    · rw [← String.toList_inj, String.toList_append, dropped, String.toList_ofList,
        List.rdropWhile_append_rtakeWhile]
  · rintro ⟨stops, lineEnd, ends, rfl⟩
    rw [← String.toList_inj, dropped, String.toList_append, List.rdropWhile, List.reverse_append,
      List.dropWhile_append_of_pos (by simpa using ends)]
    refine List.rdropWhile_eq_self_iff.mpr fun typed => ?_
    simp [stops _ (List.getLast?_eq_some_getLast typed)]

theorem typedOn_iff : TypedOn line expression ↔
    ∃ text, String.fromUTF8? line.toByteArray = some text ∧ withoutLineEnd text = expression := by
  simp only [TypedOn, fromUTF8?_eq_some_iff, withoutLineEnd_eq_iff]

/-! ## Answers -/

/-- What is written of the postfix form of an expression, by the run of the program that asks for
it: nothing if it is not asked for or if there is none. -/
def postfixLine (showPostfixForm : Bool) (expression : String) : String :=
  if showPostfixForm && (OperatorTable.standard.postfixForm expression).isOk then
    "postfix: " ++ (runProgram ["--postfix", "--", expression] []).output
  else ""

/-- **What is written for one line**, by the run of the program for its expression alone: nothing
if it is blank, or else its value or why it has none, and its postfix form before that. -/
def lineOutcome (showPostfixForm : Bool) (expression : String) : Outcome :=
  if isBlank expression then {}
  else
    let value := runProgram ["--", expression] []
    { output := postfixLine showPostfixForm expression ++ value.output, errors := value.errors }

/-- How the reading of lines ends. -/
inductive Ending where
  /-- There are no more lines. -/
  | endOfInput
  /-- `exit` was typed. -/
  | exit
  /-- A line is not text. -/
  | unreadable
deriving DecidableEq, Repr

/-- The exit code that follows. -/
def Ending.code : Ending → Nat
  | .endOfInput | .exit => 0
  | .unreadable => 1

/-- What is written about it to the standard error. -/
def Ending.report : Ending → String
  | .endOfInput | .exit => ""
  | .unreadable => unreadableMessage

/-- **A conversation**: what was typed on the lines before the reading ends, and how it ends. -/
inductive Conversation : List (List UInt8) → List String → Ending → Prop where
  | endOfInput : Conversation [] [] .endOfInput
  | exit {line : List UInt8} {lines : List (List UInt8)} (typed : TypedOn line "exit") :
      Conversation (line :: lines) [] .exit
  | unreadable {line : List UInt8} {lines : List (List UInt8)}
      (notText : ∀ text, line ≠ utf8Bytes text) : Conversation (line :: lines) [] .unreadable
  | line {line : List UInt8} {lines : List (List UInt8)} {expression : String}
      {expressions : List String} {ending : Ending} (typed : TypedOn line expression)
      (notExit : expression ≠ "exit") (later : Conversation lines expressions ending) :
      Conversation (line :: lines) (expression :: expressions) ending

variable {showPostfixForm : Bool} {expressions : List String} {ending : Ending}

theorem runProgram_value (expression : String) :
    runProgram ["--", expression] [] = calculateOnce .standard false expression := rfl

theorem runProgram_postfix (expression : String) :
    runProgram ["--postfix", "--", expression] [] = calculateOnce .standard true expression := rfl

theorem postfixLine_eq : postfixLine showPostfixForm expression =
    match showPostfixForm, postfixText .standard expression with
    | true, .ok text => "postfix: " ++ text ++ "\n"
    | _, _ => "" := by
  rw [postfixLine, runProgram_postfix, calculateOnce, postfixText]
  cases showPostfixForm with
  | false => simp
  | true =>
    cases OperatorTable.standard.postfixForm expression with
    | ok tokens => exact String.append_assoc.symm
    | error error => rfl

/-- An expression is answered as it is in the runs for it alone. -/
theorem answerTo_standard (notBlank : ¬ isBlank expression) :
    answerTo .standard showPostfixForm expression =
      .answer (lineOutcome showPostfixForm expression).output
        (lineOutcome showPostfixForm expression).errors := by
  rw [lineOutcome, if_neg notBlank, runProgram_value, calculateOnce, postfixLine_eq]
  unfold answerTo
  cases valueText .standard expression with
  | ok text =>
    cases showPostfixForm <;> cases postfixText .standard expression <;>
      simp [Outcome.success, Except.mapError, String.append_assoc]
  | error error =>
    cases showPostfixForm <;> cases postfixText .standard expression <;>
      simp [Outcome.failure, Except.mapError]

/-- **One line**: it is answered as the runs for its expression answer. -/
theorem replyTo_of_typedOn (typed : TypedOn line expression) (notExit : expression ≠ "exit") :
    replyTo .standard showPostfixForm line =
      .answer (lineOutcome showPostfixForm expression).output
        (lineOutcome showPostfixForm expression).errors := by
  obtain ⟨text, decoded, rfl⟩ := typedOn_iff.mp typed
  rw [replyTo, decoded]
  dsimp only
  rw [if_neg notExit]
  split
  next blank => rw [lineOutcome, if_pos blank]
  next notBlank => exact answerTo_standard notBlank

theorem replyTo_of_exit (typed : TypedOn line "exit") :
    replyTo .standard showPostfixForm line = .stop := by
  obtain ⟨text, decoded, typed⟩ := typedOn_iff.mp typed
  rw [replyTo, decoded]
  exact if_pos typed

/-- **A run**: the answers to the lines add up, and what follows the end is not read. -/
theorem interact_of_conversation (conversation : Conversation lines expressions ending) :
    interact .standard showPostfixForm lines =
      { code := ending.code
        output := String.join (expressions.map fun expression =>
          prompt ++ (lineOutcome showPostfixForm expression).output) ++ prompt
        errors := String.join (expressions.map fun expression =>
          (lineOutcome showPostfixForm expression).errors) ++ ending.report } := by
  induction conversation with
  | endOfInput => rfl
  | exit typed =>
    rw [interact, replyTo_of_exit typed]
    rfl
  | unreadable notText =>
    rw [interact, replyTo, fromUTF8?_eq_none_iff.mpr notText]
    rfl
  | line typed notExit later ih =>
    rw [interact, replyTo_of_typedOn typed notExit, ih]
    simp [Reply.outcome, Reply.endsRun, Outcome.andThen, String.append_assoc]

/-- Every sequence of lines is a conversation. -/
theorem exists_conversation (lines : List (List UInt8)) :
    ∃ expressions ending, Conversation lines expressions ending := by
  induction lines with
  | nil => exact ⟨[], .endOfInput, .endOfInput⟩
  | cons line lines ih =>
    cases decoded : String.fromUTF8? line.toByteArray with
    | none => exact ⟨[], .unreadable, .unreadable (fromUTF8?_eq_none_iff.mp decoded)⟩
    | some text =>
      have typed : TypedOn line (withoutLineEnd text) := typedOn_iff.mpr ⟨text, decoded, rfl⟩
      by_cases last : withoutLineEnd text = "exit"
      · exact ⟨[], .exit, .exit (last ▸ typed)⟩
      · obtain ⟨expressions, ending, later⟩ := ih
        exact ⟨_ :: expressions, ending, .line typed last later⟩

/-- **A session of the program is its runs for single expressions, line after line.**  Every input
has one sequence of lines, and it is a conversation.  The program writes its banner, then its
prompt and the answer to every line, and the prompt before the line or the end of the input at
which the reading ends; only a line that is not text makes it fail. -/
theorem runProgram_conversation {arguments : List String}
    (noExpression : Arguments.parse? arguments = some { showPostfixForm }) (input : List UInt8) :
    (∃ lines expressions ending, LinesOf input lines ∧ Conversation lines expressions ending) ∧
    ∀ lines expressions ending, LinesOf input lines → Conversation lines expressions ending →
      runProgram arguments input =
        { code := ending.code
          output := banner ++ String.join (expressions.map fun expression =>
            prompt ++ (lineOutcome showPostfixForm expression).output) ++ prompt
          errors := String.join (expressions.map fun expression =>
            (lineOutcome showPostfixForm expression).errors) ++ ending.report } := by
  refine ⟨?_, fun lines expressions ending made conversation => ?_⟩
  · obtain ⟨expressions, ending, conversation⟩ := exists_conversation (splitLines input)
    exact ⟨_, expressions, ending, linesOf_splitLines input, conversation⟩
  · rw [runProgram, noExpression, linesOf_iff.mp made]
    dsimp only
    rw [interact_of_conversation conversation]
    simp [Outcome.andThen, String.append_assoc]

/-- An expression with a value, a blank line, one with a postfix form but without a value, and
`exit`. -/
theorem runProgram_conversation_postfix :
    let typed := ["1/2*3\r\n", " \n", "2+\n", "exit\n", "9"]
    let input := utf8Bytes (String.join typed)
    Arguments.parse? ["-p"] = some { showPostfixForm := true } ∧
    LinesOf input (typed.map utf8Bytes) ∧
    Conversation (typed.map utf8Bytes) ["1/2*3", " ", "2+"] .exit ∧
    runProgram ["-p"] input =
      { output := banner ++ prompt ++ "postfix: 1 2 / 3 *\n1.5\n" ++ prompt
          ++ prompt ++ "postfix: 2 +\n" ++ prompt
        errors := "Error: Operator '+' expects 2 operand(s) but found 1.\n" } := by
  intro typed input
  have flag : Arguments.parse? ["-p"] = some { showPostfixForm := true } := rfl
  have lines : LinesOf input (typed.map utf8Bytes) := linesOf_iff.mpr (by decide +kernel)
  have conversation : Conversation (typed.map utf8Bytes) ["1/2*3", " ", "2+"] .exit :=
    .line ⟨_, rfl, withoutLineEnd_eq_iff.mp (by decide +kernel)⟩ (by decide) <|
    .line ⟨_, rfl, withoutLineEnd_eq_iff.mp (by decide +kernel)⟩ (by decide) <|
    .line ⟨_, rfl, withoutLineEnd_eq_iff.mp (by decide +kernel)⟩ (by decide) <|
    .exit ⟨_, rfl, withoutLineEnd_eq_iff.mp (by decide +kernel)⟩
  refine ⟨flag, lines, conversation, ?_⟩
  rw [(runProgram_conversation flag input).2 _ _ _ lines conversation]
  decide +kernel

/-- A line that is not text leaves the answers before it as they were. -/
example : runProgram [] (utf8Bytes "1\n" ++ [255]) =
    { code := 1, output := banner ++ prompt ++ "1\n" ++ prompt, errors := unreadableMessage } := by
  decide +kernel

end InfixCalculator
