/-!
# Lexemes

The text of an expression is cut from the left into pieces: a run of digits and
points that starts with a digit is one piece, and every other character is a
piece of its own.  No character is passed over.

## Main definitions

* `Lexeme` — a piece of the text, and `Lexeme.chars`, its characters.
* `Lexeme.cut` — cuts a text into its pieces.
* `flatMap_chars_cut`, `cut_digit`, `cut_other` — the pieces make up the text, a
  run is as long as it can be, and what is no digit is a piece of its own.
* `withoutBlanks` — takes spaces and tabs out of a text.
-/

namespace InfixCalculator

/-- Takes every space and tab out of an expression, so that blanks never divide
tokens. -/
def withoutBlanks (expression : String) : String :=
  String.ofList (expression.toList.filter fun c => c ≠ ' ' ∧ c ≠ '\t')

/-- A piece of an expression. -/
inductive Lexeme where
  /-- A digit and the digits and points that follow it. -/
  | numeral (literal : List Char)
  /-- A minus sign. -/
  | minus
  /-- An opening parenthesis. -/
  | opening
  /-- A closing parenthesis. -/
  | closing
  /-- Any other character. -/
  | symbol (character : Char)
deriving DecidableEq, Repr

namespace Lexeme

/-- The characters of a piece. -/
def chars : Lexeme → List Char
  | numeral literal => literal
  | minus => ['-']
  | opening => ['(']
  | closing => [')']
  | symbol character => [character]

/-- How many characters a piece has. -/
def length (lexeme : Lexeme) : Nat := lexeme.chars.length

/-- The piece that a character is by itself. -/
def ofChar : Char → Lexeme
  | '-' => minus
  | '(' => opening
  | ')' => closing
  | character => symbol character

@[simp] theorem chars_ofChar (c : Char) : (ofChar c).chars = [c] := by
  unfold ofChar
  split <;> rfl

/-- Whether a character continues a run of digits and points. -/
def continuesNumeral (c : Char) : Bool := c.isDigit || c = '.'

/-- The piece that a run of digits and points is; there is none without any. -/
def ofRun : List Char → List Lexeme
  | [] => []
  | run => [numeral run]

/-- **Cuts a text into pieces**, by structural recursion on the text.  `run`
holds the digits and points of the run that is open, the last one first. -/
def cutAfter (run : List Char) : List Char → List Lexeme
  | [] => ofRun run.reverse
  | c :: rest =>
      if c.isDigit || (c = '.' && !run.isEmpty) then cutAfter (c :: run) rest
      else ofRun run.reverse ++ ofChar c :: cutAfter [] rest

/-- The pieces of a text. -/
def cut (text : List Char) : List Lexeme := cutAfter [] text

@[simp] theorem cut_nil : cut [] = [] := rfl

/-- An open run takes the digits and points that follow. -/
theorem cutAfter_eq (run text : List Char) (h : run ≠ []) :
    cutAfter run text =
      numeral (run.reverse ++ text.takeWhile continuesNumeral) ::
        cut (text.dropWhile continuesNumeral) := by
  induction text generalizing run with
  | nil =>
      obtain ⟨c, run, rfl⟩ := List.exists_cons_of_ne_nil h
      simp only [cutAfter, List.takeWhile_nil, List.append_nil, List.dropWhile_nil, cut_nil]
      generalize hr : (c :: run).reverse = r
      cases r with
      | nil => simp at hr
      | cons _ _ => rfl
  | cons c rest ih =>
      have hne : run.isEmpty = false := by simpa using h
      by_cases hc : continuesNumeral c = true
      · have : (c.isDigit || (c = '.' && !run.isEmpty)) = true := by
          simpa [continuesNumeral, hne] using hc
        rw [cutAfter, if_pos this, ih (c :: run) (by simp),
          List.takeWhile_cons_of_pos hc, List.dropWhile_cons_of_pos hc]
        simp
      · have : ¬ (c.isDigit || (c = '.' && !run.isEmpty)) = true := by
          simpa [continuesNumeral, hne] using hc
        rw [cutAfter, if_neg this, List.takeWhile_cons_of_neg hc,
          List.dropWhile_cons_of_neg hc]
        have hd : ¬ (c.isDigit || (c = '.' && !([] : List Char).isEmpty)) = true := by
          intro hd
          simp at hd
          simp [continuesNumeral, hd] at hc
        rw [cut, cutAfter, if_neg hd]
        generalize hr : run.reverse = r
        cases r with
        | nil => simp at hr; exact absurd hr h
        | cons _ _ => simp [ofRun]

/-- **A digit opens a run** that is as long as it can be. -/
theorem cut_digit {c : Char} (hc : c.isDigit = true) (rest : List Char) :
    cut (c :: rest) =
      numeral (c :: rest.takeWhile continuesNumeral) ::
        cut (rest.dropWhile continuesNumeral) := by
  rw [cut, cutAfter, if_pos (by simp [hc]), cutAfter_eq [c] rest (by simp)]
  rfl

/-- **What is no digit is a piece of its own.** -/
theorem cut_other {c : Char} (hc : c.isDigit = false) (rest : List Char) :
    cut (c :: rest) = ofChar c :: cut rest := by
  rw [cut, cutAfter, if_neg (by simp [hc])]
  rfl

theorem flatMap_chars_cutAfter (run text : List Char) :
    (cutAfter run text).flatMap chars = run.reverse ++ text := by
  have ofRun_chars : ∀ r : List Char, (ofRun r).flatMap chars = r := fun r => by
    cases r <;> simp [ofRun, chars]
  induction text generalizing run with
  | nil => simp [cutAfter, ofRun_chars]
  | cons c rest ih =>
      rw [cutAfter]
      split
      · simp [ih]
      · simp [ih, ofRun_chars]

/-- **The pieces make up the text.** -/
@[simp] theorem flatMap_chars_cut (text : List Char) : (cut text).flatMap chars = text := by
  simpa [cut] using flatMap_chars_cutAfter [] text

end Lexeme

end InfixCalculator
