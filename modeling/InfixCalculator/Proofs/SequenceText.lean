import InfixCalculator.Proofs.NamedOperators
import InfixCalculator.Proofs.ResultText

/-!
# Reading a postfix order back

The text of a postfix order is the texts of its tokens with single spaces between them, and it
can be read back: it is cut at its spaces, and each word is the text of one token only
(`Token.ofSequenceText?`).  Not every sequence of tokens can be read back.  A symbol with a
space in it would be cut in two, and one like `12` would be taken for a number.  What makes the
difference is that the tokens come from an expression: an operator is then one character that
is no digit and no blank, or one of the three minus signs (`Named`).

The text of a number starts with a digit, or it has more than one character and starts with
one of those of `-`, `inf` and `NaN` (`startsNumber_chars`).  No symbol does.
-/

namespace InfixCalculator

/-! ## Words -/

/-- Whether a word starts as the text of a number does.  A minus sign, an `i` or an `N` is not
the text of a number by itself. -/
def startsNumber : List Char → Bool
  | [] => false
  | [c] => c.isDigit
  | c :: _ => c.isDigit || c ∈ ['-', 'i', 'N']

theorem startsNumber_cons_of_digit {c : Char} (digit : c.isDigit = true) (rest : List Char) :
    startsNumber (c :: rest) = true := by
  cases rest <;> simp [startsNumber, digit]

namespace Number

/-- **The text of a number starts as one.** -/
theorem startsNumber_chars (x : Float) : startsNumber (chars x) = true := by
  rw [chars]
  split
  next => rfl
  next negative _ => cases negative <;> rfl
  next negative m _ =>
    obtain ⟨c, rest, text, digit⟩ := m.shortestDecimal.text_eq_cons
    rw [text]
    cases negative with
    | false => exact startsNumber_cons_of_digit digit rest
    | true => rfl

/-- No blank stands in the text of a number. -/
theorem blank_not_mem_chars (x : Float) : ' ' ∉ chars x := by
  rw [chars]
  split
  next => decide
  next negative _ => cases negative <;> decide
  next negative m _ =>
    have inside : ' ' ∉ m.shortestDecimal.text := fun member =>
      absurd (Decimal.continuesNumeral_of_mem_text member) (by decide)
    cases negative with
    | false => exact inside
    | true => exact fun member => inside (List.mem_of_ne_of_mem (by decide) member)

end Number

/-- **A symbol that an expression can name**: one of the minus sign, or a character that is
looked up in the table. -/
inductive Named : String → Prop where
  /-- A meaning of the minus sign. -/
  | minus (meaning : Minus) : Named meaning.symbol
  /-- A character without a meaning of its own. -/
  | character {c : Char} (noDigit : c.isDigit = false) (plain : c ∉ ['(', ')', '-', ' ', '\t']) :
      Named (String.singleton c)

namespace Named

variable {symbol : String}

/-- No symbol starts as a number does. -/
theorem startsNumber_eq_false (named : Named symbol) : startsNumber symbol.toList = false := by
  cases named with
  | minus meaning => cases meaning <;> rfl
  | character noDigit plain => simp [startsNumber, noDigit]

theorem blank_not_mem (named : Named symbol) : ' ' ∉ symbol.toList := by
  cases named with
  | minus meaning => cases meaning <;> decide
  | @character c noDigit plain =>
    intro member
    obtain rfl : ' ' = c := by simpa using member
    simp at plain

theorem ne_empty (named : Named symbol) : symbol ≠ "" := by
  cases named with
  | minus meaning => cases meaning <;> decide
  | character noDigit plain => simp [← String.toList_inj]

end Named

namespace Token

/-- A token whose text can be read back: a number, or an operator that an expression can
name. -/
def Legible : Token → Prop
  | number _ => True
  | operator symbol => Named symbol
  | opening | closing => False

/-- Reads the text of a token: a number if it starts as one, and an operator otherwise. -/
def ofText? (text : String) : Option Token :=
  if startsNumber text.toList then (Number.ofText? text).map number else some (operator text)

/-- **Reads a sequence of texts** that are divided by single spaces. -/
def ofSequenceText? (text : String) : Option (List Token) :=
  if text = "" then some [] else ((text.toList.splitOn ' ').map String.ofList).mapM ofText?

variable {token : Token} {tokens : List Token}

/-- **The text of a token is read as the token.** -/
theorem ofText?_text (legible : token.Legible) : ofText? token.text = some token := by
  cases token with
  | number value =>
    have starts : startsNumber (Number.text value).toList = true := by
      rw [Number.text, String.toList_ofList, Number.startsNumber_chars]
    rw [text, ofText?, if_pos starts, Number.ofText?_text]
    rfl
  | operator symbol =>
    have named : Named symbol := legible
    rw [text, ofText?, named.startsNumber_eq_false]
    rfl
  | opening | closing => exact legible.elim

theorem blank_not_mem_text (legible : token.Legible) : ' ' ∉ token.text.toList := by
  cases token with
  | number value =>
    rw [text, Number.text, String.toList_ofList]
    exact Number.blank_not_mem_chars value
  | operator symbol => exact Named.blank_not_mem legible
  | opening | closing => exact legible.elim

theorem text_ne_empty (legible : token.Legible) : token.text ≠ "" := by
  cases token with
  | number value =>
    intro empty
    have starts := Number.startsNumber_chars value
    rw [show Number.chars value = [] by simpa [text, Number.text] using empty] at starts
    cases starts
  | operator symbol => exact Named.ne_empty legible
  | opening | closing => exact legible.elim

/-! ## Sequences -/

/-- The text of a sequence in its characters. -/
theorem toList_sequenceText (tokens : List Token) :
    (sequenceText tokens).toList =
      [' '].intercalate (tokens.map fun token => token.text.toList) := by
  induction tokens with
  | nil => rfl
  | cons token rest ih =>
    cases rest with
    | nil => simp [sequenceText]
    | cons next later =>
      have longer : sequenceText (token :: next :: later) =
          token.text ++ " " ++ sequenceText (next :: later) := rfl
      rw [longer, String.toList_append, String.toList_append, ih]
      simp only [List.map_cons, List.intercalate_cons_cons]
      rfl

/-- **Only the empty sequence has the empty text.** -/
theorem sequenceText_eq_empty_iff (legible : ∀ token ∈ tokens, token.Legible) :
    sequenceText tokens = "" ↔ tokens = [] := by
  constructor
  · intro empty
    match tokens with
    | [] => rfl
    | [token] => exact absurd empty (text_ne_empty (legible token List.mem_cons_self))
    | token :: next :: later =>
      have blank : ' ' ∈ (sequenceText (token :: next :: later)).toList := by
        simp [toList_sequenceText]
      rw [empty] at blank
      cases blank
  · rintro rfl
    rfl

theorem mapM_ofText? (legible : ∀ token ∈ tokens, token.Legible) :
    (tokens.map text).mapM ofText? = some tokens := by
  induction tokens with
  | nil => rfl
  | cons token tokens ih =>
    have later := ih fun other member => legible other (List.mem_cons_of_mem token member)
    rw [List.map_cons, List.mapM_cons, later, ofText?_text (legible token List.mem_cons_self)]
    rfl

/-- **The text of a sequence is read as the sequence.** -/
theorem ofSequenceText?_sequenceText (legible : ∀ token ∈ tokens, token.Legible) :
    ofSequenceText? (sequenceText tokens) = some tokens := by
  rw [ofSequenceText?]
  split
  next empty => rw [(sequenceText_eq_empty_iff legible).mp empty]
  next nonempty =>
    have words : tokens.map (fun token => token.text.toList) ≠ [] := by
      simpa using mt (sequenceText_eq_empty_iff legible).mpr nonempty
    have apart : ∀ word ∈ tokens.map (fun token => token.text.toList), ' ' ∉ word := by
      intro word member
      obtain ⟨token, here, rfl⟩ := List.mem_map.mp member
      exact blank_not_mem_text (legible token here)
    have texts : (tokens.map fun token => token.text.toList).map String.ofList =
        tokens.map text := by
      simp
    rw [toList_sequenceText, List.splitOn_intercalate ' ' apart words, texts, mapM_ofText? legible]

end Token

/-! ## Expressions -/

namespace OperatorTable

variable {table : OperatorTable}

/-- **What an expression is put into can be read back.**  A token of its postfix order comes
from a piece of the expression, and an operator was found. -/
theorem legible_of_postfixForm {expression : String} {out : List Token} {token : Token}
    (ordered : table.postfixForm expression = .ok out) (member : token ∈ out) :
    token.Legible := by
  obtain ⟨inside, known⟩ := known_of_postfixOrder ordered member
  obtain ⟨piece, here, spells⟩ := exists_spells_of_mem_itemsFrom inside
  cases spells with
  | numeral read => trivial
  | opening | closing => exact known.elim
  | minus meaning => exact .minus meaning
  | symbol found =>
    obtain ⟨written, noDigit, plain⟩ := (Lexeme.cuts_cut _).mem_of_symbol_mem here
    obtain ⟨-, noSpace, noTab⟩ := mem_withoutBlanks.mp written
    exact .character noDigit (by simp_all)

/-- **The text of a postfix order identifies it.**  The orders of two expressions have the same
text only if they are the same, only the empty order has the empty text, and the order can be
read from its text. -/
theorem eq_of_sequenceText_eq (table : OperatorTable) (first second : String)
    (out other : List Token) (ordered : table.postfixForm first = .ok out)
    (orderedOther : table.postfixForm second = .ok other) :
    (Token.sequenceText out = Token.sequenceText other → out = other) ∧
      (Token.sequenceText out = "" → out = []) ∧
      Token.ofSequenceText? (Token.sequenceText out) = some out := by
  have legible : ∀ token ∈ out, token.Legible := fun _ => legible_of_postfixForm ordered
  have legibleOther : ∀ token ∈ other, token.Legible := fun _ =>
    legible_of_postfixForm orderedOther
  have read := Token.ofSequenceText?_sequenceText legible
  have readOther := Token.ofSequenceText?_sequenceText legibleOther
  refine ⟨fun same => ?_, (Token.sequenceText_eq_empty_iff legible).mp, read⟩
  rw [same] at read
  exact Option.some.inj (read.symm.trans readOther)

/-- With an operator `.` that stands after its operand, `(1.5).-2` and `((01.50) . ) - 2` are put
into orders with one text, which is read as both of them. -/
theorem eq_of_sequenceText_eq_point :
    let table := standard.insert ⟨".", "point", 9, .after Arithmetic.negate⟩
    let out : List Token := [.number 1.5, .operator ".", .number 2, .operator "b-"]
    let other : List Token := [.number 01.50, .operator ".", .number 2, .operator "b-"]
    table.postfixForm "(1.5).-2" = .ok out ∧ table.postfixForm "((01.50) . ) - 2" = .ok other ∧
      Token.sequenceText out = "1.5 . 2 b-" ∧ Token.sequenceText other = "1.5 . 2 b-" ∧
      out = other ∧ Token.ofSequenceText? "1.5 . 2 b-" = some out := by
  intro table out other
  have ordered : table.postfixForm "(1.5).-2" = .ok out := by decide +kernel
  have orderedOther : table.postfixForm "((01.50) . ) - 2" = .ok other := by decide +kernel
  have text : Token.sequenceText out = "1.5 . 2 b-" := by decide +kernel
  have textOther : Token.sequenceText other = "1.5 . 2 b-" := by decide +kernel
  obtain ⟨same, -, read⟩ := eq_of_sequenceText_eq table _ _ out other ordered orderedOther
  exact ⟨ordered, orderedOther, text, textOther, same (text.trans textOther.symm), text ▸ read⟩

end OperatorTable

end InfixCalculator
