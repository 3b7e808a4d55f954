import InfixCalculator.Proofs.ScannedTexts
import Mathlib.Data.List.Forall2

/-!
# Where a scan ends

A scan yields tokens, then a failure at most, then nothing for ever, no matter how often
it is asked (`Scanner.nextItems_eq`).  The tokens stand for pieces of the text that
follow each other from its first character on, so their characters can be counted, and
a failure names its place by this count: it stands right behind the pieces that were
read, and it says what stands there (`SyntaxError.Describes`).

The text is followed from the left.  What has been read is kept as its pieces, so the
index of the scanner is no more than their length, and the only thing that a failure
says about the past — that an operator still waits for its operand — is known from the
last token (`Token.AwaitsOperand`).
-/

namespace InfixCalculator

/-! ## The items, one call after the other -/

/-- **A scan yields its items and then nothing for ever.** -/
theorem Scanner.nextItems_eq (scanner : Scanner) (count : Nat) :
    scanner.nextItems count =
      (scanner.items.map some ++ List.replicate count none).take count := by
  induction count generalizing scanner with
  | zero => rfl
  | succ count ih =>
      rw [nextItems, ih, next_fst, items_next_snd, List.replicate_succ]
      cases scanner.items with
      | nil => simp
      | cons item items =>
          -- One answer more at the end is out of reach.
          have enough : (items.map some ++ none :: List.replicate count none).take count =
              (items.map some ++ List.replicate count none).take count := by
            rw [← List.replicate_succ, List.replicate_succ', ← List.append_assoc]
            exact List.take_append_of_le_length (by simp)
          simp [enough]

/-! ## What a failure says -/

/-- A piece of the text is written for a token. -/
inductive Lexeme.Spells (table : OperatorTable) : Lexeme → Token → Prop where
  /-- A numeral is written for the number that it reads as. -/
  | numeral {literal : List Char} {decimal : Decimal}
      (read : Decimal.ofText? literal = some decimal) :
      Spells table (numeral literal) (.number decimal.toFloat)
  /-- An opening parenthesis. -/
  | opening : Spells table opening .opening
  /-- A closing parenthesis. -/
  | closing : Spells table closing .closing
  /-- A minus sign is written for each of its meanings, whatever the table holds. -/
  | minus (meaning : Minus) : Spells table minus (.operator meaning.symbol)
  /-- Any other character is written for the operator of which it is the symbol. -/
  | symbol {character : Char} {op : Operator}
      (found : table.find? (String.singleton character) = some op) :
      Spells table (symbol character) (.operator (String.singleton character))

/-- A token still waits for its operand: a sign, or an operator of one character that
stands before its operand. -/
def Token.AwaitsOperand (table : OperatorTable) : Token → Prop
  | operator symbol =>
      symbol = Minus.leading.symbol ∨ symbol = Minus.sign.symbol ∨
        ∃ character, symbol = String.singleton character ∧ table.Stands .before symbol
  | _ => False

namespace SyntaxError

/-- The place in the text that a failure names. -/
def index? : SyntaxError → Option Nat
  | illegalCharacter index _ | invalidNumber index _ | missingOperand index
  | misplacedOperator index _ => some index
  | unmatchedClosing | unmatchedOpening | unknownOperator _ => none

/-- **What a failure of a scan says** about the text from its place on and the tokens
before it. -/
def Describes (table : OperatorTable) (tokens : List Token) (remaining : List Char) :
    SyntaxError → Prop
  | illegalCharacter _ character =>
      remaining.head? = some character ∧ table.find? (String.singleton character) = none
  | invalidNumber _ literal =>
      literal.toList = remaining.takeWhile Lexeme.continuesNumeral ∧ literal ≠ ""
  | misplacedOperator _ symbol =>
      ∃ character, remaining.head? = some character ∧ symbol = String.singleton character
  | missingOperand _ =>
      remaining = ['-'] ∨
        ∃ character op last, remaining.head? = some character ∧
          table.find? (String.singleton character) = some op ∧ tokens.getLast? = some last ∧
          last.AwaitsOperand table
  | unmatchedClosing | unmatchedOpening | unknownOperator _ => False

end SyntaxError

variable {table : OperatorTable}

namespace Lexeme

theorem ofChar_ne_numeral (c : Char) (literal : List Char) : ofChar c ≠ numeral literal := by
  unfold ofChar
  split <;> exact nofun

/-- The pieces make up the text that is cut into them. -/
theorem Cuts.flatMap_chars {text : List Char} {lexemes : List Lexeme} (cuts : Cuts text lexemes) :
    lexemes.flatMap chars = text := by
  rw [cuts.eq_cut, flatMap_chars_cut]

/-- No piece is empty. -/
theorem Cuts.chars_ne_nil {text : List Char} {lexeme : Lexeme} {after : List Lexeme}
    (cuts : Cuts text (lexeme :: after)) : lexeme.chars ≠ [] := by
  cases cuts with
  | numeral => exact List.cons_ne_nil _ _
  | other => simp

/-- **A numeral is a run of digits and points that goes on as long as it can.** -/
theorem Cuts.eq_takeWhile {text literal : List Char} {after : List Lexeme}
    (cuts : Cuts text (Lexeme.numeral literal :: after)) :
    literal = text.takeWhile continuesNumeral ∧ literal ≠ [] := by
  have same := cuts.eq_cut
  cases text with
  | nil => cases same
  | cons c rest =>
      cases digit : c.isDigit with
      | false =>
          rw [cut_other digit] at same
          exact absurd (List.cons.inj same).1.symm (ofChar_ne_numeral c literal)
      | true =>
          rw [cut_digit digit] at same
          obtain rfl := Lexeme.numeral.inj (List.cons.inj same).1
          have run : continuesNumeral c = true := by simp [continuesNumeral, digit]
          exact ⟨(List.takeWhile_cons_of_pos run).symm, List.cons_ne_nil _ _⟩

end Lexeme

/-! ## One piece -/

/-- A minus sign without a meaning has nothing behind it. -/
theorem Minus.eq_none_of_resolve?_eq_none {previous : Context} {next : Option Char}
    (unresolved : resolve? previous next = none) : next = none := by
  unfold resolve? at unresolved
  split at unresolved
  next => cases unresolved
  next =>
    split at unresolved
    next => rfl
    next => split at unresolved <;> cases unresolved

section

variable {context after : Context} {index : Nat} {next : Option Char} {lexeme : Lexeme}
  {token : Token}

/-- **A piece is written for the token that it becomes**, and a token that leaves a pending
operator is one that waits for its operand. -/
theorem spells_of_readLexeme
    (read : readLexeme table context index next lexeme = .ok (token, after)) :
    lexeme.Spells table token ∧ (after = .pending → token.AwaitsOperand table) := by
  cases lexeme with
  | numeral literal =>
      rw [readLexeme] at read
      split at read
      next decoded =>
        obtain ⟨rfl, rfl⟩ := Prod.mk.inj (Except.ok.inj read)
        exact ⟨.numeral decoded, by simp⟩
      next => cases read
  | opening =>
      obtain ⟨rfl, rfl⟩ := Prod.mk.inj (Except.ok.inj read)
      exact ⟨.opening, by simp⟩
  | closing =>
      obtain ⟨rfl, rfl⟩ := Prod.mk.inj (Except.ok.inj read)
      exact ⟨.closing, by simp⟩
  | minus =>
      rw [readLexeme] at read
      split at read
      next meaning _ =>
        obtain ⟨rfl, rfl⟩ := Prod.mk.inj (Except.ok.inj read)
        refine ⟨.minus meaning, fun pending => ?_⟩
        cases meaning with
        | subtraction => cases pending
        | leading => exact .inl rfl
        | sign => exact .inr (.inl rfl)
      next => cases read
  | symbol character =>
      obtain ⟨op, found, -, -, rfl, rfl⟩ := readSymbol_eq_ok read
      refine ⟨.symbol found, fun pending => ?_⟩
      cases placement : op.placement with
      | before => exact .inr (.inr ⟨character, rfl, op, found, placement⟩)
      | between | after =>
          rw [placement] at pending
          cases pending

/-- **The pieces of a scan without failure** are written for its tokens, one for each. -/
theorem spelled_of_itemsFrom {lexemes : List Lexeme} {tokens : List Token}
    (scanned : Scanner.itemsFrom table index context lexemes = tokens.map .ok) :
    List.Forall₂ (Lexeme.Spells table) lexemes tokens := by
  induction lexemes generalizing index context tokens with
  | nil =>
      obtain rfl := List.map_eq_nil_iff.mp scanned.symm
      exact .nil
  | cons piece lexemes ih =>
      obtain ⟨token, after, more, read, rfl, scannedRest⟩ :=
        Scanner.itemsFrom_cons_eq_map_ok scanned
      exact .cons (spells_of_readLexeme read).1 (ih scannedRest)

theorem OperatorTable.spelled_of_items {text : String} {tokens : List Token}
    (scanned : table.items text = tokens.map .ok) :
    List.Forall₂ (Lexeme.Spells table) (Lexeme.cut text.toList) tokens :=
  spelled_of_itemsFrom scanned

/-- Every token of a scan is one that a piece of the text is written for. -/
theorem exists_spells_of_mem_itemsFrom {lexemes : List Lexeme}
    (member : .ok token ∈ Scanner.itemsFrom table index context lexemes) :
    ∃ piece ∈ lexemes, piece.Spells table token := by
  induction lexemes generalizing index context with
  | nil => exact absurd member List.not_mem_nil
  | cons piece lexemes ih =>
      cases result : readLexeme table context index (firstChar lexemes) piece with
      | error error =>
          rw [Scanner.itemsFrom, result] at member
          cases List.mem_singleton.mp member
      | ok outcome =>
          rw [Scanner.itemsFrom_cons_ok result] at member
          rcases List.mem_cons.mp member with first | later
          · obtain rfl := Except.ok.inj first
            exact ⟨piece, List.mem_cons_self, (spells_of_readLexeme result).1⟩
          · obtain ⟨other, here, spells⟩ := ih later
            exact ⟨other, List.mem_cons_of_mem piece here, spells⟩

/-- **The failure of a piece** is at the piece and describes it. -/
theorem describes_of_readLexeme {tokens : List Token} {later : List Lexeme} {text : List Char}
    {error : SyntaxError} (cuts : Lexeme.Cuts text (lexeme :: later))
    (waits : context = .pending →
      ∃ last, tokens.getLast? = some last ∧ last.AwaitsOperand table)
    (failed : readLexeme table context index (firstChar later) lexeme = .error error) :
    error.index? = some index ∧ error.Describes table tokens text := by
  cases lexeme with
  | numeral literal =>
      rw [readLexeme] at failed
      split at failed
      next => cases failed
      next =>
        obtain rfl := Except.error.inj failed
        obtain ⟨run, nonempty⟩ := cuts.eq_takeWhile
        exact ⟨rfl, by simpa using run, by simpa using nonempty⟩
  | opening => cases failed
  | closing => cases failed
  | minus =>
      rw [readLexeme] at failed
      split at failed
      next => cases failed
      next unresolved =>
        obtain rfl := Except.error.inj failed
        obtain ⟨rest, cutsLater⟩ := cuts.exists_of_cons
        refine ⟨rfl, .inl ?_⟩
        have last : later = [] :=
          cutsLater.firstChar_eq_none_iff.mp (Minus.eq_none_of_resolve?_eq_none unresolved)
        rw [← cuts.flatMap_chars, last]
        rfl
  | symbol character =>
      have here : text.head? = some character := by
        rw [← cuts.flatMap_chars]
        rfl
      rw [readLexeme, readSymbol] at failed
      split at failed
      next missing =>
        obtain rfl := Except.error.inj failed
        exact ⟨rfl, here, missing⟩
      next op found =>
        split at failed
        next pending =>
          obtain rfl := Except.error.inj failed
          obtain ⟨last, isLast, awaits⟩ := waits pending
          exact ⟨rfl, .inr ⟨character, op, last, here, found, isLast, awaits⟩⟩
        next =>
          split at failed
          next => cases failed
          next =>
            obtain rfl := Except.error.inj failed
            exact ⟨rfl, character, here, OperatorTable.symbol_eq_of_find? found⟩

end

/-! ## The whole text -/

/-- The items of a scan: tokens, and behind them a failure if one ends the scan. -/
def itemsOf (tokens : List Token) (failure : Option SyntaxError) :
    List (Except SyntaxError Token) :=
  tokens.map .ok ++ failure.toList.map .error

/-- **A text is read up to a place**: pieces of it became tokens, and the rest of it
remains. -/
structure ReadUpTo (table : OperatorTable) (text : List Char) (read : List Lexeme)
    (tokens : List Token) (remaining : List Char) : Prop where
  /-- The pieces follow each other from the first character of the text. -/
  text_eq : text = read.flatMap Lexeme.chars ++ remaining
  /-- No piece is empty. -/
  nonempty : ∀ lexeme ∈ read, lexeme.chars ≠ []
  /-- There is one token for each piece, in their order. -/
  spelled : List.Forall₂ (Lexeme.Spells table) read tokens

theorem readUpTo_nil (table : OperatorTable) (text : List Char) : ReadUpTo table text [] [] text :=
  ⟨rfl, nofun, .nil⟩

/-- One piece more is read. -/
theorem ReadUpTo.concat {text remaining : List Char} {read : List Lexeme} {tokens : List Token}
    {lexeme : Lexeme} {token : Token} (sofar : ReadUpTo table text read tokens remaining)
    {rest : List Char} (split : remaining = lexeme.chars ++ rest) (nonempty : lexeme.chars ≠ [])
    (spells : lexeme.Spells table token) :
    ReadUpTo table text (read ++ [lexeme]) (tokens ++ [token]) rest := by
  refine ⟨by simp [sofar.text_eq, split], ?_, List.rel_append sofar.spelled (.cons spells .nil)⟩
  intro piece member
  rcases List.mem_append.mp member with before | last
  · exact sofar.nonempty piece before
  · obtain rfl := List.mem_singleton.mp last
    exact nonempty

/-- **A scan goes on behind the pieces that were read** until nothing remains or a failure
ends it. -/
theorem exists_readUpTo (table : OperatorTable) {text rest : List Char}
    {read lexemes : List Lexeme}
    {tokens : List Token} {context : Context} (sofar : ReadUpTo table text read tokens rest)
    (cuts : Lexeme.Cuts rest lexemes)
    (waits : context = .pending →
      ∃ last, tokens.getLast? = some last ∧ last.AwaitsOperand table) :
    ∃ (readLater : List Lexeme) (later : List Token) (remaining : List Char)
      (failure : Option SyntaxError),
      Scanner.itemsFrom table (read.flatMap Lexeme.chars).length context lexemes =
        itemsOf later failure ∧
      ReadUpTo table text (read ++ readLater) (tokens ++ later) remaining ∧
      (failure = none → remaining = []) ∧
      ∀ error, failure = some error →
        error.index? = some ((read ++ readLater).flatMap Lexeme.chars).length ∧
          error.Describes table (tokens ++ later) remaining := by
  induction lexemes generalizing read rest tokens context with
  | nil =>
      have nothing : rest = [] := cuts.flatMap_chars.symm
      refine ⟨[], [], rest, none, rfl, ?_, fun _ => nothing, nofun⟩
      simpa using sofar
  | cons lexeme lexemes ih =>
      cases result : readLexeme table context (read.flatMap Lexeme.chars).length
          (firstChar lexemes) lexeme with
      | error error =>
          refine ⟨[], [], rest, some error, ?_, by simpa using sofar, nofun, ?_⟩
          · rw [Scanner.itemsFrom, result]
            rfl
          · intro _ same
            obtain rfl := Option.some.inj same
            simpa using describes_of_readLexeme cuts waits result
      | ok outcome =>
          obtain ⟨token, after⟩ := outcome
          obtain ⟨spells, pending⟩ := spells_of_readLexeme result
          obtain ⟨following, cutsLater⟩ := cuts.exists_of_cons
          have split : rest = lexeme.chars ++ following := by
            rw [← cuts.flatMap_chars, List.flatMap_cons, cutsLater.flatMap_chars]
          have next := sofar.concat split cuts.chars_ne_nil spells
          obtain ⟨readLater, later, remaining, failure, scanned, upTo, ends⟩ :=
            ih next cutsLater fun waiting => ⟨token, by simp, pending waiting⟩
          refine ⟨lexeme :: readLater, token :: later, remaining, failure, ?_, ?_⟩
          · rw [Scanner.itemsFrom_cons_ok result]
            simpa [itemsOf, Lexeme.length] using scanned
          · simpa using And.intro upTo ends

/-- **The items of a text** are tokens, for which the pieces of the text stand, and then a
failure at most, which describes what stands behind them. -/
theorem OperatorTable.exists_items_eq_itemsOf (table : OperatorTable) (text : String) :
    ∃ (read : List Lexeme) (tokens : List Token) (remaining : List Char)
      (failure : Option SyntaxError),
      table.items text = itemsOf tokens failure ∧
      ReadUpTo table text.toList read tokens remaining ∧
      (failure = none → remaining = []) ∧
      ∀ error, failure = some error →
        error.index? = some (read.flatMap Lexeme.chars).length ∧
          error.Describes table tokens remaining :=
  exists_readUpTo table (readUpTo_nil table text.toList) (Lexeme.cuts_cut text.toList)
    fun pending : Context.start = .pending => nomatch pending

/-- **Nothing of a text is lost, and a failure is where it says.**  However often a scan
is asked, it yields tokens, then one failure at most, then nothing.  The tokens stand for
the pieces of the text one after the other, and for all of it if there is no failure.
The index of a failure is the number of characters of these pieces, and the failure
describes what stands behind them. -/
theorem OperatorTable.scanner_lossless (table : OperatorTable) (text : String) :
    ∃ (read : List Lexeme) (tokens : List Token) (remaining : List Char)
      (failure : Option SyntaxError),
      (∀ count, (table.scanner text).nextItems count =
        ((itemsOf tokens failure).map some ++ List.replicate count none).take count) ∧
      ReadUpTo table text.toList read tokens remaining ∧
      (failure = none → remaining = []) ∧
      ∀ error, failure = some error →
        error.index? = some (read.flatMap Lexeme.chars).length ∧
          error.Describes table tokens remaining := by
  obtain ⟨read, tokens, remaining, failure, scanned, upTo, ends⟩ :=
    table.exists_items_eq_itemsOf text
  refine ⟨read, tokens, remaining, failure, fun count => ?_, upTo, ends⟩
  have items : (table.scanner text).items = itemsOf tokens failure := scanned
  rw [Scanner.nextItems_eq, items]

/-- Behind `1!` stand a numeral with two points, one character more than the factorial, and
nothing after it. -/
example : (OperatorTable.standard.scanner "1!2.3.4+").nextItems 5 =
    [some (.ok (.number 1)), some (.ok (.operator "!")),
      some (.error (.invalidNumber 2 "2.3.4")), none, none] := by
  decide +kernel

end InfixCalculator
