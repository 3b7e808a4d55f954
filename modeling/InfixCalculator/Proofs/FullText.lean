import InfixCalculator.Calculator
import InfixCalculator.Expression.FullText
import InfixCalculator.Proofs.GroupedTrees
import InfixCalculator.Proofs.Scanning
import InfixCalculator.Proofs.TreeValues

/-!
# Text written in full means its tree

A tree whose operators all stand in parentheses of their own is read back as it
was written, whatever the precedences.  Three stages are behind that:

* the scanner gives the tokens of the tree with a group around every operator
  (`items_writtenInFull`) — a minus sign is a subtraction after a value and the
  sign of a value after a parenthesis, and never stands anywhere else;
* that tree is grouped as its precedences demand, since no operand of it shows an
  operator at its root (`grouped_inFull`);
* its postfix order is that of the tree itself, with the value of the tree.

The scanner's part is put together from a few ways in which texts are read one
behind the other (`ReadsAs`), for any text behind them that does not go on with a
numeral.
-/

namespace InfixCalculator

open Lexeme

/-! ## Pieces of a text written in full -/

/-- A literal is a digit with digits behind it and at most one point among them;
the number that it is read as is its own affair. -/
theorem exists_isLiteral_iff {literal : List Char} :
    (∃ value, IsLiteral literal value) ↔
      (∃ first rest, literal = first :: rest ∧ first.isDigit = true ∧
        rest.all continuesNumeral = true) ∧ literal.count '.' ≤ 1 := by
  constructor
  · rintro ⟨value, run, decimal, read, -⟩
    refine ⟨run, ?_⟩
    by_contra points
    have none := Decimal.ofText?_eq_none_iff.mpr (Nat.lt_of_not_le points)
    exact nomatch read.symm.trans none
  · rintro ⟨run, points⟩
    cases read : Decimal.ofText? literal with
    | none =>
        have := Decimal.ofText?_eq_none_iff.mp read
        omega
    | some decimal => exact ⟨decimal.toFloat, run, decimal, read, rfl⟩

/-- A point or a digit is never written for an operator. -/
theorem WrittenAs.not_continuesNumeral {op : Operator} {c : Char} (written : WrittenAs op c) :
    continuesNumeral c = false := by
  cases written with
  | subtraction => decide
  | sign => decide
  | character _ allowed =>
      simp only [isOperatorChar, Bool.and_eq_true, Bool.not_eq_true', decide_eq_true_eq] at allowed
      simp only [continuesNumeral, allowed.1, Bool.false_or, decide_eq_false_iff_not]
      rintro rfl
      simp at allowed

theorem WrittenAs.stops {op : Operator} {c : Char} (written : WrittenAs op c) (text : List Char) :
    ∀ x ∈ (c :: text).head?, continuesNumeral x = false := by
  intro x h
  exact Option.some.inj h ▸ written.not_continuesNumeral

theorem WrittenAs.cut_cons {op : Operator} {c : Char} (written : WrittenAs op c)
    (rest : List Char) : cut (c :: rest) = ofChar c :: cut rest := by
  have stops := written.not_continuesNumeral
  rw [continuesNumeral, Bool.or_eq_false_iff] at stops
  exact cut_other stops.1 rest

theorem Lexeme.cut_opening (rest : List Char) : cut ('(' :: rest) = opening :: cut rest :=
  cut_other (by decide) rest

theorem Lexeme.cut_closing (rest : List Char) : cut (')' :: rest) = closing :: cut rest :=
  cut_other (by decide) rest

/-- **The character of an operator is read as the operator** inside of an
expression, where its placement allows and with something behind it unless it has
a value before it. -/
theorem readLexeme_writtenAs {table : OperatorTable} {op : Operator} {c : Char}
    (written : WrittenAs op c) (found : table.find? op.symbol = some op) {context : Context}
    (allowed : op.placement.allowedAfter context = true) (inside : context ≠ .start)
    (idle : context ≠ .pending) (index : Nat) {next : Option Char}
    (goesOn : context.endsValue = false → next ≠ none) :
    readLexeme table context index next (ofChar c) =
      .ok (.operator op.symbol, op.placement.context) := by
  cases written with
  | subtraction symbol placement =>
      rw [placement, Placement.allowedAfter] at allowed
      rw [ofChar, readLexeme, Minus.resolve?.eq_def, if_pos allowed, symbol, placement]
      rfl
  | sign symbol placement =>
      -- Inside of an expression a minus in front of a value is never the leading one.
      rw [placement, Placement.allowedAfter, Bool.not_eq_true'] at allowed
      have noValue : ¬ context.endsValue = true := by simp [allowed]
      obtain ⟨character, rfl⟩ := Option.ne_none_iff_exists'.mp (goesOn allowed)
      rw [ofChar, readLexeme, Minus.resolve?, if_neg noValue, symbol, placement]
      simp only [inside, false_and, if_false]
      rfl
  | character symbol operatorChar =>
      have piece : ofChar c = .symbol c := by
        unfold ofChar
        split <;> first | rfl | exact absurd operatorChar (by decide)
      rw [symbol] at found
      rw [piece, readLexeme, readSymbol, found]
      simp only [idle, if_false, allowed, if_true]

/-! ## Trees with a group around every operator -/

namespace Expression

/-- The tree with a group around every operator. -/
def inFull : Expression → Expression
  | number value => number value
  | group inner => inner.inFull
  | unary op operand => group (unary op operand.inFull)
  | binary op left right => group (binary op left.inFull right.inFull)

theorem root?_inFull (e : Expression) : e.inFull.root? = none := by
  induction e with
  | group inner ih => exact ih
  | number _ | unary _ _ | binary _ _ _ => rfl

theorem usesTable_inFull {table : OperatorTable} {e : Expression} (uses : e.UsesTable table) :
    e.inFull.UsesTable table := by
  induction e with
  | number value => trivial
  | group inner ih => exact ih uses
  | unary op operand ih => exact ⟨uses.1, uses.2.1, ih uses.2.2⟩
  | binary op left right ihLeft ihRight =>
      exact ⟨uses.1, uses.2.1, ihLeft uses.2.2.1, ihRight uses.2.2.2⟩

/-- No precedence matters where every operator is in a group of its own. -/
theorem grouped_inFull (e : Expression) : e.inFull.Grouped := by
  have fitsLeft : ∀ (op : Operator) (e : Expression), FitsLeftOf op e.inFull := by
    intro op e earlier h
    exact nomatch (root?_inFull e).symm.trans h
  have fitsRight : ∀ (op : Operator) (e : Expression), FitsRightOf op e.inFull := by
    intro op e later h
    exact nomatch (root?_inFull e).symm.trans h
  induction e with
  | number value => trivial
  | group inner ih => exact ih
  | unary op operand ih =>
      by_cases before : op.placement = .before
      · exact (grouped_before before _).mpr ⟨ih, fitsRight op operand⟩
      · exact (grouped_after before _).mpr ⟨ih, fitsLeft op operand⟩
  | binary op left right ihLeft ihRight =>
      exact ⟨ihLeft, ihRight, fitsLeft op left, fitsRight op right⟩

@[simp] theorem postorder_inFull (e : Expression) : e.inFull.postorder = e.postorder := by
  induction e with
  | number value => rfl
  | group inner ih => exact ih
  | unary op operand ih => simp [inFull, postorder, ih]
  | binary op left right ihLeft ihRight => simp [inFull, postorder, ihLeft, ihRight]

/-! ## Scanning -/

/-- The context that a text written in full leaves: that of a value. -/
def contextAfter : Expression → Context
  | number _ => .number
  | _ => .closing

theorem endsValue_contextAfter (e : Expression) : e.contextAfter.endsValue = true := by
  cases e <;> rfl

theorem WrittenInFull.ne_nil {e : Expression} {text : List Char} (written : e.WrittenInFull text) :
    text ≠ [] := by
  cases written with
  | number reads =>
      obtain ⟨⟨first, digits, rfl, -⟩, -⟩ := reads
      exact List.cons_ne_nil _ _
  | before _ _ _ | after _ _ _ | between _ _ _ _ => exact List.cons_ne_nil _ _

open Scanner

/-- In a context a text is read as tokens and leaves a context, whatever follows
that does not go on with a numeral. -/
def ReadsAs (table : OperatorTable) (context : Context) (text : List Char) (tokens : List Token)
    (after : Context) : Prop :=
  ∀ (index : Nat) (rest : List Char), (∀ c ∈ rest.head?, continuesNumeral c = false) →
    itemsFrom table index context (cut (text ++ rest)) =
      tokens.map .ok ++ itemsFrom table (index + text.length) after (cut rest)

namespace ReadsAs

variable {table : OperatorTable} {context middle after : Context} {text : List Char}
  {tokens : List Token}

theorem nil (table : OperatorTable) (context : Context) : ReadsAs table context [] [] context :=
  fun _ _ _ => rfl

/-- A character that is a token by itself, and a text behind it. -/
theorem cons (later : ReadsAs table middle text tokens after) {c : Char} {token : Token}
    (read : ∀ index rest, itemsFrom table index context (cut (c :: (text ++ rest))) =
      .ok token :: itemsFrom table (index + 1) middle (cut (text ++ rest))) :
    ReadsAs table context (c :: text) (token :: tokens) after := by
  intro index rest stops
  rw [List.cons_append, read, later _ _ stops, List.length_cons, Nat.add_assoc, Nat.add_comm 1]
  rfl

theorem append {more : List Char} {moreTokens : List Token}
    (first : ReadsAs table context text tokens middle)
    (second : ReadsAs table middle more moreTokens after)
    (stops : ∀ c ∈ more.head?, continuesNumeral c = false) :
    ReadsAs table context (text ++ more) (tokens ++ moreTokens) after := by
  intro index rest stopsRest
  have stopsMore : ∀ c ∈ (more ++ rest).head?, continuesNumeral c = false := by
    cases more with
    | nil => exact stopsRest
    | cons c more => exact stops
  rw [List.append_assoc, first _ _ stopsMore, second _ _ stopsRest, List.length_append,
    List.map_append, List.append_assoc, Nat.add_assoc]

/-- A group is what stands in it, with its parentheses. -/
theorem group (inner : ReadsAs table .opening text tokens after) (context : Context) :
    ReadsAs table context ('(' :: text ++ [')']) (.opening :: tokens ++ [.closing]) .closing := by
  have closing : ReadsAs table after [')'] [.closing] .closing := by
    apply (nil table .closing).cons
    intro index rest
    rw [cut_closing]
    rfl
  have stops : ∀ c ∈ [')'].head?, continuesNumeral c = false := by
    intro c h
    obtain rfl := Option.some.inj h
    decide
  apply (inner.append closing stops).cons
  intro index rest
  rw [cut_opening]
  rfl

/-- An operator that its placement allows, and a text behind it. -/
theorem operator (later : ReadsAs table middle text tokens after) {op : Operator} {c : Char}
    (leaves : op.placement.context = middle) (written : WrittenAs op c)
    (found : table.find? op.symbol = some op) (allowed : op.placement.allowedAfter context = true)
    (inside : context ≠ .start) (idle : context ≠ .pending)
    (goesOn : context.endsValue = false → text ≠ []) :
    ReadsAs table context (c :: text) (.operator op.symbol :: tokens) after := by
  apply later.cons
  intro index rest
  have next : context.endsValue = false → firstChar (cut (text ++ rest)) ≠ none := by
    intro noValue
    simp [goesOn noValue]
  have read := readLexeme_writtenAs written found allowed inside idle index next
  rw [written.cut_cons, itemsFrom_cons_ok read, Lexeme.length, chars_ofChar, leaves]
  rfl

/-- A value can be followed by an operator. -/
theorem operator_of_value (later : ReadsAs table middle text tokens after) {op : Operator}
    {c : Char} (leaves : op.placement.context = middle) (written : WrittenAs op c)
    (found : table.find? op.symbol = some op) (placement : op.placement ≠ .before)
    (value : context.endsValue = true) :
    ReadsAs table context (c :: text) (.operator op.symbol :: tokens) after := by
  have allowed : op.placement.allowedAfter context = true := by
    cases h : op.placement with
    | before => exact absurd h placement
    | between | after => exact value
  have inside : context ≠ .start := by
    rintro rfl
    exact nomatch value
  have idle : context ≠ .pending := by
    rintro rfl
    exact nomatch value
  exact later.operator leaves written found allowed inside idle (by simp [value])

end ReadsAs

/-- **The tokens of a text written in full** are those of the tree with a group
around every operator, in any context. -/
theorem readsAs_writtenInFull {table : OperatorTable} {e : Expression} {text : List Char}
    (written : e.WrittenInFull text) (uses : e.UsesTable table) (context : Context) :
    ReadsAs table context text e.inFull.inorder e.contextAfter := by
  induction written generalizing context with
  | number reads =>
      intro index rest stops
      obtain ⟨⟨first, digits, rfl, digit, run⟩, decimal, reading, rfl⟩ := reads
      have read : readLexeme table context index (firstChar (cut rest))
          (numeral (first :: digits)) = .ok (.number decimal.toFloat, .number) := by
        rw [readLexeme, reading]
      rw [cut_numeral digit run stops, itemsFrom_cons_ok read]
      rfl
  | @before op c operand text written placement inner ih =>
      obtain ⟨found, -, usesOperand⟩ := uses
      have allowed : op.placement.allowedAfter .opening = true := by
        rw [placement]
        rfl
      have read := (ih usesOperand op.placement.context).operator rfl written found allowed
        (by decide) (by decide) fun _ => inner.ne_nil
      rw [inFull, inorder, inorder_before placement]
      exact read.group context
  | @after op c operand text written placement inner ih =>
      obtain ⟨found, -, usesOperand⟩ := uses
      have notBefore : op.placement ≠ .before := by
        rw [placement]
        decide
      have last := (ReadsAs.nil table op.placement.context).operator_of_value rfl written found
        notBefore (endsValue_contextAfter operand)
      have read := (ih usesOperand .opening).append last (written.stops [])
      rw [inFull, inorder, inorder_after notBefore]
      have regroup : '(' :: text ++ [c, ')'] = '(' :: (text ++ [c]) ++ [')'] := by simp
      rw [regroup]
      exact read.group context
  | @between op c left right first second written placement innerLeft innerRight ihLeft ihRight =>
      obtain ⟨found, -, usesLeft, usesRight⟩ := uses
      have notBefore : op.placement ≠ .before := by
        rw [placement]
        decide
      have behind := (ihRight usesRight op.placement.context).operator_of_value rfl written found
        notBefore (endsValue_contextAfter left)
      have read := (ihLeft usesLeft .opening).append behind (written.stops second)
      exact read.group context

/-- The items of a text written in full are the tokens of its tree, and there is
no failure among them. -/
theorem items_writtenInFull {table : OperatorTable} {e : Expression} {text : String}
    (written : e.WrittenInFull text.toList) (uses : e.UsesTable table) :
    table.items text = e.inFull.inorder.map .ok := by
  have scanned := readsAs_writtenInFull written uses .start 0 [] fun c h => nomatch h
  rw [List.append_nil] at scanned
  exact scanned.trans (List.append_nil _)

/-- **Text written in full means its tree**: an expression that is a tree written
in full, with blanks anywhere, has the value of the tree, or the first failure
that the tree meets. -/
theorem calculate_writtenInFull (table : OperatorTable) (e : Expression) (expression : String)
    (uses : e.UsesTable table) (written : e.WrittenInFull (withoutBlanks expression).toList) :
    table.calculate expression = e.eval.mapError .evaluating := by
  have ordered : table.postfixForm expression = .ok e.postorder := by
    rw [OperatorTable.postfixForm, items_writtenInFull written uses,
      OperatorTable.postfixOrder_map_ok, arrange_inorder (usesTable_inFull uses) (grouped_inFull e),
      postorder_inFull]
  exact calculate_of_postfixForm uses ordered

/-- `((2-3)*(-(4!)))` with blanks in it: the first minus subtracts, the second is a
sign. -/
theorem calculate_writtenInFull_minus :
    ∃ e : Expression, e.UsesTable .standard ∧
      e.WrittenInFull (withoutBlanks "( (2 -3)\t* (- (4 !)))").toList ∧
      OperatorTable.standard.calculate "( (2 -3)\t* (- (4 !)))" = .ok 24 := by
  let e := binary .multiplication (binary .subtraction (number 2) (number 3))
    (unary .signMinus (unary .factorial (number 4)))
  have two : IsLiteral ['2'] 2 := ⟨⟨'2', [], rfl, rfl, rfl⟩, ⟨2, 0⟩, rfl, by decide +kernel⟩
  have three : IsLiteral ['3'] 3 := ⟨⟨'3', [], rfl, rfl, rfl⟩, ⟨3, 0⟩, rfl, by decide +kernel⟩
  have four : IsLiteral ['4'] 4 := ⟨⟨'4', [], rfl, rfl, rfl⟩, ⟨4, 0⟩, rfl, by decide +kernel⟩
  have uses : e.UsesTable .standard :=
    ⟨rfl, rfl, ⟨rfl, rfl, trivial, trivial⟩, rfl, rfl, rfl, rfl, trivial⟩
  have written : e.WrittenInFull "((2-3)*(-(4!)))".toList :=
    .between (.character rfl (by decide)) rfl
      (.between (.subtraction rfl rfl) rfl (.number two) (.number three))
      (.before (.sign rfl rfl) rfl (.after (.character rfl (by decide)) rfl (.number four)))
  have blanks : (withoutBlanks "( (2 -3)\t* (- (4 !)))").toList = "((2-3)*(-(4!)))".toList := by
    decide
  rw [← blanks] at written
  refine ⟨e, uses, written, (calculate_writtenInFull _ e _ uses written).trans ?_⟩
  decide +kernel

end Expression

end InfixCalculator
