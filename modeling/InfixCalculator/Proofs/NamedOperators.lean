import InfixCalculator.Calculator
import InfixCalculator.Operator.Standard
import InfixCalculator.Proofs.ScanFailures
import InfixCalculator.Proofs.WaitingStack

/-!
# Only what an expression names matters

Each of the three stages looks operators up in the table for itself, so that two tables
give an expression the same meaning has to be followed through all of them.  What the
scanner looks up is a character of the text.  What the other two look up is the symbol of
a token, and this is again a character of the text or, for a written minus sign, one of
its three symbols (`Lexeme.Spells`).  So tables that hold the same under these symbols
cannot be told apart (`Lexeme.SameIn`, `Token.SameIn`), also where a run ends with a
failure.
-/

namespace InfixCalculator

open ShuntingYard

/-- **Two tables hold the same for a piece**: the same operator under each symbol that the
piece can stand for, or none in both. -/
def Lexeme.SameIn (s t : OperatorTable) : Lexeme → Prop
  | symbol character => s.find? (String.singleton character) = t.find? (String.singleton character)
  | minus => ∀ meaning : Minus, s.find? meaning.symbol = t.find? meaning.symbol
  | numeral _ | opening | closing => True

/-- Two tables hold the same for a token. -/
def Token.SameIn (s t : OperatorTable) : Token → Prop
  | operator symbol => s.find? symbol = t.find? symbol
  | number _ | opening | closing => True

variable {s t : OperatorTable}

theorem Lexeme.Spells.sameIn {lexeme : Lexeme} {token : Token} (spells : lexeme.Spells t token)
    (same : lexeme.SameIn s t) : token.SameIn s t := by
  cases spells with
  | numeral | opening | closing => trivial
  | minus meaning => exact same meaning
  | symbol found => exact same

/-! ## The three stages -/

/-- A piece becomes the same token, or fails in the same way. -/
theorem readLexeme_congr {lexeme : Lexeme} (same : lexeme.SameIn s t) (context : Context)
    (index : Nat) (next : Option Char) :
    readLexeme s context index next lexeme = readLexeme t context index next lexeme := by
  cases lexeme with
  | numeral | opening | closing | minus => rfl
  | symbol character =>
      have found : s.find? (String.singleton character) = t.find? (String.singleton character) :=
        same
      simp only [readLexeme, readSymbol, found]

/-- The same pieces are scanned alike. -/
theorem itemsFrom_congr {lexemes : List Lexeme} (same : ∀ lexeme ∈ lexemes, lexeme.SameIn s t)
    (index : Nat) (context : Context) :
    Scanner.itemsFrom s index context lexemes = Scanner.itemsFrom t index context lexemes := by
  induction lexemes generalizing index context with
  | nil => rfl
  | cons lexeme lexemes ih =>
      have later := ih fun other member => same other (List.mem_cons_of_mem lexeme member)
      simp only [Scanner.itemsFrom, readLexeme_congr (same lexeme List.mem_cons_self), later]

/-- The same items are put into the same order. -/
theorem OperatorTable.postfixOrder_congr {items : List (Except SyntaxError Token)}
    (same : ∀ token, .ok token ∈ items → token.SameIn s t) :
    s.postfixOrder items = t.postfixOrder items := by
  rw [postfixOrder, postfixOrder]
  congr 1
  refine List.map_congr_left fun item member => ?_
  match item with
  | .error error => rfl
  | .ok (.number value) | .ok .opening | .ok .closing => rfl
  | .ok (.operator symbol) =>
      have found : s.find? symbol = t.find? symbol := same _ member
      simp [resolve, found, bind, Except.bind]

/-- The same tokens have the same effect on the values. -/
theorem ValueStack.run_congr {tokens : List Token} (same : ∀ token ∈ tokens, token.SameIn s t)
    (values : ValueStack) : run s values tokens = run t values tokens := by
  induction tokens generalizing values with
  | nil => rfl
  | cons token tokens ih =>
      have here : step s values token = step t values token := by
        cases token with
        | number | opening | closing => rfl
        | operator symbol =>
            have found : s.find? symbol = t.find? symbol := same _ List.mem_cons_self
            rw [step, step, found]
      rw [run_cons, run_cons, here]
      congr 1
      exact funext fun next => ih (fun other member => same other (.tail token member)) next

theorem OperatorTable.valueOf_congr {tokens : List Token}
    (same : ∀ token ∈ tokens, token.SameIn s t) : s.valueOf tokens = t.valueOf tokens := by
  rw [valueOf, valueOf, ValueStack.run_congr same]

/-! ## What is written comes from the expression -/

/-- A token that is written in postfix order: a number, or an operator of the table. -/
def Token.Known (table : OperatorTable) : Token → Prop
  | number _ => True
  | operator symbol => ∃ op, table.find? symbol = some op
  | opening | closing => False

/-- The label of an item is its token, which is then known. -/
theorem known_of_resolve {table : OperatorTable} {token written : Token} {read : Item Token}
    (resolved : table.resolve token token = .ok read) (label : read.label? = some written) :
    written = token ∧ written.Known table := by
  cases token with
  | number value =>
      obtain rfl := Except.ok.inj resolved
      obtain rfl := Option.some.inj label
      exact ⟨rfl, trivial⟩
  | opening | closing =>
      obtain rfl := Except.ok.inj resolved
      exact nomatch label
  | operator symbol =>
      rw [OperatorTable.resolve] at resolved
      split at resolved
      next op found =>
        obtain rfl := Except.ok.inj resolved
        obtain rfl := Option.some.inj label
        exact ⟨rfl, op, found⟩
      next => cases resolved

/-- **What is written is an item of the expression**, and its operator was found: no
parenthesis and no unknown symbol is left. -/
theorem OperatorTable.known_of_postfixOrder {table : OperatorTable}
    {items : List (Except SyntaxError Token)} {out : List Token} {token : Token}
    (ordered : table.postfixOrder items = .ok out) (member : token ∈ out) :
    .ok token ∈ items ∧ token.Known table := by
  obtain ⟨reads, resolved, perm, -⟩ := arrange_eq_ok ordered
  obtain ⟨read, here, label⟩ := List.mem_filterMap.mp (perm.mem_iff.mp member)
  have looked : .ok read ∈ items.map (· >>= fun token => table.resolve token token) :=
    resolved ▸ List.mem_map.mpr ⟨read, here, rfl⟩
  obtain ⟨item, isItem, found⟩ := List.mem_map.mp looked
  obtain ⟨source, rfl, found⟩ := bind_eq_ok.mp found
  obtain ⟨rfl, known⟩ := known_of_resolve found label
  exact ⟨isItem, known⟩

/-! ## Characters and pieces -/

namespace Lexeme

theorem ofChar_eq_symbol {c character : Char} (same : ofChar c = symbol character) :
    c = character ∧ c ∉ ['(', ')', '-'] := by
  unfold ofChar at same
  split at same
  next => cases same
  next => cases same
  next => cases same
  next noMinus noOpening noClosing =>
    refine ⟨symbol.inj same, fun special => ?_⟩
    simp only [List.mem_cons, List.not_mem_nil, or_false] at special
    rcases special with opening | closing | minus
    · exact noOpening opening
    · exact noClosing closing
    · exact noMinus minus

/-- The pieces of a text that are looked up are characters of it, and none of those that
have a meaning of their own. -/
theorem Cuts.mem_of_symbol_mem {text : List Char} {lexemes : List Lexeme}
    (cuts : Cuts text lexemes) {character : Char} (member : symbol character ∈ lexemes) :
    character ∈ text ∧ character.isDigit = false ∧ character ∉ ['(', ')', '-'] := by
  induction cuts with
  | nil => cases member
  | numeral digit run stops later ih =>
      rcases List.mem_cons.mp member with here | later
      · cases here
      · exact ⟨List.mem_append_right _ (ih later).1, (ih later).2⟩
  | other noDigit later ih =>
      rcases List.mem_cons.mp member with here | later
      · obtain ⟨rfl, plain⟩ := ofChar_eq_symbol here.symm
        exact ⟨List.mem_cons_self, noDigit, plain⟩
      · exact ⟨List.mem_cons_of_mem _ (ih later).1, (ih later).2⟩

theorem Cuts.minus_mem {text : List Char} {lexemes : List Lexeme} (cuts : Cuts text lexemes)
    (member : minus ∈ lexemes) : '-' ∈ text := by
  rw [← cuts.flatMap_chars]
  exact List.mem_flatMap.mpr ⟨minus, member, List.mem_singleton_self _⟩

end Lexeme

theorem mem_withoutBlanks {expression : String} {c : Char} :
    c ∈ (withoutBlanks expression).toList ↔ c ∈ expression.toList ∧ c ≠ ' ' ∧ c ≠ '\t' := by
  simp [withoutBlanks]

/-- **Two tables agree on an expression**: on each of its characters that can stand for an
operator, and on the three symbols of the minus sign if there is one. -/
structure AgreeOn (s t : OperatorTable) (expression : String) : Prop where
  /-- The characters other than blanks, digits, parentheses and minus signs. -/
  characters : ∀ c ∈ (withoutBlanks expression).toList, c.isDigit = false → c ∉ ['(', ')', '-'] →
    s.find? (String.singleton c) = t.find? (String.singleton c)
  /-- The meanings of a minus sign. -/
  minus : '-' ∈ expression.toList →
    ∀ meaning : Minus, s.find? meaning.symbol = t.find? meaning.symbol

theorem AgreeOn.sameIn {expression : String} (agree : AgreeOn s t expression) :
    ∀ lexeme ∈ Lexeme.cut (withoutBlanks expression).toList, lexeme.SameIn s t := by
  intro lexeme member
  have cuts := Lexeme.cuts_cut (withoutBlanks expression).toList
  cases lexeme with
  | numeral | opening | closing => trivial
  | minus => exact agree.minus (mem_withoutBlanks.mp (cuts.minus_mem member)).1
  | symbol character =>
      obtain ⟨here, noDigit, plain⟩ := cuts.mem_of_symbol_mem member
      exact agree.characters character here noDigit plain

/-- **A symbol that no expression names**: none of those of the minus sign, and no
character but one that is read without a look at the table. -/
structure Unnamed (symbol : String) : Prop where
  /-- It is not a symbol of the minus sign. -/
  notMinus : symbol ∉ Minus.symbols
  /-- If it is a character, then it is a digit, a parenthesis, a minus sign or a blank. -/
  notCharacter : ∀ c, symbol = String.singleton c →
    c.isDigit = true ∨ c ∈ ['(', ')', '-', ' ', '\t']

theorem agreeOn_insert (table : OperatorTable) {op : Operator} (unnamed : Unnamed op.symbol)
    (expression : String) : AgreeOn (table.insert op) table expression := by
  constructor
  · intro c member noDigit plain
    rw [OperatorTable.find?_insert, if_neg]
    intro same
    obtain ⟨-, noSpace, noTab⟩ := mem_withoutBlanks.mp member
    rcases unnamed.notCharacter c same.symm with digit | special
    · rw [noDigit] at digit
      exact nomatch digit
    · simp_all
  · intro _ meaning
    rw [OperatorTable.find?_insert, if_neg]
    intro same
    refine unnamed.notMinus (same ▸ ?_)
    cases meaning <;> simp [Minus.symbols]

theorem postfixForm_congr {expression : String} (agree : AgreeOn s t expression) :
    s.postfixForm expression = t.postfixForm expression ∧
      ∀ out, t.postfixForm expression = .ok out → ∀ token ∈ out, token.SameIn s t := by
  have same := agree.sameIn
  have items : s.items (withoutBlanks expression) = t.items (withoutBlanks expression) :=
    itemsFrom_congr same 0 .start
  have tokens : ∀ token, .ok token ∈ t.items (withoutBlanks expression) → token.SameIn s t := by
    intro token member
    obtain ⟨lexeme, here, spells⟩ := exists_spells_of_mem_itemsFrom member
    exact spells.sameIn (same lexeme here)
  constructor
  · rw [OperatorTable.postfixForm, items]
    exact OperatorTable.postfixOrder_congr tokens
  · intro out ordered token member
    exact tokens token (OperatorTable.known_of_postfixOrder ordered member).1

theorem calculate_congr {expression : String} (agree : AgreeOn s t expression) :
    s.calculate expression = t.calculate expression := by
  obtain ⟨form, same⟩ := postfixForm_congr agree
  rw [OperatorTable.calculate, OperatorTable.calculate, form]
  cases ordered : t.postfixForm expression with
  | error error => rfl
  | ok out =>
      show (s.valueOf out).mapError CalculationError.evaluating = _
      rw [OperatorTable.valueOf_congr (same out ordered)]
      rfl

/-- **Only the operators that an expression names can influence it.**  Tables that agree on
them put the expression into the same order and give it the same value, or the same
failure.  So an operator under a symbol that no expression names changes nothing. -/
theorem calculate_named_operators :
    (∀ (s t : OperatorTable) (expression : String), AgreeOn s t expression →
      s.postfixForm expression = t.postfixForm expression ∧
        s.calculate expression = t.calculate expression) ∧
    ∀ (table : OperatorTable) (op : Operator), Unnamed op.symbol → ∀ expression,
      (table.insert op).postfixForm expression = table.postfixForm expression ∧
        (table.insert op).calculate expression = table.calculate expression := by
  have agreed : ∀ (s t : OperatorTable) (expression : String), AgreeOn s t expression →
      s.postfixForm expression = t.postfixForm expression ∧
        s.calculate expression = t.calculate expression :=
    fun _ _ _ agree => ⟨(postfixForm_congr agree).1, calculate_congr agree⟩
  exact ⟨agreed, fun table op unnamed expression =>
    agreed _ _ expression (agreeOn_insert table unnamed expression)⟩

/-- A new operator `?` and one under the digit `2` leave `2 - -3!` the failure that it always
had. -/
theorem calculate_named_operators_factorial :
    let reversal : Operator := ⟨"?", "reversal", 9, .before Arithmetic.negate⟩
    let two : Operator := ⟨"2", "two", 9, .after Arithmetic.negate⟩
    AgreeOn (.insert .standard reversal) .standard "2 - -3!" ∧ Unnamed two.symbol ∧
      OperatorTable.calculate (.insert .standard reversal) "2 - -3!" =
        .error (.evaluating (.factorialDomain (-3))) ∧
      OperatorTable.calculate (.insert .standard two) "2 - -3!" =
        .error (.evaluating (.factorialDomain (-3))) := by
  intro reversal two
  have agree : AgreeOn (.insert .standard reversal) .standard "2 - -3!" := by
    constructor
    · intro c member _ _
      rw [OperatorTable.find?_insert, if_neg]
      intro same
      obtain rfl : c = '?' := String.singleton_inj.mp same
      exact absurd member (by decide)
    · intro _ meaning
      rw [OperatorTable.find?_insert, if_neg]
      cases meaning <;> decide
  have unnamed : Unnamed two.symbol := by
    refine ⟨by decide, fun c same => .inl ?_⟩
    obtain rfl : c = '2' := String.singleton_inj.mp same.symm
    rfl
  have failed : OperatorTable.standard.calculate "2 - -3!" =
      .error (.evaluating (.factorialDomain (-3))) := by
    decide +kernel
  have unchanged := calculate_named_operators.2 .standard two unnamed "2 - -3!"
  exact ⟨agree, unnamed, (calculate_named_operators.1 _ _ _ agree).2.trans failed,
    unchanged.2.trans failed⟩

end InfixCalculator
