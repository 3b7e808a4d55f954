import InfixCalculator.Operator.Standard
import InfixCalculator.Proofs.Scanning
import Mathlib.Tactic.ByContra

/-!
# Which texts are scanned

The scanner carries a context from one piece to the next and looks one character
ahead.  What it accepts can be said of the pieces of a text without either: a piece
ends a value or not, it waits for an operand or not, and both can be seen from the
piece and the one in front of it (`Lexeme.EndsValue`, `Lexeme.IsPending`).  A text is
scanned without failure exactly if its pieces stand to their neighbours as
`Lexeme.Admissible` says, and then each piece is one token
(`OperatorTable.items_iff_admissible`).

The link is that the context is a function of the pieces read so far
(`Lexeme.contextOf`), and not of how they were read.  So whether one piece becomes a
token is a condition on the piece between those before and behind it (`Lexeme.Fits`,
`Lexeme.exists_readLexeme_of_fits`, `Lexeme.fits_of_readLexeme`), and a text is
scanned if all its pieces fit.
-/

namespace InfixCalculator

namespace Lexeme

/-! ## Cutting a text -/

/-- **The pieces of a text**: from the left a run of digits and points that starts
with a digit and goes on as long as it can, or any other character. -/
inductive Cuts : List Char → List Lexeme → Prop where
  /-- Nothing is left. -/
  | nil : Cuts [] []
  /-- A run of digits and points. -/
  | numeral {first : Char} {digits rest : List Char} {lexemes : List Lexeme}
      (digit : first.isDigit = true) (run : digits.all continuesNumeral = true)
      (stops : ∀ c ∈ rest.head?, continuesNumeral c = false) (later : Cuts rest lexemes) :
      Cuts (first :: digits ++ rest) (numeral (first :: digits) :: lexemes)
  /-- A character by itself. -/
  | other {c : Char} {rest : List Char} {lexemes : List Lexeme} (noDigit : c.isDigit = false)
      (later : Cuts rest lexemes) : Cuts (c :: rest) (ofChar c :: lexemes)

theorem cuts_cut : (text : List Char) → Cuts text (cut text)
  | [] => .nil
  | c :: rest => by
      cases digit : c.isDigit with
      | false =>
          rw [cut_other digit]
          exact .other digit (cuts_cut rest)
      | true =>
          have stops : ∀ x ∈ (rest.dropWhile continuesNumeral).head?,
              continuesNumeral x = false := by
            intro x first
            have ends := List.head?_dropWhile_not continuesNumeral rest
            rw [Option.mem_def.mp first] at ends
            simpa using ends
          have run : (rest.takeWhile continuesNumeral).all continuesNumeral = true :=
            List.all_takeWhile
          have cuts := Cuts.numeral digit run stops (cuts_cut (rest.dropWhile continuesNumeral))
          rw [List.cons_append, List.takeWhile_append_dropWhile] at cuts
          rw [cut_digit digit]
          exact cuts
termination_by text => text.length
decreasing_by
  · simp
  · simp only [List.length_cons]
    exact Nat.lt_succ_of_le (List.dropWhile_sublist continuesNumeral).length_le

theorem Cuts.eq_cut {text : List Char} {lexemes : List Lexeme} (cuts : Cuts text lexemes) :
    lexemes = cut text := by
  induction cuts with
  | nil => rfl
  | numeral digit run stops _ ih => rw [cut_numeral digit run stops, ih]
  | other noDigit _ ih => rw [cut_other noDigit, ih]

/-- A text is cut in one way. -/
theorem cuts_iff {text : List Char} {lexemes : List Lexeme} :
    Cuts text lexemes ↔ lexemes = cut text :=
  ⟨Cuts.eq_cut, fun same => same ▸ cuts_cut text⟩

theorem Cuts.exists_of_cons {text : List Char} {lexeme : Lexeme} {lexemes : List Lexeme}
    (cuts : Cuts text (lexeme :: lexemes)) : ∃ rest, Cuts rest lexemes := by
  cases cuts with
  | numeral _ _ _ later => exact ⟨_, later⟩
  | other _ later => exact ⟨_, later⟩

/-- No character is left where no piece is. -/
theorem Cuts.firstChar_eq_none_iff {text : List Char} {lexemes : List Lexeme}
    (cuts : Cuts text lexemes) : firstChar lexemes = none ↔ lexemes = [] := by
  cases cuts with
  | nil => simp [firstChar]
  | numeral => simp [firstChar, chars]
  | other => simp [firstChar]

theorem ofChar_eq_minus_iff {c : Char} : ofChar c = minus ↔ c = '-' := by
  constructor
  · intro same
    have written := congrArg chars same
    rw [chars_ofChar] at written
    exact (List.cons.inj written).1
  · rintro rfl
    rfl

/-- A written minus sign follows where the piece does that is one. -/
theorem Cuts.firstChar_eq_minus_iff {text : List Char} {lexemes : List Lexeme}
    (cuts : Cuts text lexemes) : firstChar lexemes = some '-' ↔ lexemes.head? = some minus := by
  cases cuts with
  | nil => simp [firstChar]
  | numeral digit =>
      suffices first : _ ≠ '-' by simpa [firstChar, chars] using first
      rintro rfl
      exact absurd digit (by decide)
  | other => simp [firstChar, ofChar_eq_minus_iff]

/-! ## Pieces and their neighbours -/

section

variable (table : OperatorTable)

/-- A piece that ends a value: a numeral, a closing parenthesis, or an operator that
stands after its operand. -/
def EndsValue : Lexeme → Prop
  | numeral _ | closing => True
  | symbol character => table.Stands .after (String.singleton character)
  | minus | opening => False

/-- The last of these pieces ends a value. -/
def BehindValue (before : List Lexeme) : Prop :=
  ∃ front lexeme, before = front ++ [lexeme] ∧ EndsValue table lexeme

/-- A piece that waits for an operand: an operator that stands before it, or a minus
sign with no value in front. -/
def IsPending (before : List Lexeme) : Lexeme → Prop
  | symbol character => table.Stands .before (String.singleton character)
  | minus => ¬ BehindValue table before
  | numeral _ | opening | closing => False

/-- The last of these pieces waits for an operand. -/
def BehindPending (before : List Lexeme) : Prop :=
  ∃ front lexeme, before = front ++ [lexeme] ∧ IsPending table front lexeme

/-- **The token of a piece** between those before and those after it.  What a minus
sign stands for is settled by its neighbours. -/
inductive Reads (before after : List Lexeme) : Lexeme → Token → Prop where
  /-- A number. -/
  | numeral {literal : List Char} {decimal : Decimal}
      (read : Decimal.ofText? literal = some decimal) :
      Reads before after (numeral literal) (.number decimal.toFloat)
  /-- An opening parenthesis. -/
  | opening : Reads before after opening .opening
  /-- A closing parenthesis. -/
  | closing : Reads before after closing .closing
  /-- An operator of the table. -/
  | symbol (character : Char) :
      Reads before after (symbol character) (.operator (String.singleton character))
  /-- Behind a value a minus sign is the subtraction. -/
  | subtraction (value : BehindValue table before) :
      Reads before after minus (.operator Minus.subtraction.symbol)
  /-- The first piece is the minus of a whole expression, unless another follows. -/
  | leading (first : before = []) (single : after.head? ≠ some minus) :
      Reads before after minus (.operator Minus.leading.symbol)
  /-- Elsewhere a minus sign is that of the next value. -/
  | sign (noValue : ¬ BehindValue table before)
      (inside : before ≠ [] ∨ after.head? = some minus) :
      Reads before after minus (.operator Minus.sign.symbol)

/-- **The texts that are scanned**, by their pieces. -/
structure Admissible (lexemes : List Lexeme) : Prop where
  /-- A numeral has at most one point. -/
  points : ∀ literal, numeral literal ∈ lexemes → literal.count '.' ≤ 1
  /-- Any other character but a minus sign and a parenthesis is an operator. -/
  known : ∀ character, symbol character ∈ lexemes →
    ∃ op, table.find? (String.singleton character) = some op
  /-- What waits for an operand is not followed by an operator. -/
  idle : ∀ before lexeme character after op,
    lexemes = before ++ lexeme :: symbol character :: after →
    table.find? (String.singleton character) = some op → ¬ IsPending table before lexeme
  /-- An operator between two operands or after one stands behind a value. -/
  value : ∀ before character after op, lexemes = before ++ symbol character :: after →
    table.find? (String.singleton character) = some op →
    op.placement = .between ∨ op.placement = .after → BehindValue table before
  /-- An operator before its operand does not. -/
  noValue : ∀ before character after op, lexemes = before ++ symbol character :: after →
    table.find? (String.singleton character) = some op →
    op.placement = .before → ¬ BehindValue table before
  /-- A minus sign at the end stands behind a value. -/
  ends : ∀ before, lexemes = before ++ [minus] → BehindValue table before

/-- What the scanner asks of a piece between those before and those after it. -/
def Fits (before after : List Lexeme) : Lexeme → Prop
  | numeral literal => literal.count '.' ≤ 1
  | opening | closing => True
  | minus => BehindValue table before ∨ after ≠ []
  | symbol character =>
      ∃ op, table.find? (String.singleton character) = some op ∧ ¬ BehindPending table before ∧
        (op.placement = .before ↔ ¬ BehindValue table before)

/-- Every piece fits, with the pieces `before` in front of the first. -/
def AllFit (before lexemes : List Lexeme) : Prop :=
  ∀ inner lexeme after, lexemes = inner ++ lexeme :: after →
    lexeme.Fits table (before ++ inner) after

end

variable {table : OperatorTable}

@[simp] theorem not_behindValue_nil : ¬ BehindValue table [] := by
  rintro ⟨front, lexeme, same, -⟩
  simp at same

@[simp] theorem behindValue_concat {before : List Lexeme} {lexeme : Lexeme} :
    BehindValue table (before ++ [lexeme]) ↔ lexeme.EndsValue table := by
  constructor
  · rintro ⟨front, last, same, ends⟩
    obtain ⟨-, rfl⟩ := List.append_singleton_inj.mp same
    exact ends
  · intro ends
    exact ⟨before, lexeme, rfl, ends⟩

@[simp] theorem not_behindPending_nil : ¬ BehindPending table [] := by
  rintro ⟨front, lexeme, same, -⟩
  simp at same

@[simp] theorem behindPending_concat {before : List Lexeme} {lexeme : Lexeme} :
    BehindPending table (before ++ [lexeme]) ↔ lexeme.IsPending table before := by
  constructor
  · rintro ⟨front, last, same, pending⟩
    obtain ⟨rfl, rfl⟩ := List.append_singleton_inj.mp same
    exact pending
  · intro pending
    exact ⟨before, lexeme, rfl, pending⟩

/-- **Text is admissible if each of its pieces fits** between its neighbours. -/
theorem admissible_iff_allFit {lexemes : List Lexeme} :
    Admissible table lexemes ↔ AllFit table [] lexemes := by
  constructor
  · intro admissible inner lexeme after split
    have here : lexeme ∈ lexemes := by simp [split]
    rw [List.nil_append]
    cases lexeme with
    | numeral literal => exact admissible.points literal here
    | opening => trivial
    | closing => trivial
    | minus =>
        by_cases last : after = []
        · subst last
          exact .inl (admissible.ends inner split)
        · exact .inr last
    | symbol character =>
        obtain ⟨op, found⟩ := admissible.known character here
        refine ⟨op, found, ?_, fun before => admissible.noValue inner character after op split
          found before, fun noValue => ?_⟩
        · rintro ⟨front, previous, rfl, pending⟩
          exact admissible.idle front previous character after op (by simp [split]) found pending
        · cases placement : op.placement with
          | before => rfl
          | between => exact absurd (admissible.value inner character after op split found
              (.inl placement)) noValue
          | after => exact absurd (admissible.value inner character after op split found
              (.inr placement)) noValue
  · intro fits
    have symbols : ∀ before character after op, lexemes = before ++ symbol character :: after →
        table.find? (String.singleton character) = some op → ¬ BehindPending table before ∧
          (op.placement = .before ↔ ¬ BehindValue table before) := by
      intro before character after op split found
      obtain ⟨same, foundSame, fit⟩ := fits before (symbol character) after split
      obtain rfl := Option.some.inj (found.symm.trans foundSame)
      exact fit
    constructor
    · intro literal here
      obtain ⟨before, after, split⟩ := List.append_of_mem here
      exact fits before (numeral literal) after split
    · intro character here
      obtain ⟨before, after, split⟩ := List.append_of_mem here
      obtain ⟨op, found, -⟩ := fits before (symbol character) after split
      exact ⟨op, found⟩
    · intro before lexeme character after op split found pending
      have idle := (symbols (before ++ [lexeme]) character after op (by simp [split]) found).1
      exact idle (behindPending_concat.mpr pending)
    · intro before character after op split found placement
      by_contra noValue
      have placed := (symbols before character after op split found).2.mpr noValue
      simp [placed] at placement
    · intro before character after op split found placement
      exact (symbols before character after op split found).2.mp placement
    · intro before split
      exact (fits before minus [] split).resolve_right (fun more => more rfl)

/-! ## The context of the pieces read so far -/

/-- The context that a piece leaves. -/
def leaves (table : OperatorTable) (previous : Context) : Lexeme → Context
  | numeral _ => .number
  | opening => .opening
  | closing => .closing
  | minus => if previous.endsValue then .operator else .pending
  | symbol character =>
      ((table.find? (String.singleton character)).map (·.placement.context)).getD .operator

/-- The context after these pieces. -/
def contextOf (table : OperatorTable) (lexemes : List Lexeme) : Context :=
  lexemes.foldl (leaves table) .start

@[simp] theorem contextOf_nil : contextOf table [] = .start := rfl

@[simp] theorem contextOf_concat (before : List Lexeme) (lexeme : Lexeme) :
    contextOf table (before ++ [lexeme]) = leaves table (contextOf table before) lexeme := by
  simp [contextOf]

theorem endsValue_leaves {previous : Context} {lexeme : Lexeme} :
    (leaves table previous lexeme).endsValue = true ↔ lexeme.EndsValue table := by
  cases lexeme with
  | numeral | opening | closing => simp [leaves, EndsValue, Context.endsValue]
  | minus =>
      rw [leaves]
      split <;> simp [EndsValue, Context.endsValue]
  | symbol character =>
      cases found : table.find? (String.singleton character) with
      | none => simp [leaves, EndsValue, Context.endsValue, OperatorTable.Stands, found]
      | some op =>
          cases placement : op.placement <;>
            simp [leaves, EndsValue, Context.endsValue, OperatorTable.Stands, found, placement,
              Placement.context]

/-- The context ends a value if the last piece does. -/
theorem endsValue_contextOf {before : List Lexeme} :
    (contextOf table before).endsValue = true ↔ BehindValue table before := by
  rcases List.eq_nil_or_concat before with rfl | ⟨front, lexeme, rfl⟩
  · simp [Context.endsValue]
  · simp [endsValue_leaves]

/-- The context is that of a pending operator if the last piece waits for an operand. -/
theorem contextOf_eq_pending_iff {before : List Lexeme} :
    contextOf table before = .pending ↔ BehindPending table before := by
  rcases List.eq_nil_or_concat before with rfl | ⟨front, lexeme, rfl⟩
  · simp
  · simp only [List.concat_eq_append, contextOf_concat, behindPending_concat]
    cases lexeme with
    | numeral | opening | closing => simp [leaves, IsPending]
    | minus => simp [leaves, IsPending, endsValue_contextOf]
    | symbol character =>
        cases found : table.find? (String.singleton character) with
        | none => simp [leaves, IsPending, OperatorTable.Stands, found]
        | some op =>
            cases placement : op.placement <;>
              simp [leaves, IsPending, OperatorTable.Stands, found, placement, Placement.context]

/-- Only nothing leaves the context of the start. -/
theorem contextOf_eq_start_iff {before : List Lexeme} :
    contextOf table before = .start ↔ before = [] := by
  rcases List.eq_nil_or_concat before with rfl | ⟨front, lexeme, rfl⟩
  · simp
  · simp only [List.concat_eq_append, contextOf_concat, List.append_eq_nil_iff, List.cons_ne_nil,
      and_false, iff_false]
    cases lexeme with
    | numeral | opening | closing => simp [leaves]
    | minus => by_cases value : (contextOf table front).endsValue <;> simp [leaves, value]
    | symbol character =>
        cases found : table.find? (String.singleton character) with
        | none => simp [leaves, found]
        | some op =>
            cases placement : op.placement <;>
              simp [leaves, found, placement, Placement.context]

/-! ## One piece -/

theorem allowedAfter_iff {placement : Placement} {context : Context} :
    placement.allowedAfter context = true ↔
      (placement = .before ↔ ¬ context.endsValue = true) := by
  cases placement <;> simp [Placement.allowedAfter]

/-- A minus sign means what its neighbours make of it. -/
theorem exists_resolve?_of_fits {before after : List Lexeme} {text : List Char}
    (cuts : Cuts text after) (fits : minus.Fits table before after) :
    ∃ meaning, Minus.resolve? (contextOf table before) (firstChar after) = some meaning ∧
      meaning.context = leaves table (contextOf table before) minus ∧
      minus.Reads table before after (.operator meaning.symbol) := by
  by_cases value : BehindValue table before
  · have ends := endsValue_contextOf.mpr value
    exact ⟨.subtraction, by simp [Minus.resolve?, ends], by simp [leaves, ends, Minus.context],
      .subtraction value⟩
  · have noEnd : ¬ (contextOf table before).endsValue = true := mt endsValue_contextOf.mp value
    obtain ⟨next, character⟩ := Option.ne_none_iff_exists'.mp
      (mt cuts.firstChar_eq_none_iff.mp (fits.resolve_left value))
    have another := cuts.firstChar_eq_minus_iff
    rw [character, Option.some.injEq] at another
    by_cases first : before = [] ∧ next ≠ '-'
    · refine ⟨.leading, ?_, by simp [leaves, noEnd, Minus.context],
        .leading first.1 (mt another.mpr first.2)⟩
      simp [Minus.resolve?, character, first, Context.endsValue]
    · refine ⟨.sign, ?_, by simp [leaves, noEnd, Minus.context], .sign value ?_⟩
      · have here : ¬ (contextOf table before = .start ∧ next ≠ '-') := by
          rwa [contextOf_eq_start_iff]
        simp [Minus.resolve?, noEnd, character, here]
      · rw [← another]
        exact (not_and_or.mp first).imp_right not_ne_iff.mp

/-- **A piece that fits becomes a token**, and leaves its context. -/
theorem exists_readLexeme_of_fits {before after : List Lexeme} {lexeme : Lexeme}
    {text : List Char} (index : Nat) (cuts : Cuts text after)
    (fits : lexeme.Fits table before after) :
    ∃ token, readLexeme table (contextOf table before) index (firstChar after) lexeme =
        .ok (token, contextOf table (before ++ [lexeme])) ∧
      lexeme.Reads table before after token := by
  rw [contextOf_concat]
  cases lexeme with
  | numeral literal =>
      cases read : Decimal.ofText? literal with
      | none =>
          have points := Decimal.ofText?_eq_none_iff.mp read
          exact absurd fits (Nat.not_le_of_lt points)
      | some decimal => exact ⟨_, by simp [readLexeme, read, leaves], .numeral read⟩
  | opening => exact ⟨_, rfl, .opening⟩
  | closing => exact ⟨_, rfl, .closing⟩
  | minus =>
      obtain ⟨meaning, resolved, left, reads⟩ := exists_resolve?_of_fits cuts fits
      exact ⟨_, by simp [readLexeme, resolved, left], reads⟩
  | symbol character =>
      obtain ⟨op, found, idle, placed⟩ := fits
      have allowed : op.placement.allowedAfter (contextOf table before) = true := by
        rwa [allowedAfter_iff, endsValue_contextOf]
      refine ⟨_, ?_, .symbol character⟩
      simp [readLexeme, readSymbol, found, contextOf_eq_pending_iff, idle, allowed, leaves,
        OperatorTable.symbol_eq_of_find? found]

/-- A piece that becomes a token fits. -/
theorem fits_of_readLexeme {before after : List Lexeme} {lexeme : Lexeme} {text : List Char}
    {index : Nat} {result : Token × Context} (cuts : Cuts text after)
    (read : readLexeme table (contextOf table before) index (firstChar after) lexeme =
      .ok result) :
    lexeme.Fits table before after := by
  cases lexeme with
  | numeral literal =>
      by_contra points
      have unread := Decimal.ofText?_eq_none_iff.mpr (Nat.lt_of_not_le points)
      simp [readLexeme, unread] at read
  | opening => trivial
  | closing => trivial
  | minus =>
      by_contra unfit
      obtain ⟨noValue, last⟩ := not_or.mp unfit
      rw [← endsValue_contextOf] at noValue
      rw [not_ne_iff, ← cuts.firstChar_eq_none_iff] at last
      simp [readLexeme, Minus.resolve?, noValue, last] at read
  | symbol character =>
      obtain ⟨op, found, idle, allowed, -, -⟩ := readSymbol_eq_ok read
      rw [ne_eq, contextOf_eq_pending_iff] at idle
      rw [allowedAfter_iff, endsValue_contextOf] at allowed
      exact ⟨op, found, idle, allowed⟩

/-! ## All pieces -/

/-- Every piece is the token in its place, with the pieces `before` in front of the
first. -/
def AllRead (table : OperatorTable) (before lexemes : List Lexeme) (tokens : List Token) : Prop :=
  tokens.length = lexemes.length ∧
    ∀ inner lexeme after, lexemes = inner ++ lexeme :: after →
      ∃ token, tokens[inner.length]? = some token ∧
        lexeme.Reads table (before ++ inner) after token

theorem allFit_nil {before : List Lexeme} : AllFit table before [] := by
  intro inner lexeme after split
  simp at split

theorem allRead_nil {before : List Lexeme} : AllRead table before [] [] := by
  refine ⟨rfl, ?_⟩
  intro inner lexeme after split
  simp at split

theorem allFit_cons {before after : List Lexeme} {lexeme : Lexeme} :
    AllFit table before (lexeme :: after) ↔
      lexeme.Fits table before after ∧ AllFit table (before ++ [lexeme]) after := by
  constructor
  · intro fit
    refine ⟨by simpa using fit [] lexeme after rfl, ?_⟩
    intro inner next rest split
    simpa using fit (lexeme :: inner) next rest (by rw [split]; rfl)
  · rintro ⟨fits, fit⟩ inner next rest split
    rcases List.cons_eq_append_iff.mp split with ⟨rfl, here⟩ | ⟨inner, rfl, later⟩
    · obtain ⟨rfl, rfl⟩ := List.cons.inj here
      simpa using fits
    · simpa using fit inner next rest later

theorem AllRead.cons {before after : List Lexeme} {lexeme : Lexeme} {token : Token}
    {tokens : List Token} (reads : lexeme.Reads table before after token)
    (all : AllRead table (before ++ [lexeme]) after tokens) :
    AllRead table before (lexeme :: after) (token :: tokens) := by
  refine ⟨by simp [all.1], ?_⟩
  intro inner next rest split
  rcases List.cons_eq_append_iff.mp split with ⟨rfl, here⟩ | ⟨inner, rfl, later⟩
  · obtain ⟨rfl, rfl⟩ := List.cons.inj here
    exact ⟨token, rfl, by simpa using reads⟩
  · simpa using all.2 inner next rest later

/-- **Pieces that all fit are scanned**, one token for each. -/
theorem exists_itemsFrom_of_allFit {before lexemes : List Lexeme} {text : List Char}
    (index : Nat) (cuts : Cuts text lexemes) (fit : AllFit table before lexemes) :
    ∃ tokens, Scanner.itemsFrom table index (contextOf table before) lexemes = tokens.map .ok ∧
      AllRead table before lexemes tokens := by
  induction lexemes generalizing before index text with
  | nil => exact ⟨[], rfl, allRead_nil⟩
  | cons lexeme after ih =>
      obtain ⟨fits, fitLater⟩ := allFit_cons.mp fit
      obtain ⟨rest, later⟩ := cuts.exists_of_cons
      obtain ⟨token, read, reads⟩ := exists_readLexeme_of_fits index later fits
      obtain ⟨tokens, scanned, all⟩ := ih (index + lexeme.length) later fitLater
      refine ⟨token :: tokens, ?_, all.cons reads⟩
      rw [Scanner.itemsFrom_cons_ok read, scanned, List.map_cons]

/-- Pieces that are scanned without failure all fit. -/
theorem allFit_of_itemsFrom {before lexemes : List Lexeme} {text : List Char} {index : Nat}
    {tokens : List Token} (cuts : Cuts text lexemes)
    (scanned : Scanner.itemsFrom table index (contextOf table before) lexemes =
      tokens.map .ok) :
    AllFit table before lexemes := by
  induction lexemes generalizing before index text tokens with
  | nil => exact allFit_nil
  | cons lexeme after ih =>
      obtain ⟨rest, later⟩ := cuts.exists_of_cons
      obtain ⟨token, context, more, read, -, scannedLater⟩ :=
        Scanner.itemsFrom_cons_eq_map_ok scanned
      have fits := fits_of_readLexeme later read
      -- A piece that fits leaves the context of the pieces up to it, so the scan goes on there.
      obtain ⟨same, readSame, -⟩ := exists_readLexeme_of_fits index later fits
      obtain ⟨-, rfl⟩ := Prod.mk.inj (Except.ok.inj (read.symm.trans readSame))
      exact allFit_cons.mpr ⟨fits, ih later scannedLater⟩

end Lexeme

/-- Items without a failure are tokens. -/
theorem exists_eq_map_ok_iff {items : List (Except SyntaxError Token)} :
    (∃ tokens : List Token, items = tokens.map .ok) ↔ ∀ error, .error error ∉ items := by
  induction items with
  | nil => exact ⟨fun _ error => List.not_mem_nil, fun _ => ⟨[], rfl⟩⟩
  | cons item items ih =>
      constructor
      · rintro ⟨tokens, same⟩ error failed
        rw [same] at failed
        simp at failed
      · intro clean
        obtain ⟨tokens, rfl⟩ := ih.mpr fun error failed => clean error (.tail _ failed)
        cases item with
        | error error => exact absurd List.mem_cons_self (clean error)
        | ok token => exact ⟨token :: tokens, rfl⟩

/-- **What the scanner accepts, and what it makes of it.**  A text is cut into its
pieces in one way.  Its scan has no failure exactly if the pieces are admissible, and
then there is one token for each piece, in their order, which the neighbours of the
piece settle. -/
theorem OperatorTable.items_iff_admissible (table : OperatorTable) (text : String) :
    ∃ lexemes, (∀ other, Lexeme.Cuts text.toList other ↔ other = lexemes) ∧
      ((∀ error, .error error ∉ table.items text) ↔ Lexeme.Admissible table lexemes) ∧
      (Lexeme.Admissible table lexemes →
        ∃ tokens : List Token, table.items text = tokens.map .ok ∧
          tokens.length = lexemes.length ∧
          ∀ before lexeme after, lexemes = before ++ lexeme :: after →
            ∃ token, tokens[before.length]? = some token ∧
              lexeme.Reads table before after token) := by
  have cuts := Lexeme.cuts_cut text.toList
  have scanned : Lexeme.Admissible table (Lexeme.cut text.toList) →
      ∃ tokens : List Token, table.items text = tokens.map .ok ∧
        Lexeme.AllRead table [] (Lexeme.cut text.toList) tokens := fun admissible =>
    Lexeme.exists_itemsFrom_of_allFit 0 cuts (Lexeme.admissible_iff_allFit.mp admissible)
  refine ⟨Lexeme.cut text.toList, fun _ => Lexeme.cuts_iff, ⟨?_, ?_⟩, scanned⟩
  · intro clean
    obtain ⟨tokens, same⟩ := exists_eq_map_ok_iff.mpr clean
    exact Lexeme.admissible_iff_allFit.mpr (Lexeme.allFit_of_itemsFrom cuts same)
  · intro admissible
    obtain ⟨tokens, same, -⟩ := scanned admissible
    exact exists_eq_map_ok_iff.mp ⟨tokens, same⟩

/-- A minus sign that starts a text is not that of the whole text if another follows,
and behind a closing parenthesis it is the subtraction. -/
example : OperatorTable.standard.items "--()-(" = [.operator "s-", .operator "s-", .opening,
    .closing, .operator "b-", .opening].map .ok := rfl

end InfixCalculator
