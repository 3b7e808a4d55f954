import InfixCalculator.Proofs.StandardTable
import Mathlib.Data.Finset.Card

/-!
# A table and its history

A table is filled by inserting operators one after the other, and each replaces the one that
was inserted under its symbol before.  So what a table answers is settled by the last
operators of its history (`LastUnder`), and its listing is settled by the operators alone,
since no two of them have the same place in the listing order.

What is found under a symbol is the last operator of the history
(`find?_insertAll_empty_iff`), and all other answers are read off what is found
(`answersFor_of_find?`).  What is found also determines a table, so histories with the same
last operators have one table, in whatever order they insert.
-/

namespace InfixCalculator

/-- **The last operator of a history under a symbol**: none behind it has this symbol. -/
def LastUnder (history : List Operator) (symbol : String) (op : Operator) : Prop :=
  op.symbol = symbol ∧ ∃ before behind, history = before ++ op :: behind ∧
    ∀ later ∈ behind, later.symbol ≠ symbol

/-- **The parts of an operator agree**: where it stands, how many operands it has, what its
function takes, and how it is grouped if it has one operand. -/
inductive Operator.Agrees (op : Operator) : Prop where
  /-- An operator between its two operands, with a function of two numbers. -/
  | between (function : Float → Float → Except EvalError Float)
      (placement : op.placement = .between) (operands : op.operandCount = 2)
      (computes : ∀ left right more,
        op.operation.compute? (left :: right :: more) = some (function left right))
  /-- An operator before its operand, with a function of one number. -/
  | before (function : Float → Except EvalError Float)
      (placement : op.placement = .before) (operands : op.operandCount = 1)
      (associativity : op.associativity = .right)
      (computes : ∀ operand more, op.operation.compute? (operand :: more) = some (function operand))
  /-- An operator after its operand, with a function of one number. -/
  | after (function : Float → Except EvalError Float)
      (placement : op.placement = .after) (operands : op.operandCount = 1)
      (associativity : op.associativity = .left)
      (computes : ∀ operand more, op.operation.compute? (operand :: more) = some (function operand))

theorem Operator.agrees (op : Operator) : op.Agrees := by
  obtain ⟨symbol, name, precedence, operation⟩ := op
  cases operation with
  | between associativity compute => exact .between compute rfl rfl fun _ _ _ => rfl
  | before compute => exact .before compute rfl rfl rfl fun _ _ => rfl
  | after compute => exact .after compute rfl rfl rfl fun _ _ => rfl

variable {history : List Operator} {symbol : String} {op : Operator}

/-- The last operator is the first from behind. -/
theorem find?_reverse_eq_some_iff :
    history.reverse.find? (·.symbol = symbol) = some op ↔ LastUnder history symbol op := by
  rw [List.find?_eq_some_iff_append, decide_eq_true_iff]
  constructor
  · rintro ⟨same, behind, before, split, others⟩
    refine ⟨same, before.reverse, behind.reverse, ?_, fun later member => ?_⟩
    · rw [← List.reverse_reverse history, split]
      simp
    · simpa using others later (List.mem_reverse.mp member)
  · rintro ⟨same, before, behind, rfl, others⟩
    refine ⟨same, behind.reverse, before.reverse, by simp, fun later member => ?_⟩
    simpa using others later (List.mem_reverse.mp member)

/-- A symbol that the history has at all has a last operator. -/
theorem exists_lastUnder_iff : (∃ op, LastUnder history symbol op) ↔
    ∃ op ∈ history, op.symbol = symbol := by
  simp only [← find?_reverse_eq_some_iff, ← Option.isSome_iff_exists, List.find?_isSome,
    List.mem_reverse, decide_eq_true_iff]

namespace OperatorTable

theorem get_eq_ok_iff {table : OperatorTable} :
    table.get symbol = .ok op ↔ table.find? symbol = some op := by
  rw [get]
  cases table.find? symbol <;> simp

theorem get_eq_error_iff {table : OperatorTable} {error : UnknownOperator} :
    table.get symbol = .error error ↔ error = ⟨symbol⟩ ∧ table.find? symbol = none := by
  rw [get]
  cases table.find? symbol <;> simp [@eq_comm _ error]

/-- **A table answers for a history**: each of its answers is that of the last operators. -/
structure AnswersFor (table : OperatorTable) (history : List Operator) : Prop where
  /-- Under a symbol its last operator is found. -/
  found : ∀ symbol op, table.get symbol = .ok op ↔ LastUnder history symbol op
  /-- A symbol is unknown if it has no operator, and no other is. -/
  unknown : ∀ symbol error, table.get symbol = .error error ↔
    error = ⟨symbol⟩ ∧ ∀ op ∈ history, op.symbol ≠ symbol
  /-- The symbols that are contained are those of the history. -/
  contained : ∀ symbol, table.contains symbol = true ↔ ∃ op ∈ history, op.symbol = symbol
  /-- So are the symbols that are named. -/
  named : ∀ symbol, symbol ∈ table.symbols ↔ ∃ op ∈ history, op.symbol = symbol
  /-- They are named once each, in alphabetical order. -/
  namedInOrder : table.symbols.Pairwise (· < ·)
  /-- The size is the number of different symbols. -/
  size_eq : table.size = (history.map Operator.symbol).toFinset.card
  /-- The operators that are listed are the last ones. -/
  listed : ∀ op, op ∈ table.operators ↔ LastUnder history op.symbol op
  /-- They are listed once each. -/
  listedOnce : table.operators.Nodup
  /-- They are listed by precedence, and those of one precedence by symbol. -/
  listedInOrder : table.operators.Pairwise fun a b =>
    a.precedence < b.precedence ∨ a.precedence = b.precedence ∧ a.symbol < b.symbol

section

variable {table : OperatorTable}

/-- The symbols of a table are those under which an operator is found. -/
theorem mem_map_symbol_iff :
    symbol ∈ table.operators.map Operator.symbol ↔ ∃ op, table.find? symbol = some op := by
  simp only [List.mem_map, find?_eq_some_iff]

theorem nodup_map_symbol (table : OperatorTable) : (table.operators.map Operator.symbol).Nodup :=
  List.pairwise_map.mpr table.distinct

theorem mem_symbols_iff : symbol ∈ table.symbols ↔ ∃ op, table.find? symbol = some op := by
  rw [symbols, List.mem_mergeSort, mem_map_symbol_iff]

/-- **The symbols of a table are named in alphabetical order**, none of them twice. -/
theorem pairwise_symbols (table : OperatorTable) : table.symbols.Pairwise (· < ·) := by
  have ordered : table.symbols.Pairwise (· ≤ ·) := by
    have sorted : table.symbols.Pairwise fun a b => decide (a ≤ b) = true :=
      List.pairwise_mergeSort (by simpa using fun _ _ _ => String.le_trans)
        (by simpa using String.le_total) (table.operators.map Operator.symbol)
    exact sorted.imp of_decide_eq_true
  have once : table.symbols.Nodup :=
    (List.mergeSort_perm _ _).nodup_iff.mpr table.nodup_map_symbol
  exact ordered.imp₂ (fun _ _ => Std.lt_of_le_of_ne) once

/-- **What is found under each symbol settles all other answers.** -/
theorem answersFor_of_find?
    (last : ∀ symbol op, table.find? symbol = some op ↔ LastUnder history symbol op) :
    table.AnswersFor history := by
  have some : ∀ symbol, (∃ op, table.find? symbol = some op) ↔
      ∃ op ∈ history, op.symbol = symbol := by
    intro symbol
    simp only [last, exists_lastUnder_iff]
  have none : ∀ symbol, table.find? symbol = none ↔ ∀ op ∈ history, op.symbol ≠ symbol := by
    intro symbol
    rw [← Option.not_isSome_iff_eq_none, Option.isSome_iff_exists, some]
    simp
  constructor
  · intro symbol op
    rw [get_eq_ok_iff, last]
  · intro symbol error
    rw [get_eq_error_iff, none]
  · intro symbol
    rw [contains, Option.isSome_iff_exists, some]
  · intro symbol
    rw [mem_symbols_iff, some]
  · exact table.pairwise_symbols
  · rw [size, ← List.length_map Operator.symbol,
      ← List.toFinset_card_of_nodup table.nodup_map_symbol]
    congr 1
    ext symbol
    rw [List.mem_toFinset, List.mem_toFinset, mem_map_symbol_iff, some, List.mem_map]
  · intro op
    rw [← last, find?_eq_some_iff, and_iff_left rfl]
  · exact table.ordered.imp fun before => fun same => Operator.ListedBefore.irrefl _ (same ▸ before)
  · exact table.ordered

end

/-- What is found in a table is the last operator of its history. -/
theorem find?_insertAll_empty_iff :
    (empty.insertAll history).find? symbol = some op ↔ LastUnder history symbol op := by
  rw [find?_insertAll, find?_empty, Option.or_none, find?_reverse_eq_some_iff]

/-- A table from which operators are inserted: the empty or the standard one. -/
inductive Start where
  /-- The table without operators. -/
  | empty
  /-- The table of the standard operators. -/
  | standard

namespace Start

/-- The table at the start. -/
def table : Start → OperatorTable
  | empty => .empty
  | standard => .standard

/-- The operators that were inserted before the start. -/
def operators : Start → List Operator
  | empty => []
  | standard => standardOperators

theorem insertAll_table (start : Start) (ops : List Operator) :
    start.table.insertAll ops = OperatorTable.empty.insertAll (start.operators ++ ops) := by
  cases start with
  | empty => rfl
  | standard => exact List.foldl_append.symm

end Start

/-- **A table remembers the last operator under each symbol and nothing else.**  After any
insertions it answers for its whole history, and the parts of every operator that it holds
agree.  A table of another history with the same last operators gives the same answers. -/
theorem insertAll_answers (start : Start) (ops : List Operator) :
    (start.table.insertAll ops).AnswersFor (start.operators ++ ops) ∧
    (∀ symbol op, (start.table.insertAll ops).get symbol = .ok op →
      op.symbol = symbol ∧ op.Agrees) ∧
    ∀ (other : Start) (more : List Operator),
      (∀ symbol op, LastUnder (start.operators ++ ops) symbol op ↔
        LastUnder (other.operators ++ more) symbol op) →
      (∀ symbol, (start.table.insertAll ops).get symbol =
        (other.table.insertAll more).get symbol) ∧
      (∀ symbol, (start.table.insertAll ops).contains symbol =
        (other.table.insertAll more).contains symbol) ∧
      (start.table.insertAll ops).symbols = (other.table.insertAll more).symbols ∧
      (start.table.insertAll ops).size = (other.table.insertAll more).size ∧
      (start.table.insertAll ops).operators = (other.table.insertAll more).operators := by
  rw [start.insertAll_table]
  refine ⟨answersFor_of_find? fun _ _ => find?_insertAll_empty_iff, fun symbol op got => ?_, ?_⟩
  · exact ⟨symbol_eq_of_find? (get_eq_ok_iff.mp got), op.agrees⟩
  · intro other more same
    have one : empty.insertAll (start.operators ++ ops) = other.table.insertAll more := by
      rw [other.insertAll_table]
      refine ext_find? fun symbol => Option.ext fun op => ?_
      rw [find?_insertAll_empty_iff, find?_insertAll_empty_iff, same]
    rw [one]
    exact ⟨fun _ => rfl, fun _ => rfl, rfl, rfl, rfl⟩

/-- An addition that is inserted again moves behind a reversal, and is found as if it had been
inserted once, before the reversal. -/
theorem insertAll_answers_replaced :
    let early : Operator := .addition
    let late : Operator := ⟨"+", "addition", 7, .between .right Arithmetic.add⟩
    let reversal : Operator := ⟨"?", "reversal", 3, .before Arithmetic.negate⟩
    (∀ symbol op, LastUnder (Start.empty.operators ++ [early, reversal, late]) symbol op ↔
      LastUnder (Start.empty.operators ++ [late, reversal]) symbol op) ∧
    (Start.empty.table.insertAll [early, reversal, late]).get "+" = .ok late ∧ late.Agrees ∧
    (Start.empty.table.insertAll [early, reversal, late]).operators = [reversal, late] ∧
    (Start.empty.table.insertAll [late, reversal]).operators = [reversal, late] := by
  intro early late reversal
  have same : ∀ symbol op, LastUnder (Start.empty.operators ++ [early, reversal, late]) symbol op ↔
      LastUnder (Start.empty.operators ++ [late, reversal]) symbol op := by
    intro symbol op
    rw [← find?_reverse_eq_some_iff, ← find?_reverse_eq_some_iff]
    by_cases plus : "+" = symbol
    · subst plus
      exact Iff.rfl
    · simp [Start.operators, early, Operator.addition, late, reversal, plus]
  obtain ⟨-, parts, others⟩ := insertAll_answers .empty [early, reversal, late]
  have got : (Start.empty.table.insertAll [early, reversal, late]).get "+" = .ok late := rfl
  obtain ⟨-, -, -, -, listed⟩ := others .empty [late, reversal] same
  have listing : (Start.empty.table.insertAll [early, reversal, late]).operators =
      [reversal, late] := rfl
  exact ⟨same, got, (parts "+" late got).2, listing, listed.symm.trans listing⟩

end OperatorTable

end InfixCalculator
