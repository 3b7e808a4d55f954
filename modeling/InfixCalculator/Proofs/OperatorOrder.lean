import InfixCalculator.Calculator
import InfixCalculator.Expression.Grammar
import InfixCalculator.Proofs.GroupedTrees
import InfixCalculator.Proofs.Positions
import InfixCalculator.Proofs.StandardTable

/-!
# Which of two neighbouring operators is written first

What waits on the stack is written from its top, and nothing that is read later
changes that order (`labels_sublist_run`).  When an operator is read right behind
another one, the other is on top of the stack, so all is decided at that moment: if
the later operator waits for the first, the first is written there and then, and
otherwise it stays below the later one (`sublist_of_neighbours`).

Nothing in this asks where the operators stand.  An operator before its operand can
have to wait for the operator between two values in front of it, and takes it off the
stack although the right operand is still to come; the precedences alone decide
whether it does (`written_before_iff`).
-/

namespace InfixCalculator

namespace ShuntingYard

universe u

variable {α : Type u}

/-! ## The order on the stack -/

/-- What waits is written in its order, from the top of the stack. -/
theorem labels_sublist_step {stack rest : Stack α} {item : Item α} {written : List α}
    (stepped : step stack item = .ok (written, rest)) :
    (labels stack).Sublist (written ++ labels rest) := by
  cases item with
  | operand label =>
      obtain ⟨rfl, rfl⟩ := Prod.mk.inj (Except.ok.inj stepped)
      exact List.sublist_cons_self label (labels stack)
  | operator op label =>
      obtain ⟨rfl, rfl⟩ := Prod.mk.inj (Except.ok.inj stepped)
      rw [← settle_labels op stack, labels_operator]
      exact (List.sublist_cons_self label _).append_left _
  | opening =>
      obtain ⟨rfl, rfl⟩ := Prod.mk.inj (Except.ok.inj stepped)
      exact .refl _
  | closing =>
      obtain ⟨above, rfl, -, rfl⟩ := exists_group_of_step_closing stepped
      rw [labels_append, labels_opening]

/-- **Nothing that is read changes the order in which the others wait.** -/
theorem labels_sublist_run {stack rest : Stack α} {items : List (Except SyntaxError (Item α))}
    {written : List α} (ran : run stack items = .ok (written, rest)) :
    (labels stack).Sublist (written ++ labels rest) := by
  induction items generalizing stack written with
  | nil =>
      obtain ⟨rfl, rfl⟩ := Prod.mk.inj (Except.ok.inj ran)
      exact .refl _
  | cons item items ih =>
      obtain ⟨read, first, middle, later, rfl, stepped, ranRest, rfl⟩ := run_cons_eq_ok ran
      calc (labels stack).Sublist (first ++ labels middle) := labels_sublist_step stepped
        _ |>.Sublist (first ++ (later ++ labels rest)) := (ih ranRest).append_left first
        _ |>.Sublist (first ++ later ++ labels rest) := by rw [List.append_assoc]

/-- An operator that is read goes on top of what has not settled. -/
theorem run_operator_eq_ok {stack rest : Stack α} {op : Operator} {label : α}
    {items : List (Except SyntaxError (Item α))} {written : List α}
    (ran : run stack (.ok (.operator op label) :: items) = .ok (written, rest)) :
    ∃ later, run (.operator op label :: (settle op stack).2) items = .ok (later, rest) ∧
      written = (settle op stack).1 ++ later := by
  obtain ⟨read, first, middle, later, same, stepped, ranRest, rfl⟩ := run_cons_eq_ok ran
  obtain rfl := Except.ok.inj same
  obtain ⟨rfl, rfl⟩ := Prod.mk.inj (Except.ok.inj stepped)
  exact ⟨later, ranRest, rfl⟩

/-- **Of two neighbouring operators** the first is written first exactly if the later
one waits for it. -/
theorem sublist_of_neighbours {before after : List (Except SyntaxError (Item α))}
    {first later : Operator} {a b : α} {out : List α}
    (arranged : arrange (before ++ .ok (.operator first a) :: .ok (.operator later b) :: after) =
      .ok out) :
    if later.waitsFor first then [a, b].Sublist out else [b, a].Sublist out := by
  obtain ⟨written, stack, ran, -, rfl⟩ := arrange_eq_ok_iff.mp arranged
  obtain ⟨front, below, middle, -, ranFirst, rfl⟩ := run_append_eq_ok ran
  obtain ⟨_, ranLater, rfl⟩ := run_operator_eq_ok ranFirst
  obtain ⟨back, ranAfter, rfl⟩ := run_operator_eq_ok ranLater
  have kept := labels_sublist_run ranAfter
  rw [settle_operator] at kept ⊢
  split
  next waits =>
    -- The first operator has been written when the later one goes on the stack.
    rw [if_pos waits, labels_operator] at kept
    have last : [b].Sublist (back ++ labels stack) :=
      (List.singleton_sublist.mpr List.mem_cons_self).trans kept
    have both : [a, b].Sublist (a :: ((settle later (settle first below).2).1 ++
        (back ++ labels stack))) :=
      (last.trans (List.sublist_append_right ..)).cons_cons a
    simpa [waits] using both.trans (List.sublist_append_right (front ++ (settle first below).1) _)
  next keeps =>
    -- The first operator waits right below the later one.
    rw [if_neg keeps, labels_operator, labels_operator] at kept
    have both : [b, a].Sublist (b :: a :: labels (settle first below).2) :=
      ((List.nil_sublist _).cons_cons a).cons_cons b
    simpa [keeps] using (both.trans kept).trans
      (List.sublist_append_right (front ++ (settle first below).1) _)

end ShuntingYard

/-! ## Sentences -/

open ShuntingYard

variable {table : OperatorTable}

/-- A phrase is read on any stack and leaves the groups open that were open. -/
theorem exists_run_of_derives {phrase : Phrase} {tokens : List Token}
    (derives : Derives table phrase tokens) (stack : Stack Token) :
    ∃ written rest, run stack (table.resolveAll tokens) = .ok (written, rest) ∧
      openGroups rest = openGroups stack := by
  induction derives generalizing stack with
  | number value => exact ⟨_, stack, rfl, rfl⟩
  | group _ ih =>
      obtain ⟨written, rest, ran, depth⟩ := ih (.opening :: stack)
      rw [openGroups_opening] at depth
      obtain ⟨above, below, rfl, plain, outer⟩ := exists_innermost_group depth
      have opened : step stack (.opening : Item Token) = .ok ([], .opening :: stack) := rfl
      have closed : step (above ++ .opening :: below) .closing = .ok (labels above, below) :=
        closeGroup_append plain below
      rw [List.cons_append, OperatorTable.resolveAll_opening, table.resolveAll_append]
      exact ⟨_, below, run_cons_ok opened (run_append_ok ran (run_cons_ok closed (run_nil below))),
        outer⟩
  | before stands _ ih =>
      obtain ⟨op, found, -⟩ := stands
      obtain rfl := OperatorTable.symbol_eq_of_find? found
      obtain ⟨written, rest, ran, depth⟩ := ih (.operator op _ :: (settle op stack).2)
      rw [openGroups_operator, openGroups_settle] at depth
      rw [OperatorTable.resolveAll_operator found]
      exact ⟨_, rest, run_cons_ok rfl ran, depth⟩
  | after stands _ ih =>
      obtain ⟨op, found, -⟩ := stands
      obtain rfl := OperatorTable.symbol_eq_of_find? found
      obtain ⟨written, rest, ran, depth⟩ := ih stack
      rw [table.resolveAll_append, OperatorTable.resolveAll_operator found]
      refine ⟨_, _, run_append_ok ran (run_cons_ok rfl (run_nil _)), ?_⟩
      rw [openGroups_operator, openGroups_settle, depth]
  | single _ ih => exact ih stack
  | between stands _ _ ihLeft ihRight =>
      obtain ⟨op, found, -⟩ := stands
      obtain rfl := OperatorTable.symbol_eq_of_find? found
      obtain ⟨first, middle, ranLeft, depthLeft⟩ := ihLeft stack
      obtain ⟨later, rest, ranRight, depthRight⟩ :=
        ihRight (.operator op _ :: (settle op middle).2)
      rw [openGroups_operator, openGroups_settle, depthLeft] at depthRight
      rw [table.resolveAll_append, OperatorTable.resolveAll_operator found]
      exact ⟨_, rest, run_append_ok ranLeft (run_cons_ok rfl ranRight), depthRight⟩

/-- **A sentence is always ordered**, whatever the precedences. -/
theorem exists_postfixOrder_of_derives {tokens : List Token}
    (derives : Derives table .expression tokens) :
    ∃ out, table.postfixOrder (tokens.map .ok) = .ok out := by
  obtain ⟨written, rest, ran, depth⟩ := exists_run_of_derives derives []
  rw [OperatorTable.postfixOrder_map_ok]
  exact ⟨_, arrange_eq_ok_iff.mpr ⟨written, rest, ran, depth, rfl⟩⟩

/-! ## Positions of neighbouring tokens -/

/-- In a list without repetition two positions come in one order only. -/
theorem not_sublist_swap {a b : Nat} {positions : List Nat} (nodup : positions.Nodup)
    (ordered : [a, b].Sublist positions) : ¬ [b, a].Sublist positions := by
  have places : positions.Pairwise fun x y => positions.idxOf x < positions.idxOf y := by
    refine List.pairwise_iff_getElem.mpr fun i j hi hj earlier => ?_
    rwa [nodup.idxOf_getElem, nodup.idxOf_getElem]
  intro swapped
  have first := List.pairwise_pair.mp (places.sublist ordered)
  have second := List.pairwise_pair.mp (places.sublist swapped)
  exact absurd first (Nat.lt_asymm second)

theorem exists_eq_append_cons_cons {α : Type} {l : List α} {i : Nat} {x y : α}
    (here : l[i]? = some x) (next : l[i + 1]? = some y) :
    ∃ before after, l = before ++ x :: y :: after := by
  obtain ⟨hi, rfl⟩ := List.getElem?_eq_some_iff.mp here
  obtain ⟨hj, rfl⟩ := List.getElem?_eq_some_iff.mp next
  refine ⟨l.take i, l.drop (i + 2), ?_⟩
  rw [← List.drop_eq_getElem_cons hj, ← List.drop_eq_getElem_cons hi, List.take_append_drop]

/-- An operator before its operand waits for those of higher precedence only. -/
theorem Operator.waitsFor_iff_of_before {op earlier : Operator} (before : op.placement = .before) :
    op.waitsFor earlier = true ↔ op.precedence < earlier.precedence := by
  obtain ⟨symbol, name, precedence, operation⟩ := op
  cases operation with
  | before compute => simp [waitsFor, associativity, Operation.associativity]
  | between associativity compute | after compute => cases before

/-- The positions of two neighbouring operators. -/
theorem positions_of_neighbours {tokens : List Token} {positions : List Nat}
    (ordered : table.postfixPositions (tokens.map .ok) = .ok positions) {position : Nat}
    {first later : Operator} (here : tokens[position]? = some (.operator first.symbol))
    (foundFirst : table.find? first.symbol = some first)
    (next : tokens[position + 1]? = some (.operator later.symbol))
    (foundLater : table.find? later.symbol = some later) :
    if later.waitsFor first then [position, position + 1].Sublist positions
    else [position + 1, position].Sublist positions := by
  have split : ∃ before after,
      ((tokens.map .ok).zipIdx.map fun entry => entry.1 >>= table.resolve entry.2) =
        before ++ .ok (.operator first position) :: .ok (.operator later (position + 1)) ::
          after := by
    apply exists_eq_append_cons_cons (i := position)
    · simp [List.getElem?_zipIdx, here, OperatorTable.resolve, foundFirst, bind, Except.bind]
    · simp [List.getElem?_zipIdx, next, OperatorTable.resolve, foundLater, bind, Except.bind]
  obtain ⟨before, after, split⟩ := split
  rw [OperatorTable.postfixPositions_eq_arrange, split] at ordered
  exact sublist_of_neighbours ordered

/-- **An operator before its operand is written before the operator in front of it
exactly if its precedence is not lower.**  Every sentence that is scanned is put into
postfix order, and the positions of the tokens that are written tell one occurrence
of an operator from another. -/
theorem written_before_iff (table : OperatorTable) (expression : String) (tokens : List Token)
    (scanned : table.items (withoutBlanks expression) = tokens.map .ok)
    (sentence : Derives table .expression tokens) :
    ∃ out positions, table.postfixForm expression = .ok out ∧
      table.postfixPositions (tokens.map .ok) = .ok positions ∧
      positions.map (tokens[·]?) = out.map some ∧ positions.Nodup ∧
      ∀ position first later, table.find? first.symbol = some first →
        table.find? later.symbol = some later → later.placement = .before →
        tokens[position]? = some (.operator first.symbol) →
        tokens[position + 1]? = some (.operator later.symbol) →
        ([position + 1, position].Sublist positions ↔ first.precedence ≤ later.precedence) := by
  obtain ⟨out, ordered⟩ := exists_postfixOrder_of_derives sentence
  obtain ⟨positions, orderedPositions, named⟩ :=
    OperatorTable.exists_positions_of_postfixOrder ordered
  have nodup := OperatorTable.nodup_postfixPositions orderedPositions
  have form : table.postfixForm expression = .ok out := by
    rw [OperatorTable.postfixForm, scanned, ordered]
  refine ⟨out, positions, form, orderedPositions, named, nodup, ?_⟩
  intro position first later foundFirst foundLater before here next
  have neighbours := positions_of_neighbours orderedPositions here foundFirst next foundLater
  have waits : later.waitsFor first = true ↔ later.precedence < first.precedence :=
    Operator.waitsFor_iff_of_before before
  rw [← Nat.not_lt, ← waits]
  split at neighbours
  next waiting => simp [waiting, not_sublist_swap nodup neighbours]
  next keeps => simp [keeps, neighbours]

/-- In `2*-3` the sign has the higher precedence and is written first. -/
theorem written_before_iff_sign :
    ∃ tokens, OperatorTable.standard.items (withoutBlanks "2*-3") = tokens.map .ok ∧
      Derives .standard .expression tokens ∧
      ∃ positions, OperatorTable.standard.postfixPositions (tokens.map .ok) = .ok positions ∧
        [2, 1].Sublist positions := by
  have scanned : OperatorTable.standard.items (withoutBlanks "2*-3") =
      [.number 2, .operator "*", .operator "s-", .number 3].map .ok := by decide +kernel
  have sentence : Derives .standard .expression
      ([.number 2] ++ .operator "*" :: [.operator "s-", .number 3]) :=
    .between ⟨_, rfl, rfl⟩ (.single (.number 2)) (.before ⟨_, rfl, rfl⟩ (.number 3))
  obtain ⟨_, positions, -, ordered, -, -, neighbours⟩ :=
    written_before_iff _ _ _ scanned sentence
  have signFirst :=
    (neighbours 1 .multiplication .signMinus rfl rfl rfl rfl rfl).mpr (by decide)
  exact ⟨_, scanned, sentence, positions, ordered, signFirst⟩

/-- An operator `?` before its operand that has a low precedence takes the product in
`2*?3` away from its right operand: the product is written when only one of its
operands has been. -/
theorem written_behind_lower_precedence :
    ∃ (table : OperatorTable) (tokens : List Token), table.MinusPlaced ∧
      table.items (withoutBlanks "2*?3") = tokens.map .ok ∧ Derives table .expression tokens ∧
      tokens = [.number 2, .operator "*", .operator "?", .number 3] ∧
      table.Stands .between "*" ∧ table.Stands .before "?" ∧
      table.postfixForm "2*?3" = .ok [.number 2, .operator "*", .number 3, .operator "?"] ∧
      table.postfixPositions (tokens.map .ok) = .ok [0, 1, 3, 2] ∧
      ¬ [2, 1].Sublist [0, 1, 3, 2] ∧
      table.calculate "2*?3" = .error (.evaluating (.tooFewOperands "*" 2 1)) := by
  let table := OperatorTable.standard.insert ⟨"?", "reversal", 1, .before Arithmetic.negate⟩
  have placed : table.MinusPlaced := by
    intro minus
    cases minus with
    | subtraction | leading | sign => exact ⟨_, rfl, rfl⟩
  have sentence : Derives table .expression
      ([.number 2] ++ .operator "*" :: [.operator "?", .number 3]) :=
    .between ⟨_, rfl, rfl⟩ (.single (.number 2)) (.before ⟨_, rfl, rfl⟩ (.number 3))
  exact ⟨table, _, placed, by decide +kernel, sentence, rfl, ⟨_, rfl, rfl⟩, ⟨_, rfl, rfl⟩,
    by decide +kernel, by decide +kernel, by decide, by decide +kernel⟩

end InfixCalculator
