import InfixCalculator.Expression
import InfixCalculator.Operator.Standard
import InfixCalculator.Proofs.WaitingStack

/-!
# Grouped trees keep their grouping

A tree that is grouped as its precedences demand is read in infix order and
written in postfix order without any parentheses but its own.  The tests that
decide this look at two neighbouring operators only; that they suffice for trees
of any shape rests on two facts about an operator and an edge of a tree:

* along the **right edge** precedences do not decrease, so an operator that waits
  for the root waits for everything on the edge (`waitsFor_of_mem_waiting`);
* along the **left edge** they do not decrease either, so an operator in front of
  the tree that the root does not wait for is safe from the whole edge
  (`FitsRightOf.of_left`).

When all tokens of a tree have been read, the operators of its right edge are
what waits on the stack, and nothing below them has moved (`run_inorder`).  The
statement is made for any stack, which is what carries it through nested groups.
-/

namespace InfixCalculator

namespace OperatorTable

/-- Tokens with their operators looked up, as the shunting yard reads them. -/
def resolveAll (table : OperatorTable) (tokens : List Token) :
    List (Except SyntaxError (ShuntingYard.Item Token)) :=
  tokens.map fun token => table.resolve token token

@[simp] theorem resolveAll_nil (table : OperatorTable) : table.resolveAll [] = [] := rfl

theorem resolveAll_append (table : OperatorTable) (tokens more : List Token) :
    table.resolveAll (tokens ++ more) = table.resolveAll tokens ++ table.resolveAll more :=
  List.map_append

theorem resolveAll_opening (table : OperatorTable) (tokens : List Token) :
    table.resolveAll (.opening :: tokens) = .ok .opening :: table.resolveAll tokens := rfl

theorem resolveAll_operator {table : OperatorTable} {op : Operator}
    (found : table.find? op.symbol = some op) (tokens : List Token) :
    table.resolveAll (.operator op.symbol :: tokens) =
      .ok (.operator op (.operator op.symbol)) :: table.resolveAll tokens := by
  simp [resolveAll, resolve, found]

/-- A scan without failure is ordered by its tokens alone. -/
theorem postfixOrder_map_ok (table : OperatorTable) (tokens : List Token) :
    table.postfixOrder (tokens.map .ok) = ShuntingYard.arrange (table.resolveAll tokens) := by
  rw [postfixOrder, resolveAll, List.map_map]
  rfl

end OperatorTable

namespace Expression

open ShuntingYard

/-- The operator token of a tree, as it waits on the stack. -/
def entry (op : Operator) : Entry Token := .operator op (.operator op.symbol)

/-- The operators on the right edge of a tree, the innermost first: they wait
when the last token of the tree has been read. -/
def waiting : Expression → Stack Token
  | number _ | group _ => []
  | unary op operand => if op.placement = .before then operand.waiting ++ [entry op] else [entry op]
  | binary op _ right => right.waiting ++ [entry op]

/-- What is written when the last token of a tree has been read. -/
def written : Expression → List Token
  | number value => [.number value]
  | group inner => inner.postorder
  | unary op operand => if op.placement = .before then operand.written else operand.postorder
  | binary _ left right => left.postorder ++ right.written

/-- The operators on the right edge are all that is missing. -/
theorem written_append_labels (e : Expression) : e.written ++ labels e.waiting = e.postorder := by
  induction e with
  | number value => rfl
  | group inner ih => simp [written, waiting, postorder]
  | unary op operand ih =>
      by_cases before : op.placement = .before
      · simp [written, waiting, postorder, entry, before, ← ih]
      · simp [written, waiting, postorder, entry, before]
  | binary op left right _ ih => simp [written, waiting, postorder, entry, ← ih]

@[simp] theorem openGroups_waiting (e : Expression) : openGroups e.waiting = 0 := by
  induction e with
  | number value => rfl
  | group inner => rfl
  | unary op operand ih =>
      by_cases before : op.placement = .before
      · simp [waiting, entry, before, ih]
      · simp [waiting, entry, before]
  | binary op left right _ ih => simp [waiting, entry, ih]

/-! ## The two edges -/

/-- An operator that waits for another one waits for those on the right of it. -/
theorem waitsFor_of_fitsRightOf {op root later : Operator} (h : op.waitsFor root = true)
    (fits : later.waitsFor root = false) : op.waitsFor later = true := by
  rw [← Bool.not_eq_true, Operator.waitsFor_iff] at fits
  rw [Operator.waitsFor_iff] at h ⊢
  rcases h with h | ⟨h, left⟩
  · exact .inl (by omega)
  · by_cases same : op.precedence = later.precedence
    · exact .inr ⟨same, left⟩
    · exact .inl (by omega)

/-- **An operator that waits for the root waits for the whole right edge.** -/
theorem waitsFor_of_mem_waiting {op : Operator} {e : Expression} (grouped : e.Grouped)
    (fits : FitsLeftOf op e) :
    ∀ x ∈ e.waiting, ∃ top label, x = .operator top label ∧ op.waitsFor top = true := by
  have here : ∀ root, op.waitsFor root = true →
      ∃ top label, entry root = .operator top label ∧ op.waitsFor top = true :=
    fun root h => ⟨root, _, rfl, h⟩
  induction e with
  | number value => simp [waiting]
  | group inner => simp [waiting]
  | unary root operand ih =>
      have waits : op.waitsFor root = true := fits root rfl
      by_cases before : root.placement = .before
      · obtain ⟨groupedOperand, fitsRight⟩ := (grouped_before before operand).mp grouped
        have inner := ih groupedOperand fun later h =>
          waitsFor_of_fitsRightOf waits (fitsRight later h)
        intro x hx
        rw [waiting, if_pos before, List.mem_append, List.mem_singleton] at hx
        rcases hx with hx | rfl
        · exact inner x hx
        · exact here root waits
      · intro x hx
        rw [waiting, if_neg before, List.mem_singleton] at hx
        exact hx ▸ here root waits
  | binary root left right _ ih =>
      have waits : op.waitsFor root = true := fits root rfl
      obtain ⟨-, groupedRight, -, fitsRight⟩ := grouped
      -- Only the right operand has part in the edge; the left one has been written.
      have inner := ih groupedRight fun later h =>
        waitsFor_of_fitsRightOf waits (fitsRight later h)
      intro x hx
      rw [waiting, List.mem_append, List.mem_singleton] at hx
      rcases hx with hx | rfl
      · exact inner x hx
      · exact here root waits

/-- **What the root of a tree does not wait for, its left edge does not wait for
either.** -/
theorem FitsRightOf.of_left {op root : Operator} {left : Expression}
    (h : root.waitsFor op = false) (fits : FitsLeftOf root left) : FitsRightOf op left := by
  intro earlier hroot
  have waits := fits earlier hroot
  rw [← Bool.not_eq_true, Operator.waitsFor_iff] at h ⊢
  rw [Operator.waitsFor_iff] at waits
  rintro (lower | ⟨same, -⟩)
  · rcases waits with waits | ⟨waits, -⟩
    · exact h (.inl (by omega))
    · exact h (.inl (by omega))
  · rcases waits with waits | ⟨waits, isLeft⟩
    · exact h (.inl (by omega))
    · exact h (.inr ⟨by omega, isLeft⟩)

/-! ## Reading a tree -/

/-- An operator that waits for a tree on its left takes the whole right edge off
the stack, and nothing more if it need not wait for what is below. -/
theorem step_entry {op : Operator} {e : Expression} {stack : Stack Token} (grouped : e.Grouped)
    (fits : FitsLeftOf op e) (keeps : ∀ top ∈ topOperator? stack, op.waitsFor top = false) :
    step (e.waiting ++ stack) (.operator op (.operator op.symbol)) =
      .ok (labels e.waiting, entry op :: stack) := by
  have settled := settle_append (waitsFor_of_mem_waiting grouped fits) stack
  rw [step, settled, settle_eq_self keeps, List.append_nil]
  rfl

/-- **Reading a grouped tree** writes all of it but its right edge, which waits
above the stack as it was.  The root may not wait for the top of that stack. -/
theorem run_inorder {table : OperatorTable} {e : Expression} (uses : e.UsesTable table)
    (grouped : e.Grouped) (stack : Stack Token)
    (fits : ∀ top ∈ topOperator? stack, FitsRightOf top e) :
    run stack (table.resolveAll e.inorder) = .ok (e.written, e.waiting ++ stack) := by
  induction e generalizing stack with
  | number value => rfl
  | group inner ih =>
      -- The parenthesis hides the stack, so the group is read as if on its own.
      have opened : step stack (.opening : Item Token) = .ok ([], .opening :: stack) := rfl
      have inside := ih uses grouped (.opening :: stack) fun top h => nomatch h
      have closed : step (inner.waiting ++ .opening :: stack) .closing =
          .ok (labels inner.waiting, stack) := closeGroup_append (openGroups_waiting inner) stack
      have read := run_append_ok inside (run_cons_ok closed (run_nil stack))
      rw [List.append_nil, written_append_labels] at read
      rw [inorder, List.cons_append, OperatorTable.resolveAll_opening, table.resolveAll_append]
      exact run_cons_ok opened read
  | unary op operand ih =>
      obtain ⟨found, -, usesOperand⟩ := uses
      have keeps := fun top h => fits top h op rfl
      by_cases before : op.placement = .before
      · -- The operator goes onto the stack before its operand, which then finds it on top.
        obtain ⟨groupedOperand, fitsRight⟩ := (grouped_before before operand).mp grouped
        have pushed : step stack (.operator op (.operator op.symbol)) =
            .ok ([], entry op :: stack) := by
          rw [step, settle_eq_self keeps]
          rfl
        have inside := ih usesOperand groupedOperand (entry op :: stack) fun top h =>
          Option.some.inj h ▸ fitsRight
        rw [inorder_before before, OperatorTable.resolveAll_operator found,
          run_cons_ok pushed inside]
        simp [written, waiting, before]
      · -- The operand finds the stack as it was, so what the operator need not wait for must
        -- be safe from the operand too.
        obtain ⟨groupedOperand, fitsLeft⟩ := (grouped_after before operand).mp grouped
        have inside := ih usesOperand groupedOperand stack fun top h =>
          FitsRightOf.of_left (keeps top h) fitsLeft
        have pushed := step_entry groupedOperand fitsLeft keeps
        have read := run_append_ok inside (run_cons_ok pushed (run_nil _))
        rw [List.append_nil, written_append_labels] at read
        rw [inorder_after before, table.resolveAll_append, OperatorTable.resolveAll_operator found]
        simpa [written, waiting, before] using read
  | binary op left right ihLeft ihRight =>
      obtain ⟨found, -, usesLeft, usesRight⟩ := uses
      obtain ⟨groupedLeft, groupedRight, fitsLeft, fitsRight⟩ := grouped
      have keeps := fun top h => fits top h op rfl
      -- The operator takes the right edge of the left operand and stays for the right one.
      have first := ihLeft usesLeft groupedLeft stack fun top h =>
        FitsRightOf.of_left (keeps top h) fitsLeft
      have pushed := step_entry groupedLeft fitsLeft keeps
      have second := ihRight usesRight groupedRight (entry op :: stack) fun top h =>
        Option.some.inj h ▸ fitsRight
      rw [inorder, table.resolveAll_append, OperatorTable.resolveAll_operator found,
        run_append_ok first (run_cons_ok pushed second), ← List.append_assoc,
        written_append_labels]
      simp [written, waiting]

/-- At the end the right edge is written too. -/
theorem arrange_inorder {table : OperatorTable} {e : Expression} (uses : e.UsesTable table)
    (grouped : e.Grouped) : arrange (table.resolveAll e.inorder) = .ok e.postorder := by
  have ran := run_inorder uses grouped [] fun top h => nomatch h
  rw [arrange, ran]
  simp only [List.append_nil, bind, Except.bind, drain_eq, openGroups_waiting, if_pos, pure,
    Except.pure, written_append_labels]

/-- **A grouped tree keeps its grouping**: its tokens as it is written are put
into the order in which it is evaluated. -/
theorem postfixOrder_inorder (table : OperatorTable) (e : Expression)
    (uses : e.UsesTable table) (grouped : e.Grouped) :
    table.postfixOrder (e.inorder.map .ok) = .ok e.postorder := by
  rw [OperatorTable.postfixOrder_map_ok]
  exact arrange_inorder uses grouped

/-- In `(2-3)^~4!` the group hides the subtraction, and the factorial takes the
negation with its operand from under the power. -/
theorem postfixOrder_inorder_mixed :
    ∃ e : Expression, e.UsesTable .standard ∧ e.Grouped ∧
      e.inorder = [.opening, .number 2, .operator "b-", .number 3, .closing, .operator "^",
        .operator "~", .number 4, .operator "!"] ∧
      OperatorTable.standard.postfixOrder (e.inorder.map .ok) =
        .ok [.number 2, .number 3, .operator "b-", .number 4, .operator "~", .operator "!",
          .operator "^"] := by
  let e := binary .power (group (binary .subtraction (number 2) (number 3)))
    (unary .factorial (unary .negation (number 4)))
  have uses : e.UsesTable .standard :=
    ⟨rfl, rfl, ⟨rfl, rfl, trivial, trivial⟩, rfl, rfl, rfl, rfl, trivial⟩
  have grouped : e.Grouped := by decide
  exact ⟨e, uses, grouped, rfl, postfixOrder_inorder .standard e uses grouped⟩

end Expression

end InfixCalculator
