import InfixCalculator.Operator.Standard
import InfixCalculator.Proofs.StackHeight
import InfixCalculator.Proofs.TreeValues

/-!
# The tree that a postfix sequence encodes

A sequence in postfix order has no parentheses and needs none: the number of operands
of each operator is enough to rebuild the tree that it was written from.  Reading the
sequence with a stack of trees in place of values does so (`TreeStack.run`).

Two facts carry the module.  A stack of values goes through the same steps as the stack
of the trees whose values they are, and what these trees spell, from the bottom to the
top, is what has been read (`TreeStack.exists_run`); so a sequence with a value encodes
a tree that has it.  And the tokens of a tree put this very tree on the stack
(`TreeStack.run_postorder`), which makes it the only one.

A tree that has no value fails at one of its nodes, and this node is the first one on
the way that has no value (`Expression.FirstFailure`).
-/

namespace InfixCalculator

namespace Expression

/-- **A sequence encodes a tree**: a tree without groups, with the operators of the table
and as many operands at each as it has, whose tokens are the sequence. -/
structure EncodedBy (table : OperatorTable) (tokens : List Token) (e : Expression) : Prop where
  /-- There are no parentheses in it. -/
  groupFree : e.GroupFree
  /-- Its operators are those of the table. -/
  uses : e.UsesTable table
  /-- Its tokens are the sequence. -/
  postorder_eq : e.postorder = tokens

/-- The nodes of a tree in the order in which they are evaluated, each as the tree below
it. -/
def nodes : Expression → List Expression
  | number value => [number value]
  | group inner => inner.nodes
  | unary op operand => operand.nodes ++ [unary op operand]
  | binary op left right => left.nodes ++ right.nodes ++ [binary op left right]

/-- **An operator fails** for the values of its operands. -/
inductive OperatorFails : Expression → EvalError → Prop where
  /-- An operator with one operand. -/
  | unary {op : Operator} {operand : Expression} {value : Float} {error : EvalError}
      (valued : operand.eval = .ok value) (failed : op.evaluate [value] = .error error) :
      OperatorFails (unary op operand) error
  /-- An operator with two operands. -/
  | binary {op : Operator} {left right : Expression} {leftValue rightValue : Float}
      {error : EvalError} (valuedLeft : left.eval = .ok leftValue)
      (valuedRight : right.eval = .ok rightValue)
      (failed : op.evaluate [leftValue, rightValue] = .error error) :
      OperatorFails (binary op left right) error

/-- **The first failure of a tree** is that of a node whose operator fails, when all nodes
before it have a value. -/
def FirstFailure (e : Expression) (error : EvalError) : Prop :=
  ∃ before node after, e.nodes = before ++ node :: after ∧
    (∀ earlier ∈ before, ∃ value, earlier.eval = .ok value) ∧ node.OperatorFails error

/-- The nodes of a tree with a value have values. -/
theorem exists_eval_of_mem_nodes {e node : Expression} {value : Float}
    (valued : e.eval = .ok value) (member : node ∈ e.nodes) : ∃ result, node.eval = .ok result := by
  induction e generalizing value with
  | number x =>
      obtain rfl := List.mem_singleton.mp member
      exact ⟨_, valued⟩
  | group inner ih => exact ih valued member
  | unary op operand ih =>
      obtain ⟨x, valuedOperand, -⟩ := bind_eq_ok.mp valued
      rcases List.mem_append.mp member with inside | last
      · exact ih valuedOperand inside
      · obtain rfl := List.mem_singleton.mp last
        exact ⟨_, valued⟩
  | binary op left right ihLeft ihRight =>
      obtain ⟨x, valuedLeft, rest⟩ := bind_eq_ok.mp valued
      obtain ⟨y, valuedRight, -⟩ := bind_eq_ok.mp rest
      rcases List.mem_append.mp member with inside | last
      · rcases List.mem_append.mp inside with inLeft | inRight
        · exact ihLeft valuedLeft inLeft
        · exact ihRight valuedRight inRight
      · obtain rfl := List.mem_singleton.mp last
        exact ⟨_, valued⟩

/-- The first failure of an operand is that of the tree if the nodes before the operand
have values. -/
theorem FirstFailure.of_operand {e operand : Expression} {before after : List Expression}
    {error : EvalError} (first : operand.FirstFailure error)
    (split : e.nodes = before ++ operand.nodes ++ after)
    (valued : ∀ earlier ∈ before, ∃ value, earlier.eval = .ok value) : e.FirstFailure error := by
  obtain ⟨inner, node, later, splitOperand, valuedInner, failed⟩ := first
  refine ⟨before ++ inner, node, later ++ after, by simp [split, splitOperand], ?_, failed⟩
  intro earlier member
  rcases List.mem_append.mp member with outside | inside
  · exact valued earlier outside
  · exact valuedInner earlier inside

/-- **A tree fails with its first failure.** -/
theorem firstFailure_of_eval {e : Expression} {error : EvalError} (failed : e.eval = .error error) :
    e.FirstFailure error := by
  induction e with
  | number value => exact nomatch failed
  | group inner ih => exact ih failed
  | unary op operand ih =>
      rcases bind_eq_error.mp failed with failed | ⟨x, valued, failed⟩
      · have split : (unary op operand).nodes = [] ++ operand.nodes ++ [unary op operand] := rfl
        exact (ih failed).of_operand split nofun
      · exact ⟨operand.nodes, _, [], rfl, fun _ => exists_eval_of_mem_nodes valued,
          .unary valued failed⟩
  | binary op left right ihLeft ihRight =>
      rcases bind_eq_error.mp failed with failed | ⟨x, valuedLeft, failed⟩
      · have split : (binary op left right).nodes =
            [] ++ left.nodes ++ (right.nodes ++ [binary op left right]) := by simp [nodes]
        exact (ihLeft failed).of_operand split nofun
      rcases bind_eq_error.mp failed with failed | ⟨y, valuedRight, failed⟩
      · exact (ihRight failed).of_operand rfl fun _ => exists_eval_of_mem_nodes valuedLeft
      · refine ⟨left.nodes ++ right.nodes, _, [], rfl, fun earlier member => ?_,
          .binary valuedLeft valuedRight failed⟩
        rcases List.mem_append.mp member with inLeft | inRight
        · exact exists_eval_of_mem_nodes valuedLeft inLeft
        · exact exists_eval_of_mem_nodes valuedRight inRight

end Expression

/-! ## Rebuilding trees -/

/-- The trees on the stack, the newest first. -/
abbrev TreeStack := List Expression

namespace TreeStack

/-- An operator takes as many trees as it has operands and becomes their root. -/
def join (op : Operator) (trees : TreeStack) : Option TreeStack :=
  match op.operandCount, trees with
  | 1, operand :: below => some (.unary op operand :: below)
  | 2, right :: left :: below => some (.binary op left right :: below)
  | _, _ => none

theorem join_of_one {op : Operator} (count : op.operandCount = 1) (operand : Expression)
    (below : TreeStack) : join op (operand :: below) = some (.unary op operand :: below) := by
  simp [join, count]

theorem join_of_two {op : Operator} (count : op.operandCount = 2) (left right : Expression)
    (below : TreeStack) :
    join op (right :: left :: below) = some (.binary op left right :: below) := by
  simp [join, count]

/-- The trees after one token; there are none if a token has no place in postfix order
or an operator finds too few operands. -/
def step (table : OperatorTable) (trees : TreeStack) : Token → Option TreeStack
  | .number value => some (.number value :: trees)
  | .operator symbol => (table.find? symbol).bind (join · trees)
  | .opening | .closing => none

/-- The trees after a sequence of tokens. -/
def run (table : OperatorTable) (trees : TreeStack) (tokens : List Token) : Option TreeStack :=
  tokens.foldlM (step table) trees

/-- The tokens of the trees from the bottom of the stack to its top. -/
def spelling (trees : TreeStack) : List Token := trees.reverse.flatMap Expression.postorder

@[simp] theorem spelling_nil : spelling [] = [] := rfl

@[simp] theorem spelling_cons (e : Expression) (trees : TreeStack) :
    spelling (e :: trees) = spelling trees ++ e.postorder := by
  simp [spelling]

variable {table : OperatorTable} {trees : TreeStack}

theorem run_cons (token : Token) (tokens : List Token) :
    run table trees (token :: tokens) = (step table trees token).bind (run table · tokens) := rfl

theorem run_append (tokens more : List Token) :
    run table trees (tokens ++ more) = (run table trees tokens).bind (run table · more) := by
  simp [run]

theorem run_singleton (token : Token) : run table trees [token] = step table trees token := by
  rw [run_cons]
  cases step table trees token <;> rfl

theorem step_operator {op : Operator} (found : table.find? op.symbol = some op) :
    step table trees (.operator op.symbol) = join op trees := by
  simp [step, found]

/-- **The tokens of a tree put the tree on the stack.** -/
theorem run_postorder {e : Expression} (plain : e.GroupFree) (uses : e.UsesTable table)
    (trees : TreeStack) : run table trees e.postorder = some (e :: trees) := by
  induction e generalizing trees with
  | number value => rfl
  | group inner => exact plain.elim
  | unary op operand ih =>
      obtain ⟨found, count, usesOperand⟩ := uses
      rw [Expression.postorder, run_append, ih plain usesOperand, Option.bind_some, run_singleton,
        step_operator found, join_of_one count]
  | binary op left right ihLeft ihRight =>
      obtain ⟨found, count, usesLeft, usesRight⟩ := uses
      rw [Expression.postorder, run_append, run_append, ihLeft plain.1 usesLeft, Option.bind_some,
        ihRight plain.2 usesRight, Option.bind_some, run_singleton, step_operator found,
        join_of_two count]

/-! ## Trees and their values

Below each value on the stack of values lies the tree that it is the value of. -/

/-- A tree of the table and its value. -/
structure HasValue (table : OperatorTable) (e : Expression) (value : Float) : Prop where
  /-- There are no parentheses in the tree. -/
  groupFree : e.GroupFree
  /-- Its operators are those of the table. -/
  uses : e.UsesTable table
  /-- Its value. -/
  valued : e.eval = .ok value

variable {values next : ValueStack}

/-- An operator that is applied to the values of trees joins the trees. -/
theorem exists_join {op : Operator} {value : Float} (found : table.find? op.symbol = some op)
    (matched : List.Forall₂ (HasValue table) trees values)
    (evaluated : op.evaluate (values.take op.operandCount).reverse = .ok value) :
    ∃ joined, join op trees = some joined ∧
      List.Forall₂ (HasValue table) joined (value :: values.drop op.operandCount) ∧
      spelling joined = spelling trees ++ [.operator op.symbol] := by
  have enough := Operator.operandCount_le_length evaluated
  by_cases placement : op.placement = .between
  · have count := Operator.operandCount_eq_two placement
    rw [count] at enough evaluated ⊢
    cases matched with
    | nil => simp at enough
    | cons right matched =>
        cases matched with
        | nil => simp at enough
        | cons left below =>
            refine ⟨_, join_of_two count _ _ _, .cons ?_ below, by simp [Expression.postorder]⟩
            refine ⟨⟨left.groupFree, right.groupFree⟩, ⟨found, count, left.uses, right.uses⟩, ?_⟩
            rw [Expression.eval, left.valued, right.valued]
            exact evaluated
  · have count := Operator.operandCount_eq_one placement
    rw [count] at enough evaluated ⊢
    cases matched with
    | nil => simp at enough
    | cons operand below =>
        refine ⟨_, join_of_one count _ _, .cons ?_ below, by simp [Expression.postorder]⟩
        refine ⟨operand.groupFree, ⟨found, count, operand.uses⟩, ?_⟩
        rw [Expression.eval, operand.valued]
        exact evaluated

/-- **A step on values is a step on their trees**, and the trees go on to spell what has
been read. -/
theorem exists_step {token : Token} (matched : List.Forall₂ (HasValue table) trees values)
    (stepped : ValueStack.step table values token = .ok next) :
    ∃ after, step table trees token = some after ∧ List.Forall₂ (HasValue table) after next ∧
      spelling after = spelling trees ++ [token] := by
  rcases ValueStack.step_eq_ok stepped with
    ⟨value, rfl, rfl⟩ | ⟨op, value, rfl, found, evaluated, rfl⟩
  · exact ⟨_, rfl, .cons ⟨trivial, trivial, rfl⟩ matched, by simp [Expression.postorder]⟩
  · rw [step_operator found]
    exact exists_join found matched evaluated

/-- **A run on values is a run on their trees.** -/
theorem exists_run {tokens : List Token} (matched : List.Forall₂ (HasValue table) trees values)
    (ran : ValueStack.run table values tokens = .ok next) :
    ∃ after, run table trees tokens = some after ∧ List.Forall₂ (HasValue table) after next ∧
      spelling after = spelling trees ++ tokens := by
  induction tokens generalizing trees values with
  | nil =>
      obtain rfl := Except.ok.inj ran
      exact ⟨trees, rfl, matched, by simp⟩
  | cons token tokens ih =>
      obtain ⟨middle, stepped, ran⟩ := bind_eq_ok.mp ran
      obtain ⟨between, step, matchedBetween, spelled⟩ := exists_step matched stepped
      obtain ⟨after, later, matchedAfter, spelledAfter⟩ := ih matchedBetween ran
      exact ⟨after, by rw [run_cons, step, Option.bind_some, later], matchedAfter,
        by simp [spelledAfter, spelled]⟩

end TreeStack

/-- **A sequence encodes one tree at most.** -/
theorem Expression.EncodedBy.unique {table : OperatorTable} {tokens : List Token}
    {e other : Expression} (encoded : e.EncodedBy table tokens)
    (encodedOther : other.EncodedBy table tokens) : e = other := by
  have read := TreeStack.run_postorder encoded.groupFree encoded.uses []
  have readOther := TreeStack.run_postorder encodedOther.groupFree encodedOther.uses []
  rw [encoded.postorder_eq] at read
  rw [encodedOther.postorder_eq, read] at readOther
  exact (List.cons.inj (Option.some.inj readOther)).1

namespace OperatorTable

variable {table : OperatorTable} {tokens : List Token}

/-- What has a value encodes a tree that has it. -/
theorem exists_encodedBy_of_valueOf {value : Float} (valued : table.valueOf tokens = .ok value) :
    ∃ e : Expression, e.EncodedBy table tokens ∧ e.eval = .ok value := by
  obtain ⟨trees, -, matched, spelled⟩ := TreeStack.exists_run .nil (run_of_valueOf valued)
  match matched with
  | .cons tree .nil =>
      refine ⟨_, ⟨tree.groupFree, tree.uses, ?_⟩, tree.valued⟩
      simpa using spelled

theorem valueOf_of_encodedBy {e : Expression} (encoded : e.EncodedBy table tokens) :
    table.valueOf tokens = e.eval := by
  rw [← encoded.postorder_eq]
  exact Expression.valueOf_postorder_eq_eval encoded.uses

/-- **The value of a sequence is that of the tree that it encodes.**  It has a value
exactly if it encodes a tree that has one, and the tree is the only one.  If the tree
has none, the sequence fails with its first failure. -/
theorem valueOf_encoded_tree (table : OperatorTable) (tokens : List Token) :
    (∀ value, table.valueOf tokens = .ok value ↔
      ∃ e : Expression, e.EncodedBy table tokens ∧ e.eval = .ok value) ∧
    (∀ e other : Expression, e.EncodedBy table tokens → other.EncodedBy table tokens →
      e = other) ∧
    ∀ (e : Expression) (error : EvalError), e.EncodedBy table tokens → e.eval = .error error →
      table.valueOf tokens = .error error ∧ e.FirstFailure error := by
  refine ⟨fun value => ⟨exists_encodedBy_of_valueOf, ?_⟩,
    fun _ _ => Expression.EncodedBy.unique, ?_⟩
  · rintro ⟨e, encoded, valued⟩
    rw [valueOf_of_encodedBy encoded, valued]
  · intro e error encoded failed
    exact ⟨(valueOf_of_encodedBy encoded).trans failed, Expression.firstFailure_of_eval failed⟩

/-- In `5 2 2 - / 1 - ! +` both operands of the sum fail, and the quotient comes first. -/
theorem valueOf_encoded_tree_quotient :
    ∃ e : Expression,
      e.EncodedBy .standard [.number 5, .number 2, .number 2, .operator "b-", .operator "/",
        .number 1, .operator "s-", .operator "!", .operator "+"] ∧
      e.eval = .error .divisionByZero ∧
      OperatorTable.standard.valueOf [.number 5, .number 2, .number 2, .operator "b-",
        .operator "/", .number 1, .operator "s-", .operator "!", .operator "+"] =
          .error .divisionByZero ∧
      e.FirstFailure .divisionByZero := by
  let quotient := Expression.binary .division (.number 5)
    (.binary .subtraction (.number 2) (.number 2))
  let e := Expression.binary .addition quotient (.unary .factorial (.unary .signMinus (.number 1)))
  have uses : e.UsesTable .standard :=
    ⟨rfl, rfl, ⟨rfl, rfl, trivial, rfl, rfl, trivial, trivial⟩, rfl, rfl, rfl, rfl, trivial⟩
  have encoded : e.EncodedBy .standard e.postorder :=
    ⟨⟨⟨trivial, trivial, trivial⟩, trivial⟩, uses, rfl⟩
  have failed : e.eval = .error .divisionByZero := by decide +kernel
  exact ⟨e, encoded, failed, (valueOf_encoded_tree .standard _).2.2 e _ encoded failed⟩

end OperatorTable

end InfixCalculator
