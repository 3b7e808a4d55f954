import InfixCalculator.Operator.Table
import InfixCalculator.Token

/-!
# From infix to postfix order

Operands are written as they are read.  An operator waits on a stack until it
is known that nothing that follows is applied before it, and an opening
parenthesis on the stack keeps the operators below it apart from those inside
the group.

What is written for an operand or an operator is any label, so the same run
that orders tokens can order the positions at which they stood.

## Main definitions

* `ShuntingYard.Item` and `ShuntingYard.Entry` — what is read, and what waits.
* `ShuntingYard.settle` — the waiting operators that are applied before a new
  one.
* `ShuntingYard.step`, `ShuntingYard.run` — reading one item, and many: what is
  written meanwhile, and the stack afterwards.
* `ShuntingYard.arrange` — the whole sequence in postfix order.
* `OperatorTable.postfixOrder`, `OperatorTable.postfixPositions` — the same for
  tokens whose operators are looked up in a table, and for their positions.
-/

namespace InfixCalculator

namespace ShuntingYard

universe u

variable {α : Type u}

/-- What is read: operands and operators, each with the label that is written
for it, and parentheses. -/
inductive Item (α : Type u) where
  /-- An operand. -/
  | operand (label : α)
  /-- An operator. -/
  | operator (op : Operator) (label : α)
  /-- An opening parenthesis. -/
  | opening
  /-- A closing parenthesis. -/
  | closing

/-- What waits on the stack. -/
inductive Entry (α : Type u) where
  /-- The opening parenthesis of a group that is not closed yet. -/
  | opening
  /-- An operator that is not written yet. -/
  | operator (op : Operator) (label : α)

/-- The stack, its top first. -/
abbrev Stack (α : Type u) := List (Entry α)

/-- **The waiting operators that are applied before a new operator**, and the
stack without them.  They are those on top of the stack for which the new one
waits; a parenthesis ends them. -/
def settle (op : Operator) : Stack α → List α × Stack α
  | .operator top label :: below =>
      if op.waitsFor top then
        (label :: (settle op below).1, (settle op below).2)
      else
        ([], .operator top label :: below)
  | stack => ([], stack)

@[simp] theorem settle_nil (op : Operator) : settle op ([] : Stack α) = ([], []) := rfl

@[simp] theorem settle_opening (op : Operator) (below : Stack α) :
    settle op (.opening :: below) = ([], .opening :: below) := rfl

theorem settle_operator (op top : Operator) (label : α) (below : Stack α) :
    settle op (.operator top label :: below) =
      if op.waitsFor top then (label :: (settle op below).1, (settle op below).2)
      else ([], .operator top label :: below) := rfl

/-- **Closes a group**: writes the operators above its parenthesis and takes the
parenthesis away. -/
def closeGroup : Stack α → Except SyntaxError (List α × Stack α)
  | [] => .error .unmatchedClosing
  | .opening :: below => .ok ([], below)
  | .operator _ label :: below => do
      let (written, stack) ← closeGroup below
      return (label :: written, stack)

/-- **Reads one item**: what is written for it, and the stack after it. -/
def step (stack : Stack α) : Item α → Except SyntaxError (List α × Stack α)
  | .operand label => .ok ([label], stack)
  | .operator op label =>
      .ok ((settle op stack).1, .operator op label :: (settle op stack).2)
  | .opening => .ok ([], .opening :: stack)
  | .closing => closeGroup stack

/-- **Reads items in their order**, by structural recursion.  The first failure,
of an item or of reading it, is the failure of the run. -/
def run (stack : Stack α) :
    List (Except SyntaxError (Item α)) → Except SyntaxError (List α × Stack α)
  | [] => .ok ([], stack)
  | item :: items => do
      let item ← item
      let (written, stack) ← step stack item
      let (later, stack) ← run stack items
      return (written ++ later, stack)

@[simp] theorem run_nil (stack : Stack α) : run stack [] = .ok ([], stack) := rfl

/-- Reading items and then more items is reading all of them. -/
theorem run_append (stack : Stack α) (items more : List (Except SyntaxError (Item α))) :
    run stack (items ++ more) = (do
      let (written, stack) ← run stack items
      let (later, stack) ← run stack more
      return (written ++ later, stack)) := by
  induction items generalizing stack with
  | nil =>
      simp only [List.nil_append, run_nil, bind, Except.bind]
      cases run stack more <;> rfl
  | cons item items ih =>
      cases item with
      | error e => rfl
      | ok item =>
          simp only [List.cons_append, run, bind, Except.bind]
          cases step stack item with
          | error e => rfl
          | ok stepped =>
              simp only [ih, bind, Except.bind]
              cases run stepped.2 items with
              | error e => rfl
              | ok first =>
                  simp only [pure, Except.pure]
                  cases run first.2 more with
                  | error e => rfl
                  | ok second => simp

/-- What is written at the end: all operators that still wait, if no group is
open. -/
def drain : Stack α → Except SyntaxError (List α)
  | [] => .ok []
  | .opening :: _ => .error .unmatchedOpening
  | .operator _ label :: below => do
      let written ← drain below
      return label :: written

@[simp] theorem drain_nil : drain ([] : Stack α) = .ok [] := rfl

/-- **The labels of items in postfix order**, or the first failure. -/
def arrange (items : List (Except SyntaxError (Item α))) : Except SyntaxError (List α) := do
  let (written, stack) ← run [] items
  let rest ← drain stack
  return written ++ rest

end ShuntingYard

namespace OperatorTable

/-- The item that a token is, its operator looked up in the table, with the label
that is to be written for it. -/
def resolve (table : OperatorTable) {α : Type} (label : α) :
    Token → Except SyntaxError (ShuntingYard.Item α)
  | .number _ => .ok (.operand label)
  | .operator symbol =>
      match table.find? symbol with
      | some op => .ok (.operator op label)
      | none => .error (.unknownOperator symbol)
  | .opening => .ok .opening
  | .closing => .ok .closing

/-- **The postfix order of the items of an expression**, or the first of the
failures among the items, of looking them up and of the parentheses.  Every
token is its own label. -/
def postfixOrder (table : OperatorTable) (items : List (Except SyntaxError Token)) :
    Except SyntaxError (List Token) :=
  ShuntingYard.arrange (items.map (· >>= fun token => table.resolve token token))

/-- **The postfix order of the positions of the items**, counted from zero: the same
run, with the position of every token as its label. -/
def postfixPositions (table : OperatorTable) (items : List (Except SyntaxError Token)) :
    Except SyntaxError (List Nat) :=
  ShuntingYard.arrange
    (items.zipIdx.map fun (item, position) => item >>= table.resolve position)

end OperatorTable

end InfixCalculator
