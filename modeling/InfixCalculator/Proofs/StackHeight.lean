import InfixCalculator.Calculator
import InfixCalculator.Proofs.WaitingStack

/-!
# How many values a sequence leaves

A token that is evaluated changes the number of values on the stack by an amount
of its own: a number adds one, and an operator takes its operands and gives back
one value.  The sum over a sequence does not depend on its order, and the postfix
order has the tokens of the expression but for the parentheses.  So an expression
can only have a value if its own tokens, as they are written, have the height
one.
-/

namespace InfixCalculator

open ShuntingYard

/-- By how much the number of values changes at a token. -/
def Token.weight (table : OperatorTable) : Token → Int
  | number _ => 1
  | operator symbol =>
      match table.find? symbol with
      | some op => 1 - op.operandCount
      | none => 0
  | opening | closing => 0

theorem Token.weight_operator {table : OperatorTable} {op : Operator}
    (found : table.find? op.symbol = some op) :
    (operator op.symbol).weight table = 1 - op.operandCount := by
  simp [weight, found]

/-- By how much the number of values changes over a sequence. -/
def height (table : OperatorTable) : List Token → Int
  | [] => 0
  | token :: tokens => token.weight table + height table tokens

variable {table : OperatorTable}

@[simp] theorem height_nil : height table [] = 0 := rfl

@[simp] theorem height_cons (token : Token) (tokens : List Token) :
    height table (token :: tokens) = token.weight table + height table tokens := rfl

@[simp] theorem height_append (tokens more : List Token) :
    height table (tokens ++ more) = height table tokens + height table more := by
  induction tokens with
  | nil => simp
  | cons token tokens ih => simp only [List.cons_append, height_cons, ih]; omega

/-- **The order of the tokens does not matter.** -/
theorem height_perm {tokens more : List Token} (h : tokens.Perm more) :
    height table tokens = height table more := by
  induction h with
  | nil => rfl
  | cons token _ ih => rw [height_cons, height_cons, ih]
  | swap first second tokens => simp only [height_cons]; omega
  | trans _ _ ihFirst ihSecond => exact ihFirst.trans ihSecond

/-! ## Counting -/

/-- Whether a token is a number. -/
def Token.isNumber : Token → Bool
  | number _ => true
  | _ => false

/-- Whether a token is an operator of the table that has two operands. -/
def Token.isBinary (table : OperatorTable) : Token → Bool
  | operator symbol => (table.find? symbol).any fun op => op.operandCount = 2
  | _ => false

theorem Token.weight_eq_sub (token : Token) :
    token.weight table =
      (if token.isNumber then 1 else 0) - (if token.isBinary table then 1 else 0) := by
  cases token with
  | number value | opening | closing => rfl
  | operator symbol =>
      cases found : table.find? symbol with
      | none => simp [weight, isNumber, isBinary, found]
      | some op =>
          by_cases placement : op.placement = .between
          · simp [weight, isNumber, isBinary, found, Operator.operandCount_eq_two placement]
          · simp [weight, isNumber, isBinary, found, Operator.operandCount_eq_one placement]

/-- **The height is that of the numbers less the operators with two operands.** -/
theorem height_eq_sub (tokens : List Token) :
    height table tokens =
      (tokens.countP Token.isNumber : Int) - tokens.countP (Token.isBinary table) := by
  induction tokens with
  | nil => rfl
  | cons token tokens ih =>
      rw [height_cons, ih, token.weight_eq_sub, List.countP_cons, List.countP_cons]
      split <;> split <;> omega

/-! ## Evaluation -/

/-- An operator is applied to as many operands as it has. -/
theorem Operator.operandCount_le_length {op : Operator} {operands : List Float} {value : Float}
    (evaluated : op.evaluate operands = .ok value) : op.operandCount ≤ operands.length := by
  by_contra few
  have failed := Operator.evaluate_eq_error_iff.mpr (.inr (.inl ⟨Nat.lt_of_not_le few, rfl⟩))
  exact nomatch evaluated.symm.trans failed

namespace ValueStack

/-- **What a step can do**: a number is put on the stack, or an operator of the table
puts its value there in place of its operands. -/
theorem step_eq_ok {values next : ValueStack} {token : Token}
    (stepped : step table values token = .ok next) :
    (∃ value, token = .number value ∧ next = value :: values) ∨
      ∃ op value, token = .operator op.symbol ∧ table.find? op.symbol = some op ∧
        op.evaluate (values.take op.operandCount).reverse = .ok value ∧
        next = value :: values.drop op.operandCount := by
  cases token with
  | number value =>
      obtain rfl := Except.ok.inj stepped
      exact .inl ⟨value, rfl, rfl⟩
  | opening | closing => cases stepped
  | operator symbol =>
      rw [step] at stepped
      split at stepped
      next => cases stepped
      next op found =>
        obtain rfl := OperatorTable.symbol_eq_of_find? found
        obtain ⟨value, evaluated, stepped⟩ := bind_eq_ok.mp stepped
        obtain rfl := Except.ok.inj stepped
        exact .inr ⟨op, value, rfl, found, evaluated, rfl⟩

theorem length_step {values next : ValueStack} {token : Token}
    (stepped : step table values token = .ok next) :
    (next.length : Int) = values.length + token.weight table := by
  rcases step_eq_ok stepped with ⟨value, rfl, rfl⟩ | ⟨op, value, rfl, found, evaluated, rfl⟩
  · simp [Token.weight]
  · -- The operands were all there, so that none too few leave the stack.
    have enough := Operator.operandCount_le_length evaluated
    rw [List.length_reverse, List.length_take] at enough
    rw [Token.weight_operator found, List.length_cons, List.length_drop]
    omega

/-- **A run changes the number of values by the height of its tokens.** -/
theorem length_run {values final : ValueStack} {tokens : List Token}
    (ran : run table values tokens = .ok final) :
    (final.length : Int) = values.length + height table tokens := by
  induction tokens generalizing values with
  | nil =>
      obtain rfl := Except.ok.inj ran
      simp
  | cons token tokens ih =>
      obtain ⟨next, stepped, ran⟩ := bind_eq_ok.mp ran
      rw [ih ran, length_step stepped, height_cons]
      omega

/-- Once a token has been read there are values. -/
theorem ne_nil_of_run {values final : ValueStack} {tokens : List Token} (some : tokens ≠ [])
    (ran : run table values tokens = .ok final) : final ≠ [] := by
  induction tokens generalizing values with
  | nil => exact absurd rfl some
  | cons token tokens ih =>
      obtain ⟨next, stepped, ran⟩ := bind_eq_ok.mp ran
      cases tokens with
      | nil =>
          obtain rfl := Except.ok.inj ran
          rcases step_eq_ok stepped with ⟨value, -, rfl⟩ | ⟨op, value, -, -, -, rfl⟩ <;>
            exact List.cons_ne_nil value _
      | cons later tokens => exact ih (List.cons_ne_nil later tokens) ran

end ValueStack

/-- **What has a value** leaves it alone on the stack. -/
theorem OperatorTable.run_of_valueOf {tokens : List Token} {value : Float}
    (valued : table.valueOf tokens = .ok value) :
    ValueStack.run table [] tokens = .ok [value] := by
  unfold valueOf at valued
  split at valued
  next => cases valued
  next =>
    obtain ⟨final, ran, valued⟩ := bind_eq_ok.mp valued
    match final with
    | [last] =>
        obtain rfl := Except.ok.inj valued
        exact ran
    | [] | _ :: _ :: _ => cases valued

/-- **A sequence has no value** if it is empty, if its run fails, or if the run leaves two
values at least. -/
theorem OperatorTable.valueOf_eq_error_iff {tokens : List Token} {error : EvalError} :
    table.valueOf tokens = .error error ↔
      tokens = [] ∧ error = .nothingToEvaluate ∨
        ValueStack.run table [] tokens = .error error ∨
        ∃ values, ValueStack.run table [] tokens = .ok values ∧ 2 ≤ values.length ∧
          error = .valuesLeft values.length := by
  rcases eq_or_ne tokens [] with rfl | some
  · simp [valueOf, @eq_comm _ error]
  rw [valueOf, if_neg (by simpa using some), bind_eq_error]
  constructor
  · rintro (failed | ⟨values, ran, failed⟩)
    · exact .inr (.inl failed)
    · match values with
      | [] => exact absurd rfl (ValueStack.ne_nil_of_run some ran)
      | [_] => cases failed
      | first :: second :: rest =>
          obtain rfl := Except.error.inj failed
          exact .inr (.inr ⟨_, ran, by simp, rfl⟩)
  · rintro (⟨rfl, -⟩ | failed | ⟨values, ran, two, rfl⟩)
    · exact absurd rfl some
    · exact .inl failed
    · match values with
      | [] | [_] => simp at two
      | first :: second :: rest => exact .inr ⟨_, ran, rfl⟩

theorem height_of_valueOf {tokens : List Token} {value : Float}
    (valued : table.valueOf tokens = .ok value) : height table tokens = 1 := by
  simpa using (ValueStack.length_run (OperatorTable.run_of_valueOf valued)).symm

/-! ## Ordering -/

/-- The parenthesis that a token is. -/
def Token.bracket? : Token → Option Bracket
  | opening => some .opening
  | closing => some .closing
  | _ => none

/-- The tokens that are no parentheses. -/
def withoutBrackets (tokens : List Token) : List Token :=
  tokens.filter fun token => token.bracket?.isNone

theorem mem_withoutBrackets {tokens : List Token} {token : Token} :
    token ∈ withoutBrackets tokens ↔ token ∈ tokens ∧ token.bracket? = none := by
  simp [withoutBrackets]

theorem withoutBrackets_cons (token : Token) (tokens : List Token) :
    withoutBrackets (token :: tokens) =
      if token.bracket?.isNone then token :: withoutBrackets tokens else withoutBrackets tokens :=
  List.filter_cons

/-- Parentheses leave the height as it is. -/
theorem height_withoutBrackets (tokens : List Token) :
    height table (withoutBrackets tokens) = height table tokens := by
  induction tokens with
  | nil => rfl
  | cons token tokens ih =>
      rw [withoutBrackets_cons, height_cons]
      cases token with
      | number | operator => exact congrArg _ ih
      | opening | closing => exact ih.trans (Int.zero_add _).symm

/-- An item has the parenthesis of its token, or else the label that it was given. -/
theorem bracket?_of_resolve {α : Type} {label : α} {token : Token} {read : Item α}
    (resolved : table.resolve label token = .ok read) :
    read.bracket? = token.bracket? ∧
      read.label? = if token.bracket?.isNone then some label else none := by
  cases token with
  | number value | opening | closing =>
      obtain rfl := Except.ok.inj resolved
      exact ⟨rfl, rfl⟩
  | operator symbol =>
      rw [OperatorTable.resolve] at resolved
      split at resolved
      next =>
        obtain rfl := Except.ok.inj resolved
        exact ⟨rfl, rfl⟩
      next => cases resolved

/-- Items without a failure are those of tokens, with their parentheses and the others as
their labels. -/
theorem exists_tokens_of_resolve {items : List (Except SyntaxError Token)}
    {reads : List (Item Token)}
    (resolved : items.map (· >>= fun token => table.resolve token token) = reads.map .ok) :
    ∃ tokens, items = tokens.map .ok ∧
      reads.filterMap Item.bracket? = tokens.filterMap Token.bracket? ∧
      reads.filterMap Item.label? = withoutBrackets tokens := by
  induction items generalizing reads with
  | nil =>
      obtain rfl := List.map_eq_nil_iff.mp resolved.symm
      exact ⟨[], rfl, rfl, rfl⟩
  | cons item items ih =>
      obtain ⟨read, rest, rfl, here, later⟩ := List.map_eq_cons_iff.mp resolved.symm
      obtain ⟨tokens, rfl, brackets, labels⟩ := ih later.symm
      cases item with
      | error e => exact nomatch here
      | ok token =>
          obtain ⟨bracket, label⟩ := bracket?_of_resolve here.symm
          refine ⟨token :: tokens, rfl, ?_, ?_⟩
          · rw [filterMap_cons_eq_append, filterMap_cons_eq_append, bracket, brackets]
          · rw [filterMap_cons_eq_append, labels, label, withoutBrackets_cons]
            split <;> rfl

/-- **What is put into postfix order are tokens** with balanced parentheses, and all but
these are written once each. -/
theorem OperatorTable.exists_tokens_of_postfixOrder {items : List (Except SyntaxError Token)}
    {out : List Token} (ordered : table.postfixOrder items = .ok out) :
    ∃ tokens, items = tokens.map .ok ∧ out.Perm (withoutBrackets tokens) ∧
      nesting 0 (tokens.filterMap Token.bracket?) = some 0 := by
  obtain ⟨reads, resolved, perm, balanced⟩ := arrange_eq_ok ordered
  obtain ⟨tokens, same, brackets, labels⟩ := exists_tokens_of_resolve resolved
  exact ⟨tokens, same, labels ▸ perm, brackets ▸ balanced⟩

/-- **An expression with a value** is scanned without failure, its parentheses
are balanced, and its tokens as they are written leave one value. -/
theorem exists_tokens_of_calculate {expression : String} {value : Float}
    (calculated : table.calculate expression = .ok value) :
    ∃ tokens, table.items (withoutBlanks expression) = tokens.map .ok ∧
      nesting 0 (tokens.filterMap Token.bracket?) = some 0 ∧ height table tokens = 1 := by
  obtain ⟨out, ordered, calculated⟩ := bind_eq_ok.mp calculated
  obtain ⟨tokens, scanned, perm, balanced⟩ :=
    OperatorTable.exists_tokens_of_postfixOrder (mapError_eq_ok.mp ordered)
  refine ⟨tokens, scanned, balanced, ?_⟩
  rw [← height_withoutBrackets, ← height_perm perm]
  exact height_of_valueOf (mapError_eq_ok.mp calculated)

end InfixCalculator
