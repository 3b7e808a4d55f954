import InfixCalculator.Expression.Grammar
import InfixCalculator.Proofs.Scanning
import InfixCalculator.Proofs.StackHeight
import InfixCalculator.Proofs.StandardTable
import Mathlib.Data.List.Chain

/-!
# Values side by side

No stage checks the grammar.  The scanner knows the token before, the shunting
yard the parentheses, and the evaluation the number of values.  Together they
check almost all of it.  What they miss is a value right behind a value: the
scanner lets it pass, and its surplus makes up for an operand that is missing
elsewhere, so that `2(3)+` is evaluated like `2+3`, and for a group without
content, so that `2()` is evaluated like `2`.

That this is all they miss is shown by reading from the left.  Without values
side by side the height of what has been read is at most one where it ends with a
value and at most zero elsewhere, and every group that is closed without a value
inside takes one away for good.  At the end the height is one, so nothing was ever
taken away, and then what has been read was the start of a sentence all along
(`ReadSoFar`).
-/

namespace InfixCalculator

open ShuntingYard

/-- Whether a token starts a value of its own: a number or a group. -/
def Token.startsValue : Token → Bool
  | number _ | opening => true
  | operator _ | closing => false

/-- Two neighbouring tokens are not two values side by side. -/
def Apart (table : OperatorTable) (a b : Token) : Prop :=
  (a.context table).endsValue = true → b.startsValue = false

instance decidableApart (table : OperatorTable) (a b : Token) : Decidable (Apart table a b) :=
  inferInstanceAs (Decidable ((a.context table).endsValue = true → b.startsValue = false))

variable {table : OperatorTable}

/-- Anything may follow what is no value. -/
theorem isChain_apart_cons {a : Token} {tokens : List Token}
    (noValue : (a.context table).endsValue = false) (apart : tokens.IsChain (Apart table)) :
    (a :: tokens).IsChain (Apart table) :=
  List.isChain_cons.mpr ⟨fun _ _ ends => absurd ends (by simp [noValue]), apart⟩

/-- What starts no value may follow anything. -/
theorem isChain_apart_append {a : Token} {tokens more : List Token}
    (noValue : a.startsValue = false) (apart : tokens.IsChain (Apart table))
    (apartMore : (a :: more).IsChain (Apart table)) :
    (tokens ++ a :: more).IsChain (Apart table) :=
  List.isChain_append.mpr ⟨apart, apartMore, fun _ _ _ first _ => Option.some.inj first ▸ noValue⟩

theorem endsValue_of_stands {placement : Placement} {symbol : String}
    (stands : table.Stands placement symbol) :
    ((Token.operator symbol).context table).endsValue = placement.context.endsValue := by
  obtain ⟨op, found, rfl⟩ := stands
  obtain rfl := OperatorTable.symbol_eq_of_find? found
  rw [Token.context_operator found]

/-- **In a phrase values never stand side by side.** -/
theorem Derives.isChain_apart {phrase : Phrase} {tokens : List Token}
    (derives : Derives table phrase tokens) : tokens.IsChain (Apart table) := by
  induction derives with
  | number value => exact .singleton _
  | group _ ih => exact isChain_apart_append rfl (isChain_apart_cons rfl ih) (.singleton _)
  | before stands _ ih => exact isChain_apart_cons (endsValue_of_stands stands) ih
  | after _ _ ih => exact isChain_apart_append rfl ih (.singleton _)
  | single _ ih => exact ih
  | between stands _ _ ihLeft ihRight =>
      have right := isChain_apart_cons (endsValue_of_stands stands) ihRight
      exact isChain_apart_append rfl ihLeft right

/-! ## What has been read of a sentence -/

/-- Tokens that any operand makes an expression. -/
def Awaits (table : OperatorTable) (tokens : List Token) : Prop :=
  ∀ operand, Derives table .operand operand → Derives table .expression (tokens ++ operand)

theorem awaits_nil : Awaits table [] := fun _ derives => .single derives

theorem Awaits.before {symbol : String} {tokens : List Token} (awaits : Awaits table tokens)
    (stands : table.Stands .before symbol) : Awaits table (tokens ++ [.operator symbol]) := by
  intro operand derives
  rw [List.append_assoc]
  exact awaits _ (.before stands derives)

theorem awaits_between {symbol : String} {tokens : List Token}
    (left : Derives table .expression tokens) (stands : table.Stands .between symbol) :
    Awaits table (tokens ++ [.operator symbol]) := by
  intro operand derives
  rw [List.append_assoc]
  exact .between stands left derives

/-- An operator after an expression belongs to its last operand. -/
theorem derives_append_after {symbol : String} {tokens : List Token}
    (derives : Derives table .expression tokens) (stands : table.Stands .after symbol) :
    Derives table .expression (tokens ++ [.operator symbol]) := by
  cases derives with
  | single operand => exact .single (.after stands operand)
  | between middle left right =>
      rw [List.append_assoc, List.cons_append]
      exact .between middle left (.after stands right)

/-- What the tokens since the innermost open parenthesis are: an expression where
they end with a value, and what awaits an operand elsewhere. -/
def Portion (table : OperatorTable) (context : Context) : List Token → Prop :=
  if context.endsValue then Derives table .expression else Awaits table

/-- How many values there are at most since the innermost open parenthesis. -/
def Context.values (context : Context) : Int := if context.endsValue then 1 else 0

section

variable {context : Context}

theorem portion_of_value (value : context.endsValue = true) :
    Portion table context = Derives table .expression := if_pos value

theorem portion_of_noValue (noValue : context.endsValue = false) :
    Portion table context = Awaits table := if_neg (by simp [noValue])

theorem Context.values_of_value (value : context.endsValue = true) : context.values = 1 :=
  if_pos value

theorem Context.values_of_noValue (noValue : context.endsValue = false) : context.values = 0 :=
  if_neg (by simp [noValue])

end

/-- Tokens inside of open groups.  Outside of each group an operand is awaited,
which is what the group will be. -/
def Within (table : OperatorTable) : (List Token → Prop) → Nat → List Token → Prop
  | inner, 0, tokens => inner tokens
  | inner, depth + 1, tokens =>
      ∃ outer rest, tokens = outer ++ .opening :: rest ∧ Within table (Awaits table) depth outer ∧
        inner rest

/-- Only the innermost group goes on. -/
theorem Within.append {inner goal : List Token → Prop} {depth : Nat} {tokens more : List Token}
    (within : Within table inner depth tokens)
    (goesOn : ∀ rest, inner rest → goal (rest ++ more)) :
    Within table goal depth (tokens ++ more) := by
  cases depth with
  | zero => exact goesOn _ within
  | succ depth =>
      obtain ⟨outer, rest, rfl, outside, inside⟩ := within
      exact ⟨outer, rest ++ more, by simp, outside, goesOn rest inside⟩

/-- **What holds of the tokens read so far**: their height has a bound, and if it
is reached then they are the start of a sentence. -/
structure ReadSoFar (table : OperatorTable) (context : Context) (depth : Nat)
    (tokens : List Token) : Prop where
  /-- There are no more values than the context says. -/
  height_le : height table tokens ≤ context.values
  /-- With that many values, every open group and what is around it can go on. -/
  within : height table tokens = context.values →
    Within table (Portion table context) depth tokens

theorem readSoFar_nil : ReadSoFar table .start 0 [] where
  height_le := Int.le_refl _
  within _ := awaits_nil

namespace ReadSoFar

variable {previous next : Context} {depth final : Nat} {read rest : List Token} {token : Token}

/-- One token more: it may not add more than the bound does, and where it adds
exactly as much, a start of a sentence has to remain one. -/
theorem concat (sofar : ReadSoFar table previous depth read)
    (bound : token.weight table ≤ next.values - previous.values)
    (goesOn : token.weight table = next.values - previous.values →
      Within table (Portion table previous) depth read →
        Within table (Portion table next) final (read ++ [token])) :
    ReadSoFar table next final (read ++ [token]) := by
  have before := sofar.height_le
  have here : height table (read ++ [token]) = height table read + token.weight table := by
    simp
  refine ⟨by omega, fun reached => ?_⟩
  exact goesOn (by omega) (sofar.within (by omega))

theorem number (sofar : ReadSoFar table previous depth read)
    (noValue : previous.endsValue = false) (value : Float) :
    ReadSoFar table .number depth (read ++ [.number value]) := by
  apply sofar.concat
  · rw [Context.values_of_noValue noValue]
    exact Int.le_refl 1
  · intro _ within
    rw [portion_of_noValue noValue] at within
    exact within.append fun rest awaits => awaits _ (.number value)

/-- What stands before a group awaits it as an operand, and nothing is inside yet. -/
theorem opening (sofar : ReadSoFar table previous depth read)
    (noValue : previous.endsValue = false) :
    ReadSoFar table .opening (depth + 1) (read ++ [.opening]) := by
  apply sofar.concat
  · rw [Context.values_of_noValue noValue]
    exact Int.le_refl 0
  · intro _ within
    rw [portion_of_noValue noValue] at within
    exact ⟨read, [], rfl, within, awaits_nil⟩

theorem closing (sofar : ReadSoFar table previous (depth + 1) read) :
    ReadSoFar table .closing depth (read ++ [.closing]) := by
  cases value : previous.endsValue with
  | false =>
      -- The group is empty or ends with an operator: from here on a value is missing.
      apply sofar.concat
      · rw [Context.values_of_noValue value]
        exact Int.le_of_lt Int.zero_lt_one
      · intro reached
        rw [Context.values_of_noValue value] at reached
        exact nomatch reached
  | true =>
      apply sofar.concat
      · rw [Context.values_of_value value]
        exact Int.le_refl 0
      · intro _ within
        rw [portion_of_value value] at within
        obtain ⟨outer, rest, rfl, outside, inside⟩ := within
        rw [List.append_assoc]
        exact outside.append fun before awaits => awaits _ (.group inside)

theorem operator (sofar : ReadSoFar table previous depth read) {op : Operator}
    (found : table.find? op.symbol = some op)
    (allowed : op.placement.allowedAfter previous = true) :
    ReadSoFar table op.placement.context depth (read ++ [.operator op.symbol]) := by
  have stands : table.Stands op.placement op.symbol := ⟨op, found, rfl⟩
  cases placement : op.placement with
  | before =>
      rw [placement] at allowed stands
      have noValue : previous.endsValue = false := by simpa [Placement.allowedAfter] using allowed
      apply sofar.concat
      · rw [Token.weight_operator found, Context.values_of_noValue noValue,
          Operator.operandCount_eq_one (by simp [placement])]
        exact Int.le_refl 0
      · intro _ within
        rw [portion_of_noValue noValue] at within
        exact within.append fun rest awaits => awaits.before stands
  | between =>
      rw [placement] at allowed stands
      apply sofar.concat
      · rw [Token.weight_operator found, Context.values_of_value allowed,
          Operator.operandCount_eq_two placement]
        exact Int.le_refl (-1)
      · intro _ within
        rw [portion_of_value allowed] at within
        exact within.append fun rest left => awaits_between left stands
  | after =>
      rw [placement] at allowed stands
      apply sofar.concat
      · rw [Token.weight_operator found, Context.values_of_value allowed,
          Operator.operandCount_eq_one (by simp [placement])]
        exact Int.le_refl 0
      · intro _ within
        rw [portion_of_value allowed] at within
        exact within.append fun rest left => derives_append_after left stands

/-- **What holds is kept by every token** that is admitted and starts no value
behind a value. -/
theorem step (sofar : ReadSoFar table previous depth read)
    (admitted : token.Admitted table previous)
    (apart : previous.endsValue = true → token.startsValue = false)
    (nested : nesting depth token.bracket?.toList = some final) :
    ReadSoFar table (token.context table) final (read ++ [token]) := by
  cases token with
  | number value =>
      obtain rfl := Option.some.inj nested
      exact sofar.number (Bool.eq_false_iff.mpr fun ends => nomatch apart ends) value
  | opening =>
      obtain rfl := Option.some.inj nested
      exact sofar.opening (Bool.eq_false_iff.mpr fun ends => nomatch apart ends)
  | closing =>
      cases depth with
      | zero => exact nomatch nested
      | succ depth =>
          obtain rfl := Option.some.inj nested
          exact sofar.closing
  | operator symbol =>
      obtain rfl := Option.some.inj nested
      obtain ⟨op, found, allowed, -, -⟩ := admitted
      obtain rfl := OperatorTable.symbol_eq_of_find? found
      rw [Token.context_operator found]
      exact sofar.operator found allowed

/-- **All tokens that are left.** -/
theorem run (sofar : ReadSoFar table previous depth read)
    (admitted : AdmittedFrom table previous rest)
    (joined : ∀ token ∈ rest.head?, previous.endsValue = true → token.startsValue = false)
    (apart : rest.IsChain (Apart table))
    (nested : nesting depth (rest.filterMap Token.bracket?) = some final) :
    ∃ context, ReadSoFar table context final (read ++ rest) := by
  induction rest generalizing previous depth read with
  | nil =>
      obtain rfl := Option.some.inj nested
      exact ⟨previous, by simpa using sofar⟩
  | cons token rest ih =>
      obtain ⟨here, later⟩ := admitted
      obtain ⟨joinedNext, apartNext⟩ := List.isChain_cons.mp apart
      rw [filterMap_cons_eq_append] at nested
      obtain ⟨inside, nestedHere, nestedLater⟩ := nesting_append_eq_some nested
      have next := sofar.step here (joined token rfl) nestedHere
      rw [List.append_cons]
      exact ih next later joinedNext apartNext nestedLater

end ReadSoFar

/-! ## Expressions with a value -/

/-- **Without values side by side** the three partial checks are a full one. -/
theorem derives_of_height {tokens : List Token} (admitted : AdmittedFrom table .start tokens)
    (apart : tokens.IsChain (Apart table))
    (nested : nesting 0 (tokens.filterMap Token.bracket?) = some 0)
    (single : height table tokens = 1) : Derives table .expression tokens := by
  have nothingBefore : ∀ token ∈ tokens.head?,
      Context.start.endsValue = true → token.startsValue = false := fun _ _ ends => nomatch ends
  -- At the end no group is open and the bound is reached, which decides both cases.
  obtain ⟨context, sofar⟩ := readSoFar_nil.run admitted nothingBefore apart nested
  rw [List.nil_append] at sofar
  cases value : context.endsValue with
  | false =>
      have bound := sofar.height_le
      rw [single, Context.values_of_noValue value] at bound
      exact nomatch bound
  | true =>
      have within := sofar.within (by rw [single, Context.values_of_value value])
      rw [portion_of_value value] at within
      exact within

/-- **An expression with a value is a sentence exactly if it has no values side by
side**: no number and no group right behind a number, a group or an operator that
stands after its operand. -/
theorem derives_iff_of_calculate (expression : String) (value : Float)
    (calculated : calculate expression = .ok value) :
    ∃ tokens, OperatorTable.standard.items (withoutBlanks expression) = tokens.map .ok ∧
      (Derives .standard .expression tokens ↔ tokens.IsChain (Apart .standard)) := by
  obtain ⟨tokens, scanned, nested, single⟩ := exists_tokens_of_calculate calculated
  have admitted := admittedFrom_of_itemsFrom minusPlaced_standard scanned
  refine ⟨tokens, scanned, fun derives => derives.isChain_apart, fun apart => ?_⟩
  exact derives_of_height admitted apart nested single

/-- `(3+4)!` has a value and no values side by side, so it is a sentence. -/
theorem derives_of_calculate_group :
    ∃ tokens, calculate "(3+4)!" = .ok 5040 ∧
      OperatorTable.standard.items (withoutBlanks "(3+4)!") = tokens.map .ok ∧
      Derives .standard .expression tokens := by
  have calculated : calculate "(3+4)!" = .ok 5040 := by decide +kernel
  have read : OperatorTable.standard.items (withoutBlanks "(3+4)!") =
      [.opening, .number 3, .operator "+", .number 4, .closing, .operator "!"].map .ok := by
    decide +kernel
  obtain ⟨tokens, scanned, sentence⟩ := derives_iff_of_calculate _ _ calculated
  obtain rfl := (List.map_inj_right fun _ _ => Except.ok.inj).mp (scanned.symm.trans read)
  exact ⟨_, calculated, read, sentence.mpr (by decide +kernel)⟩

/-- `2(3)+` has a value, since the group stands in for the missing operand. -/
theorem calculate_values_side_by_side :
    ∃ tokens, calculate "2(3)+" = .ok 5 ∧
      OperatorTable.standard.items (withoutBlanks "2(3)+") = tokens.map .ok ∧
      ¬ Derives .standard .expression tokens := by
  have scanned : OperatorTable.standard.items (withoutBlanks "2(3)+") =
      [.number 2, .opening, .number 3, .closing, .operator "+"].map .ok := by
    decide +kernel
  refine ⟨_, by decide +kernel, scanned, fun derives => ?_⟩
  exact absurd derives.isChain_apart (by decide +kernel)

end InfixCalculator
