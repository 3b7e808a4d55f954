import InfixCalculator.Operator.Standard
import InfixCalculator.Proofs.WaitingStack
import Mathlib.Data.List.Chain

/-!
# The order of what waits

A new operator looks at the stack from its top and stops at the first operator that it need
not wait for.  That nothing deeper should have been written too is a fact about all stacks
that a run can reach: an operator goes on top only after those that it waits for are gone, so
it waits for none of those below it up to the nearest parenthesis (`Ordered`).

Not to wait is transitive (`Operator.not_waitsFor_trans`), whatever the associativities.  So
neighbours are enough for the invariant (`ordered_step`, `ordered_run`), and what holds of the
top holds of all operators above the nearest parenthesis (`settles_eq_false_of_ordered`): the
test picks out the operators that settle one by one (`settle_eq_filter`).
-/

namespace InfixCalculator

namespace Operator

/-- **An operator need not wait** for those of no higher precedence; for one of its own only if
it is right-associative. -/
theorem waitsFor_eq_false_iff {op earlier : Operator} :
    op.waitsFor earlier = false ↔
      earlier.precedence ≤ op.precedence ∧
        (earlier.precedence = op.precedence → op.associativity = .right) := by
  rw [← Bool.not_eq_true, waitsFor_iff]
  cases op.associativity with
  | left => simp; omega
  | right => simp

/-- An operator that need not wait for another one need not wait for those that this one need
not wait for. -/
theorem not_waitsFor_trans {op later earlier : Operator} (first : op.waitsFor later = false)
    (second : later.waitsFor earlier = false) : op.waitsFor earlier = false := by
  rw [waitsFor_eq_false_iff] at first second ⊢
  refine ⟨by omega, fun same => first.2 ?_⟩
  omega

end Operator

namespace ShuntingYard

universe u

variable {α : Type u} {stack rest : Stack α} {op : Operator}

/-- Whether an entry is an operator. -/
def Entry.isOperator : Entry α → Bool
  | .operator _ _ => true
  | .opening => false

/-- The operators above the nearest parenthesis. -/
def innermost (stack : Stack α) : Stack α := stack.takeWhile Entry.isOperator

/-- The nearest parenthesis and all that is below it. -/
def outer (stack : Stack α) : Stack α := stack.dropWhile Entry.isOperator

@[simp] theorem innermost_operator (label : α) (below : Stack α) :
    innermost (.operator op label :: below) = .operator op label :: innermost below := rfl

@[simp] theorem outer_operator (label : α) (below : Stack α) :
    outer (.operator op label :: below) = outer below := rfl

theorem innermost_append_outer (stack : Stack α) : innermost stack ++ outer stack = stack :=
  List.takeWhile_append_dropWhile

/-- Whether a new operator waits for an entry.  It waits for no parenthesis. -/
def Entry.settles (op : Operator) : Entry α → Bool
  | .operator top _ => op.waitsFor top
  | .opening => false

@[simp] theorem Entry.settles_operator (op top : Operator) (label : α) :
    (Entry.operator top label).settles op = op.waitsFor top := rfl

/-- An operator that lies directly on another one does not wait for it. -/
def Entry.RestsOn : Entry α → Entry α → Prop
  | .operator later _, below => below.settles later = false
  | .opening, _ => True

/-- **A stack in order**: no operator on it waits for the one directly below. -/
def Ordered (stack : Stack α) : Prop := stack.IsChain Entry.RestsOn

theorem ordered_operator {label : α} {below : Stack α} :
    Ordered (.operator op label :: below) ↔
      (∀ top ∈ below.head?, top.settles op = false) ∧ Ordered below :=
  List.isChain_cons

/-! ## What is deeper need not settle either -/

/-- **An operator that need not wait for the top** of a stack in order need not wait for any
operator above the nearest parenthesis. -/
theorem settles_eq_false_of_ordered (ordered : Ordered stack)
    (keeps : ∀ top ∈ stack.head?, top.settles op = false) :
    ∀ entry ∈ innermost stack, entry.settles op = false := by
  induction stack with
  | nil => exact nofun
  | cons top below ih =>
      cases top with
      | opening => exact nofun
      | operator later label =>
          obtain ⟨rests, orderedBelow⟩ := ordered_operator.mp ordered
          have here : op.waitsFor later = false := keeps _ rfl
          have keepsBelow : ∀ next ∈ below.head?, next.settles op = false := by
            intro next isTop
            cases next with
            | opening => rfl
            | operator earlier _ => exact Operator.not_waitsFor_trans here (rests _ isTop)
          intro entry member
          rcases List.mem_cons.mp member with rfl | deeper
          · exact here
          · exact ih orderedBelow keepsBelow entry deeper

/-- **What settles is all that the new operator waits for** above the nearest parenthesis, and
nothing else moves. -/
theorem settle_eq_filter (ordered : Ordered stack) (op : Operator) :
    settle op stack =
      (labels ((innermost stack).filter (Entry.settles op)),
        (innermost stack).filter (!Entry.settles op ·) ++ outer stack) := by
  induction stack with
  | nil => rfl
  | cons top below ih =>
      cases top with
      | opening => rfl
      | operator later label =>
          rw [settle_operator]
          split
          next waits => simp [ih (ordered_operator.mp ordered).2, waits]
          next keeps =>
            -- Settling stops here, and the test fails for all that is deeper.
            have onTop : ∀ top ∈ (Entry.operator later label :: below).head?,
                top.settles op = false := by
              rintro _ ⟨⟩
              simpa using keeps
            have none := settles_eq_false_of_ordered ordered onTop
            rw [List.filter_eq_nil_iff.mpr fun entry member => by simp [none entry member],
              List.filter_eq_self.mpr fun entry member => by simp [none entry member],
              innermost_append_outer]
            rfl

/-! ## The invariant -/

/-- What does not settle is the lower part of the stack. -/
theorem settle_suffix (op : Operator) (stack : Stack α) : (settle op stack).2 <:+ stack := by
  induction stack with
  | nil => exact List.suffix_refl []
  | cons top below ih =>
      cases top with
      | opening => exact List.suffix_refl _
      | operator later label =>
          rw [settle_operator]
          split
          next => exact ih.trans (List.suffix_cons _ below)
          next => exact List.suffix_refl _

/-- The new operator need not wait for the top of what does not settle. -/
theorem settles_head?_settle (op : Operator) (stack : Stack α) :
    ∀ top ∈ (settle op stack).2.head?, top.settles op = false := by
  induction stack with
  | nil => exact nofun
  | cons entry below ih =>
      cases entry with
      | opening =>
          intro top isTop
          obtain rfl := Option.some.inj isTop
          rfl
      | operator later label =>
          rw [settle_operator]
          split
          next => exact ih
          next keeps =>
            intro top isTop
            obtain rfl := Option.some.inj isTop
            simpa using keeps

theorem Ordered.of_suffix {lower : Stack α} (ordered : Ordered stack) (suffix : lower <:+ stack) :
    Ordered lower :=
  List.IsChain.suffix ordered suffix

/-- **A step leaves the stack in order.** -/
theorem ordered_step {item : Item α} {written : List α} (ordered : Ordered stack)
    (stepped : step stack item = .ok (written, rest)) : Ordered rest := by
  cases item with
  | operand label =>
      obtain ⟨-, rfl⟩ := Prod.mk.inj (Except.ok.inj stepped)
      exact ordered
  | opening =>
      obtain ⟨-, rfl⟩ := Prod.mk.inj (Except.ok.inj stepped)
      exact List.isChain_cons.mpr ⟨fun _ _ => trivial, ordered⟩
  | operator op label =>
      obtain ⟨-, rfl⟩ := Prod.mk.inj (Except.ok.inj stepped)
      exact ordered_operator.mpr
        ⟨settles_head?_settle op stack, ordered.of_suffix (settle_suffix op stack)⟩
  | closing =>
      obtain ⟨above, rfl, -⟩ := exists_group_of_step_closing stepped
      exact ordered.of_suffix ((List.suffix_cons _ rest).trans (List.suffix_append above _))

/-- **A run leaves the stack in order.** -/
theorem ordered_run {items : List (Except SyntaxError (Item α))} {written : List α}
    (ordered : Ordered stack) (ran : run stack items = .ok (written, rest)) : Ordered rest := by
  induction items generalizing stack written with
  | nil =>
      obtain ⟨-, rfl⟩ := Prod.mk.inj (Except.ok.inj ran)
      exact ordered
  | cons item items ih =>
      obtain ⟨read, first, middle, later, -, stepped, ranLater, -⟩ := run_cons_eq_ok ran
      exact ih (ordered_step ordered stepped) ranLater

/-! ## Where the entries come from -/

/-- What an item puts on the stack. -/
def Item.entry? : Item α → Option (Entry α)
  | .operator op label => some (.operator op label)
  | .opening => some .opening
  | .operand _ | .closing => none

/-- A step puts nothing on the stack but its item. -/
theorem mem_of_step {item : Item α} {written : List α} {entry : Entry α}
    (stepped : step stack item = .ok (written, rest)) (member : entry ∈ rest) :
    entry ∈ stack ∨ item.entry? = some entry := by
  cases item with
  | operand label =>
      obtain ⟨-, rfl⟩ := Prod.mk.inj (Except.ok.inj stepped)
      exact .inl member
  | opening =>
      obtain ⟨-, rfl⟩ := Prod.mk.inj (Except.ok.inj stepped)
      rcases List.mem_cons.mp member with rfl | before
      · exact .inr rfl
      · exact .inl before
  | operator op label =>
      obtain ⟨-, rfl⟩ := Prod.mk.inj (Except.ok.inj stepped)
      rcases List.mem_cons.mp member with rfl | before
      · exact .inr rfl
      · exact .inl ((settle_suffix op stack).subset before)
  | closing =>
      obtain ⟨above, rfl, -⟩ := exists_group_of_step_closing stepped
      exact .inl (List.mem_append_right above (List.mem_cons_of_mem _ member))

/-- **What waits after a run** waited before it or was read. -/
theorem mem_of_run {items : List (Except SyntaxError (Item α))} {written : List α}
    {entry : Entry α} (ran : run stack items = .ok (written, rest)) (member : entry ∈ rest) :
    entry ∈ stack ∨ ∃ read, .ok read ∈ items ∧ read.entry? = some entry := by
  induction items generalizing stack written with
  | nil =>
      obtain ⟨-, rfl⟩ := Prod.mk.inj (Except.ok.inj ran)
      exact .inl member
  | cons item items ih =>
      obtain ⟨read, first, middle, later, rfl, stepped, ranLater, -⟩ := run_cons_eq_ok ran
      rcases ih ranLater with before | ⟨other, inside, isEntry⟩
      · rcases mem_of_step stepped before with before | isEntry
        · exact .inl before
        · exact .inr ⟨read, List.mem_cons_self, isEntry⟩
      · exact .inr ⟨other, List.mem_cons_of_mem _ inside, isEntry⟩

end ShuntingYard

namespace OperatorTable

open ShuntingYard

variable {table : OperatorTable}

/-- An operator that waits is the one that the table holds under the symbol of its token. -/
theorem held_of_resolve {token label : Token} {read : Item Token} {op : Operator}
    (resolved : table.resolve token token = .ok read)
    (isEntry : read.entry? = some (.operator op label)) :
    table.find? op.symbol = some op ∧ label = .operator op.symbol := by
  cases token with
  | number value | opening | closing =>
      obtain rfl := Except.ok.inj resolved
      cases isEntry
  | operator symbol =>
      rw [resolve] at resolved
      split at resolved
      next found held =>
        obtain rfl := Except.ok.inj resolved
        obtain ⟨rfl, rfl⟩ := Entry.operator.inj (Option.some.inj isEntry)
        obtain rfl := symbol_eq_of_find? held
        exact ⟨held, rfl⟩
      next => cases resolved

/-- **What waits is in order, whatever has been read.**  An operator does not wait for those
below it up to the nearest parenthesis, so precedences do not decrease towards the top and
equal ones lie under right-associative operators.  Every operator that waits is the one that
the table holds.  A new one writes exactly those above the nearest parenthesis that it waits
for, from the top, and the others stay as they are. -/
theorem run_waiting_ordered (table : OperatorTable) (items : List (Except SyntaxError Token))
    (written : List Token) (stack : Stack Token)
    (ran : run [] (items.map (· >>= fun token => table.resolve token token)) =
      .ok (written, stack)) :
    (∀ above later a below earlier b, stack = above ++ .operator later a :: below →
      .operator earlier b ∈ innermost below →
        later.waitsFor earlier = false ∧ earlier.precedence ≤ later.precedence ∧
          (earlier.precedence = later.precedence → later.associativity = .right)) ∧
    (∀ op label, .operator op label ∈ stack →
      table.find? op.symbol = some op ∧ label = .operator op.symbol) ∧
    ∀ op label, step stack (.operator op label) =
      .ok (labels ((innermost stack).filter (Entry.settles op)),
        .operator op label :: ((innermost stack).filter (!Entry.settles op ·) ++ outer stack)) := by
  have ordered : Ordered stack := ordered_run List.isChain_nil ran
  refine ⟨?inOrder, ?held, ?settled⟩
  case inOrder =>
    rintro above later a below earlier b rfl inside
    obtain ⟨rests, orderedBelow⟩ :=
      ordered_operator.mp (ordered.of_suffix (List.suffix_append above _))
    have keeps : later.waitsFor earlier = false :=
      settles_eq_false_of_ordered orderedBelow rests _ inside
    exact ⟨keeps, Operator.waitsFor_eq_false_iff.mp keeps⟩
  case held =>
    intro op label member
    rcases mem_of_run ran member with before | ⟨read, inside, isEntry⟩
    · cases before
    · obtain ⟨item, -, looked⟩ := List.mem_map.mp inside
      obtain ⟨token, -, resolved⟩ := bind_eq_ok.mp looked
      exact held_of_resolve resolved isEntry
  case settled =>
    intro op label
    rw [step, settle_eq_filter ordered op]

/-- Behind `1 + ( 2 * 3 ^ 4 ^` the powers wait on the product, and the sum below the
parenthesis.  A new product writes both powers and the first product. -/
theorem run_waiting_ordered_powers :
    let tokens : List Token := [.number 1, .operator "+", .opening, .number 2, .operator "*",
      .number 3, .operator "^", .number 4, .operator "^"]
    let stack : Stack Token := [.operator .power (.operator "^"), .operator .power (.operator "^"),
      .operator .multiplication (.operator "*"), .opening, .operator .addition (.operator "+")]
    run [] ((tokens.map .ok).map (· >>= fun token => standard.resolve token token)) =
        .ok ([.number 1, .number 2, .number 3, .number 4], stack) ∧
      .operator .power (.operator "^") ∈ innermost (stack.drop 1) ∧
      Operator.power.waitsFor .power = false ∧
      Operator.power.associativity = .right ∧
      standard.find? "+" = some .addition ∧
      step stack (.operator .multiplication (.operator "*")) =
        .ok ([.operator "^", .operator "^", .operator "*"],
          [.operator .multiplication (.operator "*"), .opening,
            .operator .addition (.operator "+")]) := by
  intro tokens stack
  have ran : run [] ((tokens.map .ok).map (· >>= fun token => standard.resolve token token)) =
      .ok ([.number 1, .number 2, .number 3, .number 4], stack) := rfl
  have below : .operator .power (.operator "^") ∈ innermost (stack.drop 1) := List.mem_cons_self
  obtain ⟨inOrder, held, settled⟩ := run_waiting_ordered standard _ _ stack ran
  obtain ⟨keeps, -, ties⟩ := inOrder [] .power _ (stack.drop 1) .power _ rfl below
  have waits : .operator .addition (.operator "+") ∈ stack := by simp [stack]
  exact ⟨ran, below, keeps, ties rfl, (held .addition _ waits).1,
    settled .multiplication (.operator "*")⟩

end OperatorTable

end InfixCalculator
