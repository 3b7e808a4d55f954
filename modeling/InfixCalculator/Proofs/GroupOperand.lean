import InfixCalculator.Operator.Standard
import InfixCalculator.Proofs.Refusals

/-!
# A group is one operand

An operand is written as soon as it is read and leaves the stack as it was.  A
group does the same, with all that stands in it: its opening parenthesis hides the
stack below, so its content is read as if on its own (`run_inside`), and its closing
parenthesis writes what still waits above the hidden stack and gives that stack back
(`actsAsOperand_group`).

What stands around an operand cannot tell the two apart.  It is written before and
behind the operand in the same way, or fails in the same way, whichever of the two
it finds (`arrange_around`).  No use is made of what stands there: it need not be an
expression, with the operand or without it.
-/

namespace InfixCalculator

namespace ShuntingYard

universe u

variable {α : Type u}

/-! ## Below an open group -/

/-- An operator settles above the innermost open group only. -/
theorem settle_inside (op : Operator) (above below : Stack α) :
    settle op (above ++ .opening :: below) =
      ((settle op above).1, (settle op above).2 ++ .opening :: below) := by
  induction above with
  | nil => rfl
  | cons entry above ih =>
      cases entry with
      | opening => rfl
      | operator top label =>
          rw [List.cons_append, settle_operator, settle_operator, ih]
          split <;> rfl

/-- A group that is closed above some stack takes nothing from that stack. -/
theorem closeGroup_inside {above rest : Stack α} {written : List α}
    (closed : closeGroup above = .ok (written, rest)) (below : Stack α) :
    closeGroup (above ++ below) = .ok (written, rest ++ below) := by
  induction above generalizing written with
  | nil => exact nomatch closed
  | cons entry above ih =>
      cases entry with
      | opening =>
          obtain ⟨rfl, rfl⟩ := Prod.mk.inj (Except.ok.inj closed)
          rfl
      | operator op label =>
          obtain ⟨⟨first, middle⟩, inner, closed⟩ := bind_eq_ok.mp closed
          obtain ⟨rfl, rfl⟩ := Prod.mk.inj (Except.ok.inj closed)
          rw [List.cons_append, closeGroup, ih inner]
          rfl

/-- What is read above an open group leaves the stack below alone. -/
theorem step_inside {above rest : Stack α} {item : Item α} {written : List α}
    (stepped : step above item = .ok (written, rest)) (below : Stack α) :
    step (above ++ .opening :: below) item = .ok (written, rest ++ .opening :: below) := by
  cases item with
  | operand label =>
      obtain ⟨rfl, rfl⟩ := Prod.mk.inj (Except.ok.inj stepped)
      rfl
  | operator op label =>
      obtain ⟨rfl, rfl⟩ := Prod.mk.inj (Except.ok.inj stepped)
      rw [step, settle_inside]
      rfl
  | opening =>
      obtain ⟨rfl, rfl⟩ := Prod.mk.inj (Except.ok.inj stepped)
      rfl
  | closing => exact closeGroup_inside stepped (.opening :: below)

/-- **The content of a group is read as if on its own.** -/
theorem run_inside {above rest : Stack α} {items : List (Except SyntaxError (Item α))}
    {written : List α} (ran : run above items = .ok (written, rest)) (below : Stack α) :
    run (above ++ .opening :: below) items = .ok (written, rest ++ .opening :: below) := by
  induction items generalizing above written with
  | nil =>
      obtain ⟨rfl, rfl⟩ := Prod.mk.inj (Except.ok.inj ran)
      rfl
  | cons item items ih =>
      obtain ⟨read, first, middle, later, rfl, stepped, ranRest, rfl⟩ := run_cons_eq_ok ran
      exact run_cons_ok (step_inside stepped below) (ih ranRest)

/-! ## Operands -/

/-- **Items that act as an operand**: they are written at once, and the stack is as
it was. -/
def ActsAsOperand (items : List (Except SyntaxError (Item α))) (written : List α) : Prop :=
  ∀ stack, run stack items = .ok (written, stack)

theorem actsAsOperand_operand (label : α) : ActsAsOperand [.ok (.operand label)] [label] :=
  fun _ => rfl

/-- **A group acts as an operand** if its content can be arranged; what is written
for it is the content. -/
theorem actsAsOperand_group {inner : List (Except SyntaxError (Item α))} {written : List α}
    (arranged : arrange inner = .ok written) :
    ActsAsOperand (.ok .opening :: inner ++ [.ok .closing]) written := by
  intro stack
  obtain ⟨first, above, ran, plain, rfl⟩ := arrange_eq_ok_iff.mp arranged
  have opened : step stack .opening = .ok ([], .opening :: stack) := rfl
  have inside : run (.opening :: stack) inner = .ok (first, above ++ .opening :: stack) :=
    run_inside ran stack
  have closed : step (above ++ .opening :: stack) .closing = .ok (labels above, stack) :=
    closeGroup_append plain stack
  calc run stack (.ok .opening :: inner ++ [.ok .closing])
      = .ok ([] ++ (first ++ (labels above ++ [])), stack) :=
        run_cons_ok opened (run_append_ok inside (run_cons_ok closed (run_nil stack)))
    _ = .ok (first ++ labels above, stack) := by rw [List.nil_append, List.append_nil]

/-- **What stands around an operand**: what is written before and behind it, or the
failure. -/
def around (before after : List (Except SyntaxError (Item α))) :
    Except SyntaxError (List α × List α) := do
  let (front, stack) ← run [] before
  let (later, stack) ← run stack after
  let left ← drain stack
  return (front, later ++ left)

/-- **What stands around an operand does not depend on the operand.** -/
theorem arrange_around {items : List (Except SyntaxError (Item α))} {written : List α}
    (operand : ActsAsOperand items written) (before after : List (Except SyntaxError (Item α))) :
    arrange (before ++ items ++ after) =
      (around before after).map fun (front, back) => front ++ written ++ back := by
  rw [arrange, around, run_append, run_append]
  simp only [bind, Except.bind]
  cases run [] before with
  | error e => rfl
  | ok first =>
      obtain ⟨front, stack⟩ := first
      simp only [operand stack, pure, Except.pure]
      cases run stack after with
      | error e => rfl
      | ok second =>
          obtain ⟨later, rest⟩ := second
          simp only
          cases drain rest with
          | error e => rfl
          | ok left => simp [Except.map]

end ShuntingYard

namespace OperatorTable

open ShuntingYard

/-- **A group is one operand.**  Around a number and around any group with a content
that can be ordered, the same is written before and behind, or the same failure
comes about; in the place of the number stands the content.  Since what is written
around the number is the same for every number, its place in the order is known. -/
theorem postfixOrder_group (table : OperatorTable)
    (before after : List (Except SyntaxError Token)) :
    ∃ outcome : Except SyntaxError (List Token × List Token),
      (∀ value, table.postfixOrder (before ++ .ok (.number value) :: after) =
        outcome.map fun (front, back) => front ++ .number value :: back) ∧
      ∀ inner out, table.postfixOrder inner = .ok out →
        table.postfixOrder (before ++ .ok .opening :: inner ++ .ok .closing :: after) =
          outcome.map fun (front, back) => front ++ out ++ back := by
  refine ⟨around (before.map table.lookUp) (after.map table.lookUp), ?_, ?_⟩
  · intro value
    have operand := actsAsOperand_operand (Token.number value)
    have arranged := arrange_around operand (before.map table.lookUp) (after.map table.lookUp)
    simpa [postfixOrder_eq_arrange, lookUp, resolve, bind, Except.bind] using arranged
  · intro inner out ordered
    have operand := actsAsOperand_group (table.postfixOrder_eq_arrange inner ▸ ordered)
    have arranged := arrange_around operand (before.map table.lookUp) (after.map table.lookUp)
    simpa [postfixOrder_eq_arrange, lookUp, resolve, bind, Except.bind] using arranged

/-- In `2*(3+4)!` the group stands where a number stands in `2*x!`. -/
theorem postfixOrder_group_factorial :
    OperatorTable.standard.postfixOrder [.ok (.number 3), .ok (.operator "+"), .ok (.number 4)] =
      .ok [.number 3, .number 4, .operator "+"] ∧
    ∃ outcome : Except SyntaxError (List Token × List Token),
      (∀ value, OperatorTable.standard.postfixOrder
        [.ok (.number 2), .ok (.operator "*"), .ok (.number value), .ok (.operator "!")] =
          outcome.map fun (front, back) => front ++ .number value :: back) ∧
      OperatorTable.standard.postfixOrder
        [.ok (.number 2), .ok (.operator "*"), .ok .opening, .ok (.number 3), .ok (.operator "+"),
          .ok (.number 4), .ok .closing, .ok (.operator "!")] =
        outcome.map fun (front, back) =>
          front ++ [.number 3, .number 4, .operator "+"] ++ back := by
  have ordered : OperatorTable.standard.postfixOrder
      [.ok (.number 3), .ok (.operator "+"), .ok (.number 4)] =
        .ok [.number 3, .number 4, .operator "+"] := rfl
  obtain ⟨outcome, number, group⟩ := postfixOrder_group .standard
    [.ok (.number 2), .ok (.operator "*")] [.ok (.operator "!")]
  have whole := group _ _ ordered
  simp only [List.cons_append, List.nil_append] at number whole
  exact ⟨ordered, outcome, number, whole⟩

end OperatorTable

end InfixCalculator
