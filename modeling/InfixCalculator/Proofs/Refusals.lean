import InfixCalculator.Proofs.WaitingStack
import Mathlib.Data.List.Induction

/-!
# The earliest refusal decides

Three kinds of items are refused: a failure of the scan, an operator that the
table does not hold, and a closing parenthesis without an open group.  The first
two can be seen from the item alone.  The third depends on all that was read
before, and the stack has no count of the open groups; they stand among operators
that come and go.

That the stack knows the depth all the same is the invariant behind this module
(`exists_run_of_accepts`): as long as nothing has been refused, the groups that
are open on the stack are the opening parentheses that outnumber the closing ones.
It is carried from the left, one item at a time, so the statements look at a
sequence and the item behind it (`accepts_concat`).
-/

namespace InfixCalculator

open ShuntingYard

/-- How many opening parentheses are among the items of an expression. -/
def openings (items : List (Except SyntaxError Token)) : Nat := items.count (.ok .opening)

/-- How many closing parentheses are among the items of an expression. -/
def closings (items : List (Except SyntaxError Token)) : Nat := items.count (.ok .closing)

@[simp] theorem openings_append (items more : List (Except SyntaxError Token)) :
    openings (items ++ more) = openings items + openings more := List.count_append

@[simp] theorem closings_append (items more : List (Except SyntaxError Token)) :
    closings (items ++ more) = closings items + closings more := List.count_append

namespace OperatorTable

variable {table : OperatorTable} {before items : List (Except SyntaxError Token)}
  {item : Except SyntaxError Token} {error : SyntaxError}

/-- **An item is refused** behind those before it, and with which failure. -/
inductive Refuses (table : OperatorTable) (before : List (Except SyntaxError Token)) :
    Except SyntaxError Token → SyntaxError → Prop where
  /-- A failure is passed on as it is. -/
  | failure (error : SyntaxError) : Refuses table before (.error error) error
  /-- An operator is not in the table. -/
  | unknown {symbol : String} (missing : table.find? symbol = none) :
      Refuses table before (.ok (.operator symbol)) (.unknownOperator symbol)
  /-- A closing parenthesis closes no group. -/
  | unmatched (noGroup : openings before ≤ closings before) :
      Refuses table before (.ok .closing) .unmatchedClosing

/-- **A sequence is accepted** if none of its items is refused behind those before
it. -/
def Accepts (table : OperatorTable) (items : List (Except SyntaxError Token)) : Prop :=
  ∀ before item after error, items = before ++ item :: after → ¬ table.Refuses before item error

/-- **The first item of a sequence that is refused**, and with which failure. -/
def FirstRefusal (table : OperatorTable) (items : List (Except SyntaxError Token))
    (error : SyntaxError) : Prop :=
  ∃ before item after, items = before ++ item :: after ∧ table.Accepts before ∧
    table.Refuses before item error

/-! ## One item more -/

theorem accepts_nil : table.Accepts [] := by
  intro before item after error split
  simp at split

/-- A longer sequence is accepted if its last item is not refused either. -/
theorem accepts_concat : table.Accepts (items ++ [item]) ↔
    table.Accepts items ∧ ∀ error, ¬ table.Refuses items item error := by
  constructor
  · intro accepts
    constructor
    · rintro before earlier after error rfl
      exact accepts before earlier (after ++ [item]) error (by simp)
    · exact fun error => accepts items item [] error rfl
  · rintro ⟨accepts, last⟩ before earlier after error split
    rcases List.eq_nil_or_concat after with rfl | ⟨after, final, rfl⟩
    · obtain ⟨rfl, same⟩ := List.append_inj' split rfl
      obtain rfl := (List.cons.inj same).1
      exact last error
    · rw [List.concat_eq_append, ← List.cons_append, ← List.append_assoc] at split
      obtain ⟨rfl, -⟩ := List.append_inj' split rfl
      exact accepts before earlier after error rfl

/-- A sequence that is not accepted has a first item that is refused. -/
theorem accepts_or_firstRefusal (table : OperatorTable)
    (items : List (Except SyntaxError Token)) :
    table.Accepts items ∨ ∃ error, table.FirstRefusal items error := by
  induction items using List.reverseRecOn with
  | nil => exact .inl accepts_nil
  | append_singleton items item ih =>
      rcases ih with accepts | ⟨error, before, earlier, after, rfl, accepts, refused⟩
      · by_cases last : ∃ error, table.Refuses items item error
        · obtain ⟨error, refused⟩ := last
          exact .inr ⟨error, items, item, [], rfl, accepts, refused⟩
        · exact .inl (accepts_concat.mpr ⟨accepts, not_exists.mp last⟩)
      · exact .inr ⟨error, before, earlier, after ++ [item], by simp, accepts, refused⟩

/-! ## Reading what is accepted -/

/-- The item of a token, its operator looked up in the table. -/
def lookUp (table : OperatorTable) (item : Except SyntaxError Token) :
    Except SyntaxError (Item Token) :=
  item >>= fun token => table.resolve token token

theorem postfixOrder_eq_arrange (table : OperatorTable)
    (items : List (Except SyntaxError Token)) :
    table.postfixOrder items = arrange (items.map table.lookUp) := rfl

/-- **An item that is not refused is read**, and the stack goes on to know the
groups that are open. -/
theorem exists_step_of_not_refuses {stack : Stack Token}
    (depth : openGroups stack + closings before = openings before)
    (accepted : ∀ error, ¬ table.Refuses before item error) :
    ∃ read written rest, table.lookUp item = .ok read ∧ step stack read = .ok (written, rest) ∧
      openGroups rest + closings (before ++ [item]) = openings (before ++ [item]) := by
  rw [closings_append, openings_append]
  match item with
  | .error error => exact absurd (.failure error) (accepted error)
  | .ok (.number value) => exact ⟨_, _, _, rfl, rfl, depth⟩
  | .ok (.operator symbol) =>
      cases found : table.find? symbol with
      | none => exact absurd (.unknown found) (accepted _)
      | some op =>
          have looked : table.lookUp (.ok (.operator symbol)) =
              .ok (.operator op (.operator symbol)) := by
            simp [lookUp, resolve, found, bind, Except.bind]
          have plain : openGroups (settle op stack).2 = openGroups stack :=
            openGroups_settle op stack
          exact ⟨_, _, _, looked, rfl, plain ▸ depth⟩
  | .ok .opening =>
      have one : openings [.ok .opening] = 1 := rfl
      have none : closings [.ok .opening] = 0 := rfl
      exact ⟨_, _, _, rfl, rfl, by rw [openGroups_opening]; omega⟩
  | .ok .closing =>
      cases inside : openGroups stack with
      | zero => exact absurd (.unmatched (by omega)) (accepted _)
      | succ outer =>
          obtain ⟨above, below, rfl, plain, rfl⟩ := exists_innermost_group inside
          have one : closings [.ok .closing] = 1 := rfl
          have none : openings [.ok .closing] = 0 := rfl
          exact ⟨_, _, _, rfl, closeGroup_append plain below, by omega⟩

/-- **What is accepted is read**: the groups that are open in the end are the opening
parentheses that outnumber the closing ones. -/
theorem exists_run_of_accepts (accepts : table.Accepts items) :
    ∃ written stack, run [] (items.map table.lookUp) = .ok (written, stack) ∧
      openGroups stack + closings items = openings items := by
  induction items using List.reverseRecOn with
  | nil => exact ⟨[], [], rfl, rfl⟩
  | append_singleton items item ih =>
      obtain ⟨accepts, last⟩ := accepts_concat.mp accepts
      obtain ⟨written, stack, ran, depth⟩ := ih accepts
      obtain ⟨read, more, rest, looked, stepped, depthRest⟩ := exists_step_of_not_refuses depth last
      have ranLast : run stack [table.lookUp item] = .ok (more ++ [], rest) :=
        looked ▸ run_cons_ok stepped (run_nil rest)
      rw [List.map_append]
      exact ⟨_, rest, run_append_ok ran ranLast, depthRest⟩

/-- An accepted sequence fails for a group that is left open, and for nothing else. -/
theorem postfixOrder_of_accepts (accepts : table.Accepts items) :
    ∃ out, table.postfixOrder items =
      if closings items < openings items then .error .unmatchedOpening else .ok out := by
  obtain ⟨written, stack, ran, depth⟩ := exists_run_of_accepts accepts
  refine ⟨written ++ labels stack, ?_⟩
  rw [postfixOrder_eq_arrange, arrange, ran]
  simp only [bind, Except.bind, drain_eq]
  by_cases closed : openGroups stack = 0
  · rw [if_pos closed, if_neg (by omega)]
    rfl
  · rw [if_neg closed, if_pos (by omega)]

/-! ## Reading what is refused -/

/-- **The first refusal is the failure**, whatever stands behind it. -/
theorem postfixOrder_of_firstRefusal (refusal : table.FirstRefusal items error)
    (more : List (Except SyntaxError Token)) :
    table.postfixOrder (items ++ more) = .error error := by
  obtain ⟨before, item, after, rfl, accepts, refused⟩ := refusal
  obtain ⟨written, stack, ran, depth⟩ := exists_run_of_accepts accepts
  have failed : table.lookUp item >>= step stack = .error error := by
    cases refused with
    | failure => rfl
    | unknown missing => simp [lookUp, resolve, missing, bind, Except.bind]
    | unmatched noGroup => exact closeGroup_of_openGroups_eq_zero (by omega)
  rw [postfixOrder_eq_arrange, List.append_assoc, List.cons_append, List.map_append, List.map_cons]
  exact bind_eq_error.mpr (.inl (run_append_eq_error ran (run_cons_eq_error failed)))

theorem postfixOrder_eq_error_iff : table.postfixOrder items = .error error ↔
    table.FirstRefusal items error ∨
      table.Accepts items ∧ closings items < openings items ∧ error = .unmatchedOpening := by
  rcases accepts_or_firstRefusal table items with accepts | ⟨first, refusal⟩
  · have noRefusal : ¬ table.FirstRefusal items error := by
      rintro ⟨before, item, after, split, -, refused⟩
      exact accepts before item after error split refused
    obtain ⟨out, ordered⟩ := postfixOrder_of_accepts accepts
    rw [ordered]
    split
    next unclosed => simp [noRefusal, accepts, unclosed, eq_comm]
    next closed => simp [noRefusal, closed]
  · have failed : table.postfixOrder items = .error first := by
      simpa using postfixOrder_of_firstRefusal refusal []
    constructor
    · intro same
      obtain rfl := Except.error.inj (failed.symm.trans same)
      exact .inl refusal
    · rintro (other | ⟨accepts, -, -⟩)
      · simpa using postfixOrder_of_firstRefusal other []
      · obtain ⟨before, item, after, split, -, refused⟩ := refusal
        exact absurd refused (accepts before item after first split)

theorem exists_postfixOrder_eq_ok_iff : (∃ out, table.postfixOrder items = .ok out) ↔
    table.Accepts items ∧ openings items ≤ closings items := by
  constructor
  · rintro ⟨out, ordered⟩
    rcases accepts_or_firstRefusal table items with accepts | ⟨first, refusal⟩
    · refine ⟨accepts, Nat.le_of_not_lt fun unclosed => ?_⟩
      exact nomatch ordered.symm.trans
        (postfixOrder_eq_error_iff.mpr (.inr ⟨accepts, unclosed, rfl⟩))
    · exact nomatch ordered.symm.trans (postfixOrder_eq_error_iff.mpr (.inl refusal))
  · rintro ⟨accepts, closed⟩
    obtain ⟨out, ordered⟩ := postfixOrder_of_accepts accepts
    exact ⟨out, ordered.trans (if_neg (Nat.not_lt.mpr closed))⟩

/-- **The earliest refusal decides.**  The first item that is a failure of the scan,
an operator that the table does not hold or a closing parenthesis without an open
group is the failure of the whole, and what stands behind it changes nothing.
Without one, an opening parenthesis that is never closed is the only failure. -/
theorem postfixOrder_earliest_refusal (table : OperatorTable)
    (items : List (Except SyntaxError Token)) :
    (∀ error, table.postfixOrder items = .error error ↔
      table.FirstRefusal items error ∨
        table.Accepts items ∧ closings items < openings items ∧ error = .unmatchedOpening) ∧
    ((∃ out, table.postfixOrder items = .ok out) ↔
      table.Accepts items ∧ openings items ≤ closings items) ∧
    ∀ error, table.FirstRefusal items error →
      ∀ more, table.postfixOrder (items ++ more) = .error error :=
  ⟨fun _ => postfixOrder_eq_error_iff, exists_postfixOrder_eq_ok_iff,
    fun _ refusal more => postfixOrder_of_firstRefusal refusal more⟩

/-- In `1)` the parenthesis is refused, and so is whatever begins that way. -/
theorem postfixOrder_earliest_refusal_closing :
    (∅ : OperatorTable).FirstRefusal [.ok (.number 1), .ok .closing] .unmatchedClosing ∧
      ∀ more, (∅ : OperatorTable).postfixOrder (.ok (.number 1) :: .ok .closing :: more) =
        .error .unmatchedClosing := by
  have noNumber : ∀ error, ¬ (∅ : OperatorTable).Refuses [] (.ok (.number 1)) error := by
    rintro error ⟨⟩
  have refusal : (∅ : OperatorTable).FirstRefusal [.ok (.number 1), .ok .closing]
      .unmatchedClosing :=
    ⟨[.ok (.number 1)], .ok .closing, [], rfl, accepts_concat.mpr ⟨accepts_nil, noNumber⟩,
      .unmatched (Nat.le_refl 0)⟩
  exact ⟨refusal, (postfixOrder_earliest_refusal ∅ _).2.2 _ refusal⟩

end OperatorTable

end InfixCalculator
