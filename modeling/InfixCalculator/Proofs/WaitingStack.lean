import InfixCalculator.Postfix.ShuntingYard
import Mathlib.Data.List.Perm.Basic

/-!
# What waits on the stack

The stack of the shunting yard mixes operators that are not written yet with the
opening parentheses of groups that are not closed yet.  Operators leave it at
three places — when a new one settles, when a group is closed, and at the end —
and each of them takes a stretch from the top that holds no parenthesis.

Two things can be read off a stack: the labels that it still has to write
(`labels`) and how many groups are open (`openGroups`).  Every step moves labels
from the stack to the output without losing one, and changes the number of open
groups by its own parenthesis only, so both are facts about whole runs:

* `settle_append`, `closeGroup_append`, `drain_eq` — what leaves the stack at
  each of the three places.
* `step_perm`, `run_perm`, `arrange_perm` — labels are neither lost nor made.
* `nesting`, `nesting_step`, `nesting_run` — the open groups are those of the
  parentheses read so far.
-/

namespace InfixCalculator

namespace ShuntingYard

universe u v

variable {α : Type u}

/-- The label that an entry has to write. -/
def Entry.label? : Entry α → Option α
  | .opening => none
  | .operator _ label => some label

/-- The labels that a stack has to write, in the order in which they leave it. -/
def labels (stack : Stack α) : List α := stack.filterMap Entry.label?

@[simp] theorem labels_nil : labels ([] : Stack α) = [] := rfl

@[simp] theorem labels_opening (below : Stack α) : labels (.opening :: below) = labels below :=
  rfl

@[simp] theorem labels_operator (op : Operator) (label : α) (below : Stack α) :
    labels (.operator op label :: below) = label :: labels below := rfl

@[simp] theorem labels_append (above below : Stack α) :
    labels (above ++ below) = labels above ++ labels below := List.filterMap_append

/-- How many groups are open. -/
def openGroups : Stack α → Nat
  | [] => 0
  | .opening :: below => openGroups below + 1
  | .operator _ _ :: below => openGroups below

@[simp] theorem openGroups_nil : openGroups ([] : Stack α) = 0 := rfl

@[simp] theorem openGroups_opening (below : Stack α) :
    openGroups (.opening :: below) = openGroups below + 1 := rfl

@[simp] theorem openGroups_operator (op : Operator) (label : α) (below : Stack α) :
    openGroups (.operator op label :: below) = openGroups below := rfl

@[simp] theorem openGroups_append (above below : Stack α) :
    openGroups (above ++ below) = openGroups above + openGroups below := by
  induction above with
  | nil => simp
  | cons entry above ih =>
      cases entry with
      | opening => simp only [List.cons_append, openGroups_opening, ih]; omega
      | operator op label => simpa using ih

/-- The operator on top of the stack; a parenthesis hides the operators below
it. -/
def topOperator? : Stack α → Option Operator
  | .operator op _ :: _ => some op
  | _ => none

/-! ## The three places where operators leave the stack -/

/-- An operator settles the whole stretch of operators that it waits for. -/
theorem settle_append {op : Operator} {above : Stack α}
    (waits : ∀ entry ∈ above, ∃ top label, entry = .operator top label ∧ op.waitsFor top = true)
    (below : Stack α) :
    settle op (above ++ below) = (labels above ++ (settle op below).1, (settle op below).2) := by
  induction above with
  | nil => rfl
  | cons entry above ih =>
      obtain ⟨top, label, rfl, h⟩ := waits entry List.mem_cons_self
      have rest := ih fun entry member => waits entry (List.mem_cons_of_mem _ member)
      rw [List.cons_append, settle_operator, if_pos h, rest]
      rfl

/-- Nothing settles below an operator that need not wait for the top. -/
theorem settle_eq_self {op : Operator} {stack : Stack α}
    (keeps : ∀ top ∈ topOperator? stack, op.waitsFor top = false) :
    settle op stack = ([], stack) := by
  match stack with
  | [] => rfl
  | .opening :: below => rfl
  | .operator top label :: below =>
      have h : op.waitsFor top = false := keeps top rfl
      simp [settle_operator, h]

/-- Settling takes labels from the top of the stack. -/
theorem settle_labels (op : Operator) (stack : Stack α) :
    (settle op stack).1 ++ labels (settle op stack).2 = labels stack := by
  induction stack with
  | nil => rfl
  | cons entry below ih =>
      cases entry with
      | opening => rfl
      | operator top label =>
          rw [settle_operator]
          split
          · simpa using ih
          · simp

@[simp] theorem openGroups_settle (op : Operator) (stack : Stack α) :
    openGroups (settle op stack).2 = openGroups stack := by
  induction stack with
  | nil => rfl
  | cons entry below ih =>
      cases entry with
      | opening => rfl
      | operator top label =>
          rw [settle_operator]
          split
          · simpa using ih
          · rfl

/-- Closing writes the operators above the innermost open group. -/
theorem closeGroup_append {above : Stack α} (plain : openGroups above = 0) (below : Stack α) :
    closeGroup (above ++ .opening :: below) = .ok (labels above, below) := by
  induction above with
  | nil => rfl
  | cons entry above ih =>
      cases entry with
      | opening => simp at plain
      | operator op label =>
          rw [List.cons_append, closeGroup, ih plain]
          rfl

theorem closeGroup_of_openGroups_eq_zero {stack : Stack α} (plain : openGroups stack = 0) :
    closeGroup stack = .error .unmatchedClosing := by
  induction stack with
  | nil => rfl
  | cons entry below ih =>
      cases entry with
      | opening => simp at plain
      | operator op label =>
          rw [closeGroup, ih plain]
          rfl

/-- An open group splits the stack at its parenthesis. -/
theorem exists_innermost_group {stack : Stack α} {depth : Nat}
    (h : openGroups stack = depth + 1) :
    ∃ above below, stack = above ++ .opening :: below ∧ openGroups above = 0 ∧
      openGroups below = depth := by
  induction stack with
  | nil => simp at h
  | cons entry stack ih =>
      cases entry with
      | opening => exact ⟨[], stack, rfl, rfl, by simpa using h⟩
      | operator op label =>
          obtain ⟨above, below, rfl, plain, rest⟩ := ih h
          exact ⟨.operator op label :: above, below, rfl, plain, rest⟩

/-- **A closing parenthesis that is read** closes the innermost open group. -/
theorem exists_group_of_step_closing {stack rest : Stack α} {written : List α}
    (h : step stack .closing = .ok (written, rest)) :
    ∃ above, stack = above ++ .opening :: rest ∧ openGroups above = 0 ∧ written = labels above := by
  rw [step] at h
  cases depth : openGroups stack with
  | zero =>
      rw [closeGroup_of_openGroups_eq_zero depth] at h
      cases h
  | succ outer =>
      obtain ⟨above, below, rfl, plain, -⟩ := exists_innermost_group depth
      rw [closeGroup_append plain] at h
      obtain ⟨rfl, rfl⟩ := Prod.mk.inj (Except.ok.inj h)
      exact ⟨above, rfl, plain, rfl⟩

/-- At the end everything that waits is written, unless a group is open. -/
theorem drain_eq (stack : Stack α) :
    drain stack =
      if openGroups stack = 0 then .ok (labels stack) else .error .unmatchedOpening := by
  induction stack with
  | nil => rfl
  | cons entry below ih =>
      cases entry with
      | opening => simp [drain]
      | operator op label =>
          rw [drain, ih, openGroups_operator]
          split <;> rfl

/-! ## Runs that succeed, put together -/

theorem run_cons_ok {stack middle rest : Stack α} {item : Item α}
    {items : List (Except SyntaxError (Item α))} {first later : List α}
    (stepped : step stack item = .ok (first, middle))
    (ran : run middle items = .ok (later, rest)) :
    run stack (.ok item :: items) = .ok (first ++ later, rest) := by
  simp only [run, bind, Except.bind, stepped, ran]
  rfl

theorem run_append_ok {stack middle rest : Stack α}
    {items more : List (Except SyntaxError (Item α))} {first later : List α}
    (ran : run stack items = .ok (first, middle)) (ranMore : run middle more = .ok (later, rest)) :
    run stack (items ++ more) = .ok (first ++ later, rest) := by
  simp only [run_append, bind, Except.bind, ran, ranMore]
  rfl

/-- A run that succeeds has read items and no failure. -/
theorem run_cons_eq_ok {stack rest : Stack α} {item : Except SyntaxError (Item α)}
    {items : List (Except SyntaxError (Item α))} {written : List α}
    (h : run stack (item :: items) = .ok (written, rest)) :
    ∃ read first middle later, item = .ok read ∧ step stack read = .ok (first, middle) ∧
      run middle items = .ok (later, rest) ∧ written = first ++ later := by
  obtain ⟨read, here, h⟩ := bind_eq_ok.mp h
  obtain ⟨⟨first, middle⟩, stepped, h⟩ := bind_eq_ok.mp h
  obtain ⟨⟨later, final⟩, ran, h⟩ := bind_eq_ok.mp h
  obtain ⟨rfl, rfl⟩ := Prod.mk.inj (Except.ok.inj h)
  exact ⟨read, first, middle, later, here, stepped, ran, rfl⟩

/-- A run of a longer sequence is a run of its first part and then of the other. -/
theorem run_append_eq_ok {stack rest : Stack α}
    {items more : List (Except SyntaxError (Item α))} {written : List α}
    (h : run stack (items ++ more) = .ok (written, rest)) :
    ∃ first middle later, run stack items = .ok (first, middle) ∧
      run middle more = .ok (later, rest) ∧ written = first ++ later := by
  rw [run_append] at h
  obtain ⟨⟨first, middle⟩, ran, h⟩ := bind_eq_ok.mp h
  obtain ⟨⟨later, final⟩, ranMore, h⟩ := bind_eq_ok.mp h
  obtain ⟨rfl, rfl⟩ := Prod.mk.inj (Except.ok.inj h)
  exact ⟨first, middle, later, ran, ranMore, rfl⟩

/-- A sequence is arranged if its run leaves no group open; what waits by then is
written last. -/
theorem arrange_eq_ok_iff {items : List (Except SyntaxError (Item α))} {out : List α} :
    arrange items = .ok out ↔
      ∃ written stack, run [] items = .ok (written, stack) ∧ openGroups stack = 0 ∧
        out = written ++ labels stack := by
  constructor
  · intro arranged
    obtain ⟨⟨written, stack⟩, ran, arranged⟩ := bind_eq_ok.mp arranged
    obtain ⟨left, drained, arranged⟩ := bind_eq_ok.mp arranged
    obtain rfl := Except.ok.inj arranged
    rw [drain_eq] at drained
    split at drained
    next closed =>
      obtain rfl := Except.ok.inj drained
      exact ⟨written, stack, ran, closed, rfl⟩
    next => exact nomatch drained
  · rintro ⟨written, stack, ran, closed, rfl⟩
    rw [arrange, ran]
    simp only [bind, Except.bind, drain_eq, if_pos closed, pure, Except.pure]

/-! ## Runs that fail -/

theorem run_cons_eq_error {stack : Stack α} {item : Except SyntaxError (Item α)}
    {items : List (Except SyntaxError (Item α))} {error : SyntaxError}
    (failed : item >>= step stack = .error error) : run stack (item :: items) = .error error := by
  rw [run]
  rcases bind_eq_error.mp failed with failed | ⟨read, here, failed⟩
  · exact bind_eq_error.mpr (.inl failed)
  · exact bind_eq_error.mpr (.inr ⟨read, here, bind_eq_error.mpr (.inl failed)⟩)

/-- What fails behind items that are read fails in the whole. -/
theorem run_append_eq_error {stack middle : Stack α}
    {items more : List (Except SyntaxError (Item α))} {written : List α} {error : SyntaxError}
    (ran : run stack items = .ok (written, middle)) (failed : run middle more = .error error) :
    run stack (items ++ more) = .error error := by
  rw [run_append]
  exact bind_eq_error.mpr (.inr ⟨_, ran, bind_eq_error.mpr (.inl failed)⟩)

/-! ## Nothing is lost -/

/-- The label that is to be written for an item. -/
def Item.label? : Item α → Option α
  | .operand label | .operator _ label => some label
  | .opening | .closing => none

/-- **A step keeps the labels**: those written and those still waiting are those
that waited before and the one that was read. -/
theorem step_perm {stack rest : Stack α} {item : Item α} {written : List α}
    (h : step stack item = .ok (written, rest)) :
    (written ++ labels rest).Perm (item.label?.toList ++ labels stack) := by
  cases item with
  | operand label =>
      obtain ⟨rfl, rfl⟩ := Prod.mk.inj (Except.ok.inj h)
      exact .refl _
  | operator op label =>
      obtain ⟨rfl, rfl⟩ := Prod.mk.inj (Except.ok.inj h)
      have settled := settle_labels op stack
      rw [labels_operator, ← settled]
      exact List.perm_middle
  | opening =>
      obtain ⟨rfl, rfl⟩ := Prod.mk.inj (Except.ok.inj h)
      exact .refl _
  | closing =>
      obtain ⟨above, rfl, -, rfl⟩ := exists_group_of_step_closing h
      simp [Item.label?]

theorem filterMap_cons_eq_append {β : Type u} {γ : Type v} (f : β → Option γ) (b : β)
    (bs : List β) :
    (b :: bs).filterMap f = (f b).toList ++ bs.filterMap f := by
  cases h : f b <;> simp [h]

/-- **A run keeps the labels**, and what it reads are items without a failure
among them. -/
theorem run_perm {stack rest : Stack α} {items : List (Except SyntaxError (Item α))}
    {written : List α} (h : run stack items = .ok (written, rest)) :
    ∃ reads : List (Item α), items = reads.map .ok ∧
      (written ++ labels rest).Perm (reads.filterMap Item.label? ++ labels stack) := by
  induction items generalizing stack written with
  | nil =>
      obtain ⟨rfl, rfl⟩ := Prod.mk.inj (Except.ok.inj h)
      exact ⟨[], rfl, .refl _⟩
  | cons item items ih =>
      obtain ⟨read, first, middle, later, rfl, stepped, ran, rfl⟩ := run_cons_eq_ok h
      obtain ⟨reads, rfl, kept⟩ := ih ran
      refine ⟨read :: reads, rfl, ?_⟩
      -- What is written later is a rearrangement of what is read later and what waits by then.
      calc (first ++ later ++ labels rest).Perm
            (first ++ (reads.filterMap Item.label? ++ labels middle)) := by
            rw [List.append_assoc]
            exact kept.append_left first
        _ |>.Perm (reads.filterMap Item.label? ++ (first ++ labels middle)) :=
            List.perm_append_comm_assoc ..
        _ |>.Perm (reads.filterMap Item.label? ++ (read.label?.toList ++ labels stack)) :=
            (step_perm stepped).append_left _
        _ |>.Perm ((read :: reads).filterMap Item.label? ++ labels stack) := by
            rw [filterMap_cons_eq_append, List.append_assoc]
            exact List.perm_append_comm_assoc ..

/-! ## The open groups are those of the parentheses read -/

/-- A parenthesis. -/
inductive Bracket where
  | opening
  | closing
deriving DecidableEq, Repr

/-- The parenthesis that an item is. -/
def Item.bracket? : Item α → Option Bracket
  | .opening => some .opening
  | .closing => some .closing
  | _ => none

/-- How many groups are open after reading parentheses inside of `depth` groups;
`none` if one closes no group. -/
def nesting : Nat → List Bracket → Option Nat
  | depth, [] => some depth
  | depth, .opening :: brackets => nesting (depth + 1) brackets
  | 0, .closing :: _ => none
  | depth + 1, .closing :: brackets => nesting depth brackets

/-- The parentheses of a longer sequence are those of its parts. -/
theorem nesting_append_eq_some {depth final : Nat} {brackets more : List Bracket}
    (h : nesting depth (brackets ++ more) = some final) :
    ∃ middle, nesting depth brackets = some middle ∧ nesting middle more = some final := by
  induction brackets generalizing depth with
  | nil => exact ⟨depth, rfl, h⟩
  | cons bracket brackets ih =>
      cases bracket with
      | opening => exact ih h
      | closing =>
          cases depth with
          | zero => exact nomatch h
          | succ depth => exact ih h

/-- A step opens and closes the groups that its item does. -/
theorem nesting_step {stack rest : Stack α} {item : Item α} {written : List α}
    (h : step stack item = .ok (written, rest)) (brackets : List Bracket) :
    nesting (openGroups stack) (item.bracket?.toList ++ brackets) =
      nesting (openGroups rest) brackets := by
  cases item with
  | operand label =>
      obtain ⟨-, rfl⟩ := Prod.mk.inj (Except.ok.inj h)
      rfl
  | operator op label =>
      obtain ⟨-, rfl⟩ := Prod.mk.inj (Except.ok.inj h)
      simp [Item.bracket?]
  | opening =>
      obtain ⟨-, rfl⟩ := Prod.mk.inj (Except.ok.inj h)
      rfl
  | closing =>
      obtain ⟨above, rfl, plain, -⟩ := exists_group_of_step_closing h
      rw [openGroups_append, openGroups_opening, plain, Nat.zero_add]
      rfl

/-- **The groups that a run leaves open** are those that its parentheses leave
open. -/
theorem nesting_run {stack rest : Stack α} {reads : List (Item α)} {written : List α}
    (h : run stack (reads.map .ok) = .ok (written, rest)) :
    nesting (openGroups stack) (reads.filterMap Item.bracket?) = some (openGroups rest) := by
  induction reads generalizing stack written with
  | nil =>
      obtain ⟨-, rfl⟩ := Prod.mk.inj (Except.ok.inj h)
      rfl
  | cons read reads ih =>
      obtain ⟨read', first, middle, later, same, stepped, ran, -⟩ := run_cons_eq_ok h
      obtain rfl := Except.ok.inj same
      rw [filterMap_cons_eq_append, nesting_step stepped]
      exact ih ran

/-- **What is arranged is what was read**: the items hold no failure, their
parentheses are balanced, and the labels of the others are written once each. -/
theorem arrange_eq_ok {items : List (Except SyntaxError (Item α))} {out : List α}
    (h : arrange items = .ok out) :
    ∃ reads : List (Item α), items = reads.map .ok ∧
      out.Perm (reads.filterMap Item.label?) ∧
      nesting 0 (reads.filterMap Item.bracket?) = some 0 := by
  obtain ⟨written, stack, ran, closed, rfl⟩ := arrange_eq_ok_iff.mp h
  obtain ⟨reads, rfl, kept⟩ := run_perm ran
  have groups := nesting_run ran
  rw [closed] at groups
  exact ⟨reads, rfl, by simpa using kept, groups⟩

end ShuntingYard

end InfixCalculator
