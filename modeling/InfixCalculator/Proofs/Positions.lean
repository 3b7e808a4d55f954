import InfixCalculator.Proofs.WaitingStack
import Mathlib.Data.List.Nodup

/-!
# Positions in postfix order

A token can occur more than once, so what a postfix order does to one occurrence
cannot be said with tokens alone.  The run that orders tokens never looks at their
labels; it orders whatever it is given to write (`arrange_map`).  So the positions of
the tokens are ordered exactly as the tokens are: the order of positions names, entry
by entry, the token that is written (`map_postfixPositions`), and no position comes
twice (`nodup_postfixPositions`).
-/

namespace InfixCalculator

namespace ShuntingYard

universe u v

variable {α : Type u} {β : Type v}

/-! ## Other labels -/

/-- The item with another label. -/
def Item.map (f : α → β) : Item α → Item β
  | .operand label => .operand (f label)
  | .operator op label => .operator op (f label)
  | .opening => .opening
  | .closing => .closing

/-- The entry with another label. -/
def Entry.map (f : α → β) : Entry α → Entry β
  | .opening => .opening
  | .operator op label => .operator op (f label)

/-- What is written and what waits, with other labels. -/
def relabel (f : α → β) (outcome : List α × Stack α) : List β × Stack β :=
  (outcome.1.map f, outcome.2.map (Entry.map f))

variable (f : α → β)

theorem settle_map (op : Operator) (stack : Stack α) :
    settle op (stack.map (Entry.map f)) = relabel f (settle op stack) := by
  induction stack with
  | nil => rfl
  | cons entry below ih =>
      cases entry with
      | opening => rfl
      | operator top label =>
          rw [List.map_cons, Entry.map, settle_operator, settle_operator, ih]
          split <;> rfl

theorem closeGroup_map (stack : Stack α) :
    closeGroup (stack.map (Entry.map f)) = (closeGroup stack).map (relabel f) := by
  induction stack with
  | nil => rfl
  | cons entry below ih =>
      cases entry with
      | opening => rfl
      | operator op label =>
          rw [List.map_cons, Entry.map, closeGroup, closeGroup, ih]
          cases closeGroup below <;> rfl

theorem step_map (stack : Stack α) (item : Item α) :
    step (stack.map (Entry.map f)) (item.map f) = (step stack item).map (relabel f) := by
  cases item with
  | operand label => rfl
  | opening => rfl
  | closing => exact closeGroup_map f stack
  | operator op label =>
      rw [Item.map, step, settle_map]
      rfl

theorem run_map (stack : Stack α) (items : List (Except SyntaxError (Item α))) :
    run (stack.map (Entry.map f)) (items.map (Except.map (Item.map f))) =
      (run stack items).map (relabel f) := by
  induction items generalizing stack with
  | nil => rfl
  | cons item items ih =>
      cases item with
      | error e => rfl
      | ok item =>
          simp only [List.map_cons, Except.map, run, bind, Except.bind, step_map]
          cases step stack item with
          | error e => rfl
          | ok stepped =>
              simp only [relabel, ih]
              cases run stepped.2 items with
              | error e => rfl
              | ok later => simp [Except.map, relabel, pure, Except.pure]

theorem drain_map (stack : Stack α) :
    drain (stack.map (Entry.map f)) = (drain stack).map (List.map f) := by
  induction stack with
  | nil => rfl
  | cons entry below ih =>
      cases entry with
      | opening => rfl
      | operator op label =>
          rw [List.map_cons, Entry.map, drain, drain, ih]
          cases drain below <;> rfl

/-- **The order does not depend on the labels.** -/
theorem arrange_map (items : List (Except SyntaxError (Item α))) :
    arrange (items.map (Except.map (Item.map f))) = (arrange items).map (List.map f) := by
  have ran := run_map f [] items
  rw [List.map_nil] at ran
  rw [arrange, arrange, ran]
  simp only [bind, Except.bind]
  cases run [] items with
  | error e => rfl
  | ok outcome =>
      simp only [Except.map, relabel, drain_map]
      cases drain outcome.2 with
      | error e => rfl
      | ok left => simp [pure, Except.pure]

end ShuntingYard

namespace OperatorTable

open ShuntingYard

variable {table : OperatorTable}

/-! ## Tokens and their positions -/

theorem resolve_map {α β : Type} (f : α → β) (label : α) (token : Token) :
    (table.resolve label token).map (Item.map f) = table.resolve (f label) token := by
  cases token with
  | number value => rfl
  | opening => rfl
  | closing => rfl
  | operator symbol =>
      rw [resolve, resolve]
      cases table.find? symbol <;> rfl

theorem postfixPositions_eq_arrange (table : OperatorTable)
    (items : List (Except SyntaxError Token)) :
    table.postfixPositions items =
      arrange (items.zipIdx.map fun entry => entry.1 >>= table.resolve entry.2) := rfl

/-- **Each position in the order names the token that is written for it**, and the two
orders fail together. -/
theorem map_postfixPositions (table : OperatorTable) (tokens : List Token) :
    (table.postfixPositions (tokens.map .ok)).map (List.map (tokens[·]?)) =
      (table.postfixOrder (tokens.map .ok)).map (List.map some) := by
  rw [postfixPositions_eq_arrange, postfixOrder, ← arrange_map, ← arrange_map]
  congr 1
  -- Both are the tokens with their operators looked up, labelled by the token at the position.
  have named : ∀ entry ∈ tokens.zipIdx,
      (table.resolve entry.2 entry.1).map (Item.map (tokens[·]?)) =
        (table.resolve entry.1 entry.1).map (Item.map some) := by
    intro entry member
    rw [resolve_map, resolve_map, List.mem_zipIdx_iff_getElem?.mp member]
  calc _ = tokens.zipIdx.map fun entry =>
        (table.resolve entry.2 entry.1).map (Item.map (tokens[·]?)) := by
        simp [List.zipIdx_map, Function.comp_def, bind, Except.bind]
    _ = tokens.zipIdx.map fun entry => (table.resolve entry.1 entry.1).map (Item.map some) :=
        List.map_congr_left named
    _ = (tokens.zipIdx.map Prod.fst).map fun token =>
          (table.resolve token token).map (Item.map some) := by rw [List.map_map]; rfl
    _ = _ := by
        rw [List.zipIdx_map_fst]
        simp [Function.comp_def, bind, Except.bind]

/-- An order of tokens is an order of their positions. -/
theorem exists_positions_of_postfixOrder {tokens out : List Token}
    (ordered : table.postfixOrder (tokens.map .ok) = .ok out) :
    ∃ positions, table.postfixPositions (tokens.map .ok) = .ok positions ∧
      positions.map (tokens[·]?) = out.map some := by
  have named := map_postfixPositions table tokens
  rw [ordered] at named
  cases found : table.postfixPositions (tokens.map .ok) with
  | error e =>
      rw [found] at named
      exact nomatch named
  | ok positions =>
      rw [found] at named
      exact ⟨positions, rfl, Except.ok.inj named⟩

/-- The label of an item is the one it was given, if it has one. -/
theorem label?_of_resolve {α : Type} {label : α} {token : Token} {read : Item α}
    (resolved : table.resolve label token = .ok read) :
    read.label? = none ∨ read.label? = some label := by
  cases token with
  | number value =>
      obtain rfl := Except.ok.inj resolved
      exact .inr rfl
  | opening | closing =>
      obtain rfl := Except.ok.inj resolved
      exact .inl rfl
  | operator symbol =>
      rw [resolve] at resolved
      split at resolved
      next =>
        obtain rfl := Except.ok.inj resolved
        exact .inr rfl
      next => exact nomatch resolved

/-- The labels of items that are labelled by their positions come in the order of the
positions. -/
theorem labels_sublist_range {items : List (Except SyntaxError Token)} {start : Nat}
    {reads : List (Item Nat)}
    (resolved : (items.zipIdx start).map (fun entry => entry.1 >>= table.resolve entry.2) =
      reads.map .ok) :
    (reads.filterMap Item.label?).Sublist (List.range' start items.length) := by
  induction items generalizing start reads with
  | nil =>
      obtain rfl := List.map_eq_nil_iff.mp resolved.symm
      exact .slnil
  | cons item items ih =>
      obtain ⟨read, rest, rfl, here, later⟩ := List.map_eq_cons_iff.mp resolved.symm
      have more := ih later.symm
      obtain ⟨token, rfl, resolvedHere⟩ := bind_eq_ok.mp here.symm
      rw [List.length_cons, List.range'_succ, filterMap_cons_eq_append]
      rcases label?_of_resolve resolvedHere with none | label
      · rw [none]
        exact more.cons start
      · rw [label]
        exact more.cons_cons start

/-- **No position comes twice in the order.** -/
theorem nodup_postfixPositions {items : List (Except SyntaxError Token)} {positions : List Nat}
    (ordered : table.postfixPositions items = .ok positions) : positions.Nodup := by
  rw [postfixPositions_eq_arrange] at ordered
  obtain ⟨reads, resolved, perm, -⟩ := arrange_eq_ok ordered
  have sublist := labels_sublist_range resolved
  exact perm.nodup_iff.mpr (sublist.nodup List.nodup_range')

end OperatorTable

end InfixCalculator
