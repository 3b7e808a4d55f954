import InfixCalculator.Operator

/-!
# Operator tables

A table holds at most one operator under each symbol; inserting an operator
replaces the one under its symbol.  The operators are kept in the order in
which they are listed, by precedence and then by symbol, so a table is
determined by what it holds and not by the order in which it was filled.

## Main definitions

* `OperatorTable` — operators in listing order, one for each symbol.
* `OperatorTable.insert`, `OperatorTable.find?` — the last operator inserted
  under a symbol is the one that is found.
* `find?_insert`, `ext_find?` — the equations that say so, and that what is
  found under each symbol determines the table.
* `Minus` — the three meanings of a minus sign, each of which a table holds under
  a symbol of its own.
-/

namespace InfixCalculator

/-- The order in which operators are listed: by precedence, then by symbol. -/
def Operator.ListedBefore (a b : Operator) : Prop :=
  a.precedence < b.precedence ∨ a.precedence = b.precedence ∧ a.symbol < b.symbol

namespace Operator.ListedBefore

instance decidable (a b : Operator) : Decidable (a.ListedBefore b) := by
  unfold Operator.ListedBefore
  infer_instance

theorem trans {a b c : Operator} (hab : a.ListedBefore b) (hbc : b.ListedBefore c) :
    a.ListedBefore c := by
  rcases hab with hab | ⟨hab, sab⟩ <;> rcases hbc with hbc | ⟨hbc, sbc⟩
  · exact .inl (by omega)
  · exact .inl (by omega)
  · exact .inl (by omega)
  · exact .inr ⟨by omega, String.lt_trans sab sbc⟩

theorem irrefl (a : Operator) : ¬ a.ListedBefore a := by
  rintro (h | ⟨-, h⟩)
  · omega
  · exact String.lt_irrefl _ h

/-- Of two operators with different symbols one is listed first. -/
theorem of_not {a b : Operator} (symbols : a.symbol ≠ b.symbol) (h : ¬ a.ListedBefore b) :
    b.ListedBefore a := by
  unfold Operator.ListedBefore at h ⊢
  by_cases hp : a.precedence = b.precedence
  · have hs : b.symbol ≤ a.symbol := String.not_lt.mp fun hs => h (.inr ⟨hp, hs⟩)
    exact .inr ⟨hp.symm, Std.lt_of_le_of_ne hs (Ne.symm symbols)⟩
  · exact .inl (by omega)

end Operator.ListedBefore

/-- Puts an operator at its place in listing order. -/
def placeInOrder (op : Operator) : List Operator → List Operator
  | [] => [op]
  | o :: ops => if op.ListedBefore o then op :: o :: ops else o :: placeInOrder op ops

@[simp] theorem mem_placeInOrder {x op : Operator} {ops : List Operator} :
    x ∈ placeInOrder op ops ↔ x = op ∨ x ∈ ops := by
  induction ops with
  | nil => simp [placeInOrder]
  | cons o ops ih =>
      simp only [placeInOrder]
      split
      · simp
      · simp only [List.mem_cons, ih]
        exact or_left_comm

theorem pairwise_placeInOrder {op : Operator} {ops : List Operator}
    (ordered : ops.Pairwise Operator.ListedBefore)
    (fresh : ∀ o ∈ ops, o.symbol ≠ op.symbol) :
    (placeInOrder op ops).Pairwise Operator.ListedBefore := by
  induction ops with
  | nil => simp [placeInOrder]
  | cons o ops ih =>
      obtain ⟨first, rest⟩ := List.pairwise_cons.mp ordered
      simp only [placeInOrder]
      split
      next h =>
        refine List.pairwise_cons.mpr ⟨fun x hx => ?_, ordered⟩
        rcases List.mem_cons.mp hx with rfl | hx
        · exact h
        · exact h.trans (first x hx)
      next h =>
        have later := fun x hx => fresh x (List.mem_cons_of_mem o hx)
        refine List.pairwise_cons.mpr ⟨fun x hx => ?_, ih rest later⟩
        rcases mem_placeInOrder.mp hx with rfl | hx
        · exact .of_not (fresh o List.mem_cons_self).symm h
        · exact first x hx

theorem distinct_placeInOrder {op : Operator} {ops : List Operator}
    (distinct : ops.Pairwise fun a b => a.symbol ≠ b.symbol)
    (fresh : ∀ o ∈ ops, o.symbol ≠ op.symbol) :
    (placeInOrder op ops).Pairwise fun a b => a.symbol ≠ b.symbol := by
  induction ops with
  | nil => simp [placeInOrder]
  | cons o ops ih =>
      obtain ⟨first, rest⟩ := List.pairwise_cons.mp distinct
      simp only [placeInOrder]
      split
      · exact List.pairwise_cons.mpr ⟨fun x hx => (fresh x hx).symm, distinct⟩
      · have later := fun x hx => fresh x (List.mem_cons_of_mem o hx)
        refine List.pairwise_cons.mpr ⟨fun x hx => ?_, ih rest later⟩
        rcases mem_placeInOrder.mp hx with rfl | hx
        · exact fresh o List.mem_cons_self
        · exact first x hx

/-- **A table of operators**, at most one for each symbol, in listing order. -/
structure OperatorTable where
  /-- The operators in listing order. -/
  operators : List Operator
  /-- They are in listing order. -/
  ordered : operators.Pairwise Operator.ListedBefore
  /-- No two have the same symbol. -/
  distinct : operators.Pairwise fun a b => a.symbol ≠ b.symbol

namespace OperatorTable

/-- The table without operators. -/
def empty : OperatorTable := ⟨[], .nil, .nil⟩

instance : EmptyCollection OperatorTable := ⟨empty⟩

instance : Inhabited OperatorTable := ⟨empty⟩

/-- **Inserts an operator**, in the place of the one with its symbol if there
is one. -/
def insert (table : OperatorTable) (op : Operator) : OperatorTable :=
  let others := table.operators.filter (·.symbol ≠ op.symbol)
  have fresh : ∀ o ∈ others, o.symbol ≠ op.symbol := fun o ho => by
    simpa using (List.mem_filter.mp ho).2
  { operators := placeInOrder op others
    ordered := pairwise_placeInOrder (table.ordered.filter _) fresh
    distinct := distinct_placeInOrder (table.distinct.filter _) fresh }

/-- Inserts operators one after the other. -/
def insertAll (table : OperatorTable) (ops : List Operator) : OperatorTable :=
  ops.foldl insert table

/-- The operator under a symbol. -/
def find? (table : OperatorTable) (symbol : String) : Option Operator :=
  table.operators.find? (·.symbol = symbol)

/-- The operator under a symbol, or the failure to find one. -/
def get (table : OperatorTable) (symbol : String) : Except UnknownOperator Operator :=
  match table.find? symbol with
  | some op => .ok op
  | none => .error ⟨symbol⟩

/-- Whether there is an operator under a symbol. -/
def contains (table : OperatorTable) (symbol : String) : Bool := (table.find? symbol).isSome

/-- How many operators there are. -/
def size (table : OperatorTable) : Nat := table.operators.length

/-- Whether there are no operators. -/
def isEmpty (table : OperatorTable) : Bool := table.operators.isEmpty

/-- The symbols of the operators in alphabetical order. -/
def symbols (table : OperatorTable) : List String :=
  (table.operators.map Operator.symbol).mergeSort (decide <| · ≤ ·)

@[simp] theorem find?_empty (symbol : String) : empty.find? symbol = none := rfl

@[simp] theorem mem_insert {table : OperatorTable} {op x : Operator} :
    x ∈ (table.insert op).operators ↔ x = op ∨ x ∈ table.operators ∧ x.symbol ≠ op.symbol := by
  simp [insert]

theorem symbol_eq_of_find? {table : OperatorTable} {symbol : String} {op : Operator}
    (h : table.find? symbol = some op) : op.symbol = symbol := by
  simpa using List.find?_some h

/-- Two operators of a table with one symbol are one operator. -/
theorem eq_of_symbol_eq {table : OperatorTable} {a b : Operator} (ha : a ∈ table.operators)
    (hb : b ∈ table.operators) (h : a.symbol = b.symbol) : a = b := by
  have distinct := table.distinct
  revert ha hb distinct
  generalize table.operators = ops
  intro ha hb distinct
  induction ops with
  | nil => simp at ha
  | cons o ops ih =>
      obtain ⟨first, rest⟩ := List.pairwise_cons.mp distinct
      rcases List.mem_cons.mp ha with rfl | ha' <;> rcases List.mem_cons.mp hb with rfl | hb'
      · rfl
      · exact absurd h (first b hb')
      · exact absurd h.symm (first a ha')
      · exact ih ha' hb' rest

/-- What is found under a symbol is what the table holds with that symbol. -/
theorem find?_eq_some_iff {table : OperatorTable} {symbol : String} {op : Operator} :
    table.find? symbol = some op ↔ op ∈ table.operators ∧ op.symbol = symbol := by
  constructor
  · intro h
    exact ⟨List.mem_of_find?_eq_some h, symbol_eq_of_find? h⟩
  · rintro ⟨hm, rfl⟩
    cases hf : table.find? op.symbol with
    | none => simpa using List.find?_eq_none.mp hf op hm
    | some o =>
        have hs := symbol_eq_of_find? hf
        rw [eq_of_symbol_eq (List.mem_of_find?_eq_some hf) hm hs]

/-- **The last operator inserted under a symbol is found there**, and the others
stay as they are. -/
@[simp] theorem find?_insert (table : OperatorTable) (op : Operator) (symbol : String) :
    (table.insert op).find? symbol =
      if symbol = op.symbol then some op else table.find? symbol := by
  ext x
  rw [find?_eq_some_iff, mem_insert]
  split
  next h => subst h; grind
  next h => rw [find?_eq_some_iff]; grind

/-- Two lists in listing order with the same operators are one list. -/
theorem eq_of_ordered {xs ys : List Operator} (hx : xs.Pairwise Operator.ListedBefore)
    (hy : ys.Pairwise Operator.ListedBefore) (members : ∀ op, op ∈ xs ↔ op ∈ ys) :
    xs = ys := by
  induction xs generalizing ys with
  | nil =>
      symm
      exact List.eq_nil_iff_forall_not_mem.mpr fun op h => by simpa using (members op).mpr h
  | cons x xs ih =>
      cases ys with
      | nil => simpa using (members x).mp List.mem_cons_self
      | cons y ys =>
          obtain ⟨firstX, restX⟩ := List.pairwise_cons.mp hx
          obtain ⟨firstY, restY⟩ := List.pairwise_cons.mp hy
          have same : x = y := by
            rcases List.mem_cons.mp ((members x).mp List.mem_cons_self) with e | inY
            · exact e
            rcases List.mem_cons.mp ((members y).mpr List.mem_cons_self) with e | inX
            · exact e.symm
            exact absurd ((firstX y inX).trans (firstY x inY)) (Operator.ListedBefore.irrefl x)
          subst same
          congr 1
          refine ih restX restY fun op => ?_
          have := members op
          have notInX : x ∉ xs := fun hm => Operator.ListedBefore.irrefl x (firstX x hm)
          have notInY : x ∉ ys := fun hm => Operator.ListedBefore.irrefl x (firstY x hm)
          by_cases e : op = x
          · subst e; simp [notInX, notInY]
          · simpa [e] using this

/-- **What is found under each symbol determines the table.** -/
theorem ext_find? {s t : OperatorTable} (h : ∀ symbol, s.find? symbol = t.find? symbol) :
    s = t := by
  have members : ∀ op, op ∈ s.operators ↔ op ∈ t.operators := fun op => by
    have := h op.symbol
    constructor
    · intro hm
      rw [find?_eq_some_iff.mpr ⟨hm, rfl⟩] at this
      exact (find?_eq_some_iff.mp this.symm).1
    · intro hm
      rw [find?_eq_some_iff.mpr ⟨hm, rfl⟩] at this
      exact (find?_eq_some_iff.mp this).1
  obtain ⟨xs, sortedXs, _⟩ := s
  obtain ⟨ys, sortedYs, _⟩ := t
  congr
  simp only at members
  exact eq_of_ordered sortedXs sortedYs members

end OperatorTable

/-! ## The minus sign -/

/-- What a written minus sign stands for. -/
inductive Minus where
  /-- The subtraction of what follows. -/
  | subtraction
  /-- The sign at the start of an expression. -/
  | leading
  /-- The sign of the value that follows. -/
  | sign
deriving DecidableEq, Repr

namespace Minus

/-- The symbol under which an operator table holds the meaning. -/
def symbol : Minus → String
  | subtraction => "b-"
  | leading => "u-"
  | sign => "s-"

/-- The three symbols. -/
def symbols : List String := [subtraction.symbol, leading.symbol, sign.symbol]

end Minus

end InfixCalculator
