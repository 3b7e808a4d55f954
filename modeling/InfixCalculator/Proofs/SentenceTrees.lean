import InfixCalculator.Expression
import InfixCalculator.Expression.Grammar
import Mathlib.Data.List.Chain

/-!
# The tree of a sentence

A sentence of the grammar says which operators have which operands only up to
precedence, and not every sentence has a tree that is grouped as its precedences
demand: an operator before its operand may have to wait for the operator in front
of it, although its operand is still to come, and an operator after its operand
may be one that a later operator does not wait for.  These two are the only
obstacles, and both show at two neighbouring tokens (`KeepsGrouping`).

Where they are absent the tree is built from left to right.  A new operator goes
on the right edge of the tree, above everything that it waits for (`graft`); what
it takes there becomes its left operand.  An operand of the grammar is therefore
kept as a core, with all the operators before it, and a list of operators after
it that are grafted one by one, since a graft may reach into what stands before
the operand.
-/

namespace InfixCalculator

/-- Two neighbouring tokens allow a grouped tree: an operator before its operand
does not wait for the operator in front of it, and an operator after its operand
is waited for by the operator behind it. -/
def KeepsGrouping (table : OperatorTable) (a b : Token) : Prop :=
  ∀ s t first later, a = .operator s → b = .operator t →
    table.find? s = some first → table.find? t = some later →
      (later.placement = .before → later.waitsFor first = false) ∧
        (first.placement = .after → later.placement ≠ .before → later.waitsFor first = true)

namespace Expression

/-- A tree is a grouped reading of a sequence of tokens. -/
structure GroupedAs (table : OperatorTable) (tokens : List Token) (e : Expression) : Prop where
  /-- Its operators are those of the table. -/
  uses : e.UsesTable table
  /-- It is grouped as its precedences demand. -/
  grouped : e.Grouped
  /-- It is written as the tokens. -/
  inorder : e.inorder = tokens

/-! ## Grafting on the right edge -/

/-- **Puts an operator on the right edge of a tree**, above the operators that it
waits for: `wrap` makes the part of the edge from there on its left operand. -/
def graft (op : Operator) (wrap : Expression → Expression) : Expression → Expression
  | unary root operand =>
      if root.placement = .before ∧ op.waitsFor root = false then
        unary root (graft op wrap operand)
      else wrap (unary root operand)
  | binary root left right =>
      if op.waitsFor root then wrap (binary root left right)
      else binary root left (graft op wrap right)
  | e => wrap e

/-- A way to make a tree the left operand of an operator, with the tokens from the
operator on. -/
structure Wraps (table : OperatorTable) (op : Operator) (suffix : List Token)
    (wrap : Expression → Expression) : Prop where
  /-- The operator is at the root. -/
  root : ∀ e, (wrap e).root? = some op
  /-- The tokens come after those of the tree. -/
  inorder : ∀ e, (wrap e).inorder = e.inorder ++ suffix
  /-- Nothing but operators of the table comes in. -/
  uses : ∀ e, e.UsesTable table → (wrap e).UsesTable table
  /-- Only the operator's left side has to fit. -/
  grouped : ∀ e, e.Grouped → FitsLeftOf op e → (wrap e).Grouped

variable {table : OperatorTable} {op : Operator} {suffix : List Token}
  {wrap : Expression → Expression}

theorem wraps_after (found : table.find? op.symbol = some op) (placement : op.placement = .after) :
    Wraps table op [.operator op.symbol] (unary op) where
  root e := rfl
  inorder e := inorder_after (by simp [placement]) e
  uses e uses := ⟨found, Operator.operandCount_eq_one (by simp [placement]), uses⟩
  grouped e grouped fits := (grouped_after (by simp [placement]) e).mpr ⟨grouped, fits⟩

theorem wraps_between (found : table.find? op.symbol = some op)
    (placement : op.placement = .between) {right : Expression} {tokens : List Token}
    (reading : GroupedAs table tokens right) (fits : FitsRightOf op right) :
    Wraps table op (.operator op.symbol :: tokens) (binary op · right) where
  root e := rfl
  inorder e := by rw [inorder, reading.inorder]
  uses e uses := ⟨found, Operator.operandCount_eq_two placement, uses, reading.uses⟩
  grouped e grouped fitsLeft := ⟨grouped, reading.grouped, fitsLeft, fits⟩

namespace Wraps

variable (wraps : Wraps table op suffix wrap)
include wraps

theorem inorder_graft (e : Expression) : (graft op wrap e).inorder = e.inorder ++ suffix := by
  induction e with
  | number value => exact wraps.inorder _
  | group inner => exact wraps.inorder _
  | unary root operand ih =>
      rw [graft]
      split
      next h => rw [inorder_before h.1, inorder_before h.1, ih, List.cons_append]
      next => exact wraps.inorder _
  | binary root left right _ ih =>
      rw [graft]
      split
      next => exact wraps.inorder _
      next => rw [Expression.inorder, Expression.inorder, ih, List.append_assoc, List.cons_append]

theorem uses_graft {e : Expression} (uses : e.UsesTable table) :
    (graft op wrap e).UsesTable table := by
  induction e with
  | number value => exact wraps.uses _ uses
  | group inner => exact wraps.uses _ uses
  | unary root operand ih =>
      rw [graft]
      split
      next => exact ⟨uses.1, uses.2.1, ih uses.2.2⟩
      next => exact wraps.uses _ uses
  | binary root left right _ ih =>
      rw [graft]
      split
      next => exact wraps.uses _ uses
      next => exact ⟨uses.1, uses.2.1, uses.2.2.1, ih uses.2.2.2⟩

/-- The root of a tree stays, or the grafted operator takes its place. -/
theorem root?_graft (e : Expression) :
    (graft op wrap e).root? = some op ∨ (graft op wrap e).root? = e.root? := by
  cases e with
  | number value => exact .inl (wraps.root _)
  | group inner => exact .inl (wraps.root _)
  | unary root operand =>
      rw [graft]
      split
      next => exact .inr rfl
      next => exact .inl (wraps.root _)
  | binary root left right =>
      rw [graft]
      split
      next => exact .inl (wraps.root _)
      next => exact .inr rfl

/-- What a root does not wait for still fits on its right after a graft. -/
theorem fitsRightOf_graft {root : Operator} {e : Expression} (fits : FitsRightOf root e)
    (h : op.waitsFor root = false) : FitsRightOf root (graft op wrap e) := by
  intro later hroot
  rcases wraps.root?_graft e with new | old
  · exact Option.some.inj (new.symm.trans hroot) ▸ h
  · exact fits later (old.symm.trans hroot)

/-- **A graft keeps a tree grouped**, unless the tree ends with an operator that
the new one does not wait for and that has no operand to give way. -/
theorem grouped_graft {e : Expression} (uses : e.UsesTable table) (grouped : e.Grouped)
    (ends : ∀ last, table.find? last.symbol = some last → last.placement = .after →
      e.inorder.getLast? = some (.operator last.symbol) → op.waitsFor last = true) :
    (graft op wrap e).Grouped := by
  induction e with
  | number value => exact wraps.grouped _ grouped fun root h => nomatch h
  | group inner => exact wraps.grouped _ grouped fun root h => nomatch h
  | unary root operand ih =>
      obtain ⟨found, count, usesOperand⟩ := uses
      rw [graft]
      split
      next h =>
        -- The root stays; the new operator ends up somewhere on the edge below it.
        obtain ⟨groupedOperand, fits⟩ := (grouped_before h.1 operand).mp grouped
        have inside : (graft op wrap operand).Grouped := by
          apply ih usesOperand groupedOperand
          intro last foundLast after lastToken
          refine ends last foundLast after ?_
          rw [inorder_before h.1, List.getLast?_cons, lastToken, Option.getD_some]
        exact (grouped_before h.1 _).mpr ⟨inside, wraps.fitsRightOf_graft fits h.2⟩
      next h =>
        -- An operator after its operand has no edge to go down, so it must give way.
        have waits : op.waitsFor root = true := by
          rcases Operator.before_or_after count with before | after
          · by_contra waits
            exact h ⟨before, by simpa using waits⟩
          · refine ends root found after ?_
            rw [inorder_after (by simp [after]), List.getLast?_concat]
        exact wraps.grouped _ grouped fun x hx => Option.some.inj hx ▸ waits
  | binary root left right _ ih =>
      obtain ⟨found, count, usesLeft, usesRight⟩ := uses
      rw [graft]
      split
      next waits => exact wraps.grouped _ grouped fun x hx => Option.some.inj hx ▸ waits
      next waits =>
        obtain ⟨groupedLeft, groupedRight, fitsLeft, fitsRight⟩ := grouped
        have inside : (graft op wrap right).Grouped := by
          apply ih usesRight groupedRight
          intro last foundLast after lastToken
          refine ends last foundLast after ?_
          rw [Expression.inorder, List.getLast?_append, List.getLast?_cons, lastToken,
            Option.getD_some, Option.some_or]
        exact ⟨groupedLeft, inside, fitsLeft,
          wraps.fitsRightOf_graft fitsRight (by simpa using waits)⟩

/-- **A graft reads on**: the tokens from the operator on follow those of the
tree. -/
theorem groupedAs_graft (found : table.find? op.symbol = some op)
    (placement : op.placement ≠ .before) {tokens more : List Token} {e : Expression}
    (reading : GroupedAs table tokens e)
    (chain : (tokens ++ .operator op.symbol :: more).IsChain (KeepsGrouping table)) :
    GroupedAs table (tokens ++ suffix) (graft op wrap e) where
  uses := wraps.uses_graft reading.uses
  inorder := by rw [wraps.inorder_graft, reading.inorder]
  grouped := by
    apply wraps.grouped_graft reading.uses reading.grouped
    intro last foundLast after lastToken
    rw [reading.inorder] at lastToken
    have neighbours := (List.isChain_append.mp chain).2.2 _ lastToken _ rfl
    exact (neighbours _ _ last op rfl rfl foundLast found).2 after placement

end Wraps

end Expression

/-! ## Trees of phrases -/

open Expression

/-- The tokens of operators. -/
def operatorTokens (ops : List Operator) : List Token := ops.map fun op => .operator op.symbol

/-- Operators after an operand are grafted one by one. -/
theorem exists_groupedAs_append_after {table : OperatorTable} (afters : List Operator)
    (stand : ∀ op ∈ afters, table.find? op.symbol = some op ∧ op.placement = .after)
    {tokens : List Token} {e : Expression} (reading : GroupedAs table tokens e)
    (chain : (tokens ++ operatorTokens afters).IsChain (KeepsGrouping table)) :
    ∃ tree, GroupedAs table (tokens ++ operatorTokens afters) tree := by
  induction afters generalizing tokens e with
  | nil => exact ⟨e, by simpa [operatorTokens] using reading⟩
  | cons op afters ih =>
      obtain ⟨found, placement⟩ := stand op List.mem_cons_self
      have notBefore : op.placement ≠ .before := by simp [placement]
      have next := (wraps_after found placement).groupedAs_graft found notBefore reading chain
      have regroup : tokens ++ operatorTokens (op :: afters) =
          (tokens ++ [.operator op.symbol]) ++ operatorTokens afters := by
        simp [operatorTokens]
      rw [regroup] at chain ⊢
      exact ih (fun x hx => stand x (List.mem_cons_of_mem _ hx)) next chain

/-- A reading of an operand: a core with the operators before it, whose root shows
at its first token, and the operators after it. -/
structure OperandAs (table : OperatorTable) (front : List Token) (core : Expression)
    (afters : List Operator) : Prop where
  /-- The core is grouped. -/
  reading : GroupedAs table front core
  /-- If an operator is at the root of the core, then the core starts with it. -/
  root : ∀ root, core.root? = some root →
    root.placement = .before ∧ table.find? root.symbol = some root ∧
      front.head? = some (.operator root.symbol)
  /-- The others stand after the core. -/
  afters : ∀ op ∈ afters, table.find? op.symbol = some op ∧ op.placement = .after

/-- A number or a group is an operand by itself. -/
theorem Expression.GroupedAs.operandAs {table : OperatorTable} {tokens : List Token}
    {core : Expression} (reading : GroupedAs table tokens core) (noRoot : core.root? = none) :
    OperandAs table tokens core [] where
  reading := reading
  root root h := by simp [noRoot] at h
  afters := by simp

namespace OperandAs

variable {table : OperatorTable} {op : Operator} {front more : List Token} {core : Expression}
  {afters : List Operator} (operand : OperandAs table front core afters)
include operand

/-- The core of an operand fits on the right of an operator in front of it. -/
theorem fitsRightOf (found : table.find? op.symbol = some op)
    (chain : (.operator op.symbol :: (front ++ more)).IsChain (KeepsGrouping table)) :
    FitsRightOf op core := by
  intro later h
  obtain ⟨before, foundLater, first⟩ := operand.root later h
  have head : (.operator later.symbol) ∈ (front ++ more).head? := by simp [first]
  exact (chain.rel_head? head _ _ op later rfl rfl found foundLater).1 before

/-- An operator before an operand goes to the core. -/
theorem before (found : table.find? op.symbol = some op) (placement : op.placement = .before)
    (chain : (.operator op.symbol :: (front ++ more)).IsChain (KeepsGrouping table)) :
    OperandAs table (.operator op.symbol :: front) (unary op core) afters where
  reading := by
    have count := Operator.operandCount_eq_one (show op.placement ≠ .between by simp [placement])
    have fits := operand.fitsRightOf found chain
    refine ⟨⟨found, count, operand.reading.uses⟩, ?_, ?_⟩
    · exact (grouped_before placement core).mpr ⟨operand.reading.grouped, fits⟩
    · rw [inorder_before placement, operand.reading.inorder]
  root := by
    intro root h
    obtain rfl := Option.some.inj h
    exact ⟨placement, found, rfl⟩
  afters := operand.afters

/-- An operator after an operand stays with the others. -/
theorem after (found : table.find? op.symbol = some op) (placement : op.placement = .after) :
    OperandAs table front core (afters ++ [op]) where
  reading := operand.reading
  root := operand.root
  afters := by
    intro x hx
    rcases List.mem_append.mp hx with hx | hx
    · exact operand.afters x hx
    · obtain rfl := List.mem_singleton.mp hx
      exact ⟨found, placement⟩

end OperandAs

/-- What a phrase is read as. -/
def ReadsAsTree (table : OperatorTable) : Phrase → List Token → Prop
  | .expression, tokens => ∃ tree, GroupedAs table tokens tree
  | .operand, tokens =>
      ∃ front core afters, OperandAs table front core afters ∧
        tokens = front ++ operatorTokens afters

/-- **Every phrase is read as a grouped tree** if its neighbouring tokens allow
one. -/
theorem readsAsTree_of_derives {table : OperatorTable} {phrase : Phrase} {tokens : List Token}
    (derives : Derives table phrase tokens) (chain : tokens.IsChain (KeepsGrouping table)) :
    ReadsAsTree table phrase tokens := by
  induction derives with
  | number value =>
      have reading : GroupedAs table [.number value] (.number value) := ⟨trivial, trivial, rfl⟩
      exact ⟨_, _, _, reading.operandAs rfl, rfl⟩
  | @group tokens inner ih =>
      obtain ⟨tree, reading⟩ := ih chain.left_of_append.tail
      have written : (group tree).inorder = .opening :: tokens ++ [.closing] := by
        rw [Expression.inorder, reading.inorder]
      have closed : GroupedAs table (.opening :: tokens ++ [.closing]) (group tree) :=
        ⟨reading.uses, reading.grouped, written⟩
      exact ⟨_, _, _, closed.operandAs rfl, (List.append_nil _).symm⟩
  | before stands _ ih =>
      obtain ⟨op, found, placement⟩ := stands
      obtain rfl := OperatorTable.symbol_eq_of_find? found
      obtain ⟨front, core, afters, operand, rfl⟩ := ih chain.tail
      exact ⟨_, _, _, operand.before found placement chain, rfl⟩
  | after stands _ ih =>
      obtain ⟨op, found, placement⟩ := stands
      obtain rfl := OperatorTable.symbol_eq_of_find? found
      obtain ⟨front, core, afters, operand, rfl⟩ := ih chain.left_of_append
      exact ⟨_, _, _, operand.after found placement, by simp [operatorTokens]⟩
  | single _ ih =>
      obtain ⟨front, core, afters, operand, rfl⟩ := ih chain
      exact exists_groupedAs_append_after afters operand.afters operand.reading chain
  | @between _ first second stands _ _ ihLeft ihRight =>
      obtain ⟨op, found, placement⟩ := stands
      obtain rfl := OperatorTable.symbol_eq_of_find? found
      -- The right operand gets into the tree with its core only.  The operators after it
      -- are grafted on the whole, since they may take more than the right operand.
      obtain ⟨tree, readingLeft⟩ := ihLeft chain.left_of_append
      have chainRight := chain.right_of_append
      obtain ⟨front, core, afters, operand, rfl⟩ := ihRight chainRight.tail
      have wraps := wraps_between found placement operand.reading
        (operand.fitsRightOf found chainRight)
      have joined := wraps.groupedAs_graft found (by simp [placement]) readingLeft chain
      have regroup : first ++ .operator op.symbol :: (front ++ operatorTokens afters) =
          (first ++ .operator op.symbol :: front) ++ operatorTokens afters := by simp
      rw [regroup] at chain ⊢
      exact exists_groupedAs_append_after afters operand.afters joined chain

end InfixCalculator
