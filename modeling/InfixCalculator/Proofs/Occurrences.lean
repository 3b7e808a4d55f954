import InfixCalculator.Operator.Standard
import InfixCalculator.Proofs.GroupOperand
import InfixCalculator.Proofs.OperatorOrder
import InfixCalculator.Proofs.StackHeight

/-!
# Every occurrence is written once, and in its place

The tokens that are put into postfix order need not be an expression.  Whatever they are,
an operator can leave the stack at three places, and each of them writes what it takes, so
that nothing is lost and nothing written twice (`run_perm`).

Where an occurrence is written follows from a single fact: what has been written by some
moment stands before all that is read later (`pair_sublist_of_arrange`).  An operand is
written at the moment it is read.  The operators of a group are written when its closing
parenthesis is read, for balanced items act as an operand on any stack.  Behind these two
moments come all the occurrences that follow.
-/

namespace InfixCalculator

namespace ShuntingYard

universe u

variable {α : Type u} {out : List α}

/-! ## Operands -/

/-- The label of an operand. -/
def Item.operand? : Item α → Option α
  | .operand label => some label
  | _ => none

/-- An operand is written when it is read. -/
theorem operands_sublist_step {stack rest : Stack α} {item : Item α} {written : List α}
    (stepped : step stack item = .ok (written, rest)) :
    item.operand?.toList.Sublist written := by
  cases item with
  | operand label =>
      obtain ⟨rfl, -⟩ := Prod.mk.inj (Except.ok.inj stepped)
      exact .refl _
  | operator | opening | closing => exact List.nil_sublist written

/-- **Operands keep their order.** -/
theorem operands_sublist_run {stack rest : Stack α} {reads : List (Item α)} {written : List α}
    (ran : run stack (reads.map .ok) = .ok (written, rest)) :
    (reads.filterMap Item.operand?).Sublist written := by
  induction reads generalizing stack written with
  | nil => exact List.nil_sublist written
  | cons read reads ih =>
      obtain ⟨same, first, middle, later, isRead, stepped, ranRest, rfl⟩ := run_cons_eq_ok ran
      obtain rfl := Except.ok.inj isRead
      rw [filterMap_cons_eq_append]
      exact (operands_sublist_step stepped).append (ih ranRest)

theorem operands_sublist_arrange {reads : List (Item α)}
    (arranged : arrange (reads.map .ok) = .ok out) :
    (reads.filterMap Item.operand?).Sublist out := by
  obtain ⟨written, rest, ran, -, rfl⟩ := arrange_eq_ok_iff.mp arranged
  exact (operands_sublist_run ran).trans (List.sublist_append_left written (labels rest))

/-! ## Moments -/

/-- **What has been written by some moment stands before all that is read later.** -/
theorem pair_sublist_of_arrange {first : List (Except SyntaxError (Item α))}
    {later : List (Item α)} {written : List α} {stack : Stack α} {a b : α}
    (arranged : arrange (first ++ later.map .ok) = .ok out)
    (ran : run [] first = .ok (written, stack)) (before : a ∈ written)
    (behind : b ∈ later.filterMap Item.label?) : [a, b].Sublist out := by
  obtain ⟨all, rest, ranAll, -, rfl⟩ := arrange_eq_ok_iff.mp arranged
  obtain ⟨front, middle, back, ranFirst, ranLater, rfl⟩ := run_append_eq_ok ranAll
  obtain ⟨rfl, rfl⟩ := Prod.mk.inj (Except.ok.inj (ran.symm.trans ranFirst))
  obtain ⟨reads, same, kept⟩ := run_perm ranLater
  obtain rfl : later = reads := eq_of_map_ok same
  have waits : b ∈ back ++ labels rest := kept.mem_iff.mpr (List.mem_append_left _ behind)
  rw [List.append_assoc]
  exact (List.singleton_sublist.mpr before).append (List.singleton_sublist.mpr waits)

/-- An operand stands before all that is read later. -/
theorem operand_sublist_of_arrange {before : List (Except SyntaxError (Item α))}
    {later : List (Item α)} {a b : α}
    (arranged : arrange (before ++ .ok (.operand a) :: later.map .ok) = .ok out)
    (behind : b ∈ later.filterMap Item.label?) : [a, b].Sublist out := by
  obtain ⟨all, rest, ranAll, -⟩ := arrange_eq_ok_iff.mp arranged
  obtain ⟨front, middle, -, ran, -⟩ := run_append_eq_ok ranAll
  have written : run [] (before ++ [.ok (.operand a)]) = .ok (front ++ [a], middle) :=
    run_append_ok ran (actsAsOperand_operand a middle)
  rw [List.append_cons] at arranged
  exact pair_sublist_of_arrange arranged written (by simp) behind

/-- An item is read unless it closes no group. -/
theorem exists_step_of_nesting {stack : Stack α} {item : Item α} {brackets : List Bracket}
    {depth : Nat}
    (nested : nesting (openGroups stack) (item.bracket?.toList ++ brackets) = some depth) :
    ∃ written rest, step stack item = .ok (written, rest) := by
  cases item with
  | operand | operator | opening => exact ⟨_, _, rfl⟩
  | closing =>
      cases inside : openGroups stack with
      | zero =>
          rw [inside] at nested
          exact nomatch nested
      | succ outer =>
          obtain ⟨above, below, rfl, plain, -⟩ := exists_innermost_group inside
          exact ⟨_, _, closeGroup_append plain below⟩

theorem exists_run_of_nesting {stack : Stack α} {reads : List (Item α)} {depth : Nat}
    (nested : nesting (openGroups stack) (reads.filterMap Item.bracket?) = some depth) :
    ∃ written rest, run stack (reads.map .ok) = .ok (written, rest) := by
  induction reads generalizing stack with
  | nil => exact ⟨[], stack, rfl⟩
  | cons read reads ih =>
      rw [filterMap_cons_eq_append] at nested
      obtain ⟨first, middle, stepped⟩ := exists_step_of_nesting nested
      rw [nesting_step stepped] at nested
      obtain ⟨later, rest, ran⟩ := ih nested
      exact ⟨_, rest, run_cons_ok stepped ran⟩

/-- **Balanced items are arranged.** -/
theorem exists_arrange_of_nesting {reads : List (Item α)}
    (balanced : nesting 0 (reads.filterMap Item.bracket?) = some 0) :
    ∃ written, arrange (reads.map .ok) = .ok written ∧
      written.Perm (reads.filterMap Item.label?) := by
  have nested : nesting (openGroups ([] : Stack α)) (reads.filterMap Item.bracket?) = some 0 :=
    balanced
  obtain ⟨written, rest, ran⟩ := exists_run_of_nesting nested
  have closed := (nesting_run ran).symm.trans balanced
  have arranged := arrange_eq_ok_iff.mpr ⟨written, rest, ran, Option.some.inj closed, rfl⟩
  obtain ⟨same, isSame, perm, -⟩ := arrange_eq_ok arranged
  obtain rfl : reads = same := eq_of_map_ok isSame
  exact ⟨_, arranged, perm⟩

/-- What a group holds stands before all that is read behind the group. -/
theorem group_sublist_of_arrange {before : List (Except SyntaxError (Item α))}
    {inner later : List (Item α)} {a b : α}
    (balanced : nesting 0 (inner.filterMap Item.bracket?) = some 0)
    (arranged : arrange (before ++ (.ok .opening :: inner.map .ok ++ [.ok .closing]) ++
      later.map .ok) = .ok out)
    (inside : a ∈ inner.filterMap Item.label?) (behind : b ∈ later.filterMap Item.label?) :
    [a, b].Sublist out := by
  obtain ⟨written, arrangedInner, perm⟩ := exists_arrange_of_nesting balanced
  obtain ⟨all, rest, ranAll, -⟩ := arrange_eq_ok_iff.mp arranged
  obtain ⟨_, _, -, ranGroup, -⟩ := run_append_eq_ok ranAll
  obtain ⟨front, middle, -, ran, -⟩ := run_append_eq_ok ranGroup
  have group := run_append_ok ran (actsAsOperand_group arrangedInner middle)
  exact pair_sublist_of_arrange arranged group (by simp [perm.mem_iff.mpr inside]) behind

end ShuntingYard

open ShuntingYard

variable {table : OperatorTable} {tokens out : List Token} {positions : List Nat}

/-! ## Tokens -/

/-- The token that is an operand under its own label, if a token was read as one. -/
def operandRead? (item : Except SyntaxError (Item Token)) : Option Token :=
  item.toOption.bind Item.operand?

/-- A token is read as an operand exactly if it is a number. -/
theorem operandRead?_resolve (table : OperatorTable) (token : Token) :
    operandRead? (table.resolve token token) = Option.guard Token.isNumber token := by
  cases token with
  | number | opening | closing => rfl
  | operator symbol =>
      rw [OperatorTable.resolve]
      cases table.find? symbol <;> rfl

/-- The tokens with a label of their own as an operand are the numbers. -/
theorem filterMap_operand?_of_resolve {reads : List (Item Token)}
    (resolved : (tokens.map .ok).map (· >>= fun token => table.resolve token token) =
      reads.map .ok) :
    reads.filterMap Item.operand? = tokens.filter Token.isNumber := by
  calc reads.filterMap Item.operand?
      = (reads.map .ok).filterMap operandRead? := by rw [List.filterMap_map]; rfl
    _ = tokens.filterMap fun token => operandRead? (table.resolve token token) := by
        rw [← resolved, List.map_map, List.filterMap_map]
        rfl
    _ = tokens.filterMap (Option.guard Token.isNumber) := by
        congr 1
        exact funext (operandRead?_resolve table)
    _ = tokens.filter Token.isNumber := by rw [List.filterMap_eq_filter]

theorem filter_isNumber_withoutBrackets (tokens : List Token) :
    (withoutBrackets tokens).filter Token.isNumber = tokens.filter Token.isNumber := by
  rw [withoutBrackets, List.filter_filter]
  congr 1
  funext token
  cases token <;> rfl

/-- **Numbers keep their order**, and there are no others. -/
theorem filter_isNumber_of_postfixOrder (ordered : table.postfixOrder (tokens.map .ok) = .ok out) :
    out.filter Token.isNumber = tokens.filter Token.isNumber := by
  obtain ⟨reads, resolved, perm, -⟩ := arrange_eq_ok ordered
  obtain ⟨same, tokensEq, -, labels⟩ := exists_tokens_of_resolve resolved
  obtain rfl : tokens = same := eq_of_map_ok tokensEq
  rw [OperatorTable.postfixOrder, resolved] at ordered
  have kept := (operands_sublist_arrange ordered).filter Token.isNumber
  rw [filterMap_operand?_of_resolve resolved, List.filter_filter] at kept
  rw [labels] at perm
  have sameNumbers := perm.filter Token.isNumber
  rw [filter_isNumber_withoutBrackets] at sameNumbers
  simp only [Bool.and_self] at kept
  exact (kept.eq_of_length sameNumbers.length_eq.symm).symm

/-! ## Positions -/

theorem mem_drop_of_getElem? {β : Type} {l : List β} {start place : Nat} {x : β}
    (here : l[place]? = some x) (behind : start ≤ place) : x ∈ l.drop start := by
  refine List.mem_of_getElem? (i := place - start) ?_
  rw [List.getElem?_drop, Nat.add_sub_cancel' behind, here]

theorem take_append_cons_drop {β : Type} {l : List β} {place : Nat} {x : β}
    (here : l[place]? = some x) : l.take place ++ x :: l.drop (place + 1) = l := by
  obtain ⟨bound, rfl⟩ := List.getElem?_eq_some_iff.mp here
  rw [← List.drop_eq_getElem_cons bound, List.take_append_drop]

/-- A token other than a parenthesis stands at a position. -/
def NoBracketAt (tokens : List Token) (position : Nat) : Prop :=
  ∃ token, tokens[position]? = some token ∧ token.bracket? = none

/-- **Two parentheses that belong together**: each group that is opened between them is closed
there too. -/
structure Matching (tokens : List Token) (opened closed : Nat) : Prop where
  /-- The first is an opening parenthesis. -/
  opening : tokens[opened]? = some .opening
  /-- The second is a closing parenthesis. -/
  closing : tokens[closed]? = some .closing
  /-- The parentheses between them are balanced. -/
  balanced :
    nesting 0 (((tokens.take closed).drop (opened + 1)).filterMap Token.bracket?) = some 0

/-- The items of tokens, each labelled by its position. -/
def LabelledByPosition (table : OperatorTable) (tokens : List Token) (reads : List (Item Nat)) :
    Prop :=
  ∀ position : Nat, tokens[position]?.map (table.resolve position) = reads[position]?.map .ok

theorem exists_labelledByPosition
    (ordered : table.postfixPositions (tokens.map .ok) = .ok positions) :
    ∃ reads, arrange (reads.map .ok) = .ok positions ∧
      LabelledByPosition table tokens reads := by
  rw [OperatorTable.postfixPositions_eq_arrange] at ordered
  obtain ⟨reads, resolved, -⟩ := arrange_eq_ok ordered
  refine ⟨reads, resolved ▸ ordered, fun position => ?_⟩
  have here := congrArg (·[position]?) resolved
  simpa [List.getElem?_zipIdx, Function.comp_def, bind, Except.bind] using here

namespace LabelledByPosition

variable {reads : List (Item Nat)} {position : Nat} {token : Token}

theorem exists_read (labelled : LabelledByPosition table tokens reads)
    (here : tokens[position]? = some token) :
    ∃ read, reads[position]? = some read ∧ table.resolve position token = .ok read := by
  have item := labelled position
  rw [here, Option.map_some] at item
  obtain ⟨read, there, resolved⟩ := Option.map_eq_some_iff.mp item.symm
  exact ⟨read, there, resolved.symm⟩

theorem exists_token (labelled : LabelledByPosition table tokens reads) {read : Item Nat}
    (there : reads[position]? = some read) :
    ∃ token, tokens[position]? = some token ∧ table.resolve position token = .ok read := by
  have item := labelled position
  rw [there, Option.map_some] at item
  exact Option.map_eq_some_iff.mp item

/-- The items have the parentheses of the tokens. -/
theorem map_bracket? (labelled : LabelledByPosition table tokens reads) :
    reads.map Item.bracket? = tokens.map Token.bracket? := by
  refine List.ext_getElem? fun position => ?_
  rw [List.getElem?_map, List.getElem?_map]
  cases here : tokens[position]? with
  | none =>
      have item := labelled position
      rw [here, Option.map_none] at item
      rw [Option.map_eq_none_iff.mp item.symm]
      rfl
  | some token =>
      obtain ⟨read, there, resolved⟩ := labelled.exists_read here
      rw [there, Option.map_some, Option.map_some, (bracket?_of_resolve resolved).1]

/-- So do those of a stretch. -/
theorem filterMap_bracket? (labelled : LabelledByPosition table tokens reads) (start stop : Nat) :
    ((reads.take stop).drop start).filterMap Item.bracket? =
      ((tokens.take stop).drop start).filterMap Token.bracket? := by
  calc ((reads.take stop).drop start).filterMap Item.bracket?
      = (((reads.map Item.bracket?).take stop).drop start).filterMap id := by
        rw [← List.map_take, ← List.map_drop, List.filterMap_map]
        rfl
    _ = ((tokens.take stop).drop start).filterMap Token.bracket? := by
        rw [labelled.map_bracket?, ← List.map_take, ← List.map_drop, List.filterMap_map]
        rfl

theorem exists_label (labelled : LabelledByPosition table tokens reads)
    (plain : NoBracketAt tokens position) :
    ∃ read, reads[position]? = some read ∧ read.label? = some position := by
  obtain ⟨token, here, plain⟩ := plain
  obtain ⟨read, there, resolved⟩ := labelled.exists_read here
  refine ⟨read, there, ?_⟩
  rw [(bracket?_of_resolve resolved).2, plain]
  rfl

/-- A position labels an item unless it is that of a parenthesis. -/
theorem mem_labels_iff (labelled : LabelledByPosition table tokens reads) :
    position ∈ reads.filterMap Item.label? ↔ NoBracketAt tokens position := by
  constructor
  · intro member
    obtain ⟨read, there, label⟩ := List.mem_filterMap.mp member
    obtain ⟨place, there⟩ := List.mem_iff_getElem?.mp there
    obtain ⟨token, here, resolved⟩ := labelled.exists_token there
    rw [(bracket?_of_resolve resolved).2] at label
    split at label
    next plain =>
      obtain rfl := Option.some.inj label
      exact ⟨token, here, Option.isNone_iff_eq_none.mp plain⟩
    next => cases label
  · intro plain
    obtain ⟨read, there, label⟩ := labelled.exists_label plain
    exact List.mem_filterMap.mpr ⟨read, List.mem_of_getElem? there, label⟩

/-- **A number is written before all that follows it.** -/
theorem number_sublist (labelled : LabelledByPosition table tokens reads)
    (arranged : arrange (reads.map .ok) = .ok positions) {i j : Nat} {value : Float}
    (here : tokens[i]? = some (.number value)) (later : i < j) (plain : NoBracketAt tokens j) :
    [i, j].Sublist positions := by
  obtain ⟨operand, there, resolved⟩ := labelled.exists_read here
  obtain rfl := Except.ok.inj resolved
  obtain ⟨read, behind, label⟩ := labelled.exists_label plain
  rw [← take_append_cons_drop there, List.map_append, List.map_cons] at arranged
  exact operand_sublist_of_arrange arranged
    (List.mem_filterMap.mpr ⟨read, mem_drop_of_getElem? behind later, label⟩)

/-- **A group is written before all that follows it.** -/
theorem group_sublist (labelled : LabelledByPosition table tokens reads)
    (arranged : arrange (reads.map .ok) = .ok positions) {opened closed i j : Nat}
    (pair : Matching tokens opened closed) (inside : opened < i) (before : i < closed)
    (plain : NoBracketAt tokens i) (later : closed < j) (plainLater : NoBracketAt tokens j) :
    [i, j].Sublist positions := by
  obtain ⟨first, isOpening, resolved⟩ := labelled.exists_read pair.opening
  obtain rfl := Except.ok.inj resolved
  obtain ⟨last, isClosing, resolved⟩ := labelled.exists_read pair.closing
  obtain rfl := Except.ok.inj resolved
  obtain ⟨read, there, label⟩ := labelled.exists_label plain
  obtain ⟨readLater, behind, labelLater⟩ := labelled.exists_label plainLater
  have isInside : (reads.take closed)[opened]? = some .opening := by
    rw [List.getElem?_take_of_lt (Nat.lt_trans inside before), isOpening]
  have isThere : (reads.take closed)[i]? = some read := by
    rw [List.getElem?_take_of_lt before, there]
  have split : reads = (reads.take closed).take opened ++
      (.opening :: (reads.take closed).drop (opened + 1) ++ [.closing]) ++
        reads.drop (closed + 1) := by
    calc reads = reads.take closed ++ .closing :: reads.drop (closed + 1) :=
          (take_append_cons_drop isClosing).symm
      _ = ((reads.take closed).take opened ++ .opening :: (reads.take closed).drop (opened + 1)) ++
            .closing :: reads.drop (closed + 1) := by rw [take_append_cons_drop isInside]
      _ = _ := by simp
  have balanced := pair.balanced
  rw [← labelled.filterMap_bracket?] at balanced
  rw [split] at arranged
  simp only [List.map_append, List.map_cons, List.map_nil] at arranged
  exact group_sublist_of_arrange balanced arranged
    (List.mem_filterMap.mpr ⟨read, mem_drop_of_getElem? isThere inside, label⟩)
    (List.mem_filterMap.mpr ⟨readLater, mem_drop_of_getElem? behind later, labelLater⟩)

end LabelledByPosition

namespace OperatorTable

/-- **Every occurrence is written once, and in its place.**  In the postfix order of any
tokens stand all but the parentheses, the numbers as they were, every operator as often as
before.  The positions of the tokens tell one occurrence from another: each is in the order
once, that of a number before all that follows it, and those in a group before all that
follows the group. -/
theorem postfixOrder_occurrences (table : OperatorTable) (tokens out : List Token)
    (ordered : table.postfixOrder (tokens.map .ok) = .ok out) :
    (∀ token ∈ out, token.bracket? = none) ∧
    out.filter Token.isNumber = tokens.filter Token.isNumber ∧
    (∀ symbol, out.count (.operator symbol) = tokens.count (.operator symbol)) ∧
    ∃ positions, table.postfixPositions (tokens.map .ok) = .ok positions ∧
      positions.map (tokens[·]?) = out.map some ∧ positions.Nodup ∧
      (∀ i, i ∈ positions ↔ NoBracketAt tokens i) ∧
      (∀ i j value, tokens[i]? = some (.number value) → i < j → NoBracketAt tokens j →
        [i, j].Sublist positions) ∧
      ∀ opened closed i j, Matching tokens opened closed → opened < i → i < closed →
        NoBracketAt tokens i → closed < j → NoBracketAt tokens j → [i, j].Sublist positions := by
  obtain ⟨same, tokensEq, perm, -⟩ := exists_tokens_of_postfixOrder ordered
  obtain rfl : tokens = same := eq_of_map_ok tokensEq
  obtain ⟨positions, orderedPositions, named⟩ := exists_positions_of_postfixOrder ordered
  obtain ⟨reads, arranged, labelled⟩ := exists_labelledByPosition orderedPositions
  obtain ⟨same, isSame, permPositions, -⟩ := arrange_eq_ok arranged
  obtain rfl : reads = same := eq_of_map_ok isSame
  refine ⟨fun token member => ?_, filter_isNumber_of_postfixOrder ordered, fun symbol => ?_,
    positions, orderedPositions, named, nodup_postfixPositions orderedPositions,
    fun i => permPositions.mem_iff.trans labelled.mem_labels_iff,
    fun i j value here later plain => labelled.number_sublist arranged here later plain,
    fun opened closed i j pair inside before plain later plainLater =>
      labelled.group_sublist arranged pair inside before plain later plainLater⟩
  · exact (mem_withoutBrackets.mp (perm.mem_iff.mp member)).2
  · rw [perm.count_eq, withoutBrackets]
    exact List.count_filter rfl

/-- The tokens `( 1 + * 2 ) 3` are no expression.  The number `1` stands before both operators,
and these, which find no better place, stand before the number behind the group. -/
theorem postfixOrder_occurrences_group :
    let tokens : List Token := [.opening, .number 1, .operator "+", .operator "*", .number 2,
      .closing, .number 3]
    standard.postfixOrder (tokens.map .ok) =
      .ok [.number 1, .number 2, .operator "*", .operator "+", .number 3] ∧
    ∃ positions, standard.postfixPositions (tokens.map .ok) = .ok positions ∧
      2 ∈ positions ∧ [1, 2].Sublist positions ∧ Matching tokens 0 5 ∧
      [2, 6].Sublist positions := by
  intro tokens
  have ordered : standard.postfixOrder (tokens.map .ok) =
      .ok [.number 1, .number 2, .operator "*", .operator "+", .number 3] := rfl
  have pair : Matching tokens 0 5 := ⟨rfl, rfl, rfl⟩
  have sum : NoBracketAt tokens 2 := ⟨.operator "+", rfl, rfl⟩
  have last : NoBracketAt tokens 6 := ⟨.number 3, rfl, rfl⟩
  obtain ⟨-, -, -, positions, orderedPositions, -, -, members, numbers, groups⟩ :=
    postfixOrder_occurrences standard tokens _ ordered
  exact ⟨ordered, positions, orderedPositions, (members 2).mpr sum,
    numbers 1 2 1 rfl (by decide) sum, pair,
    groups 0 5 2 6 pair (by decide) (by decide) sum (by decide) last⟩

end OperatorTable

end InfixCalculator
