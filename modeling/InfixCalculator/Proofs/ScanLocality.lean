import InfixCalculator.Proofs.ScanFailures

/-!
# How far a scan looks ahead

A piece of a text ends where the character behind it does not continue it, and a minus sign
means what the character behind it makes of it.  Nothing else of the text behind a piece
is looked at.  So texts that share their beginning give the same items for all pieces that
end before the last character of it, failures included (`OperatorTable.items_local`).

Two facts make this up.  The pieces themselves are the same (`Lexeme.Cuts.exists_cuts_of_take`),
since the character that ends a piece is shared too.  And what a piece becomes depends on the
pieces up to it and on the first character of those behind
(`Scanner.take_itemsFrom_append`).
-/

namespace InfixCalculator

/-- Texts that share their beginning start with the same character. -/
theorem head?_eq_of_take {α : Type} {text other : List α} {n : Nat}
    (shared : text.take n = other.take n) (positive : 0 < n) : text.head? = other.head? := by
  have heads := congrArg List.head? shared
  rwa [List.head?_take, List.head?_take, if_neg (Nat.ne_of_gt positive),
    if_neg (Nat.ne_of_gt positive)] at heads

/-- Texts that share their beginning go on alike behind a part of it. -/
theorem exists_eq_append_of_take {α : Type} (front : List α) {rest other : List α} {n : Nat}
    (shared : (front ++ rest).take n = other.take n) (enough : front.length ≤ n) :
    ∃ more, other = front ++ more ∧
      rest.take (n - front.length) = more.take (n - front.length) := by
  have split : other = front ++ other.drop front.length := by
    have first := congrArg (List.take front.length) shared
    rw [List.take_take, List.take_take, Nat.min_eq_left enough, List.take_left] at first
    conv => lhs; rw [← List.take_append_drop front.length other, ← first]
  refine ⟨other.drop front.length, split, ?_⟩
  rw [split, List.take_append, List.take_append] at shared
  exact List.append_cancel_left shared

namespace Lexeme

theorem Cuts.firstChar_eq {text : List Char} {lexemes : List Lexeme} (cuts : Cuts text lexemes) :
    firstChar lexemes = text.head? := by
  rw [cuts.eq_cut, firstChar_cut]

/-- **Texts that share their beginning share the pieces of it**, up to the piece that ends
before the last shared character, and the character behind that one. -/
theorem Cuts.exists_cuts_of_take {before behind : List Lexeme} {text other : List Char} {n : Nat}
    (cuts : Cuts text (before ++ behind)) (shared : text.take n = other.take n)
    (inside : (before.flatMap chars).length < n) :
    ∃ more, Cuts other (before ++ more) ∧ firstChar behind = firstChar more := by
  induction before generalizing text other n with
  | nil =>
      have first : firstChar behind = text.head? := Cuts.firstChar_eq cuts
      have heads := head?_eq_of_take shared inside
      exact ⟨cut other, cuts_cut other, by rw [first, heads, firstChar_cut]⟩
  | cons lexeme before ih =>
      rw [List.flatMap_cons, List.length_append] at inside
      have ends : lexeme.chars.length < n := by omega
      cases cuts with
      | numeral digit run stops later =>
          obtain ⟨following, rfl, sharedLater⟩ :=
            exists_eq_append_of_take _ shared (Nat.le_of_lt ends)
          -- The character that ends the numeral is shared, so that it ends there in both texts.
          have next := head?_eq_of_take sharedLater (Nat.sub_pos_of_lt ends)
          obtain ⟨more, cutsMore, same⟩ := ih later sharedLater (Nat.lt_sub_iff_add_lt'.mpr inside)
          exact ⟨more, .numeral digit run (next ▸ stops) cutsMore, same⟩
      | @other c rest _ noDigit later =>
          rw [chars_ofChar] at inside ends
          obtain ⟨following, rfl, sharedLater⟩ :=
            exists_eq_append_of_take [c] shared (Nat.le_of_lt ends)
          obtain ⟨more, cutsMore, same⟩ := ih later sharedLater (Nat.lt_sub_iff_add_lt'.mpr inside)
          exact ⟨more, .other noDigit cutsMore, same⟩

end Lexeme

namespace Scanner

/-- The first character of pieces is that of the first, or that of those behind. -/
theorem firstChar_append (before : List Lexeme) {behind more : List Lexeme}
    (same : firstChar behind = firstChar more) :
    firstChar (before ++ behind) = firstChar (before ++ more) := by
  cases before with
  | nil => exact same
  | cons lexeme before => rfl

/-- **What pieces become does not depend on those behind**, but for the first character of
them. -/
theorem take_itemsFrom_append (table : OperatorTable) (before : List Lexeme)
    {behind more : List Lexeme} (same : firstChar behind = firstChar more) (index : Nat)
    (context : Context) :
    (itemsFrom table index context (before ++ behind)).take before.length =
      (itemsFrom table index context (before ++ more)).take before.length := by
  induction before generalizing index context with
  | nil => simp
  | cons lexeme before ih =>
      have next := firstChar_append before same
      simp only [List.cons_append, itemsFrom, next, List.length_cons]
      split
      next => rw [List.take_succ_cons, List.take_succ_cons, ih]
      next => rfl

/-- There are no more items than pieces. -/
theorem length_itemsFrom_le (table : OperatorTable) (index : Nat) (context : Context)
    (lexemes : List Lexeme) : (itemsFrom table index context lexemes).length ≤ lexemes.length := by
  induction lexemes generalizing index context with
  | nil => exact Nat.le_refl 0
  | cons lexeme lexemes ih =>
      rw [itemsFrom]
      split
      next => exact Nat.succ_le_succ (ih _ _)
      next => exact Nat.succ_le_succ (Nat.zero_le _)

/-- The answers of a scan are its items. -/
theorem getElem?_nextItems (scanner : Scanner) (position : Nat) :
    (scanner.nextItems (position + 1))[position]? = some scanner.items[position]? := by
  induction position generalizing scanner with
  | zero => simp [nextItems, next_fst, List.head?_eq_getElem?]
  | succ position ih =>
      rw [nextItems, List.getElem?_cons_succ, ih, items_next_snd, List.getElem?_tail]

end Scanner

namespace OperatorTable

/-- **A scan of a text yields an item at a place of its stream**, for the piece that stands
between two places of the text. -/
structure YieldsAt (table : OperatorTable) (text : String) (position : Nat)
    (item : Except SyntaxError Token) (start stop : Nat) : Prop where
  /-- It is the answer when `position` answers were given before. -/
  answered : ((table.scanner text).nextItems (position + 1))[position]? = some (some item)
  /-- Its piece has as many pieces before it, and these have `start` characters. -/
  placed : ∃ before lexeme behind, Lexeme.cut text.toList = before ++ lexeme :: behind ∧
    before.length = position ∧ (before.flatMap Lexeme.chars).length = start ∧
    start + lexeme.length = stop

/-- Every item of a text has its place in it. -/
theorem exists_yieldsAt {table : OperatorTable} {text : String} {position : Nat}
    {item : Except SyntaxError Token} (yielded : (table.items text)[position]? = some item) :
    ∃ start stop, table.YieldsAt text position item start stop := by
  obtain ⟨short, -⟩ := List.getElem?_eq_some_iff.mp yielded
  have pieces := Nat.lt_of_lt_of_le short
    (Scanner.length_itemsFrom_le table 0 .start (Lexeme.cut text.toList))
  refine ⟨_, _, ?_, (Lexeme.cut text.toList).take position, (Lexeme.cut text.toList)[position],
    (Lexeme.cut text.toList).drop (position + 1), ?_, ?_, rfl, rfl⟩
  · rw [Scanner.getElem?_nextItems]
    exact congrArg some yielded
  · rw [List.getElem_cons_drop, List.take_append_drop]
  · exact List.length_take_of_le (Nat.le_of_lt pieces)

/-- **A scan looks one character ahead and no further.**  Every item of a text belongs to a
piece of it.  Of two texts that share their first `n` characters each yields what the other
does for a piece that ends before the last of these: the same token or the same failure, in
the same place of the stream and of the text. -/
theorem items_local (table : OperatorTable) :
    (∀ text position item, (table.items text)[position]? = some item →
      ∃ start stop, table.YieldsAt text position item start stop) ∧
    ∀ (text other : String) (n : Nat), text.toList.take n = other.toList.take n →
      ∀ position item start stop, table.YieldsAt text position item start stop → stop < n →
        table.YieldsAt other position item start stop := by
  refine ⟨fun text position item => exists_yieldsAt, ?_⟩
  rintro text other n shared position item start stop ⟨answered, before, lexeme, behind, cut,
    rfl, rfl, rfl⟩ inside
  have length : ((before ++ [lexeme]).flatMap Lexeme.chars).length < n := by
    simpa [Lexeme.length] using inside
  have cuts : Lexeme.Cuts text.toList (before ++ [lexeme] ++ behind) := by
    simpa [← cut] using Lexeme.cuts_cut text.toList
  obtain ⟨more, cutsOther, same⟩ := cuts.exists_cuts_of_take shared length
  have items : (table.items text).take (before.length + 1) =
      (table.items other).take (before.length + 1) := by
    have taken := Scanner.take_itemsFrom_append table (before ++ [lexeme]) same 0 .start
    rwa [List.length_append, cuts.eq_cut, cutsOther.eq_cut] at taken
  refine ⟨?_, before, lexeme, more, by simp [← cutsOther.eq_cut], rfl, rfl, rfl⟩
  have here := congrArg (·[before.length]?) items
  simp only [List.getElem?_take, Nat.lt_succ_self, if_true] at here
  rw [Scanner.getElem?_nextItems] at answered ⊢
  exact (congrArg some here.symm).trans answered

/-- The failure of `2..5` does not hang on what follows the character behind it. -/
theorem items_local_numeral :
    "3!-2..5+".toList.take 8 = "3!-2..5+?)".toList.take 8 ∧
      standard.YieldsAt "3!-2..5+" 3 (.error (.invalidNumber 3 "2..5")) 3 7 ∧
      standard.YieldsAt "3!-2..5+?)" 3 (.error (.invalidNumber 3 "2..5")) 3 7 := by
  have shared : "3!-2..5+".toList.take 8 = "3!-2..5+?)".toList.take 8 := by decide +kernel
  have yields : standard.YieldsAt "3!-2..5+" 3 (.error (.invalidNumber 3 "2..5")) 3 7 :=
    ⟨by decide +kernel, [.numeral ['3'], .symbol '!', .minus], .numeral "2..5".toList,
      [.symbol '+'], by decide +kernel, rfl, rfl, rfl⟩
  exact ⟨shared, yields, (items_local .standard).2 _ _ 8 shared 3 _ 3 7 yields (by decide)⟩

/-- The character behind a piece does count: it can make a minus sign the sign of a value, or
continue a numeral. -/
example : OperatorTable.standard.items "2*-" ≠ OperatorTable.standard.items "2*-3" ∧
    (OperatorTable.standard.items "1")[0]? ≠ (OperatorTable.standard.items "12")[0]? := by
  decide +kernel

end OperatorTable

end InfixCalculator
