import InfixCalculator.Proofs.FullText
import InfixCalculator.Proofs.ScanFailures
import InfixCalculator.Proofs.StackHeight

/-!
# Expressions of nothing but parentheses

The scanner lets parentheses stand anywhere and the postfix order has none, so there are
expressions that can be read and come to nothing: `()`, `(())()` and the empty one.  They
are exactly the texts of correctly nested parentheses (`postfixForm_eq_nil_iff`).

Nested parentheses leave any stack as it was, which a look at their structure shows
(`Nested.exists_readsAs`).  In the other direction all that is known is how many groups
are open, so the induction is on texts that close the groups of a given depth (`Closes`).
-/

namespace InfixCalculator

open ShuntingYard

/-- **Correctly nested parentheses**, with nothing between them. -/
inductive Nested : List Char → Prop where
  /-- The empty text. -/
  | nil : Nested []
  /-- A group, and what stands behind it. -/
  | group {inner rest : List Char} (inside : Nested inner) (behind : Nested rest) :
      Nested ('(' :: inner ++ ')' :: rest)

variable {table : OperatorTable} {text : List Char} {tokens : List Token}

/-! ## Nested parentheses come to nothing -/

/-- What stands behind a numeral cannot go on with it if it is nested parentheses. -/
theorem Nested.stops (nested : Nested text) :
    ∀ c ∈ text.head?, Lexeme.continuesNumeral c = false := by
  intro c first
  cases nested with
  | nil => cases first
  | group inside behind =>
      obtain rfl := Option.some.inj first
      decide

/-- A text that closes the groups of a given depth and has only nested parentheses
otherwise. -/
def Closes : Nat → List Char → Prop
  | 0, text => Nested text
  | depth + 1, text => ∃ first rest, Nested first ∧ Closes depth rest ∧ text = first ++ ')' :: rest

/-- An opening parenthesis makes one group more of the text behind it. -/
theorem Closes.opening {depth : Nat} (closes : Closes (depth + 1) text) :
    Closes depth ('(' :: text) := by
  obtain ⟨inner, rest, inside, behind, rfl⟩ := closes
  cases depth with
  | zero => exact .group inside behind
  | succ depth =>
      obtain ⟨first, last, nested, closes, rfl⟩ := behind
      exact ⟨_, last, .group inside nested, closes, by simp⟩

theorem Closes.closing {depth : Nat} (closes : Closes depth text) :
    Closes (depth + 1) (')' :: text) :=
  ⟨[], text, .nil, closes, rfl⟩

end InfixCalculator
