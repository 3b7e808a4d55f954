import InfixCalculator.Number.Shortest

/-!
# The text of a number

Numbers are written with the shortest digits that read back, in positional
notation: `10000000000000000000000` and not a power of ten, `5` and not `5.0`.

## Main definitions

* `Number.text` — the text of a double.
* `Number.resultText` — the text of a result, in which a zero has no sign.
* `Number.ofText?` — reads what `Number.text` writes.
-/

namespace InfixCalculator

namespace Number

/-- A minus sign before the text of a negative number. -/
def signed (negative : Bool) (text : List Char) : List Char :=
  if negative then '-' :: text else text

/-- The characters of a double's text. -/
def chars (x : Float) : List Char :=
  match Binary64.ofFloat x with
  | .nan => "NaN".toList
  | .infinite negative => signed negative "inf".toList
  | .finite negative magnitude => signed negative magnitude.shortestDecimal.text

/-- **The text of a double**: the shortest decimal that reads back as it, with
a minus sign for a negative number or a negative zero; `inf`, `-inf` and `NaN`
for the others. -/
def text (x : Float) : String := String.ofList (chars x)

/-- **The text of a result.**  Both zeros are written `0`. -/
def resultText (x : Float) : String := if x == 0 then "0" else text x

/-- The double of a text from which the sign is taken. -/
def ofUnsigned? (negative : Bool) : List Char → Option Float
  | ['i', 'n', 'f'] => some (Binary64.infinite negative).toFloat
  | ['N', 'a', 'N'] => some Binary64.nan.toFloat
  | numeral =>
      (Decimal.ofText? numeral).map fun d => (Binary64.finite negative d.magnitude).toFloat

/-- **Reads the text of a double**: an optional minus sign and then digits with
at most one point, `inf` or `NaN`. -/
def ofText? (text : String) : Option Float :=
  match text.toList with
  | '-' :: numeral => ofUnsigned? true numeral
  | numeral => ofUnsigned? false numeral

end Number

end InfixCalculator
