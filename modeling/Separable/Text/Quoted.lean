import Separable.Text.Blind

/-!
# Quoted text

A message that names something puts the name in quotes, so that a name with blanks, quotes or
control characters can be told from the words around it. Single quotes are used unless the text
has a single quote and no double quote. Inside, the backslash and the quote in use are escaped
with a backslash, line feed, carriage return and tab have their letters, and any other character
without a visible form is written by its code point in two, four or eight hexadecimal digits.

## Main results

* `quoteFor_of_no_single`: text without a single quote is put in single quotes.
-/

namespace Separable.Text

/-- The digit of `n % 16`, in lower case. -/
def hexDigit (n : Nat) : Char :=
  let d := n % 16
  Char.ofNat (if d < 10 then 48 + d else 87 + d)

/-- The last `width` hexadecimal digits of `n`. -/
def hexDigits : (width : Nat) → (n : Nat) → List Char
  | 0, _ => []
  | width + 1, n => hexDigits width (n / 16) ++ [hexDigit n]

@[simp] theorem length_hexDigits (width n : Nat) : (hexDigits width n).length = width := by
  induction width generalizing n with
  | zero => rfl
  | succ width ih => simp [hexDigits, ih]

/-- The quote to put around `s`. -/
def quoteFor (s : List Char) : Char :=
  if s.contains '\'' && !s.contains '"' then '"' else '\''

theorem quoteFor_of_no_single {s : List Char} (h : '\'' ∉ s) : quoteFor s = '\'' := by
  simp [quoteFor, h]

/-- One character of a text in quotes `quote`. -/
def escaped (quote c : Char) : List Char :=
  if c = quote || c = '\\' then ['\\', c]
  else if c = '\n' then ['\\', 'n']
  else if c = '\r' then ['\\', 'r']
  else if c = '\t' then ['\\', 't']
  else if isBlind c then
    let point := c.toNat
    if point < 0x100 then '\\' :: 'x' :: hexDigits 2 point
    else if point < 0x10000 then '\\' :: 'u' :: hexDigits 4 point
    else '\\' :: 'U' :: hexDigits 8 point
  else [c]

/-- The text in quotes. -/
def quoted (s : String) : String :=
  let chars := s.toList
  let quote := quoteFor chars
  String.ofList (quote :: chars.flatMap (escaped quote) ++ [quote])

end Separable.Text
