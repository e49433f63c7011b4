import Lots.Numeral
import Lots.Text.Blank
import Lots.Text.Digit

/-!
# Lots — integers that a user types

An integer on the command line may have blanks around it, a sign in front of it, decimal
digits of any script, and single underscores between its digits.
-/

namespace Lots.CommandLine

/-- Blanks that may stand around an integer. The information separators do not. -/
def isPadding (c : Char) : Bool :=
  Text.isBlank c && !(0x1C ≤ c.toNat && c.toNat ≤ 0x1F)

def unpad (s : List Char) : List Char :=
  ((s.dropWhile isPadding).reverse.dropWhile isPadding).reverse

/-- The digits behind the first one; one underscore may stand before each. -/
def moreDigits? : List Char → Option (List Nat)
  | [] => some []
  | '_' :: c :: rest => do
    let digit ← Text.decimalDigit? c
    let more ← moreDigits? rest
    return digit :: more
  | c :: rest => do
    let digit ← Text.decimalDigit? c
    let more ← moreDigits? rest
    return digit :: more

/-- The value of a run of digits, if it is not too long. -/
def magnitude? : List Char → Option Nat
  | [] => none
  | c :: rest => do
    let digit ← Text.decimalDigit? c
    let more ← moreDigits? rest
    if more.length < Numeral.digitLimit then
      some (more.foldl (fun n digit => 10 * n + digit) digit)
    else none

def integer? (text : List Char) : Option Int :=
  match unpad text with
  | [] => none
  | c :: rest =>
    match Numeral.Sign.ofChar? c with
    | some sign => (magnitude? rest).map sign.apply
    | none => (magnitude? (c :: rest)).map Int.ofNat

end Lots.CommandLine
