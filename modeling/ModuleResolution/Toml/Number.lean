import ModuleResolution.Document
import ModuleResolution.Text
import ModuleResolution.Toml.Scanner

namespace ModuleResolution.Toml.Number

open Scanner

def digits (isDigit : Char → Bool) : Scanner (List Char) := do
  return (← satisfy isDigit) :: (← repeated (satisfy isDigit <|> (char '_' *> satisfy isDigit)))

def wholeDigits : Scanner (List Char) :=
  (return [← satisfy (· == '0')]) <|> digits Char.isDigit

def sign : Scanner Bool := do
  match ← optional (satisfy fun c => c == '+' || c == '-') with
  | some '-' => return true
  | _ => return false

def signed (negative : Bool) (n : Nat) : Int :=
  if negative then -n else n

def decimalInteger : Scanner Int := do
  let negative ← sign
  return signed negative (Text.decimal (← wholeDigits))

def radixInteger (mark : Char) (radix : Nat) (isDigit : Char → Bool) : Scanner Int := do
  token ['0', mark]
  return Text.ofDigits radix (← digits isDigit)

def integer : Scanner Document := do
  let n ← radixInteger 'x' 16 Text.isHexDigit <|>
    radixInteger 'o' 8 (fun c => '0' ≤ c && c ≤ '7') <|>
    radixInteger 'b' 2 (fun c => c == '0' || c == '1') <|> decimalInteger
  if Int64.minValue.toInt ≤ n && n ≤ Int64.maxValue.toInt then return .integer n else failure

def doubleLimit : Nat := Nat.pow 2 1024 - Nat.pow 2 970

/--
Whether `mantissa * 10 ^ exponent` lies beyond the finite doubles. The number of digits decides
unless it is near that of the limit, so that no power grows large.
-/
def exceedsDouble (mantissa : Nat) (exponent : Int) : Bool :=
  if mantissa == 0 then
    false
  else
    let magnitude := (toString mantissa).length + exponent
    if magnitude > 310 then true
    else if magnitude < 308 then false
    else if 0 ≤ exponent then doubleLimit ≤ mantissa * Nat.pow 10 exponent.toNat
    else doubleLimit * Nat.pow 10 (-exponent).toNat ≤ mantissa

def fraction : Scanner (List Char) :=
  char '.' *> digits Char.isDigit

def exponent : Scanner Int := do
  discard (satisfy fun c => c == 'e' || c == 'E')
  let negative ← sign
  return signed negative (Text.decimal (← digits Char.isDigit))

def scientific : Scanner Unit := do
  let negative ← sign
  let whole ← wholeDigits
  let part ← optional fraction
  let power ← if part.isSome then optional exponent else some <$> exponent
  let places := part.getD []
  let mantissa := Text.decimal (whole ++ places)
  if !negative && exceedsDouble mantissa (power.getD 0 - places.length) then failure

def special : Scanner Unit := do
  discard sign
  token ['i', 'n', 'f'] <|> token ['n', 'a', 'n']

def float : Scanner Document := do
  let (_, text) ← withText (scientific <|> special)
  return .float text

end ModuleResolution.Toml.Number
