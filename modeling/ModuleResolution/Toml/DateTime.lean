import ModuleResolution.Document
import ModuleResolution.Text
import ModuleResolution.Toml.Scanner

namespace ModuleResolution.Toml.DateTime

open Scanner

def field (n low high : Nat) : Scanner (List Char) := do
  let ds ← exactly Char.isDigit n
  if low ≤ Text.decimal ds && Text.decimal ds ≤ high then return ds else failure

def isLeapYear (year : Nat) : Bool :=
  year % 4 == 0 && (year % 100 != 0 || year % 400 == 0)

def daysIn (year month : Nat) : Nat :=
  if month == 2 then (if isLeapYear year then 29 else 28)
  else if month == 4 || month == 6 || month == 9 || month == 11 then 30
  else 31

def date : Scanner (List Char) := do
  let year ← field 4 0 9999
  char '-'
  let month ← field 2 1 12
  char '-'
  let day ← field 2 1 (daysIn (Text.decimal year) (Text.decimal month))
  return year ++ '-' :: month ++ '-' :: day

def shortened (places : List Char) : List Char :=
  ((places.take 9).reverse.dropWhile (· == '0')).reverse

def fraction : Scanner (List Char) := do
  char '.'
  let places := shortened (← spanNonempty Char.isDigit)
  return if places.isEmpty then [] else '.' :: places

def time : Scanner (List Char) := do
  let hour ← field 2 0 23
  char ':'
  let minute ← field 2 0 59
  char ':'
  let second ← field 2 0 60
  let places ← optional fraction
  return hour ++ ':' :: minute ++ ':' :: second ++ places.getD []

def offset : Scanner (List Char) :=
  (do
    discard (satisfy fun c => c == 'Z' || c == 'z')
    return ['Z']) <|>
  (do
    let sign ← satisfy fun c => c == '+' || c == '-'
    let hour ← field 2 0 23
    char ':'
    let minute ← field 2 0 59
    let isZero := Text.decimal (hour ++ minute) == 0
    return (if isZero then '+' else sign) :: hour ++ ':' :: minute)

def timeOfDay : Scanner (List Char) := do
  discard (satisfy fun c => c == 'T' || c == 't' || c == ' ')
  let t ← time
  let o ← optional offset
  return 'T' :: t ++ o.getD []

def dateTime : Scanner Document := do
  let text ← (do
      let d ← date
      let t ← optional timeOfDay
      return d ++ t.getD []) <|> time
  return .dateTime (String.ofList text)

end ModuleResolution.Toml.DateTime
