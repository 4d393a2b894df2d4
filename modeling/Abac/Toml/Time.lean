import Abac.Digits

/-!
Dates and times of TOML. A day and a time of the day may stand alone or together, and both together
may have a distance from universal time. They are kept as text, with `T` before the time, `Z` for
universal time, and no more zeros behind the seconds than one.
-/
namespace Abac.Toml

def twoDigits? (greatest : Nat) (text : List Char) : Option Nat :=
  if text.length = 2 ∧ text.all Digits.isDecimal then
    (some (Digits.ofDecimal text)).filter (· ≤ greatest)
  else none

def isLeapYear (year : Nat) : Bool := year % 4 = 0 && (year % 100 ≠ 0 || year % 400 = 0)

def daysOf (year month : Nat) : Nat :=
  if month = 2 then (if isLeapYear year then 29 else 28)
  else if month ∈ [4, 6, 9, 11] then 30
  else 31

def isDay (text : List Char) : Bool :=
  match text.splitOn '-' with
  | [year, month, day] =>
    year.length = 4 && year.all Digits.isDecimal &&
      (twoDigits? 12 month).any fun month =>
        1 ≤ month && (twoDigits? (daysOf (Digits.ofDecimal year) month) day).any (1 ≤ ·)
  | _ => false

def fraction (digits : List Char) : List Char :=
  match ((digits.take 9).reverse.dropWhile (· = '0')).reverse with
  | [] => ['0']
  | kept => kept

def seconds? (text : List Char) : Option (List Char) :=
  match text.splitOn '.' with
  | [whole] => (twoDigits? 60 whole).map fun _ => whole
  | [whole, digits] =>
    if digits ≠ [] ∧ digits.all Digits.isDecimal then
      (twoDigits? 60 whole).map fun _ => whole ++ '.' :: fraction digits
    else none
  | _ => none

def timeOfDay? (text : List Char) : Option (List Char) :=
  match text.splitOn ':' with
  | [hour, minute] => do
    let _ ← twoDigits? 23 hour
    let _ ← twoDigits? 59 minute
    return hour ++ ':' :: minute
  | [hour, minute, second] => do
    let _ ← twoDigits? 23 hour
    let _ ← twoDigits? 59 minute
    return hour ++ ':' :: minute ++ ':' :: (← seconds? second)
  | _ => none

def distance? : List Char → Option (List Char)
  | [] => some []
  | ['Z'] | ['z'] => some ['Z']
  | sign :: rest =>
    if sign = '+' ∨ sign = '-' then
      match rest.splitOn ':' with
      | [hours, minutes] => do
        let h ← twoDigits? 23 hours
        let m ← twoDigits? 59 minutes
        return (if h = 0 ∧ m = 0 then '+' else sign) :: rest
      | _ => none
    else none

def placedTime? (text : List Char) : Option (List Char) := do
  let isTimeChar (c : Char) : Bool := Digits.isDecimal c || c = ':' || c = '.'
  return (← timeOfDay? (text.takeWhile isTimeChar)) ++ (← distance? (text.dropWhile isTimeChar))

def moment? (text : List Char) : Option String :=
  let day := text.take 10
  let read :=
    if isDay day then
      match text.drop 10 with
      | [] => some day
      | c :: time => if c = 'T' ∨ c = 't' then (placedTime? time).map (day ++ 'T' :: ·) else none
    else timeOfDay? text
  read.map String.ofList

end Abac.Toml
