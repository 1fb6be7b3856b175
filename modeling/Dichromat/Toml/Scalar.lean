import Dichromat.Text.Number
import Dichromat.Toml.Text
import Dichromat.Value

/-!
# Numbers and moments in TOML

Integers in four bases, floating-point numbers, truth values, and dates and times, of which only
the kind is kept.
-/

namespace Dichromat.Toml

/-! ### Runs of digits -/

/-- Digits of some kind with single underscores between them. -/
def digitRun (isDigit : Char → Bool) : List Char → List Char × List Char
  | c :: rest =>
    if isDigit c then
      let (run, rest) := digitRun isDigit rest
      (c :: run, rest)
    else
      match c, rest with
      | '_', d :: rest' =>
        if isDigit d then
          let (run, rest) := digitRun isDigit rest'
          ('_' :: d :: run, rest)
        else ([], c :: rest)
      | _, _ => ([], c :: rest)
  | [] => ([], [])

/-- A run that begins with a digit. -/
def digits1 (isDigit : Char → Bool) : Reader (List Char)
  | c :: rest => if isDigit c then some (digitRun isDigit (c :: rest)) else none
  | [] => none

/-- The digits of decimal numbers. -/
def isDecimal (c : Char) : Bool := '0' ≤ c && c ≤ '9'

/-! ### Numbers -/

/-- The number that digits stand for. -/
def valueOfDigits (base : Nat) (run : List Char) : Nat :=
  (run.filterMap hexDigit?).foldl (fun n d => base * n + d) 0

/-- An integer behind `0x`, `0o` or `0b`. -/
def basedInteger : Reader Value
  | '0' :: 'x' :: rest => (digits1 (fun c => (hexDigit? c).isSome) rest).map (based 16)
  | '0' :: 'o' :: rest => (digits1 (fun c => '0' ≤ c && c ≤ '7') rest).map (based 8)
  | '0' :: 'b' :: rest => (digits1 (fun c => c == '0' || c == '1') rest).map (based 2)
  | _ => none
where
  based (base : Nat) (p : List Char × List Char) : Value × List Char :=
    (.int (valueOfDigits base p.1), p.2)

/-- The digits before the point: no zeros in front. -/
def wholePart : Reader (List Char)
  | '0' :: rest => some (['0'], rest)
  | cs => digits1 isDecimal cs

/-- A point and digits, if they are here. -/
def fractionPart (cs : List Char) : List Char × List Char :=
  match cs with
  | '.' :: rest =>
    match digits1 isDecimal rest with
    | some (run, rest) => ('.' :: run, rest)
    | none => ([], cs)
  | _ => ([], cs)

/-- An exponent, if one is here. -/
def exponentPart (cs : List Char) : List Char × List Char :=
  match cs with
  | e :: rest =>
    if e = 'e' ∨ e = 'E' then
      let (sign, rest) := match rest with
        | '+' :: rest => (['+'], rest)
        | '-' :: rest => (['-'], rest)
        | _ => ([], rest)
      match digits1 isDecimal rest with
      | some (run, rest) => (e :: sign ++ run, rest)
      | none => ([], cs)
    else ([], cs)
  | [] => ([], cs)

/-- The text of a number, and whether it has no point and no exponent. -/
def decimalText : Reader (String × Bool) := fun cs => do
  let (sign, rest) := match cs with
    | '+' :: rest => (['+'], rest)
    | '-' :: rest => (['-'], rest)
    | _ => ([], cs)
  let (whole, rest) ← wholePart rest
  let (fraction, rest) := fractionPart rest
  let (exponent, rest) := exponentPart rest
  let text := String.ofList (sign ++ whole ++ fraction ++ exponent)
  return ((text, fraction.isEmpty && exponent.isEmpty), rest)

/-- An integer or a floating-point number. -/
def decimalValue (text : String) (isInteger : Bool) : Except Fault Value :=
  if isInteger then (Text.integer text).map .int else (Text.real text).map .float

/-- `inf` and `nan` with an optional sign. -/
def specialFloat : Reader Value
  | 'i' :: 'n' :: 'f' :: rest | '+' :: 'i' :: 'n' :: 'f' :: rest => some (.float (1.0 / 0.0), rest)
  | '-' :: 'i' :: 'n' :: 'f' :: rest => some (.float (-1.0 / 0.0), rest)
  | 'n' :: 'a' :: 'n' :: rest | '+' :: 'n' :: 'a' :: 'n' :: rest
  | '-' :: 'n' :: 'a' :: 'n' :: rest => some (.float (0.0 / 0.0), rest)
  | _ => none

/-! ### Dates and times -/

/-- A number of `count` decimal digits. -/
def fixedDigits (count : Nat) : Reader Nat := fun cs =>
  let run := cs.take count
  if run.length = count ∧ run.all isDecimal then some (valueOfDigits 10 run, cs.drop count)
  else none

/-- What stands behind a character. -/
def expect (c : Char) : List Char → Option (List Char)
  | d :: rest => if d = c then some rest else none
  | [] => none

/-- Hours and minutes, on a clock that goes to 23:59. -/
def hourMinute (cs : List Char) : Option (List Char) := do
  let (hour, cs) ← fixedDigits 2 cs
  let (minute, cs) ← fixedDigits 2 (← expect ':' cs)
  if hour ≤ 23 ∧ minute ≤ 59 then some cs else none

/-- A time of day with seconds and perhaps a fraction of them. -/
def clock (cs : List Char) : Option (List Char) := do
  let cs ← hourMinute cs
  let (second, cs) ← fixedDigits 2 (← expect ':' cs)
  if 59 < second then none
  else
    match cs with
    | '.' :: d :: rest => if isDecimal d then some (rest.dropWhile isDecimal) else some cs
    | _ => some cs

/-- The offset of a zone, if one is here. -/
def zone (cs : List Char) : List Char :=
  match cs with
  | 'Z' :: rest | 'z' :: rest => rest
  | '+' :: rest | '-' :: rest => (hourMinute rest).getD cs
  | _ => cs

/-- The days of a month. -/
def daysOfMonth (year month : Nat) : Nat :=
  if month = 2 then
    if year % 4 = 0 ∧ (year % 100 ≠ 0 ∨ year % 400 = 0) then 29 else 28
  else if month = 4 ∨ month = 6 ∨ month = 9 ∨ month = 11 then 30
  else 31

/-- A date of the calendar: the numbers must be in their ranges to make one, and a day that the
month does not have makes the text malformed. -/
inductive DateReading
  | none
  | malformed
  | date (rest : List Char)

/-- What stands where a date could. -/
def date (cs : List Char) : DateReading :=
  let reading : Option (Bool × List Char) := do
    let (year, cs) ← fixedDigits 4 cs
    let (month, cs) ← fixedDigits 2 (← expect '-' cs)
    let (day, cs) ← fixedDigits 2 (← expect '-' cs)
    if 1 ≤ month ∧ month ≤ 12 ∧ 1 ≤ day ∧ day ≤ 31 then
      some (decide (1 ≤ year ∧ day ≤ daysOfMonth year month), cs)
    else Option.none
  match reading with
  | Option.none => .none
  | some (true, cs) => .date cs
  | some (false, _) => .malformed

/-- A time behind a date, if one is here. -/
def timeBehindDate : List Char → Option (List Char)
  | c :: rest => if c = 'T' ∨ c = 't' ∨ c = ' ' then (clock rest).map zone else none
  | [] => none

/-- A number of any kind. -/
def number : Parse Value := fun cs =>
  match basedInteger cs with
  | some read => .ok read
  | none =>
    match decimalText cs with
    | some ((text, isInteger), rest) => (decimalValue text isInteger).map (·, rest)
    | none => required (specialFloat cs)

/-- A truth value, a date or time, or a number. -/
def scalar : Parse Value := fun cs =>
  match cs with
  | 't' :: 'r' :: 'u' :: 'e' :: rest => .ok (.bool true, rest)
  | 'f' :: 'a' :: 'l' :: 's' :: 'e' :: rest => .ok (.bool false, rest)
  | _ =>
    match date cs with
    | .malformed => .error .malformed
    | .date rest =>
      match timeBehindDate rest with
      | some rest => .ok (.moment .dateTime, rest)
      | none => .ok (.moment .date, rest)
    | .none =>
      match clock cs with
      | some rest => .ok (.moment .time, rest)
      | none => number cs

end Dichromat.Toml
