/-!
The stamp of a run: a moment in universal time as text, such as `2024-02-29T12:00:00.5Z`.
-/
namespace EntityScripts.Stamp

def padded (width n : Nat) : String :=
  let ds := Nat.toDigits 10 n
  String.ofList (List.replicate (width - ds.length) '0' ++ ds)

structure Date where
  year : Nat
  month : Nat
  day : Nat
deriving DecidableEq, Repr

/-- The date of a day counted from the first of January 1970. Years begin in March here, so that the
day that leap years add is their last; four hundred of them have 146097 days. -/
def Date.ofDays (days : Nat) : Date :=
  let fromMarch := days + 719468
  let era := fromMarch / 146097
  let dayOfEra := fromMarch % 146097
  let yearOfEra := (dayOfEra - dayOfEra / 1460 + dayOfEra / 36524 - dayOfEra / 146096) / 365
  let dayOfYear := dayOfEra - (365 * yearOfEra + yearOfEra / 4 - yearOfEra / 100)
  let monthFromMarch := (5 * dayOfYear + 2) / 153
  let month := if monthFromMarch < 10 then monthFromMarch + 3 else monthFromMarch - 9
  { year := yearOfEra + era * 400 + if month ≤ 2 then 1 else 0
    month := month
    day := dayOfYear - (153 * monthFromMarch + 2) / 5 + 1 }

def fractionText (nanoseconds : Nat) : String :=
  if nanoseconds = 0 then ""
  else
    let ds := (padded 9 nanoseconds).toList.reverse.dropWhile (· = '0')
    String.ofList ('.' :: ds.reverse)

def ofUnix (seconds nanoseconds : Nat) : String :=
  let date := Date.ofDays (seconds / 86400)
  let rest := seconds % 86400
  padded 4 date.year ++ "-" ++ padded 2 date.month ++ "-" ++ padded 2 date.day ++ "T" ++
    padded 2 (rest / 3600) ++ ":" ++ padded 2 (rest / 60 % 60) ++ ":" ++ padded 2 (rest % 60) ++
    fractionText nanoseconds ++ "Z"

example : Date.ofDays 0 = ⟨1970, 1, 1⟩ ∧ Date.ofDays 19782 = ⟨2024, 2, 29⟩ ∧
    Date.ofDays 19783 = ⟨2024, 3, 1⟩ ∧ Date.ofDays 20819 = ⟨2027, 1, 1⟩ := by decide

end EntityScripts.Stamp
