import EntityScripts.Json.Fault

/-!
Numerals: the digits of a number as they stand in a document, and the number they name. An integer
that fits 64 bits is exact. Any other numeral takes the digits that fit 64 bits as an integer and
scales it by one power of ten, rounding once for each of the two steps.
-/
namespace EntityScripts.Json

structure Numeral where
  negative : Bool
  whole : List Nat
  fraction : Option (List Nat)
  /-- Whether the exponent is negative, and its digits. -/
  exponent : Option (Bool × List Nat)

def maxWord : Nat := Nat.pow 2 64 - 1

/-- Reads digits while the number fits 64 bits; the count of digits left over comes with it. -/
def readWord (acc : Nat) : List Nat → Nat × List Nat
  | [] => (acc, [])
  | d :: ds => if acc * 10 + d ≤ maxWord then readWord (acc * 10 + d) ds else (acc, d :: ds)

/-- `f · 10 ^ e`, where a power too small for the table is taken in several divisions. -/
def scaleReal (f : Float) (e : Int) : Except Fault Float :=
  if 0 ≤ e then
    if e ≤ 308 then
      let r := f * Float.ofScientific 1 false e.toNat
      if r.isInf then .error .numberOutOfRange else .ok r
    else if f == 0.0 then .ok f
    else .error .numberOutOfRange
  else if -308 ≤ e then .ok (f / Float.ofScientific 1 false (-e).toNat)
  else if f == 0.0 then .ok f
  else scaleReal (f / 1e308) (e + 308)
termination_by (-e).toNat

def naturalOf (digits : List Nat) : Nat :=
  digits.foldl (fun n d => n * 10 + d) 0

def maxExponent : Nat := Nat.pow 2 31 - 1

def boundExponent (e : Int) : Int :=
  if e < -maxExponent - 1 then -maxExponent - 1 else if maxExponent < e then maxExponent else e

def realOf (negative : Bool) (word : Nat) (scale : Int) (exponent : Option (Bool × List Nat)) :
    Except Fault Float :=
  let signed (x : Float) : Float := if negative then -x else x
  match exponent with
  | none => signed <$> scaleReal word.toUInt64.toFloat scale
  | some (down, digits) =>
    let e := naturalOf digits
    if maxExponent < e then
      if word ≠ 0 ∧ !down then .error .numberOutOfRange else .ok (signed 0.0)
    else
      let total : Int := if down then scale - e else scale + e
      signed <$> scaleReal word.toUInt64.toFloat (boundExponent total)

def Numeral.value (n : Numeral) : Except Fault Number :=
  let (word, spare) := readWord 0 n.whole
  match n.fraction with
  | some ds =>
    let (word', rest) := readWord word ds
    let scale : Int := spare.length - (ds.length - rest.length : Nat)
    .real <$> realOf n.negative word' scale n.exponent
  | none =>
    if !spare.isEmpty ∨ n.exponent.isSome then
      .real <$> realOf n.negative word spare.length n.exponent
    else if !n.negative then .ok (.natural word)
    else if word = 0 ∨ maxWord / 2 + 1 < word then .ok (.real (-word.toUInt64.toFloat))
    else .ok (.negative (word - 1))

end EntityScripts.Json
