/-!
The shortest decimal text that still names a binary floating point number. A finite number is `m ·
2 ^ q`; the reals that round to it form an interval around it, and the decimal chosen is the one
with the fewest digits inside that interval, the nearest one if there are two.
-/
namespace EntityScripts.Decimal

/-- A positive decimal: the digits of `value`, times `10 ^ scale`. -/
structure Digits where
  value : Nat
  scale : Int
deriving DecidableEq, Repr

/-- The reals that round to one number, over a common denominator. -/
structure Rounding where
  low : Nat
  value : Nat
  high : Nat
  denominator : Nat
  /-- Whether the ends round to the number too. -/
  closed : Bool

/-- The interval of `m · 2 ^ q`. Below a power of two the neighbour is only half as far. -/
def Rounding.ofBinary (m : Nat) (q : Int) (power : Bool) : Rounding :=
  let up := Nat.pow 2 q.toNat
  { low := (4 * m - if power then 1 else 2) * up
    value := 4 * m * up
    high := (4 * m + 2) * up
    denominator := 4 * Nat.pow 2 (-q).toNat
    closed := m % 2 == 0 }

def Rounding.admits (r : Rounding) (k : Nat) (p : Int) : Bool :=
  let x := k * Nat.pow 10 p.toNat * r.denominator
  let unit := Nat.pow 10 (-p).toNat
  if r.closed then r.low * unit ≤ x && x ≤ r.high * unit
  else r.low * unit < x && x < r.high * unit

/-- The multiple of `10 ^ p` that rounds to the number and lies nearest to it; a tie goes to the
even multiple. -/
def Rounding.onGrid? (r : Rounding) (p : Int) : Option Nat :=
  let unit := Nat.pow 10 p.toNat * r.denominator
  let scaled := r.value * Nat.pow 10 (-p).toNat
  let k := scaled / unit
  match r.admits k p, r.admits (k + 1) p with
  | false, false => none
  | true, false => some k
  | false, true => some (k + 1)
  | true, true =>
    let below := scaled - k * unit
    let above := (k + 1) * unit - scaled
    if below < above || (below == above && k % 2 == 0) then some k else some (k + 1)

def Rounding.shortest (r : Rounding) : Digits :=
  let found := (List.range 650).findSome? fun (i : Nat) =>
    (r.onGrid? (308 - (i : Int))).map (Digits.mk · (308 - (i : Int)))
  found.getD ⟨0, 0⟩

/-- Where positional text ends: the least and the greatest exponent of the leading digit that are
still written without an exponent. -/
structure Style where
  least : Int
  greatest : Int

def Digits.text (style : Style) (d : Digits) : String :=
  let ds := Nat.toDigits 10 d.value
  let lead : Int := d.scale + ds.length - 1
  let chars :=
    if style.least ≤ lead ∧ lead ≤ style.greatest then
      if 0 ≤ d.scale then ds ++ List.replicate d.scale.toNat '0' ++ ['.', '0']
      else if 0 ≤ lead then ds.take (lead.toNat + 1) ++ '.' :: ds.drop (lead.toNat + 1)
      else '0' :: '.' :: List.replicate (-lead - 1).toNat '0' ++ ds
    else
      let mantissa := match ds with
        | [] => []
        | [c] => [c]
        | c :: cs => c :: '.' :: cs
      let sign := if 0 ≤ lead then '+' else '-'
      mantissa ++ 'e' :: sign :: Nat.toDigits 10 lead.natAbs
  String.ofList chars

def floatText (style : Style) (x : Float) : String :=
  let bits : Nat := x.toBits.toNat
  let fraction : Nat := bits % Nat.pow 2 52
  let exponent : Nat := bits / Nat.pow 2 52 % Nat.pow 2 11
  let sign := if bits / Nat.pow 2 63 = 1 then "-" else ""
  if exponent = 2047 then if fraction = 0 then sign ++ "inf" else "NaN"
  else if exponent = 0 ∧ fraction = 0 then sign ++ "0.0"
  else
    let m : Nat := if exponent = 0 then fraction else fraction + Nat.pow 2 52
    let q : Int := if exponent = 0 then -1074 else (exponent : Int) - 1075
    sign ++ ((Rounding.ofBinary m q (fraction = 0 ∧ 1 < exponent)).shortest.text style)

end EntityScripts.Decimal
