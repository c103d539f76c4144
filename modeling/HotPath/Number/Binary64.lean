/-! Floating point numbers of 64 bits, read from decimal text and written with the fewest digits
that read back as the same number. All arithmetic is exact, on natural numbers. -/

namespace HotPath

/-- A number, `mantissa * 2 ^ exponent` with a sign if it is finite. -/
inductive Binary64
  | nan
  | infinite (negative : Bool)
  | finite (negative : Bool) (mantissa : Nat) (exponent : Int)
deriving DecidableEq

namespace Binary64

/-- A quotient rounded to the nearest number; a half goes to the even neighbour. -/
def roundDiv (num den : Nat) : Nat :=
  let q := num / den
  let r := num % den
  if 2 * r < den then q else if den < 2 * r then q + 1 else q + q % 2

/-- Numerator and denominator of `num / den * 2 ^ e`. -/
def scale (num den : Nat) (e : Int) : Nat × Nat :=
  if 0 ≤ e then (num * Nat.pow 2 e.toNat, den) else (num, den * Nat.pow 2 (-e).toNat)

/-- The largest `e` with `2 ^ e ≤ num / den`, for positive numbers. -/
def floorLog2 (num den : Nat) : Int :=
  let e : Int := (Nat.log2 num : Int) - (Nat.log2 den : Int)
  let (n, d) := scale num den (-e)
  if d ≤ n then e else e - 1

/-- The number nearest to a quotient. -/
def ofRatio (negative : Bool) (num den : Nat) : Binary64 :=
  if num = 0 then finite negative 0 0
  else
    let e := max (floorLog2 num den - 52) (-1074)
    let (n, d) := scale num den (-e)
    let m := roundDiv n d
    let (m, e) := if m = Nat.pow 2 53 then (Nat.pow 2 52, e + 1) else (m, e)
    if e > 971 then infinite negative else finite negative m e

/-- The number nearest to `digits * 10 ^ e`. Decimals far outside the range are not multiplied out.
-/
def ofDecimal (negative : Bool) (digits : Nat) (e : Int) : Binary64 :=
  let size : Int := (Nat.toDigits 10 digits).length
  if digits = 0 then finite negative 0 0
  else if size + e > 400 then infinite negative
  else if size + e < -400 then finite negative 0 0
  else if 0 ≤ e then ofRatio negative (digits * Nat.pow 10 e.toNat) 1
  else ofRatio negative digits (Nat.pow 10 (-e).toNat)

/-- Value of a run of ASCII digits. -/
def naturalOf (cs : List Char) : Nat :=
  cs.foldl (fun n c => 10 * n + (c.toNat - 48)) 0

/-- The exponent of a decimal in scientific form; none if there is no exponent. -/
def exponentOf? : List Char → Option Int
  | [] => some 0
  | e :: rest =>
    if e ≠ 'e' && e ≠ 'E' then none
    else
      let (negative, digits) := match rest with
        | '-' :: ds => (true, ds)
        | '+' :: ds => (false, ds)
        | ds => (false, ds)
      if digits.isEmpty || !digits.all Char.isDigit then none
      else some (if negative then -(naturalOf digits : Int) else naturalOf digits)

/-- Read an unsigned decimal: digits, perhaps a fraction, perhaps an exponent. -/
def unsigned? (negative : Bool) (cs : List Char) : Option Binary64 :=
  let whole := cs.takeWhile Char.isDigit
  let rest := cs.dropWhile Char.isDigit
  let (fraction, tail) := match rest with
    | '.' :: more => (more.takeWhile Char.isDigit, more.dropWhile Char.isDigit)
    | more => ([], more)
  if whole.isEmpty then none
  else (exponentOf? tail).map fun e =>
    ofDecimal negative (naturalOf (whole ++ fraction)) (e - fraction.length)

/-- Read a number as it is written by `text`. -/
def ofText? (s : String) : Option Binary64 :=
  match s.toList with
  | ['n', 'a', 'n'] => some nan
  | ['i', 'n', 'f'] => some (infinite false)
  | ['-', 'i', 'n', 'f'] => some (infinite true)
  | '-' :: cs => unsigned? true cs
  | cs => unsigned? false cs

/-- The number of decimal digits of a positive number. -/
def digitCount (n : Nat) : Nat := (Nat.toDigits 10 n).length

/-- The largest `k` with `10 ^ k ≤ num / den`, for positive numbers. -/
def floorLog10 (num den : Nat) : Int :=
  if den ≤ num then (digitCount (num / den) : Int) - 1
  else -(digitCount ((den + num - 1) / num - 1) : Int)

/-- A candidate on the grid of multiples of `10 ^ e` that reads back as the number: one of the two
neighbours of the number on the grid, the nearer one if both do. The number is `4 * m` units, a
unit is `num / den`, and all decimals between `low` and `high` units read back. -/
def candidate (m low high num den : Nat) (closed : Bool) (e : Int) : Option Nat :=
  let (un, ud) :=
    if 0 ≤ e then (num, den * Nat.pow 10 e.toNat) else (num * Nat.pow 10 (-e).toNat, den)
  let below := 4 * m * un / ud
  let above := below + 1
  let fits := fun d : Nat =>
    if closed then low * un ≤ d * ud && d * ud ≤ high * un
    else low * un < d * ud && d * ud < high * un
  let distances := (4 * m * un - below * ud, above * ud - 4 * m * un)
  if fits below && fits above then
    some (if distances.1 < distances.2 then below
      else if distances.2 < distances.1 then above
      else below + below % 2)
  else if fits below then some below
  else if fits above then some above
  else none

/-- The fewest digits that read back as `m * 2 ^ e`, and the exponent of the last one. -/
def shortest (m : Nat) (e : Int) : Nat × Int :=
  let (num, den) := scale 1 1 (e - 2)
  let low := if m = Nat.pow 2 52 && e > -1074 then 4 * m - 1 else 4 * m - 2
  let top := floorLog10 (4 * m * num) den
  let tries := (List.range 17).findSome? fun (n : Nat) =>
    let grid := top - (n : Int)
    (candidate m low (4 * m + 2) num den (m % 2 == 0) grid).map (·, grid)
  tries.getD (m, 0)

/-- Digits without the zeros at the end. -/
def stripZeros (digits : List Char) : List Char :=
  match (digits.reverse.dropWhile (· == '0')).reverse with
  | [] => ['0']
  | stripped => stripped

/-- Exponents from -4 to 15 are written positionally, with a fraction in any case. Others have a
mark, a sign and two digits at least. -/
def positional (digits : List Char) (top : Int) : List Char :=
  if 0 ≤ top then
    let whole := top.toNat + 1
    let fraction := digits.drop whole
    digits.take whole ++ List.replicate (whole - digits.length) '0' ++ '.' ::
      (if fraction.isEmpty then ['0'] else fraction)
  else '0' :: '.' :: List.replicate ((-top).toNat - 1) '0' ++ digits

def scientific (digits : List Char) (top : Int) : List Char :=
  let e := Nat.toDigits 10 top.natAbs
  let fraction := digits.drop 1
  digits.take 1 ++ (if fraction.isEmpty then [] else '.' :: fraction) ++
    ['e', if top < 0 then '-' else '+'] ++ List.replicate (2 - e.length) '0' ++ e

/-- The shortest text of a number. -/
def text : Binary64 → String
  | nan => "nan"
  | infinite negative => if negative then "-inf" else "inf"
  | finite negative m e =>
    let sign := if negative then ['-'] else []
    if m = 0 then String.ofList (sign ++ ['0', '.', '0'])
    else
      let (digits, last) := shortest m e
      let all := Nat.toDigits 10 digits
      let top := last + (all.length : Int) - 1
      let digits := stripZeros all
      String.ofList (sign ++
        if -4 ≤ top && top < 16 then positional digits top else scientific digits top)

def isZero : Binary64 → Bool
  | finite _ 0 _ => true
  | _ => false

/-- Whether a number equals an integer. -/
def equalsInt (x : Binary64) (i : Int) : Bool :=
  match x with
  | finite negative m e =>
    let (num, den) := scale m 1 e
    num == i.natAbs * den && (num == 0 || negative == decide (i < 0))
  | _ => false

end Binary64

end HotPath
