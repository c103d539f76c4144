/-! Integers written by people: surrounding blanks, a sign, digits of any script, and single
underscores between digits. The ten digits of a script are consecutive code points in order of
value, so a table of their zeros describes them all. -/

namespace HotPath.Text

/-- White space of every script, together with the four ASCII information separators. -/
def isBlank (c : Char) : Bool :=
  let n := c.toNat
  (9 ≤ n && n ≤ 13) || (28 ≤ n && n ≤ 32) || n == 0x85 || n == 0xA0 || n == 0x1680 ||
    (0x2000 ≤ n && n ≤ 0x200A) || n == 0x2028 || n == 0x2029 || n == 0x202F || n == 0x205F ||
    n == 0x3000

/-- Drop the characters of a class from both ends. -/
def trimBoth (drop : Char → Bool) (cs : List Char) : List Char :=
  ((cs.dropWhile drop).reverse.dropWhile drop).reverse

/-- Text that is empty or holds blank characters only. -/
def isAllBlank (s : String) : Bool :=
  s.toList.all isBlank

/-- The digit zero of each script, in increasing order. -/
def digitZeros : List Nat := [
  48, 1632, 1776, 1984, 2406, 2534, 2662, 2790, 2918, 3046, 3174, 3302, 3430, 3558, 3664, 3792,
  3872, 4160, 4240, 6112, 6160, 6470, 6608, 6784, 6800, 6992, 7088, 7232, 7248, 42528, 43216,
  43264, 43472, 43504, 43600, 44016, 65296, 66720, 68912, 69734, 69872, 69942, 70096, 70384,
  70736, 70864, 71248, 71360, 71472, 71904, 72016, 72784, 73040, 73120, 92768, 92864, 93008,
  120782, 120792, 120802, 120812, 120822, 123200, 123632, 125264, 130032]

/-- The value of a decimal digit, whatever its script. -/
def digitValue? (c : Char) : Option Nat :=
  (digitZeros.find? fun first => first ≤ c.toNat && c.toNat < first + 10).map (c.toNat - ·)

/-- Longest run of digits that is read as an integer. -/
def maxIntegerDigits : Nat := 4300

/-- Blanks that may surround an integer. The information separators may not. -/
def isIntegerBlank (c : Char) : Bool :=
  isBlank c && !(28 ≤ c.toNat && c.toNat ≤ 31)

/-- Digit values of a run of digits in which one underscore may separate two digits. -/
def digitRun? : List Char → Option (List Nat)
  | [] => none
  | c :: rest =>
    match digitValue? c with
    | none => none
    | some d =>
      match rest with
      | [] => some [d]
      | '_' :: more => (digitRun? more).map (d :: ·)
      | more@(_ :: _) => (digitRun? more).map (d :: ·)

/-- The number that a list of decimal digits denotes, most significant digit first. -/
def ofDigits (digits : List Nat) : Nat :=
  digits.foldl (fun n d => 10 * n + d) 0

/-- Read an unsigned run of digits, refusing runs that are too long. -/
def natural? (cs : List Char) : Option Nat :=
  (digitRun? cs).bind fun digits =>
    if digits.length ≤ maxIntegerDigits then some (ofDigits digits) else none

/-- Read an integer. -/
def integer? (s : String) : Option Int :=
  match trimBoth isIntegerBlank s.toList with
  | '-' :: cs => (natural? cs).map fun n => -(n : Int)
  | '+' :: cs => (natural? cs).map Int.ofNat
  | cs => (natural? cs).map Int.ofNat

end HotPath.Text
