import HotPath.Text.Integer
import HotPath.Value

/-! Reading JSON. Besides the standard, the three names for numbers that are no numbers are read,
and a member that is given twice keeps its place and takes the later value. -/

namespace HotPath.Json

/-- What is wrong with a document. -/
inductive Problem
  | byteOrderMark
  | value
  | propertyName
  | colon
  | comma
  | unterminated
  | controlCharacter
  | escape
  | codePoint
  | extraData
  /-- An integer with more digits than are read. -/
  | tooManyDigits (count : Nat)

namespace Problem

def message : Problem → String
  | byteOrderMark => "Unexpected UTF-8 BOM (decode using utf-8-sig)"
  | value => "Expecting value"
  | propertyName => "Expecting property name enclosed in double quotes"
  | colon => "Expecting ':' delimiter"
  | comma => "Expecting ',' delimiter"
  | unterminated => "Unterminated string starting at"
  | controlCharacter => "Invalid control character at"
  | escape => "Invalid \\escape"
  | codePoint => "Invalid \\uXXXX escape"
  | extraData => "Extra data"
  | tooManyDigits count =>
    s!"Exceeds the limit ({Text.maxIntegerDigits} digits) for integer string conversion: " ++
      s!"value has {count} digits; use sys.set_int_max_str_digits() to increase the limit"

/-- Whether a document is refused only because of a limit of the reader. -/
def isLimit : Problem → Bool
  | tooManyDigits _ => true
  | _ => false

end Problem

/-- A problem and the text from the place on where it was found. -/
structure Failure where
  problem : Problem
  rest : List Char

def isSpace (c : Char) : Bool := c == ' ' || c == '\t' || c == '\n' || c == '\r'

def skipSpace (cs : List Char) : List Char := cs.dropWhile isSpace

def hexValue? (c : Char) : Option Nat :=
  if '0' ≤ c && c ≤ '9' then some (c.toNat - 48)
  else if 'a' ≤ c && c ≤ 'f' then some (c.toNat - 87)
  else if 'A' ≤ c && c ≤ 'F' then some (c.toNat - 55)
  else none

/-- Four hexadecimal digits. -/
def hex4? : List Char → Option (Nat × List Char)
  | a :: b :: c :: d :: rest => do
    let n ← [a, b, c, d].foldlM (fun n x => (hexValue? x).map (16 * n + ·)) 0
    return (n, rest)
  | _ => none

def isHighSurrogate (n : Nat) : Bool := 0xD800 ≤ n && n < 0xDC00

def isLowSurrogate (n : Nat) : Bool := 0xDC00 ≤ n && n < 0xE000

/-- What an escape stands for: a character, or half of a pair. -/
inductive Escaped
  | char (c : Char)
  | half (half : Half)

def Escaped.ofCode (n : Nat) : Escaped :=
  if h : 0xD800 ≤ n ∧ n < 0xE000 then half ⟨n, h⟩ else char (Char.ofNat n)

/-- The character that an escape stands for, apart from code points. -/
def simpleEscape? (c : Char) : Option Char :=
  [('"', '"'), ('\\', '\\'), ('/', '/'), ('b', '\x08'), ('f', '\x0c'), ('n', '\n'), ('r', '\r'),
    ('t', '\t')].lookup c

/-- What an escape is written as, without its backslash, and the number of characters read. Four
digits need another character behind them, and a pair of escapes can stand for one character. -/
def escape? (cs : List Char) : Except Problem (Escaped × Nat) :=
  match cs with
  | 'u' :: digits =>
    if digits.length ≤ 4 then .error .codePoint
    else match hex4? digits with
      | none => .error .codePoint
      | some (n, '\\' :: 'u' :: more) =>
        if !isHighSurrogate n || more.length ≤ 4 then .ok (.ofCode n, 5)
        else match hex4? more with
          | none => .error .codePoint
          | some (m, _) =>
            if isLowSurrogate m then
              .ok (.char (Char.ofNat (0x10000 + (n - 0xD800) * 0x400 + (m - 0xDC00))), 11)
            else .ok (.ofCode n, 5)
      | some (n, _) => .ok (.ofCode n, 5)
  | c :: _ =>
    match simpleEscape? c with
    | some d => .ok (.char d, 1)
    | none => .error .escape
  | [] => .error .unterminated

/-- The rest of a text after its opening quote. The number counts characters that belong to an
escape that has been read already. `opening` is the text from the quote on, where an unterminated
text is reported. -/
def stringRest (opening : List Char) :
    Nat → List Char → List Char → Except Failure (RawText × List Char)
  | _, _, [] => .error ⟨.unterminated, opening⟩
  | skip + 1, acc, _ :: rest => stringRest opening skip acc rest
  | 0, acc, c :: rest =>
    if c = '"' then .ok (.plain (String.ofList acc.reverse), rest)
    else if c = '\\' then
      match escape? rest with
      | .ok (.char d, count) => stringRest opening count (d :: acc) rest
      | .ok (.half half, count) =>
        (stringRest opening count [] rest).map fun (after, rest) =>
          (.broken (String.ofList acc.reverse) half after, rest)
      | .error .unterminated => .error ⟨.unterminated, opening⟩
      | .error p => .error ⟨p, c :: rest⟩
    else if c.toNat < 32 then .error ⟨.controlCharacter, c :: rest⟩
    else stringRest opening 0 (c :: acc) rest

/-- The exponent at the beginning of a text: a mark, perhaps a sign, and digits. -/
def takeExponent (cs : List Char) : List Char :=
  match cs with
  | e :: rest =>
    if e = 'e' || e = 'E' then
      let (sign, digits) := match rest with
        | '-' :: more => (['-'], more)
        | '+' :: more => (['+'], more)
        | more => ([], more)
      let run := digits.takeWhile Char.isDigit
      if run.isEmpty then [] else e :: sign ++ run
    else []
  | [] => []

/-- The fraction at the beginning of a text: a point and digits. -/
def takeFraction (cs : List Char) : List Char :=
  match cs with
  | '.' :: rest =>
    let run := rest.takeWhile Char.isDigit
    if run.isEmpty then [] else '.' :: run
  | _ => []

/-- The whole part of a number: digits without a leading zero, or one zero. -/
def takeWhole (cs : List Char) : List Char :=
  match cs with
  | '0' :: _ => ['0']
  | cs => cs.takeWhile Char.isDigit

/-- Read a number. Anything else is no value. -/
def number (cs : List Char) : Except Failure (Value × List Char) :=
  let (negative, body) := match cs with
    | '-' :: rest => (true, rest)
    | rest => (false, rest)
  let whole := takeWhole body
  if whole.isEmpty then .error ⟨.value, cs⟩
  else
    let rest := body.drop whole.length
    let fraction := takeFraction rest
    let rest := rest.drop fraction.length
    let exponent := takeExponent rest
    let rest := rest.drop exponent.length
    if fraction.isEmpty && exponent.isEmpty then
      if whole.length > Text.maxIntegerDigits then .error ⟨.tooManyDigits whole.length, cs⟩
      else
        let n := Binary64.naturalOf whole
        .ok (.int (if negative then -(n : Int) else n), rest)
    else
      let x := Binary64.unsigned? negative (whole ++ fraction ++ exponent)
      .ok (.float (x.getD .nan), rest)

/-- Names of values. -/
def words : List (String × Value) :=
  [("null", .null), ("true", .bool true), ("false", .bool false), ("NaN", .float .nan),
    ("Infinity", .float (.infinite false)), ("-Infinity", .float (.infinite true))]

/-- A named value at the beginning of a text. -/
def word? (cs : List Char) : Option (Value × List Char) :=
  (words.find? fun entry => entry.1.toList.isPrefixOf cs).map fun entry =>
    (entry.2, cs.drop entry.1.length)

mutual

/-- Read a value. The first argument bounds the number of calls inside each other; twice the length
of the text is always enough, since lists and objects may lie in each other as deep as they like. -/
def value : Nat → List Char → Except Failure (Value × List Char)
  | 0, cs => .error ⟨.value, cs⟩
  | fuel + 1, cs =>
    match cs with
    | '"' :: rest => (stringRest cs 0 [] rest).map fun (s, rest) => (.str s, rest)
    | '[' :: rest =>
      match skipSpace rest with
      | ']' :: rest => .ok (.list [], rest)
      | rest => (items fuel rest).map fun (vs, rest) => (.list vs, rest)
    | '\x7b' :: rest =>
      match skipSpace rest with
      | '\x7d' :: rest => .ok (.object [], rest)
      | rest => (members fuel {} rest).map fun (ms, rest) => (.object ms.entries, rest)
    | cs =>
      match word? cs with
      | some (v, rest) => .ok (v, rest)
      | none => number cs

/-- Read the items of a list up to its closing bracket. -/
def items : Nat → List Char → Except Failure (List Value × List Char)
  | 0, cs => .error ⟨.value, cs⟩
  | fuel + 1, cs => do
    let (v, rest) ← value fuel cs
    match skipSpace rest with
    | ']' :: rest => return ([v], rest)
    | ',' :: rest =>
      let (vs, rest) ← items fuel (skipSpace rest)
      return (v :: vs, rest)
    | rest => .error ⟨.comma, rest⟩

/-- Read the members of an object up to its closing brace. -/
def members : Nat → OrderedMap RawText Value → List Char →
    Except Failure (OrderedMap RawText Value × List Char)
  | 0, _, cs => .error ⟨.value, cs⟩
  | fuel + 1, earlier, cs =>
    match cs with
    | '"' :: rest => do
      let (name, rest) ← stringRest cs 0 [] rest
      match skipSpace rest with
      | ':' :: rest =>
        let (v, rest) ← value fuel (skipSpace rest)
        let known := earlier.insert name v
        match skipSpace rest with
        | '\x7d' :: rest => return (known, rest)
        | ',' :: rest => members fuel known (skipSpace rest)
        | rest => .error ⟨.comma, rest⟩
      | rest => .error ⟨.colon, rest⟩
    | cs => .error ⟨.propertyName, cs⟩

end

/-- Read a whole document. -/
def readChars (cs : List Char) : Except Failure Value :=
  if cs.head?.any (·.toNat = 0xFEFF) then .error ⟨.byteOrderMark, cs⟩
  else do
    let (v, rest) ← value (2 * cs.length + 2) (skipSpace cs)
    match skipSpace rest with
    | [] => return v
    | rest => .error ⟨.extraData, rest⟩

/-- The line of a failure: the line ends before it, and one. -/
def Failure.line (f : Failure) (text : List Char) : Nat :=
  1 + text.count '\n' - f.rest.count '\n'

end HotPath.Json
