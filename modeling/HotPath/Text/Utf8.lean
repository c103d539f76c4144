/-! Reading bytes as UTF-8. Bytes that do not form a character are grouped: the longest beginning of
a character that breaks off counts as one error, so that a lenient reader puts one replacement
character in its place. -/

namespace HotPath.Text.Utf8

/-- A character that has begun. Its next byte lies between two bounds. -/
structure Begun where
  value : Nat
  /-- Bytes still to come, without the next one. -/
  after : Nat
  lowest : Nat
  highest : Nat

/-- What a byte means where a character may begin. -/
inductive Lead
  | single (c : Char)
  | longer (p : Begun)
  | invalid

/-- Leading bytes. The bounds on the second byte exclude overlong forms, unpaired surrogates and
code points beyond the last one. -/
def lead (b : Nat) : Lead :=
  if b < 0x80 then .single (Char.ofNat b)
  else if b < 0xC2 then .invalid
  else if b < 0xE0 then .longer ⟨b - 0xC0, 0, 0x80, 0xBF⟩
  else if b = 0xE0 then .longer ⟨0, 1, 0xA0, 0xBF⟩
  else if b = 0xED then .longer ⟨0xD, 1, 0x80, 0x9F⟩
  else if b < 0xF0 then .longer ⟨b - 0xE0, 1, 0x80, 0xBF⟩
  else if b = 0xF0 then .longer ⟨0, 2, 0x90, 0xBF⟩
  else if b < 0xF4 then .longer ⟨b - 0xF0, 2, 0x80, 0xBF⟩
  else if b = 0xF4 then .longer ⟨4, 2, 0x80, 0x8F⟩
  else .invalid

/-- Characters in order, with none for each group of bytes that is no character. -/
def readFrom : Option Begun → List UInt8 → List (Option Char)
  | none, [] => []
  | some _, [] => [none]
  | none, b :: rest =>
    match lead b.toNat with
    | .single c => some c :: readFrom none rest
    | .longer p => readFrom (some p) rest
    | .invalid => none :: readFrom none rest
  | some p, b :: rest =>
    if p.lowest ≤ b.toNat ∧ b.toNat ≤ p.highest then
      let value := p.value * 64 + b.toNat % 64
      match p.after with
      | 0 => some (Char.ofNat value) :: readFrom none rest
      | after + 1 => readFrom (some ⟨value, after, 0x80, 0xBF⟩) rest
    else
      match lead b.toNat with
      | .single c => none :: some c :: readFrom none rest
      | .longer p => none :: readFrom (some p) rest
      | .invalid => none :: none :: readFrom none rest

/-- The character that stands for bytes that are no character. -/
def replacement : Char := Char.ofNat 0xFFFD

/-- Read leniently. -/
def decode (bytes : List UInt8) : String :=
  String.ofList ((readFrom none bytes).map (·.getD replacement))

/-- Read strictly: nothing if some bytes are no character. -/
def decode? (bytes : List UInt8) : Option String :=
  ((readFrom none bytes).mapM id).map String.ofList

end HotPath.Text.Utf8
