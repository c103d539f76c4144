import HotPath.Text.Case
import HotPath.Text.Quoted

/-! Texts as documents write them. An escape can give half of a surrogate pair without the other
half. No character stands for it, but it belongs to the text and messages show it, so it is kept.
Texts are ordered by their code points, those of halves included. -/

namespace HotPath

/-- Half of a surrogate pair. -/
structure Half where
  code : Nat
  inRange : 0xD800 ≤ code ∧ code < 0xE000
deriving DecidableEq

/-- A text of characters, or one in which an unpaired half stands between two texts. -/
inductive RawText
  | plain (s : String)
  | broken (before : String) (half : Half) (after : RawText)
deriving DecidableEq

instance : Coe String RawText := ⟨.plain⟩

namespace RawText

def isEmpty : RawText → Bool
  | plain s => s.isEmpty
  | broken .. => false

/-- The text without halves that a text is, if it is one. -/
def plain? : RawText → Option String
  | plain s => some s
  | broken .. => none

/-- One text and then another. -/
def append : RawText → RawText → RawText
  | plain s, plain t => plain (s ++ t)
  | plain s, broken before half after => broken (s ++ before) half after
  | broken before half after, t => broken before half (after.append t)

instance : Append RawText := ⟨append⟩

/-- Texts with commas between them. -/
def commas : List RawText → RawText
  | [] => ""
  | [t] => t
  | t :: rest => t ++ ", " ++ commas rest

/-- The characters of a text, without the halves. -/
def chars : RawText → List Char
  | plain s => s.toList
  | broken before _ after => before.toList ++ after.chars

/-- What can be printed of a text: the replacement character stands in the place of every half. -/
def repaired : RawText → String
  | plain s => s
  | broken before _ after => before ++ String.singleton (Char.ofNat 0xFFFD) ++ after.repaired

/-- The items of a text: its characters and halves, one by one. -/
def units : RawText → List RawText
  | plain s => s.toList.map fun c => plain (String.singleton c)
  | broken before half after =>
    (before.toList.map fun c => plain (String.singleton c)) ++
      broken "" half (plain "") :: after.units

/-- The text in lower case. A half ends a word. -/
def lower : RawText → RawText
  | plain s => plain (Text.lower s)
  | broken before half after => broken (Text.lower before) half after.lower

/-- What stands between the quotes. A half is given by its code. -/
def quotedBody (quote : Char) : RawText → List Char
  | plain s => s.toList.flatMap (Text.quoteChar quote)
  | broken before half after =>
    before.toList.flatMap (Text.quoteChar quote) ++
      '\\' :: 'u' :: Text.hexDigits 4 half.code ++ after.quotedBody quote

/-- The text in quotes. -/
def quoted (t : RawText) : String :=
  let quote := Text.quoteFor t.chars
  String.ofList (quote :: t.quotedBody quote ++ [quote])

/-- The code points of a text. -/
def codes : RawText → List Nat
  | plain s => s.toList.map Char.toNat
  | broken before half after => before.toList.map Char.toNat ++ half.code :: after.codes

end RawText

theorem Half.toNat_ne_code (half : Half) (c : Char) : c.toNat ≠ half.code := by
  have hHalf := half.inRange
  have hChar : c.toNat < 0xD800 ∨ 0xDFFF < c.toNat ∧ c.toNat < 0x110000 := c.valid
  omega

namespace RawText

/-- Up to the first half the code points of two texts are those of the same characters. -/
theorem eq_of_codes_before {cs cs' : List Char} {half half' : Half} {rest rest' : List Nat}
    (h : cs.map Char.toNat ++ half.code :: rest = cs'.map Char.toNat ++ half'.code :: rest') :
    cs = cs' ∧ half = half' ∧ rest = rest' := by
  induction cs generalizing cs' with
  | nil =>
      cases cs' with
      | nil =>
          obtain ⟨hCode, hRest⟩ := List.cons.inj h
          cases half
          cases half'
          exact ⟨rfl, by simpa using hCode, hRest⟩
      | cons c' cs' => exact absurd (List.cons.inj h).1.symm (half.toNat_ne_code c')
  | cons c cs ih =>
      cases cs' with
      | nil => exact absurd (List.cons.inj h).1 (half'.toNat_ne_code c)
      | cons c' cs' =>
          obtain ⟨hChar, hTail⟩ := List.cons.inj h
          obtain ⟨rfl, hHalf, hRest⟩ := ih hTail
          rw [Char.toNat_inj.1 hChar]
          exact ⟨rfl, hHalf, hRest⟩

/-- The code point of a half is none of a character's. -/
theorem code_not_mem_codes (half : Half) (s : String) : half.code ∉ (plain s).codes := by
  intro h
  obtain ⟨c, -, hCode⟩ := List.mem_map.1 h
  exact half.toNat_ne_code c hCode

theorem code_mem_codes (before : String) (half : Half) (after : RawText) :
    half.code ∈ (broken before half after).codes := by
  simp [codes]

/-- A text is known by its code points. -/
theorem eq_of_codes_eq {t t' : RawText} (h : t.codes = t'.codes) : t = t' := by
  induction t generalizing t' with
  | plain s =>
      cases t' with
      | plain s' =>
          rw [codes, codes, List.map_inj_right fun _ _ => Char.toNat_inj.1] at h
          rw [String.toList_inj.1 h]
      | broken before half after =>
          exact absurd (h ▸ code_mem_codes before half after) (code_not_mem_codes half s)
  | broken before half after ih =>
      cases t' with
      | plain s' => exact absurd (h ▸ code_mem_codes before half after) (code_not_mem_codes half s')
      | broken before' half' after' =>
          obtain ⟨hBefore, rfl, hAfter⟩ := eq_of_codes_before h
          rw [String.toList_inj.1 hBefore, ih hAfter]

instance : LT RawText := ⟨fun t t' => t.codes < t'.codes⟩

instance : DecidableLT RawText := fun t t' => inferInstanceAs (Decidable (t.codes < t'.codes))

theorem lt_irrefl (t : RawText) : ¬t < t := List.lt_irrefl t.codes

theorem lt_trans {t t' t'' : RawText} (h : t < t') (h' : t' < t'') : t < t'' := List.lt_trans h h'

/-- Of two texts that differ one comes first. -/
theorem lt_of_not_lt {t t' : RawText} (h : ¬t < t') (hNe : t ≠ t') : t' < t := by
  rcases List.le_iff_lt_or_eq.1 (List.not_lt.1 h) with hLess | hSame
  · exact hLess
  · exact absurd (eq_of_codes_eq hSame).symm hNe

end RawText

end HotPath
