import Mathlib.Data.List.Lex
import Mathlib.Data.String.Basic
import HotPath.Files.Path

/-! Paths and their texts. A path that was read from a text is known by its parts together with what
it hangs from, which also give the order of such paths, and it can be read again from its own text.
-/

namespace HotPath.Path

/-- The order of parts is the usual one on lists. -/
theorem partsPrecede_iff (as bs : List String) : partsPrecede as bs = true ↔ as ≤ bs := by
  induction as generalizing bs with
  | nil => exact iff_of_true rfl (not_lt.1 (List.not_lt_nil bs))
  | cons a as ih =>
      cases bs with
      | nil => exact iff_of_false Bool.false_ne_true (not_le.2 (List.nil_lt_cons a as))
      | cons b bs =>
          simp only [partsPrecede, Bool.or_eq_true, Bool.and_eq_true, decide_eq_true_eq, beq_iff_eq,
            ih, le_iff_lt_or_eq, List.cons_lt_cons_iff, List.cons.injEq]
          tauto

theorem precedes_iff (p q : Path) : precedes p q = true ↔ p.keyParts ≤ q.keyParts :=
  partsPrecede_iff _ _

theorem precedes_trans (p q r : Path) (hpq : precedes p q = true) (hqr : precedes q r = true) :
    precedes p r = true := by
  rw [precedes_iff] at hpq hqr ⊢
  exact hpq.trans hqr

theorem precedes_total (p q : Path) : (precedes p q || precedes q p) = true := by
  simp only [Bool.or_eq_true, precedes_iff]
  exact le_total _ _

/-- Only the path to where one is has a text of its own. -/
theorem text_eq {p : Path} (h : ¬(p.anchor = "" ∧ p.parts = [])) :
    p.text = p.anchor ++ "/".intercalate p.parts := by
  simp [text, h]

/-- What can stand between slashes and is kept. -/
structure IsPart (part : String) : Prop where
  nonempty : part ≠ ""
  notDot : part ≠ "."
  noSlash : '/' ∉ part.toList

/-- Paths as texts give them. -/
structure IsWritten (p : Path) : Prop where
  anchor : p.anchor ∈ ["", "/", "//"]
  parts : ∀ part ∈ p.parts, IsPart part

theorem not_mem_of_mem_splitOn {c : Char} {cs piece : List Char} (h : piece ∈ cs.splitOn c) :
    c ∉ piece := by
  induction cs generalizing piece with
  | nil =>
      simp only [List.splitOn_nil, List.mem_singleton] at h
      simp [h]
  | cons d cs ih =>
      rw [List.splitOn_cons_eq_if_modifyHead] at h
      split at h
      · rcases List.mem_cons.1 h with rfl | h
        · simp
        · exact ih h
      · next hOther =>
          cases hPieces : cs.splitOn c with
          | nil => simp [hPieces] at h
          | cons first rest =>
              rw [hPieces] at h ih
              rcases List.mem_cons.1 h with rfl | h
              · have hFirst := ih List.mem_cons_self
                have hHead : c ≠ d := by
                  rintro rfl
                  simp at hOther
                simp [hHead, hFirst]
              · exact ih (List.mem_cons_of_mem _ h)

theorem isPart_of_mem_splitParts {s part : String} (h : part ∈ splitParts s) : IsPart part := by
  obtain ⟨hSplit, hKept⟩ := List.mem_filter.1 h
  obtain ⟨piece, hPiece, rfl⟩ := List.mem_map.1 hSplit
  simp only [Bool.and_eq_true, Bool.not_eq_true', decide_eq_true_eq] at hKept
  refine ⟨?_, hKept.2, ?_⟩
  · intro hEmpty
    simp [hEmpty] at hKept
  · rw [String.toList_ofList]
    exact not_mem_of_mem_splitOn hPiece

theorem isWritten_ofText (s : String) : (ofText s).IsWritten := by
  refine ⟨?_, fun _ hPart => isPart_of_mem_splitParts hPart⟩
  unfold ofText anchorOf
  dsimp only
  split <;> simp

/-- A slash in front of a text makes no part of its own. -/
theorem splitParts_slash (s : String) : splitParts ("/" ++ s) = splitParts s := by
  have hText : ("/" ++ s).toList = '/' :: s.toList := by simp
  rw [splitParts, hText, List.splitOn_cons_eq_if_modifyHead]
  simp [splitParts]

/-- Parts are read from the text in which slashes stand between them. -/
theorem splitParts_intercalate {parts : List String} (h : ∀ part ∈ parts, IsPart part) :
    splitParts ("/".intercalate parts) = parts := by
  cases parts with
  | nil => rfl
  | cons first rest =>
      have hPieces : (("/".intercalate (first :: rest)).toList.splitOn '/').map String.ofList =
          first :: rest := by
        rw [String.toList_intercalate]
        change (List.splitOn '/' (['/'].intercalate _)).map _ = _
        rw [List.splitOn_intercalate]
        · simp
        · intro piece hPiece
          obtain ⟨part, hPart, rfl⟩ := List.mem_map.1 hPiece
          exact (h part hPart).noSlash
        · simp
      rw [splitParts, hPieces, List.filter_eq_self]
      intro part hPart
      simp [(h part hPart).nonempty, (h part hPart).notDot]

/-- The text of parts begins with no slash. -/
theorem head?_intercalate_ne {parts : List String} (h : ∀ part ∈ parts, IsPart part) :
    ("/".intercalate parts).toList.head? ≠ some '/' := by
  cases parts with
  | nil => simp
  | cons first rest =>
      obtain ⟨hNonempty, -, hNoSlash⟩ := h first List.mem_cons_self
      obtain ⟨c, cs, hFirst⟩ := List.exists_cons_of_ne_nil (mt String.toList_eq_nil_iff.1 hNonempty)
      have hHead : c ≠ '/' := by
        rintro rfl
        simp [hFirst] at hNoSlash
      cases rest with
      | nil => simpa [hFirst] using hHead
      | cons second more =>
          rw [String.intercalate_cons_cons]
          simpa [hFirst] using hHead

/-- What a path hangs from can be told from what follows it, unless this begins with a slash. -/
theorem anchorOf_append {anchor : String} (hAnchor : anchor ∈ ["", "/", "//"]) {cs : List Char}
    (hHead : cs.head? ≠ some '/') : anchorOf (anchor.toList ++ cs) = anchor := by
  simp only [List.mem_cons, List.not_mem_nil, or_false] at hAnchor
  cases cs with
  | nil => rcases hAnchor with rfl | rfl | rfl <;> rfl
  | cons c rest =>
      have hc : c ≠ '/' := by simpa using hHead
      rcases hAnchor with rfl | rfl | rfl <;> simp [anchorOf, hc]

namespace IsWritten

variable {p q : Path}

theorem below (h : p.IsWritten) {rest : List String} (hRest : ∀ part ∈ rest, IsPart part) :
    (p.below rest).IsWritten := by
  refine ⟨h.anchor, fun part hPart => ?_⟩
  rcases List.mem_append.1 hPart with hPart | hPart
  · exact h.parts part hPart
  · exact hRest part hPart

/-- Such a path can be read from its text. -/
theorem ofText_text (h : p.IsWritten) : ofText p.text = p := by
  obtain ⟨hAnchor, hParts⟩ := h
  obtain ⟨anchor, parts⟩ := p
  by_cases hHere : anchor = "" ∧ parts = []
  · obtain ⟨rfl, rfl⟩ := hHere
    rfl
  · have hSplit (s : String) : splitParts (anchor ++ s) = splitParts s := by
      simp only [List.mem_cons, List.not_mem_nil, or_false] at hAnchor
      rcases hAnchor with rfl | rfl | rfl
      · rw [String.empty_append]
      · exact splitParts_slash s
      · rw [show "//" ++ s = "/" ++ ("/" ++ s) by rw [← String.append_assoc]; rfl,
          splitParts_slash, splitParts_slash]
    rw [text_eq hHere, ofText, hSplit, splitParts_intercalate hParts, String.toList_append,
      anchorOf_append hAnchor (head?_intercalate_ne hParts)]

/-- No part is what a path can hang from. -/
theorem not_mem_parts (h : p.IsWritten) (hq : q.IsWritten) (hAnchor : q.anchor ≠ "") :
    q.anchor ∉ p.parts := by
  intro hPart
  have hNoSlash := (h.parts _ hPart).noSlash
  have hAnchors := hq.anchor
  simp only [List.mem_cons, List.not_mem_nil, or_false] at hAnchors
  rcases hAnchors with hIs | hIs | hIs
  · exact hAnchor hIs
  · simp [hIs] at hNoSlash
  · simp [hIs] at hNoSlash

theorem eq_of_keyParts_eq (hp : p.IsWritten) (hq : q.IsWritten) (h : p.keyParts = q.keyParts) :
    p = q := by
  have hApart := hp.not_mem_parts hq
  have hApart' := hq.not_mem_parts hp
  obtain ⟨anchor, parts⟩ := p
  obtain ⟨anchor', parts'⟩ := q
  by_cases hFree : anchor = "" <;> by_cases hFree' : anchor' = "" <;>
    simp only [keyParts, hFree, hFree', String.isEmpty_iff, if_true, if_false,
      List.cons.injEq] at h ⊢
  · rw [h]
  · exact absurd (h ▸ List.mem_cons_self) (hApart hFree')
  · exact absurd (h ▸ List.mem_cons_self) (hApart' hFree)
  · rw [h.1, h.2]

/-- Different paths are in order only if their keys are. -/
theorem keyParts_lt (hp : p.IsWritten) (hq : q.IsWritten) (h : precedes p q = true)
    (hNe : p ≠ q) : p.keyParts < q.keyParts := by
  apply lt_of_le_of_ne ((precedes_iff p q).1 h)
  intro hSame
  exact hNe (hp.eq_of_keyParts_eq hq hSame)

end IsWritten

end HotPath.Path
