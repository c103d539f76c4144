import HotPath.Command.Layout
import HotPath.Proofs.Linter.Worded
import HotPath.Proofs.OrderedMap
import HotPath.Proofs.Success

/-! Glyphs on terminals that cannot show them. Lines lose their glyphs on the way to the terminal,
tables do not, because only lines are sanitized. So a report can be shown exactly if no diagnostic
has a glyph in it, and the message for a hazard below a call has one: the arrow between the labels.
-/

namespace HotPath

/-- Characters that are replaced. -/
def Terminal.IsGlyph (c : Char) : Prop := (glyphs.lookup c).isSome = true

open Terminal

instance (c : Char) : Decidable (IsGlyph c) := inferInstanceAs (Decidable (_ = true))

/-- A text with a glyph in it. -/
def HasGlyph (s : String) : Prop := ∃ c ∈ s.toList, IsGlyph c

instance (s : String) : Decidable (HasGlyph s) :=
  decidable_of_iff (s.toList.any fun c => IsGlyph c) (by simp [HasGlyph])

namespace Terminal

/-- No replacement contains a glyph. -/
theorem not_glyph_of_mem_plainChar {c d : Char} (h : d ∈ plainChar c) : ¬IsGlyph d := by
  have hReplacements : ∀ glyph ∈ glyphs, ¬HasGlyph glyph.2 := by decide
  unfold plainChar at h
  split at h
  · next text hText =>
      obtain ⟨before, after, hSplit, -⟩ := List.lookup_eq_some_iff.1 hText
      intro hGlyph
      exact hReplacements (c, text) (by simp [hSplit]) ⟨d, h, hGlyph⟩
  · next hNone =>
      rw [List.mem_singleton] at h
      subst h
      simp [IsGlyph, hNone]

/-- Replace one glyph wherever it stands. -/
def replaceGlyph (cs : List Char) (glyph : Char × String) : List Char :=
  cs.flatMap fun c => if c = glyph.1 then glyph.2.toList else [c]

/-- What takes the place of a character if only some glyphs are replaced. -/
def plainCharIn (replaced : List (Char × String)) (c : Char) : List Char :=
  match replaced.lookup c with
  | some text => text.toList
  | none => [c]

theorem plainCharIn_cons (glyph : Char × String) (rest : List (Char × String)) (c : Char) :
    plainCharIn (glyph :: rest) c =
      if c = glyph.1 then glyph.2.toList else plainCharIn rest c := by
  obtain ⟨g, text⟩ := glyph
  by_cases hGlyph : c = g
  · simp [plainCharIn, hGlyph]
  · have hOther : (c == g) = false := by simpa using hGlyph
    simp [plainCharIn, hGlyph, List.lookup_cons, hOther]

theorem flatMap_plainCharIn_of_absent {replaced : List (Char × String)} {cs : List Char}
    (h : ∀ glyph ∈ replaced, glyph.1 ∉ cs) : cs.flatMap (plainCharIn replaced) = cs := by
  have hKept : ∀ c ∈ cs, plainCharIn replaced c = [c] := by
    intro c hc
    have hNone : replaced.lookup c = none := by
      rw [List.lookup_eq_none_iff]
      intro glyph hGlyph
      rw [bne_iff_ne]
      rintro rfl
      exact h glyph hGlyph hc
    simp [plainCharIn, hNone]
  rw [List.flatMap_congr hKept, List.flatMap_singleton']

/-- Glyphs can be replaced all at once instead of one after the other, because no replacement
contains a glyph that is replaced later. -/
theorem foldl_replaceGlyph {replaced : List (Char × String)}
    (h : replaced.Pairwise fun earlier later => later.1 ∉ earlier.2.toList) (cs : List Char) :
    replaced.foldl replaceGlyph cs = cs.flatMap (plainCharIn replaced) := by
  induction replaced generalizing cs with
  | nil => exact (flatMap_plainCharIn_of_absent (by simp)).symm
  | cons glyph rest ih =>
      rw [List.pairwise_cons] at h
      rw [List.foldl_cons, ih h.2, replaceGlyph, List.flatMap_assoc]
      apply List.flatMap_congr
      intro c _
      rw [plainCharIn_cons]
      split
      · exact flatMap_plainCharIn_of_absent h.1
      · exact List.flatMap_singleton _ _

variable {t : Terminal}

theorem toList_sanitize (ht : t.showsAll = false) (s : String) :
    (t.sanitize s).toList = s.toList.flatMap plainChar := by
  simp [sanitize, ht]

end Terminal

theorem not_hasGlyph_sanitize {t : Terminal} (ht : t.showsAll = false) (s : String) :
    ¬HasGlyph (t.sanitize s) := by
  rintro ⟨c, hc, hGlyph⟩
  rw [toList_sanitize ht] at hc
  obtain ⟨d, -, hPlain⟩ := List.mem_flatMap.1 hc
  exact not_glyph_of_mem_plainChar hPlain hGlyph

@[simp] theorem hasGlyph_append (s t : String) : HasGlyph (s ++ t) ↔ HasGlyph s ∨ HasGlyph t := by
  simp [HasGlyph, or_and_right, exists_or]

@[simp] theorem hasGlyph_toString (s : String) : HasGlyph (toString s) ↔ HasGlyph s := Iff.rfl

/-- Between two parts there is a separator. -/
theorem hasGlyph_intercalate (separator : String) (parts : List String) :
    HasGlyph (separator.intercalate parts) ↔
      (2 ≤ parts.length ∧ HasGlyph separator) ∨ ∃ part ∈ parts, HasGlyph part := by
  induction parts with
  | nil => simp [HasGlyph]
  | cons first rest ih =>
      cases rest with
      | nil => simp
      | cons second more =>
          rw [String.intercalate_cons_cons, hasGlyph_append, hasGlyph_append, ih]
          have hTwo : 2 ≤ (first :: second :: more).length := by simp
          by_cases hSeparator : HasGlyph separator <;>
            simp only [List.mem_cons, exists_eq_or_imp, hTwo, hSeparator, and_true,
              and_false, or_true, true_or, or_false, false_or]

theorem not_hasGlyph_nat (n : Nat) : ¬HasGlyph (toString n) := by
  rintro ⟨c, hc, hGlyph⟩
  rw [Nat.toString_eq_ofList_toDigits, String.toList_ofList] at hc
  have hDigit := Nat.isDigit_of_mem_toDigits (by decide) (by decide) hc
  obtain ⟨text, hText⟩ := Option.isSome_iff_exists.1 hGlyph
  obtain ⟨before, after, hSplit, -⟩ := List.lookup_eq_some_iff.1 hText
  have hGlyphs : ∀ glyph ∈ glyphs, glyph.1.isDigit = false := by decide
  rw [hGlyphs (c, text) (by simp [hSplit])] at hDigit
  cases hDigit

@[simp] theorem not_hasGlyph_int (i : Int) : ¬HasGlyph i.repr := by
  cases i with
  | ofNat n => exact not_hasGlyph_nat n
  | negSucc n =>
      show ¬HasGlyph ("-" ++ toString (n + 1))
      rw [hasGlyph_append, not_or]
      exact ⟨by decide, not_hasGlyph_nat _⟩

namespace Text

theorem mem_escapeTags_iff {c : Char} (hc : c ≠ '\\') (left slashes : Nat) (cs : List Char) :
    c ∈ escapeTags left slashes cs ↔ c ∈ cs := by
  have hSlashes (n : Nat) : c ∉ backslashes n := by
    intro h
    exact hc (List.eq_of_mem_replicate h)
  fun_induction escapeTags left slashes cs with
  | case1 => simp [hSlashes]
  | case2 => simp_all
  | case3 => simp_all
  | case4 => simp_all
  | case5 => simp_all

/-- Escaping adds nothing but backslashes and loses nothing. Of the way in which markup is escaped
this is all that the results below rest on. -/
theorem mem_escapeMarkup_iff {c : Char} (hc : c ≠ '\\') (s : String) :
    c ∈ (escapeMarkup s).toList ↔ c ∈ s.toList := by
  rw [← mem_escapeTags_iff hc 0 0 s.toList]
  unfold escapeMarkup
  dsimp only
  split <;> simp [hc]

theorem hasGlyph_escapeMarkup (s : String) : HasGlyph (escapeMarkup s) ↔ HasGlyph s := by
  have hPlain (c : Char) (hGlyph : IsGlyph c) : c ≠ '\\' := by
    rintro rfl
    exact absurd hGlyph (by decide)
  constructor
  · rintro ⟨c, hMember, hGlyph⟩
    exact ⟨c, (mem_escapeMarkup_iff (hPlain c hGlyph) s).1 hMember, hGlyph⟩
  · rintro ⟨c, hMember, hGlyph⟩
    exact ⟨c, (mem_escapeMarkup_iff (hPlain c hGlyph) s).2 hMember, hGlyph⟩

end Text

/-- All texts of a printed item. -/
def Printed.texts : Printed → List String
  | .line s => [s]
  | .table t => t.title :: t.columns.map (·.header) ++ t.rows.flatten

namespace LintReport

variable {r : LintReport}

/-- A file that has diagnostics is listed with all of them. -/
theorem get?_byFile (r : LintReport) (file : String) :
    r.byFile.get? file =
      if r.diagnostics.filter (fileOf · = file) = [] then none
      else some (r.diagnostics.filter (fileOf · = file)) := by
  obtain ⟨ds, files, failures⟩ := r
  induction ds using List.reverseRecOn with
  | nil => rfl
  | append_singleton ds d ih =>
      simp only [byFile, List.foldl_append, List.foldl_cons, List.foldl_nil] at ih ⊢
      rw [OrderedMap.get?_insert, List.filter_append]
      by_cases hFile : file = fileOf d
      · subst hFile
        rw [if_pos rfl, ih]
        by_cases hNil : ds.filter (fileOf · = fileOf d) = [] <;> simp [hNil]
      · simp [hFile, Ne.symm hFile, ih]

theorem distinct_byFile (r : LintReport) : r.byFile.Distinct := by
  obtain ⟨ds, files, failures⟩ := r
  induction ds using List.reverseRecOn with
  | nil => exact OrderedMap.distinct_empty
  | append_singleton ds d ih =>
      simp only [byFile, List.foldl_append, List.foldl_cons, List.foldl_nil] at ih ⊢
      exact ih.insert _ _

theorem mem_byFile_iff {file : String} {ds : List Diagnostic} :
    (file, ds) ∈ r.byFile.entries ↔
      ds = r.diagnostics.filter (fileOf · = file) ∧ ds ≠ [] := by
  rw [(distinct_byFile r).mem_entries_iff, get?_byFile]
  by_cases hNil : r.diagnostics.filter (fileOf · = file) = []
  · simp only [hNil, if_true]
    simp
  · simp only [hNil, if_false, Option.some.injEq]
    constructor
    · rintro rfl
      exact ⟨rfl, hNil⟩
    · rintro ⟨rfl, -⟩
      rfl

theorem hasGlyph_fileOf_iff {d : Diagnostic} :
    HasGlyph (fileOf d) ↔ ∃ path, d.filePath = some path ∧ HasGlyph path := by
  unfold fileOf
  cases d.filePath with
  | none => simp +decide
  | some path =>
      by_cases hEmpty : path.isEmpty = true
      · have hPath : path = "" := by simpa using hEmpty
        subst hPath
        simp +decide
      · simp [hEmpty]

end LintReport

namespace Diagnostic

/-- A glyph in what a table shows of a diagnostic. -/
def ShowsGlyph (d : Diagnostic) : Prop :=
  (∃ path, d.filePath = some path ∧ HasGlyph path) ∨ HasGlyph d.ruleId ∨ HasGlyph d.message

theorem hasGlyph_row_iff (d : Diagnostic) :
    (∃ s ∈ d.row, HasGlyph s) ↔ HasGlyph d.ruleId ∨ HasGlyph d.message := by
  have hColon : ¬HasGlyph ":" := by decide
  have hSeverity : ¬HasGlyph (if d.severity = .error then "[bold red]error[/bold red]"
      else "[yellow]warning[/yellow]") := by
    split <;> decide
  simp [row, hColon, hSeverity, Text.hasGlyph_escapeMarkup]

end Diagnostic

namespace LintReport

variable {r : LintReport} {t : Terminal}

theorem hasGlyph_fileTable_iff (file : String) (ds : List Diagnostic) :
    (∃ s ∈ (Printed.table (fileTable file ds)).texts, HasGlyph s) ↔
      HasGlyph file ∨ ∃ d ∈ ds, HasGlyph d.ruleId ∨ HasGlyph d.message := by
  have hHeaders : ¬∃ s ∈ columns.map (·.header), HasGlyph s := by decide
  have hRows : (∃ s ∈ (ds.map Diagnostic.row).flatten, HasGlyph s) ↔
      ∃ d ∈ ds, HasGlyph d.ruleId ∨ HasGlyph d.message := by
    simp only [← Diagnostic.hasGlyph_row_iff, List.mem_flatten, List.mem_map]
    constructor
    · rintro ⟨s, ⟨_, ⟨d, hd, rfl⟩, hs⟩, hGlyph⟩
      exact ⟨d, hd, s, hs, hGlyph⟩
    · rintro ⟨d, hd, s, hs, hGlyph⟩
      exact ⟨s, ⟨_, ⟨d, hd, rfl⟩, hs⟩, hGlyph⟩
  calc (∃ s ∈ (Printed.table (fileTable file ds)).texts, HasGlyph s)
      ↔ HasGlyph (Text.escapeMarkup file) ∨ (∃ s ∈ columns.map (·.header), HasGlyph s) ∨
          ∃ s ∈ (ds.map Diagnostic.row).flatten, HasGlyph s := by
        simp only [Printed.texts, fileTable, List.cons_append, List.mem_cons, List.mem_append,
          or_and_right, exists_or, exists_eq_left]
    _ ↔ HasGlyph file ∨ ∃ d ∈ ds, HasGlyph d.ruleId ∨ HasGlyph d.message := by
        rw [Text.hasGlyph_escapeMarkup, hRows]
        simp only [hHeaders, false_or]

/-- Glyphs that reach a terminal which cannot show them are those of the diagnostics. -/
theorem exists_glyph_iff (ht : t.showsAll = false) (r : LintReport) :
    (∃ p ∈ r.printed, ∃ s ∈ (t.receive p).texts, HasGlyph s) ↔
      ∃ d ∈ r.diagnostics, d.ShowsGlyph := by
  have hLine (s : String) : ¬∃ s' ∈ (t.receive (.line s)).texts, HasGlyph s' := by
    simpa [Terminal.receive, Printed.texts] using not_hasGlyph_sanitize ht s
  constructor
  · rintro ⟨p, hp, hGlyph⟩
    simp only [printed, List.mem_append, List.mem_map, List.mem_singleton] at hp
    rcases hp with (⟨⟨file, ds⟩, hEntry, rfl⟩ | ⟨failure, -, rfl⟩) | rfl
    · obtain ⟨rfl, hSome⟩ := mem_byFile_iff.1 hEntry
      rcases (hasGlyph_fileTable_iff file _).1 hGlyph with hFile | ⟨d, hd, hShown⟩
      · obtain ⟨d, hd⟩ := List.exists_mem_of_ne_nil _ hSome
        obtain ⟨hMem, hSame⟩ := List.mem_filter.1 hd
        rw [← of_decide_eq_true hSame] at hFile
        exact ⟨d, hMem, .inl (hasGlyph_fileOf_iff.1 hFile)⟩
      · exact ⟨d, (List.mem_filter.1 hd).1, .inr hShown⟩
    · exact absurd hGlyph (hLine _)
    · exact absurd hGlyph (hLine _)
  · rintro ⟨d, hd, hShown⟩
    let listed := r.diagnostics.filter (fileOf · = fileOf d)
    have hListed : d ∈ listed := List.mem_filter.2 ⟨hd, by simp⟩
    have hEntry : (fileOf d, listed) ∈ r.byFile.entries :=
      mem_byFile_iff.2 ⟨rfl, List.ne_nil_of_mem hListed⟩
    refine ⟨.table (fileTable (fileOf d) listed), ?_, (hasGlyph_fileTable_iff _ listed).2 ?_⟩
    · simp only [printed, List.mem_append, List.mem_map]
      exact .inl (.inl ⟨_, hEntry, rfl⟩)
    · rcases hShown with hFile | hText
      · exact .inl (hasGlyph_fileOf_iff.2 hFile)
      · exact .inr ⟨d, hListed, hText⟩

end LintReport

/-- The context of a hazard below a call shows its labels with arrows between them. -/
theorem Hazard.hasGlyph_context_iff (h : Hazard) (loop : String) :
    HasGlyph (h.context loop) ↔ HasGlyph loop ∨
      h.depth ≠ 0 ∧ (2 ≤ h.chain.length ∨ ∃ label ∈ h.chain, HasGlyph label) := by
  have hArrow : HasGlyph " → " := by decide
  have hHops : ¬HasGlyph (if h.depth = 1 then "call" else "calls") := by split <;> decide
  have hPlain : ∀ s ∈ [" (", " local ", " deep)", " (via ", ", "], ¬HasGlyph s := by decide
  simp only [List.forall_mem_cons] at hPlain
  unfold Hazard.context
  split
  · next hZero => simp [hZero]
  · next hBelow =>
      dsimp only
      split
      · next hNone =>
          have hChain : h.chain = [] := by simpa using hNone
          simp [hBelow, hChain, hHops, hPlain]
      · simp [hBelow, hHops, hPlain, Note.arrows, hasGlyph_intercalate, hArrow]

namespace Rule

/-- All messages of a rule name the operation and then the context, between texts without glyphs. -/
theorem exists_of_mem_messages {rule : Rule} {messageId : String} {t : Template}
    (h : (messageId, t) ∈ rule.messages) :
    ∃ first second third, t = [.text first, .place .operation, .text second, .place .context,
      .text third] ∧ ¬HasGlyph first ∧ ¬HasGlyph second ∧ ¬HasGlyph third := by
  cases rule with
  | noCloneInLoop =>
      simp only [messages, List.mem_singleton, Prod.mk.injEq] at h
      obtain ⟨-, rfl⟩ := h
      exact ⟨_, _, _, rfl, by decide +kernel⟩
  | noNewInLoop =>
      simp only [messages, List.mem_singleton, Prod.mk.injEq] at h
      obtain ⟨-, rfl⟩ := h
      exact ⟨_, _, _, rfl, by decide +kernel⟩
  | noFastState =>
      simp only [messages, List.mem_cons, List.not_mem_nil, or_false, Prod.mk.injEq] at h
      rcases h with ⟨-, rfl⟩ | ⟨-, rfl⟩
      · exact ⟨_, _, _, rfl, by decide +kernel⟩
      · exact ⟨_, _, _, rfl, by decide +kernel⟩

theorem hasGlyph_fill_iff {rule : Rule} {messageId : String} {t : Template}
    (h : (messageId, t) ∈ rule.messages) (operation context : String) :
    HasGlyph (t.fill operation context) ↔ HasGlyph operation ∨ HasGlyph context := by
  obtain ⟨first, second, third, rfl, hFirst, hSecond, hThird⟩ := exists_of_mem_messages h
  simp [Template.fill, hFirst, hSecond, hThird]

theorem template_mem_messages {rule : Rule} {messageId : String}
    (h : messageId ∈ rule.messages.map Prod.fst) (loop : String) :
    (messageId, (rule.reporter messageId loop).template) ∈ rule.messages := by
  unfold reporter
  cases hLookup : rule.messages.lookup messageId with
  | none =>
      obtain ⟨message, hMessage, rfl⟩ := List.mem_map.1 h
      simpa using List.lookup_eq_none_iff.1 hLookup message hMessage
  | some template =>
      obtain ⟨before, after, hSplit, -⟩ := List.lookup_eq_some_iff.1 hLookup
      simp [hSplit]

/-- The rules have names without glyphs, for themselves and for the loop. -/
theorem not_hasGlyph_id (rule : Rule) : ¬HasGlyph rule.id := by
  cases rule <;> decide

theorem not_hasGlyph_of_mem_loops : ∀ loop ∈ loops, ¬HasGlyph loop := by
  decide

end Rule

namespace Diagnostic

/-- The hazard lies below a call, and the chain of calls is shown with an arrow or with a label that
has a glyph. -/
def ShowsChain (d : Diagnostic) : Prop :=
  ∃ finding, d.finding = some finding ∧ finding.depth ≠ 0 ∧
    (2 ≤ finding.chain.length ∨ ∃ label ∈ finding.chain, HasGlyph label)

/-- Where the path and the operation have no glyph, only a chain of calls brings one in. -/
theorem Worded.showsGlyph_iff {d : Diagnostic} (h : d.Worded)
    (hPath : ∀ path, d.filePath = some path → ¬HasGlyph path)
    (hOperation : ∀ finding, d.finding = some finding → ¬HasGlyph finding.operation) :
    d.ShowsGlyph ↔ d.ShowsChain := by
  obtain ⟨r, hMessage, hLoop, ctx, hazard⟩ := h
  rename_i messageId loop
  have hText : HasGlyph ((r.reporter messageId loop).diagnostic ctx hazard).message ↔
      hazard.depth ≠ 0 ∧ (2 ≤ hazard.chain.length ∨ ∃ label ∈ hazard.chain, HasGlyph label) := by
    have hNoLoop := Rule.not_hasGlyph_of_mem_loops loop hLoop
    have hNoOperation : ¬HasGlyph hazard.operation := hOperation _ rfl
    show HasGlyph ((r.reporter messageId loop).template.fill _ (hazard.context loop)) ↔ _
    rw [Rule.hasGlyph_fill_iff (Rule.template_mem_messages hMessage loop),
      hazard.hasGlyph_context_iff]
    simp only [hNoLoop, hNoOperation, false_or]
  constructor
  · rintro (⟨path, hIs, hGlyph⟩ | hId | hMessage)
    · exact absurd hGlyph (hPath path hIs)
    · exact absurd hId r.not_hasGlyph_id
    · exact ⟨_, rfl, hText.1 hMessage⟩
  · rintro ⟨_, hIs, hChain⟩
    cases hIs
    exact .inr (.inr (hText.2 hChain))

end Diagnostic

namespace LintReport

/-- On a terminal that cannot show all characters lines come out without glyphs, as if they had been
replaced one after the other. Tables keep the glyphs of the diagnostics. So with plain paths and
operations a report shows a glyph exactly if a hazard lies below calls. -/
theorem receive_printed_exact {t : Terminal} (ht : t.showsAll = false) :
    (∀ s, (t.sanitize s).toList = glyphs.foldl replaceGlyph s.toList ∧ ¬HasGlyph (t.sanitize s)) ∧
    (∀ r : LintReport, (∃ p ∈ r.printed, ∃ s ∈ (t.receive p).texts, HasGlyph s) ↔
      ∃ d ∈ r.diagnostics, d.ShowsGlyph) ∧
    (∀ r : LintReport, (∀ d ∈ r.diagnostics, d.Worded) →
      (∀ d ∈ r.diagnostics, ∀ path, d.filePath = some path → ¬HasGlyph path) →
      (∀ d ∈ r.diagnostics, ∀ finding, d.finding = some finding → ¬HasGlyph finding.operation) →
      ((∃ p ∈ r.printed, ∃ s ∈ (t.receive p).texts, HasGlyph s) ↔
        ∃ d ∈ r.diagnostics, d.ShowsChain)) ∧
    ∀ (l : Linter) (folder : Folder) (ps : List Path) (r : LintReport),
      (l.lintPaths folder ps).result = .ok r → ∀ d ∈ r.diagnostics, d.Worded := by
  refine ⟨fun s => ⟨?_, not_hasGlyph_sanitize ht s⟩, exists_glyph_iff ht, ?_,
    fun _ _ _ _ => Linter.worded_of_lintPaths⟩
  · have hOnce : glyphs.Pairwise fun earlier later => later.1 ∉ earlier.2.toList := by decide
    rw [toList_sanitize ht, foldl_replaceGlyph hOnce]
    rfl
  · intro r hWorded hPaths hOperations
    rw [exists_glyph_iff ht]
    constructor
    · rintro ⟨d, hd, hShows⟩
      exact ⟨d, hd, ((hWorded d hd).showsGlyph_iff (hPaths d hd) (hOperations d hd)).1 hShows⟩
    · rintro ⟨d, hd, hShows⟩
      exact ⟨d, hd, ((hWorded d hd).showsGlyph_iff (hPaths d hd) (hOperations d hd)).2 hShows⟩

/-- A terminal that cannot show arrows. -/
def western : Terminal := ⟨some "cp1252", none⟩

/-- A clone one call below a frame loop. -/
def clonedBelow : Diagnostic :=
  (Rule.noCloneInLoop.reporter "noClone" "the frame loop").diagnostic ⟨.error, some "scene.js"⟩
    { node := .sample (.text "helper"), operation := "clone", kind := .call, depth := 1
      region := (Cursor.sample (.text "helper")).key, chain := ["useFrame callback", "helper"] }

theorem worded_clonedBelow : clonedBelow.Worded :=
  .intro .noCloneInLoop (by decide) (by decide) _ _

theorem receive_printed_exact_western : western.showsAll = false ∧
    ((∃ p ∈ (LintReport.mk [clonedBelow] ["scene.js"] []).printed,
        ∃ s ∈ (western.receive p).texts, HasGlyph s) ↔
      ∃ d ∈ [clonedBelow], d.ShowsChain) := by
  have hWestern : western.showsAll = false := by decide +kernel
  refine ⟨hWestern, (receive_printed_exact hWestern).2.2.1 ⟨[clonedBelow], ["scene.js"], []⟩
    ?_ ?_ ?_⟩
  · intro d hd
    rw [List.mem_singleton.1 hd]
    exact worded_clonedBelow
  · intro d hd path hPath
    rw [List.mem_singleton.1 hd] at hPath
    cases hPath
    decide
  · intro d hd finding hFinding
    rw [List.mem_singleton.1 hd] at hFinding
    cases hFinding
    decide

/-- The arrow between the calls reaches a terminal that cannot show it. -/
theorem glyph_reaches_western : western.showsAll = false ∧ clonedBelow.Worded ∧
    clonedBelow.filePath = some "scene.js" ∧ ¬HasGlyph "scene.js" ∧
    clonedBelow.finding = some ⟨"clone", 1, ["useFrame callback", "helper"]⟩ ∧ ¬HasGlyph "clone" ∧
    ∃ p ∈ (LintReport.mk [clonedBelow] ["scene.js"] []).printed,
      ∃ s ∈ (western.receive p).texts, HasGlyph s := by
  have hWestern : western.showsAll = false := by decide +kernel
  have hShows : clonedBelow.ShowsGlyph := by
    refine (worded_clonedBelow.showsGlyph_iff ?_ ?_).2 ⟨_, rfl, by decide, .inl (by decide)⟩
    · rintro _ ⟨⟩
      decide
    · rintro _ ⟨⟩
      decide
  exact ⟨hWestern, worded_clonedBelow, rfl, by decide, rfl, by decide,
    (exists_glyph_iff hWestern _).2 ⟨clonedBelow, List.mem_singleton_self _, hShows⟩⟩

end LintReport

end HotPath
