import HotPath.Proofs.Heat.Reach
import HotPath.Proofs.Scope.Declared

/-! What a call names and what it is followed to. A name in a pair of parentheses is the name of the
call, but the call is followed only if its callee is written bare. So heat spreads along calls of
bare names and of members of `this`, and along no others. -/

namespace HotPath

namespace Cursor

variable {root call callee bare : Cursor} {name : String}

/-- The callee of a call is an identifier, by itself or in a pair of parentheses. -/
structure CallsIdentifier (call callee bare : Cursor) : Prop where
  written : call.callee = .ok (some callee)
  stripped : bareCallee callee = some bare
  identifier : bare.kind = "identifier"

namespace CallsIdentifier

variable (h : call.CallsIdentifier callee bare)

include h

/-- Either there are no parentheses, or the identifier is all that stands in them. -/
theorem callee_cases : callee = bare ∨
    callee.kind = "parenthesized_expression" ∧ callee.namedChildren = [bare] := by
  have hBare := h.stripped
  unfold bareCallee at hBare
  split at hBare
  · next hKind =>
      split at hBare
      · next inner hInner =>
          cases hBare
          exact .inr ⟨hKind, hInner⟩
      · cases hBare
  · exact .inl (Option.some.inj hBare)

theorem eq_bare_iff : callee = bare ↔ callee.kind ≠ "parenthesized_expression" := by
  constructor
  · rintro rfl
    rw [h.identifier]
    decide
  · intro hKind
    exact h.callee_cases.resolve_right fun hParenthesized => hKind hParenthesized.1

theorem mem_preorder (hCall : call ∈ root.preorder) : bare ∈ root.preorder :=
  mem_preorder_of_bareCallee (mem_preorder_of_field hCall h.written) h.stripped

theorem calleeName_eq (hText : bare.text = .ok name) : call.calleeName = .ok (some name) := by
  simp [calleeName, h.written, h.stripped, nameOfCallee, h.identifier, hText, bind, Except.bind,
    pure, Except.pure]

end CallsIdentifier

end Cursor

namespace ScopeTable

open Cursor

variable {t : ScopeTable} {call callee : Cursor}

/-- A call in parentheses is not followed. -/
theorem resolveCallee_of_parenthesized (hCallee : call.callee = .ok (some callee))
    (hKind : callee.kind = "parenthesized_expression") : t.resolveCallee call = .ok none := by
  simp [resolveCallee, hCallee, hKind, bind, Except.bind, pure, Except.pure]

/-- Functions invoke each other through calls that are followed. -/
theorem invokes_iff_leads {f g : Cursor} : t.Invokes f g ↔
    ∃ call ∈ f.bodyNodes, call.isCall = true ∧ ∃ b, t.Leads call b ∧ b.target? = some g := by
  simp only [Invokes, resolveCallee_eq_some_iff]

/-- In a tree without faults every call of an identifier, also in parentheses, is named by it. It is
followed to the function that the name stands for if it is written bare, and not at all in
parentheses, so naming and following agree on it unless parentheses hide a function. Heat spreads
along calls of bare names and of members of `this` alone. -/
theorem build_follows_callees (root : Cursor) (hFree : root.FaultFree) :
    ∃ t, (build root).Yields empty () t ∧
      (∀ call ∈ root.preorder, ∀ callee bare, call.CallsIdentifier callee bare →
        ∃ name, bare.text = .ok name ∧ call.calleeName = .ok (some name) ∧
          t.resolveCallee call = .ok (if callee.kind = "parenthesized_expression" then none
            else t.resolveFunction name (t.scopeFor call)) ∧
          (t.resolveCallee call = .ok (t.resolveFunction name (t.scopeFor call)) ↔
            callee = bare ∨ t.resolveFunction name (t.scopeFor call) = none)) ∧
      ∀ f g, t.Invokes f g ↔
        ∃ call ∈ f.bodyNodes, call.isCall = true ∧ ∃ b, t.Leads call b ∧ b.target? = some g := by
  obtain ⟨hOk, hState⟩ := build_spec (hFree.reads fun fault => fault.absorbed = true)
  refine ⟨_, ⟨hOk, hState⟩, fun call hCall callee bare h => ?_, fun f g => invokes_iff_leads⟩
  have hText := hFree.text_eq (h.mem_preorder hCall)
  refine ⟨bare.spelling, hText, h.calleeName_eq hText, ?_⟩
  by_cases hKind : callee.kind = "parenthesized_expression"
  · have hWrapped : callee ≠ bare := fun hSame => h.eq_bare_iff.1 hSame hKind
    rw [resolveCallee_of_parenthesized h.written hKind, if_pos hKind]
    simp [hWrapped, eq_comm]
  · obtain rfl := h.eq_bare_iff.2 hKind
    rw [resolveCallee_of_callsName ⟨callee, h.written, h.identifier, hText⟩, if_neg hKind]
    simp

end ScopeTable

open Node in
/-- Two loops that call one function, the first one in parentheses:
`function go() {} tick(() => (go)()); tick(() => go());`. -/
def Cursor.parenthesized : Cursor :=
  .root <| inner "program" "" 0 54 [
    inner "function_declaration" "" 0 16 [
      word "name" 9 11 (.text "go"),
      inner "statement_block" "body" 14 16 []],
    inner "call_expression" "" 17 35 [
      word "function" 17 21 (.text "tick"),
      inner "arguments" "arguments" 21 35 [
        inner "arrow_function" "" 22 34 [
          inner "call_expression" "body" 28 34 [
            inner "parenthesized_expression" "function" 28 32 [word "" 29 31 (.text "go")]]]]],
    inner "call_expression" "" 37 53 [
      word "function" 37 41 (.text "tick"),
      inner "arguments" "arguments" 41 53 [
        inner "arrow_function" "" 42 52 [
          inner "call_expression" "body" 48 52 [word "function" 48 50 (.text "go")]]]]]

/-- The two calls of the function, by their places and the kinds of their callees. -/
theorem Cursor.exists_callsIdentifier_parenthesized {place : Nat} {kind : String}
    (h : (place, kind) ∈ [(28, "parenthesized_expression"), (48, "identifier")]) :
    ∃ call ∈ Cursor.parenthesized.preorder, ∃ callee bare, call.CallsIdentifier callee bare ∧
      callee.kind = kind ∧ bare.text = .ok "go" ∧ call.isCall = true ∧ call.start = place := by
  have hFound : ∀ p ∈ [(28, "parenthesized_expression"), (48, "identifier")],
      ∃ call ∈ Cursor.parenthesized.preorder, call.isCall = true ∧ call.start = p.1 ∧
        ∃ callee, call.callee = .ok (some callee) ∧ callee.kind = p.2 ∧
          (bareCallee callee).any fun bare => bare.kind = "identifier" ∧ bare.text = .ok "go" := by
    decide +kernel
  obtain ⟨call, hCall, hIsCall, hStart, callee, hCallee, hKind, hAny⟩ := hFound _ h
  obtain ⟨bare, hBare, hName⟩ := (Option.any_eq_true _ _).1 hAny
  obtain ⟨hIdentifier, hText⟩ := of_decide_eq_true hName
  exact ⟨call, hCall, callee, bare, ⟨hCallee, hBare, hIdentifier⟩, hKind, hText, hIsCall, hStart⟩

/-- The bare call is followed to the function, and the other one is not. -/
theorem ScopeTable.build_follows_callees_parenthesized :
    Cursor.parenthesized.FaultFree ∧ ∃ t, (build .parenthesized).Yields empty () t ∧
      (∃ call ∈ Cursor.parenthesized.preorder, call.start = 28 ∧
        call.calleeName = .ok (some "go") ∧ t.resolveCallee call = .ok none) ∧
      ∃ call ∈ Cursor.parenthesized.preorder, call.start = 48 ∧
        call.calleeName = .ok (some "go") ∧ ∃ b, t.resolveCallee call = .ok (some b) := by
  have hFree : Cursor.parenthesized.FaultFree := by decide +kernel
  obtain ⟨t, hBuild, hCalls, -⟩ := build_follows_callees .parenthesized hFree
  refine ⟨hFree, t, hBuild, ?_, ?_⟩
  · obtain ⟨call, hCall, callee, bare, hBy, hKind, hText, -, hStart⟩ :=
      Cursor.exists_callsIdentifier_parenthesized List.mem_cons_self
    obtain ⟨name, hName, hCalled, hFollowed, -⟩ := hCalls call hCall callee bare hBy
    obtain rfl := Except.ok.inj (hText.symm.trans hName)
    rw [if_pos hKind] at hFollowed
    exact ⟨call, hCall, hStart, hCalled, hFollowed⟩
  · obtain ⟨call, hCall, callee, bare, hBy, hKind, hText, -, hStart⟩ :=
      Cursor.exists_callsIdentifier_parenthesized (List.mem_cons_of_mem _ List.mem_cons_self)
    obtain ⟨name, hName, hCalled, hFollowed, -⟩ := hCalls call hCall callee bare hBy
    obtain rfl := Except.ok.inj (hText.symm.trans hName)
    rw [hKind, if_neg (by decide)] at hFollowed
    have hFunction : ∀ call ∈ Cursor.parenthesized.preorder, call.start = 48 →
        (((build .parenthesized).run empty).state.resolveFunction "go"
          (((build .parenthesized).run empty).state.scopeFor call)).isSome := by decide +kernel
    obtain ⟨b, hb⟩ := Option.isSome_iff_exists.1 (hFunction call hCall hStart)
    rw [hBuild.2] at hb
    exact ⟨call, hCall, hStart, hCalled, b, hb ▸ hFollowed⟩

/-- In parentheses a name is not followed to the function that it stands for. -/
theorem ScopeTable.parenthesized_callee_not_followed :
    let t := ((build .parenthesized).run empty).state
    ∃ call ∈ Cursor.parenthesized.preorder, ∃ callee bare, call.CallsIdentifier callee bare ∧
      call.calleeName = .ok (some "go") ∧
      t.resolveCallee call ≠ .ok (t.resolveFunction "go" (t.scopeFor call)) := by
  intro t
  obtain ⟨call, hCall, callee, bare, hBy, hKind, hText, -, hStart⟩ :=
    Cursor.exists_callsIdentifier_parenthesized List.mem_cons_self
  have hFunction : ∀ call ∈ Cursor.parenthesized.preorder, call.start = 28 →
      (t.resolveFunction "go" (t.scopeFor call)).isSome := by decide +kernel
  refine ⟨call, hCall, callee, bare, hBy, hBy.calleeName_eq hText, fun hSame => ?_⟩
  have hSome := hFunction call hCall hStart
  rw [resolveCallee_of_parenthesized hBy.written hKind] at hSame
  rw [← Except.ok.inj hSame] at hSome
  cases hSome

end HotPath
