import HotPath.Proofs.Reading
import HotPath.Scope.Build

/-! What the handlers of the scope walk do. A handler declares names, which changes no scope but
for its names, and it opens at most one scope. Every name that it declares for a function stands for
a function of the tree. -/

namespace HotPath

/-- A scope without its names: its kind, the node that opened it and the scopes around it. -/
structure Frame where
  kind : ScopeKind
  node : Cursor
  outer : List Nat

def Scope.frame (s : Scope) : Frame := ⟨s.kind, s.node, s.outer⟩

/-- A table under construction without its names. -/
structure Shape where
  frames : List Frame
  placed : OrderedMap Key Nat
  top : Nat
  below : List Nat

namespace Shape

def push (kind : ScopeKind) (node : Cursor) (s : Shape) : Shape :=
  ⟨s.frames ++ [⟨kind, node, s.top :: s.below⟩], s.placed, s.frames.length, s.top :: s.below⟩

def pop (node : Cursor) (s : Shape) : Shape :=
  match s.below with
  | [] => s
  | next :: rest =>
    if (s.frames[s.top]?).any fun f => f.node.key = node.key then
      { s with top := next, below := rest }
    else s

def place (node : Cursor) (s : Shape) : Shape :=
  { s with placed := s.placed.insert node.key s.top }

end Shape

namespace ScopeBuilder

def shape (b : ScopeBuilder) : Shape :=
  ⟨b.table.scopes.map Scope.frame, b.table.placed, b.top, b.below⟩

@[simp] theorem shape_push (kind : ScopeKind) (node : Cursor) (b : ScopeBuilder) :
    (b.push kind node).shape = b.shape.push kind node := by
  simp [push, shape, Shape.push, ScopeTable.addScope, Scope.frame]

@[simp] theorem shape_pop (node : Cursor) (b : ScopeBuilder) :
    (b.pop node).shape = b.shape.pop node := by
  obtain ⟨t, top, below⟩ := b
  cases below with
  | nil => rfl
  | cons next rest =>
      have hSame : ((t.scopes[top]?.map Scope.frame).any fun f => f.node.key = node.key) =
          t.scopes[top]?.any fun s => s.node.key = node.key := by
        cases t.scopes[top]? with
        | none => rfl
        | some s => rfl
      by_cases hTop : (t.scopes[top]?.any fun s => s.node.key = node.key) = true
      · simp [pop, shape, Shape.pop, ScopeTable.scope?, hSame, hTop]
      · simp [pop, shape, Shape.pop, ScopeTable.scope?, hSame, hTop]

theorem table_pop (node : Cursor) (b : ScopeBuilder) : (b.pop node).table = b.table := by
  unfold pop
  split
  · rfl
  · split <;> rfl

@[simp] theorem shape_place (node : Cursor) (b : ScopeBuilder) :
    (b.place node).shape = b.shape.place node := rfl

/-- Names are no part of the shape. -/
@[simp] theorem shape_declare (n : Nat) (d : Declaration) (b : ScopeBuilder) :
    (b.declare n d).shape = b.shape := by
  unfold declare
  split
  · rfl
  · have hFrames : ((b.table.declare n d).scopes.map Scope.frame) =
        b.table.scopes.map Scope.frame := by
      apply List.ext_getElem?
      intro i
      simp only [ScopeTable.declare, List.getElem?_map, List.getElem?_modify]
      cases b.table.scopes[i]? with
      | none => rfl
      | some s =>
          by_cases hi : n = i
          · simp [hi, Scope.frame]
          · simp [hi]
    simp only [shape, hFrames]
    rfl

end ScopeBuilder

/-- Bindings that are new stand for no function or for one of the tree. -/
def ScopeBuilder.Grows (root : Cursor) (b b' : ScopeBuilder) : Prop :=
  ∀ x ∈ b'.table.bindings, x ∈ b.table.bindings ∨ ∀ f, x.target? = some f → f ∈ root.functions

/-- The shape changed as the function says, and bindings were added. -/
structure ScopeBuilder.Moves (root : Cursor) (f : Shape → Shape) (b b' : ScopeBuilder) : Prop where
  shape_eq : b'.shape = f b.shape
  grows : b.Grows root b'

/-- Nothing happened but declarations. -/
abbrev ScopeBuilder.Declares (root : Cursor) : ScopeBuilder → ScopeBuilder → Prop := Moves root id

namespace ScopeStep

open ScopeBuilder

variable {P : Fault → Prop} {root c : Cursor}

instance (root : Cursor) : Composable (Grows root) := by
  constructor
  · exact fun b x hx => .inl hx
  · intro a b c hab hbc x hx
    rcases hbc x hx with hx | hx
    · exact hab x hx
    · exact .inr hx

theorem moves_trans {f g : Shape → Shape} {a b c : ScopeBuilder} (hab : Moves root f a b)
    (hbc : Moves root g b c) : Moves root (fun s => g (f s)) a c :=
  ⟨by rw [hbc.shape_eq, hab.shape_eq], Composable.trans hab.grows hbc.grows⟩

instance (root : Cursor) : Composable (Declares root) :=
  ⟨fun b => ⟨rfl, Composable.refl b⟩, moves_trans⟩

theorem keeps_declare (n : Nat) {d : Declaration}
    (hTarget : ∀ f, d.kind.target? = some f → f ∈ root.functions) :
    Task.Keeps P (Declares root) (declare n d) := by
  refine Task.Keeps.update fun b => ⟨shape_declare n d b, ?_⟩
  intro x hx
  unfold ScopeBuilder.declare at hx
  split at hx
  · exact .inl hx
  · rcases List.mem_append.1 hx with hx | hx
    · exact .inl hx
    · obtain rfl := List.mem_singleton.1 hx
      exact .inr hTarget

theorem keeps_declareNamed (n : Nat) (name : Option String) {kind : BindingKind} (node : Cursor)
    (hTarget : ∀ f, kind.target? = some f → f ∈ root.functions) :
    Task.Keeps P (Declares root) (declareNamed n name kind node) := by
  cases name with
  | none => exact Task.Keeps.pure ()
  | some name => exact keeps_declare n hTarget

theorem keeps_top : Task.Keeps P (Declares root) top :=
  Task.Keeps.bind (Task.Keeps.getState)
    fun _ => Task.Keeps.pure _

theorem keeps_topKind? : Task.Keeps P (Declares root) topKind? :=
  Task.Keeps.bind (Task.Keeps.getState)
    fun _ => Task.Keeps.pure _

/-- Names of a pattern that are no functions; a fault in the middle is the fault of a read. -/
theorem keeps_declarePattern (hReads : root.ReadsFailOnly P) {pattern : Cursor}
    (hPattern : pattern ∈ root.preorder) (n : Nat) {kind : BindingKind}
    (hKind : kind.target? = none) (initCallee : Option String) :
    Task.Keeps P (Declares root) (declarePattern n kind initCallee pattern) := by
  refine Task.Keeps.bind ?_ fun _ => ?_
  · refine Task.Keeps.each fun p _ => keeps_declare n ?_
    simp [hKind]
  · split
    · next fault hFault =>
        exact Task.Keeps.stop (hReads.boundNames hPattern none hFault)
    · exact Task.Keeps.pure ()

theorem keeps_enterClass (hReads : root.ReadsFailOnly P) (hc : c ∈ root.preorder) :
    Task.Keeps P (Declares root) (enterClass c) := by
  refine Task.Keeps.read (hReads.declaredName hc) fun name _ => ?_
  split
  · exact Task.Keeps.pure ()
  · exact Task.Keeps.bind keeps_top
      fun n => keeps_declareNamed n name c (by simp [BindingKind.target?])

theorem keeps_declareField (hReads : root.ReadsFailOnly P) (hc : c ∈ root.preorder)
    {name : Option Cursor} (hName : ∀ n, name = some n → n ∈ root.preorder) :
    Task.Keeps P (Declares root) (declareField name c) := by
  refine Task.Keeps.read (hReads.field hc "value") fun value hValue => ?_
  split
  · next n v =>
      split
      · next hLiteral =>
          refine Task.Keeps.bind keeps_top fun inside => ?_
          refine Task.Keeps.read (hReads.text (hName n rfl)) fun text _ => keeps_declare inside ?_
          rintro f ⟨⟩
          exact Cursor.mem_functions_of_isFunctionLiteral
            (Cursor.mem_preorder_of_field hc hValue) hLiteral
      · exact Task.Keeps.pure ()
  · exact Task.Keeps.pure ()

theorem keeps_enterField (hReads : root.ReadsFailOnly P) (hc : c ∈ root.preorder) :
    Task.Keeps P (Declares root) (enterField c) := by
  refine Task.Keeps.bind keeps_topKind? fun kind => ?_
  split
  · exact Task.Keeps.pure ()
  · refine Task.Keeps.read (hReads.field hc "property") fun property hProperty => ?_
    split
    · exact keeps_declareField hReads hc fun n hn =>
        Cursor.mem_preorder_of_field hc (hn ▸ hProperty)
    · refine Task.Keeps.read (hReads.field hc "name") fun name hName => ?_
      exact keeps_declareField hReads hc fun n hn => Cursor.mem_preorder_of_field hc (hn ▸ hName)

/-- A function that a declarator binds stands in its initializer. -/
theorem mem_functions_of_declarationOf {name : String} {value : Option Cursor} {d : Declaration}
    (hValue : ∀ v, value = some v → v ∈ root.preorder) (h : declarationOf c name value = .ok d)
    {f : Cursor} (hf : d.kind.target? = some f) : f ∈ root.functions := by
  unfold declarationOf at h
  cases value with
  | none =>
      cases h
      cases hf
  | some v =>
      have hv := Cursor.unwrap_mem_preorder (hValue v rfl)
      simp only [Option.map_some] at h
      split at h
      · next hLiteral =>
          cases h
          cases hf
          exact Cursor.mem_functions_of_isFunctionLiteral hv hLiteral
      · split at h
        · obtain ⟨text, -, h⟩ := exists_of_bind_eq_ok h
          cases h
          cases hf
        · split at h
          · obtain ⟨found, hFound, h⟩ := exists_of_bind_eq_ok h
            cases found with
            | some target =>
                cases h
                cases hf
                exact Cursor.mem_functions_of_wrappedFunction hv hFound
            | none =>
                obtain ⟨callee, -, h⟩ := exists_of_bind_eq_ok h
                cases h
                cases hf
          · split at h
            · cases h
              cases hf
            · cases h
              cases hf

theorem failsOnly_declarationOf (hReads : root.ReadsFailOnly P) (name : String)
    {value : Option Cursor} (hValue : ∀ v, value = some v → v ∈ root.preorder) :
    FailsOnly P (declarationOf c name value) := by
  unfold declarationOf
  cases value with
  | none => exact FailsOnly.ok _
  | some v =>
      have hv := Cursor.unwrap_mem_preorder (hValue v rfl)
      simp only [Option.map_some]
      split
      · exact FailsOnly.ok _
      · split
        · exact (hReads.text hv).bind fun _ _ => FailsOnly.ok _
        · split
          · refine (hReads.wrappedFunction hv).bind fun found _ => ?_
            cases found with
            | some target => exact FailsOnly.ok _
            | none => exact (hReads.calleeName hv).bind fun _ _ => FailsOnly.ok _
          · split
            · exact FailsOnly.ok _
            · exact FailsOnly.ok _

theorem keeps_declaratorScope : Task.Keeps P (Declares root) (declaratorScope c) := by
  refine Task.Keeps.bind keeps_top fun inside => ?_
  split
  · exact Task.Keeps.bind Task.Keeps.getState fun _ => Task.Keeps.pure _
  · exact Task.Keeps.pure inside

theorem keeps_enterDeclarator (hReads : root.ReadsFailOnly P) (hc : c ∈ root.preorder) :
    Task.Keeps P (Declares root) (enterDeclarator c) := by
  refine Task.Keeps.read (hReads.field hc "name") fun found hFound => ?_
  cases found with
  | none => exact Task.Keeps.pure ()
  | some nameNode =>
      have hName := Cursor.mem_preorder_of_field hc hFound
      refine Task.Keeps.read (hReads.field hc "value") fun value hValue => ?_
      have hMem : ∀ v, value = some v → v ∈ root.preorder := fun v hv =>
        Cursor.mem_preorder_of_field hc (hv ▸ hValue)
      refine Task.Keeps.bind keeps_declaratorScope fun n => ?_
      split
      · refine Task.Keeps.read (hReads.text hName) fun name _ => ?_
        refine Task.Keeps.read (failsOnly_declarationOf hReads name hMem) fun d hd => ?_
        exact keeps_declare n fun f hf => mem_functions_of_declarationOf hMem hd hf
      · cases value with
        | none => exact keeps_declarePattern hReads hName n rfl none
        | some v =>
            simp only
            split
            · exact Task.Keeps.read (hReads.calleeName (hMem v rfl))
                fun callee _ => keeps_declarePattern hReads hName n rfl callee
            · exact keeps_declarePattern hReads hName n rfl none

theorem keeps_declareImported (hReads : root.ReadsFailOnly P) {part : Cursor}
    (hPart : part ∈ root.preorder) (n : Nat) (source : Option String) :
    Task.Keeps P (Declares root) (declareImported n source part) := by
  have hImported : ∀ exported f,
      (BindingKind.imported source exported).target? = some f → f ∈ root.functions := by
    intro exported f hf
    cases hf
  unfold declareImported
  split
  · exact Task.Keeps.read (hReads.text hPart) fun _ _ => keeps_declare n (hImported _)
  · split
    · refine Task.Keeps.each fun inner hInner => ?_
      have hMem := Cursor.mem_preorder_of_mem_namedChildren hPart hInner
      split
      · exact Task.Keeps.read (hReads.text hMem) fun _ _ => keeps_declare n (hImported _)
      · exact Task.Keeps.pure ()
    · split
      · refine Task.Keeps.each fun specifier hSpecifier => ?_
        have hMem := Cursor.mem_preorder_of_mem_namedChildren hPart hSpecifier
        split
        · refine Task.Keeps.read (hReads.fieldText hMem "name") fun exported _ => ?_
          refine Task.Keeps.read (hReads.field hMem "alias") fun found hFound => ?_
          cases found with
          | none => exact keeps_declare n (hImported _)
          | some other =>
              exact Task.Keeps.read (hReads.text (Cursor.mem_preorder_of_field hMem hFound))
                fun _ _ => keeps_declare n (hImported _)
        · exact Task.Keeps.pure ()
      · exact Task.Keeps.pure ()

theorem keeps_declareImports (hReads : root.ReadsFailOnly P) (hc : c ∈ root.preorder)
    (source : Option String) : Task.Keeps P (Declares root) (declareImports source c) := by
  refine Task.Keeps.bind keeps_top fun n => ?_
  split
  · exact Task.Keeps.pure ()
  · next clause hClause =>
      have hMem := Cursor.mem_preorder_of_mem_namedChildren hc (List.mem_of_find?_eq_some hClause)
      exact Task.Keeps.each fun part hPart => keeps_declareImported hReads
        (Cursor.mem_preorder_of_mem_namedChildren hMem hPart) n source

theorem keeps_enterImport (hReads : root.ReadsFailOnly P) (hc : c ∈ root.preorder) :
    Task.Keeps P (Declares root) (enterImport c) := by
  refine Task.Keeps.read (hReads.field hc "source") fun found hFound => ?_
  cases found with
  | none => exact Task.Keeps.bind (Task.Keeps.pure none) (keeps_declareImports hReads hc)
  | some source =>
      refine Task.Keeps.read (hReads.text (Cursor.mem_preorder_of_field hc hFound)) fun text _ => ?_
      exact Task.Keeps.bind (Task.Keeps.pure (some (stripQuotes text)))
        (keeps_declareImports hReads hc)

/-! Handlers that open a scope. -/

theorem keeps_push (kind : ScopeKind) (node : Cursor) :
    Task.Keeps P (Moves root (Shape.push kind node)) (push kind node) :=
  Task.Keeps.update fun b => ⟨shape_push kind node b, fun _ hx => .inl hx⟩

/-- What is declared before a scope is opened cannot fail; what is declared inside may. -/
theorem keeps_declares_bind {f : Shape → Shape} {α : Type} {first : ScopeStep α}
    {next : α → ScopeStep Unit} (hFirst : Task.Keeps (fun _ => False) (Declares root) first)
    (hNext : ∀ a, Task.Keeps P (Moves root f) (next a)) :
    Task.Keeps P (Moves root f) (first >>= next) :=
  Task.Keeps.bind_of_total hFirst hNext moves_trans

theorem keeps_push_declares (kind : ScopeKind) (node : Cursor) {inside : ScopeStep Unit}
    (hInside : Task.Keeps P (Declares root) inside) :
    Task.Keeps P (Moves root (Shape.push kind node)) (do push kind node; inside) :=
  Task.Keeps.bind_of_total (keeps_push kind node) (fun _ => hInside) moves_trans

theorem keeps_declareParameters (hReads : root.ReadsFailOnly P) (hc : c ∈ root.preorder)
    (inside : Nat) : Task.Keeps P (Declares root) (declareParameters inside c) := by
  refine Task.Keeps.read (hReads.field hc "parameters") fun found hFound => ?_
  cases found with
  | some list =>
      refine Task.Keeps.each fun pattern hPattern => ?_
      exact keeps_declarePattern hReads (Cursor.mem_preorder_of_mem_namedChildren
        (Cursor.mem_preorder_of_field hc hFound) hPattern) inside rfl none
  | none =>
      refine Task.Keeps.read (hReads.field hc "parameter") fun single hSingle => ?_
      cases single with
      | some pattern =>
          exact keeps_declarePattern hReads (Cursor.mem_preorder_of_field hc hSingle) inside rfl
            none
      | none => exact Task.Keeps.pure ()

/-- A function whose name can be read opens a scope, whatever becomes of its parameters. -/
theorem keeps_enterFunction (hReads : root.ReadsFailOnly P) (hc : c ∈ root.functions)
    {name : Option String} (hName : c.declaredName = .ok name) :
    Task.Keeps P (Moves root (Shape.push .function c)) (enterFunction c) := by
  have hSelf : ∀ f, (BindingKind.function c).target? = some f → f ∈ root.functions := by
    rintro f ⟨⟩
    exact hc
  have hMethod : ∀ f, (BindingKind.method c).target? = some f → f ∈ root.functions := by
    rintro f ⟨⟩
    exact hc
  have hMem := Cursor.mem_preorder_of_mem_functions hc
  have hPush := keeps_push_declares .function c
    (Task.Keeps.bind keeps_top fun inside => Task.Keeps.ite (c := c.isFunctionLiteral = true)
      (Task.Keeps.bind (keeps_declareNamed inside name c hSelf)
        fun _ => keeps_declareParameters hReads hMem inside)
      (keeps_declareParameters hReads hMem inside))
  refine Task.Keeps.read_ok hName (keeps_declares_bind keeps_top fun outside => ?_)
  refine Task.Keeps.ite ?_ (keeps_declares_bind keeps_topKind? fun kind => ?_)
  · exact keeps_declares_bind (keeps_declareNamed outside name c hSelf) fun _ => hPush
  · refine Task.Keeps.ite ?_ hPush
    exact keeps_declares_bind (keeps_declareNamed outside name c hMethod) fun _ => hPush

theorem keeps_enterBlock (hReads : root.ReadsFailOnly P) (hc : c ∈ root.preorder)
    (hBody : isFunctionBody c = false) :
    Task.Keeps P (Moves root (Shape.push .block c)) (enterBlock c) := by
  unfold enterBlock
  rw [hBody, if_neg Bool.false_ne_true]
  refine keeps_push_declares .block c (Task.Keeps.bind keeps_top fun inside => ?_)
  refine Task.Keeps.ite ?_ (Task.Keeps.ite ?_ (Task.Keeps.pure ()))
  · refine Task.Keeps.read (hReads.field hc "parameter") fun found hFound => ?_
    cases found with
    | none => exact Task.Keeps.pure ()
    | some parameter =>
        exact keeps_declarePattern hReads (Cursor.mem_preorder_of_field hc hFound) inside rfl none
  · refine Task.Keeps.read (hReads.field hc "left") fun found hFound => ?_
    cases found with
    | none => exact Task.Keeps.pure ()
    | some left =>
        refine Task.Keeps.read (hReads.field hc "kind") fun kind _ => ?_
        cases kind with
        | none => exact Task.Keeps.pure ()
        | some _ =>
            exact keeps_declarePattern hReads (Cursor.mem_preorder_of_field hc hFound) inside rfl
              none

end ScopeStep

end HotPath
