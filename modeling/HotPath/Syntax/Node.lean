import HotPath.Fault

/-! Syntax trees as a host hands them over. The library never looks at the tree through the host:
every node carries what the host would answer, including the reads that the host would refuse. -/

namespace HotPath

/-- A place in the source: rows and columns count from zero, columns in bytes. A host may place a
node anywhere, also before the source. -/
structure Position where
  row : Int
  column : Int
deriving DecidableEq, Inhabited

namespace Position

/-- The line number shown to people, counted from one. -/
def line (p : Position) : Int := p.row + 1

def text (p : Position) : String := s!"({p.row}, {p.column})"

/-- The position of a byte offset, with `row` line ends and `column` bytes passed before. Offsets
beyond the end of the source count on in its last line. -/
def advance (row column : Nat) : List UInt8 → Nat → Position
  | _, 0 => ⟨row, column⟩
  | [], n => ⟨row, (column + n : Nat)⟩
  | b :: rest, n + 1 =>
    if b = 10 then advance (row + 1) 0 rest n else advance row (column + 1) rest n

/-- The position of a byte offset in a source. -/
def ofOffset (source : List UInt8) (offset : Nat) : Position :=
  advance 0 0 source offset

end Position

/-- Identity of a node. Two nodes with equal keys are one node to every table of the library. Keys
that are no node's may lie before the source. -/
structure Key where
  kind : String
  start : Int
  stop : Int
deriving DecidableEq, Inhabited

def Key.text (k : Key) : String := s!"{k.kind}:{k.start}:{k.stop}"

/-- What the host answers when a node's text is asked for. -/
inductive Reading
  | bytes (raw : List UInt8)
  | text (s : String)
  | nothing
  | fails (fault : Fault)

/-- What the host answers when a field of a node is asked for. -/
inductive FieldAccess
  | readable
  /-- The node has no notion of fields, so every field is absent. -/
  | absent
  | fails (fault : Fault)

/-- One node without its children. -/
structure NodeInfo where
  /-- Place of the node in the host's listing of the tree. -/
  ordinal : Nat
  kind : String
  /-- Name of the field that the node fills in its parent; empty for none. -/
  role : String
  named : Bool
  start : Nat
  stop : Nat
  first : Position
  last : Position
  reading : Reading
  fields : FieldAccess := .readable
  /-- The host offers a list of the named children. -/
  listsNamed : Bool := true
  /-- The host tells whether the node itself is named. -/
  tellsNamed : Bool := true
  /-- The host tells what the node hangs from. -/
  tellsParent : Bool := true

/-- Whether a node counts as named where it is asked itself: one that does not tell does. -/
def NodeInfo.countsAsNamed (info : NodeInfo) : Bool := info.named || !info.tellsNamed

/-- A syntax tree. -/
inductive Node
  | mk (info : NodeInfo) (children : List Node)

namespace Node

def info : Node → NodeInfo
  | mk info _ => info

def children : Node → List Node
  | mk _ children => children

def kind (n : Node) : String := n.info.kind

def key (n : Node) : Key := ⟨n.info.kind, n.info.start, n.info.stop⟩

mutual

/-- Number of nodes of a tree. -/
def size : Node → Nat
  | mk _ children => 1 + sizeAll children

/-- Number of nodes of a list of trees. -/
def sizeAll : List Node → Nat
  | [] => 0
  | n :: rest => n.size + sizeAll rest

end

theorem size_eq (n : Node) : n.size = 1 + sizeAll n.children := by
  cases n; simp [size, children]

theorem sizeAll_append (xs ys : List Node) : sizeAll (xs ++ ys) = sizeAll xs + sizeAll ys := by
  induction xs with
  | nil => simp [sizeAll]
  | cons n rest ih => simp [sizeAll, ih]; omega

theorem size_le_sizeAll {n : Node} {ns : List Node} (h : n ∈ ns) : n.size ≤ sizeAll ns := by
  induction ns with
  | nil => cases h
  | cons m rest ih =>
      simp only [sizeAll]
      rcases List.mem_cons.1 h with rfl | h
      · omega
      · have := ih h; omega

/-- A child is smaller than its parent. -/
theorem size_lt_of_mem {c n : Node} (h : c ∈ n.children) : c.size < n.size := by
  have := size_le_sizeAll h
  rw [size_eq n]
  omega

/-- One row of a listing: the place of the parent, none for the root, and the node. -/
structure Row where
  parent : Option Nat
  info : NodeInfo

/-- Trees whose parent has not been met yet, by the place of the parent. -/
abbrev Pending := Array (List Node)

/-- Close the last open row: its children are those collected for it. -/
def closeRow (place : Nat) (row : Row) (pending : Pending) : Pending × Node :=
  let node := mk row.info (pending.getD place [])
  match row.parent with
  | some parent => (pending.modify parent (node :: ·), node)
  | none => (pending, node)

/-- The tree that a listing in pre-order describes. Rows are closed from the last to the first, so
all children of a row are complete when it is closed. -/
def ofRows (rows : List Row) : Option Node :=
  let step := fun (entry : Row × Nat) (state : Pending × Option Node) =>
    let (pending, node) := closeRow entry.2 entry.1 state.1
    (pending, some node)
  (rows.zipIdx.foldr step (Array.replicate rows.length [], none)).2

end Node

end HotPath
