import HotPath.Files.Path
import HotPath.Syntax.Node
import HotPath.Text.Case

/-! Sources and the languages that they are written in. Parsing is left to others: a source comes
with the trees that were made of it, one for each language it was parsed as. -/

namespace HotPath

inductive Language
  | javascript
  | typescript
  | tsx
deriving DecidableEq

namespace Language

def name : Language → String
  | javascript => "javascript"
  | typescript => "typescript"
  | tsx => "tsx"

def ofName? (s : String) : Option Language := [javascript, typescript, tsx].find? (·.name = s)

/-- File suffixes in lower case. -/
def suffixes : List (String × Language) :=
  [(".js", javascript), (".jsx", javascript), (".mjs", javascript), (".cjs", javascript),
    (".ts", typescript), (".mts", typescript), (".cts", typescript), (".tsx", tsx)]

/-- The language of a file, by its suffix in any case. -/
def ofPath? (p : Path) : Option Language := suffixes.lookup (Text.lower p.suffix)

end Language

/-- The bytes of a source and its syntax trees. -/
structure Source where
  bytes : List UInt8
  trees : List (Language × Node)

def Source.tree? (s : Source) (l : Language) : Option Node := s.trees.lookup l

end HotPath
