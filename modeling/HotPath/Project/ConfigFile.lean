import HotPath.Json.Reader
import HotPath.Project.Settings

/-! The project's configuration file: a JSON object that may name a preset and configure rules. -/

namespace HotPath

/-- Why a configuration file was refused. -/
inductive ConfigFileError
  | config (e : ConfigError)
  /-- The file is not UTF-8. -/
  | undecodable
  | unreadable (e : ReadError)
  /-- The document goes beyond a limit of its reader. -/
  | limit (p : Json.Problem)

namespace ConfigFile

/-- The members that a configuration may have. -/
def knownMembers : List String := ["extends", "rules"]

def isText : Value → Bool
  | .str _ => true
  | _ => false

def isObject : Value → Bool
  | .object _ => true
  | _ => false

/-- Check the members of a configuration. -/
def check (path : String) (members : List (RawText × Value)) : Except ConfigProblem Unit :=
  match members.find? fun m => !knownMembers.any (.plain · = m.1) with
  | some m => .error (.unknownKey path m.1)
  | none =>
    if !((members.lookup (.plain "extends")).all isText) then .error (.extendsNotName path)
    else if !((members.lookup (.plain "rules")).all isObject) then .error (.rulesNotObject path)
    else .ok ()

/-- Read the text of a configuration. -/
def parse (path : String) (text : String) : Except ConfigFileError (List (RawText × Value)) :=
  match Json.readChars text.toList with
  | .error f =>
    if f.problem.isLimit then .error (.limit f.problem)
    else .error (.config ⟨none, .invalidDocument path f.problem.message (f.line text.toList)⟩)
  | .ok (.object members) =>
    match check path members with
    | .error p => .error (.config ⟨none, p⟩)
    | .ok () => .ok members
  | .ok _ => .error (.config ⟨none, .documentNotObject path⟩)

/-- Read a configuration file. One that does not exist configures nothing. -/
def load (folder : Folder) (p : Path) : Except ConfigFileError (List (RawText × Value)) :=
  match folder.locate p with
  | .file source =>
    match source.text? with
    | none => .error .undecodable
    | some text => parse p.text text
  | .tooLong => .error (.unreadable (.tooLong p.text))
  | _ => .ok []

end ConfigFile

end HotPath
