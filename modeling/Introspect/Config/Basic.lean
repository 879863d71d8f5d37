import Introspect.Config.Props
import Introspect.Config.Path
import Introspect.Text.Case
import Introspect.Text.Utf8
/-!
Configuration: environment variables first, then a properties file under the working directory. Files
that were read are remembered with their modification time and read again when it differs.
-/
namespace Introspect

structure File where
  content : List UInt8
  modified : Rat

structure Config where
  environment : List (String × String)
  /-- Used when no variable names the working directory. -/
  directory : String
  files : List (String × File)
  /-- Properties by path, with the modification time they were read at; none for an absent file. -/
  cache : List (String × Option Rat × Props)

/-- A change of the configuration's state that may fail; what it did before stays. -/
abbrev Config.Act := EStateM Fault Config

namespace Config

def homeVariable : String := "OBJMETA_HOME"

def variableStart : String := "OBJMETA_"

def propsPath : String := "etc/objmeta/config.props"

def setVariable (name value : String) (c : Config) : Config :=
  { c with environment := Pairs.put name value c.environment }

def unsetVariable (name : String) (c : Config) : Config :=
  { c with environment := Pairs.erase name c.environment }

def write (path : String) (file : File) (c : Config) : Config :=
  { c with files := Pairs.put (Path.normal path) file c.files }

def remove (path : String) (c : Config) : Config :=
  { c with files := Pairs.erase (Path.normal path) c.files }

def reload (c : Config) : Config := { c with cache := [] }

def workDir (c : Config) : String :=
  Path.normal ((c.environment.lookup homeVariable).getD c.directory)

/-- The variable that overrides a key. -/
def variableFor (key : String) : String :=
  variableStart ++ Text.upper (key.map fun ch => if ch = '.' then '_' else ch)

def readFile (path : String) (file : File) : Except Fault Props :=
  match Text.Utf8.decode? file.content with
  | none => .error (.host .unicodeDecodeError "")
  | some text => Props.parse (String.ofList (Text.unifyNewlines text.toList)) path

/-- The file at a path, if any; a directory, which is a path with files below it, cannot be read. -/
def file? (c : Config) (path : String) : Except Fault (Option File) :=
  match c.files.lookup path with
  | some file => .ok (some file)
  | none =>
    if c.files.any fun f => Path.isBelow path f.1 then .error (.host .isADirectoryError "") else .ok none

def propsOf (path : String) : Option File → Except Fault Props
  | some file => readFile path file
  | none => .ok []

/-- What the cache has for a path, if it was read at the given modification time. -/
def cached? (c : Config) (path : String) (modified : Option Rat) : Option Props :=
  match c.cache.lookup path with
  | some (stamp, props) => if stamp = modified then some props else none
  | none => none

/-- The properties of a file, taken from the cache if the modification time is still the same. A
file that cannot be read leaves the cache as it was. -/
def props (path : String) : Config.Act Props := do
  let c ← get
  let path := Path.join c.workDir path
  match c.file? path with
  | .error fault => throw fault
  | .ok file =>
    let modified := file.map (·.modified)
    match c.cached? path modified with
    | some props => return props
    | none =>
      match propsOf path file with
      | .error fault => throw fault
      | .ok props =>
        set { c with cache := Pairs.put path (modified, props) c.cache }
        return props

/-- The variable for a key unless it is empty, else the value in the properties file. -/
def value? (key : String) : Config.Act (Option String) := do
  match (← get).environment.lookup (variableFor key) with
  | some value => if value ≠ "" then return some value
  | none => pure ()
  return (← props propsPath).lookup key

end Config

end Introspect
