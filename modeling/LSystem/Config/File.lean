import LSystem.Config.Reader
import LSystem.Files
import LSystem.Json.Reader

/-!
Configurations read from files.
-/

namespace LSystem.Config

/-- Why a file gives no configuration. -/
inductive LoadFault where
  | file (fault : FileFault) (path : String)
  /-- The path holds the character that ends a path. -/
  | nullPath
  | encoding (fault : Text.Utf8.Fault)
  | malformed (path : String) (problem : Json.Problem) (place : Text.Place)
  | overlong (integer : Text.Overlong)
  | config (fault : Fault)
deriving DecidableEq

def LoadFault.message : LoadFault → String
  | file fault path => fault.message path
  | nullPath => "embedded null byte"
  | encoding fault => fault.message
  | malformed path problem place =>
      "Invalid JSON in " ++ path ++ ": " ++ (Json.Fault.malformed problem place).message
  | overlong integer => integer.message
  | config fault => fault.message

/-- The value written in a file, whose line ends are unified first. -/
def loadJson (files : FileReader) (path : String) : Except LoadFault Json :=
  if path.toList.contains '\x00' then .error .nullPath
  else
    match files path with
    | .error fault => .error (.file fault path)
    | .ok bytes =>
        match Text.Utf8.decode bytes with
        | .error fault => .error (.encoding fault)
        | .ok cs =>
            match Json.read (Text.unifyLineEnds cs) with
            | .ok value => .ok value
            | .error (.malformed problem place) => .error (.malformed path problem place)
            | .error (.overlong integer) => .error (.overlong integer)

def load (files : FileReader) (path : String) : Except LoadFault Config :=
  match loadJson files path with
  | .error fault => .error fault
  | .ok value => (read value).mapError .config

end LSystem.Config
