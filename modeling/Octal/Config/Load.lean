import Octal.Config.Decode
import Octal.Disk

/-!
# Configuration files
-/

namespace Octal.Config

/-- Why a configuration file cannot be used. -/
inductive Fault where
  | emptyPath
  | unopened (cause : Error)
  | unread (path : String) (cause : Error)
  | malformed (path : String) (line : Nat)
  | mistyped (path : String) (faults : List Mismatch)
  | invalid (path : String) (setting : Invalid)
deriving DecidableEq, Repr

def Fault.message : Fault → Bytes
  | emptyPath => Bytes.ofString "config: empty path"
  | unopened cause => Bytes.ofString cause.message
  | unread path cause =>
    Bytes.ofString ("config: parse " ++ path ++ ": yaml: input error: " ++ cause.message)
  | malformed path line =>
    Bytes.ofString ("config: parse " ++ path ++ ": yaml: line " ++ line.repr ++
      ": did not find expected key")
  | mistyped path faults =>
    Bytes.ofString ("config: parse " ++ path ++ ": yaml: unmarshal errors:") ++
      faults.flatMap fun m => Bytes.ofString "\n  " ++ m.message
  | invalid path setting => Bytes.ofString ("config: " ++ path ++ ": " ++ setting.message)

/-- The settings that a document makes of the default ones. -/
def ofText (path : String) (text : Bytes) : Except Fault Config := do
  let malformed := fun {α : Type} (result : Except Nat α) => result.mapError (Fault.malformed path)
  match String.fromUTF8? (ByteArray.mk text.toArray) with
  | none => throw (.malformed path 1)
  | some text =>
    let (c, faults) ←
      match ← malformed (Yaml.read text.toList) with
      | none => pure (Config.default, [])
      | some document => malformed (applyDocument default document)
    if !faults.isEmpty then throw (.mistyped path faults)
    let c := { c with path }.normalize
    match c.validate with
    | .ok () => return c
    | .error setting => throw (.invalid path setting)

/-- Load the settings in the file at `path`. -/
def load (disk : Disk) (path : String) : Except Fault Config :=
  if path = "" then .error .emptyPath
  else
    let path := disk.absolute path
    match disk.openFile path with
    | .error cause => .error (.unopened cause)
    | .ok src =>
      match src.ending with
      | .complete => ofText path src.text
      | .cutOff cause => .error (.unread path cause)

end Octal.Config
