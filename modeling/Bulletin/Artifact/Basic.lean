import Bulletin.Fault
import Bulletin.Document.Format

/-!
# Artifacts

An artifact is a file that an execution has written: its format, its name, where the store put
it, its size and its checksum. Names of artifacts are flat: neither a path nor one of the two
names of directories.
-/

namespace Bulletin

/-! ## Errors -/

inductive ArtifactError where
  /-- the file system failed -/
  | io (detail : String)
  /-- the content could not be written as JSON -/
  | serialization (detail : String)
  | notFound (name : String)
  | invalidName (name : String)
deriving DecidableEq

namespace ArtifactError

def message : ArtifactError → String
  | .io detail => s!"IO error: {detail}"
  | .serialization detail => s!"Serialization error: {detail}"
  | .notFound name => s!"Artifact not found: {name}"
  | .invalidName name => s!"Invalid artifact name: {name}"

def toDomain (e : ArtifactError) : DomainError :=
  match e with
  | .notFound name => .notFound "artifact" name
  | e => .storage e.message

end ArtifactError

/-! ## Records -/

/-- What is recorded of a written file. -/
structure Artifact where
  format : OutputFormat
  filename : String
  path : String
  size : UInt64
  checksum : String
deriving DecidableEq

namespace Artifact

def toJson (artifact : Artifact) : Json :=
  .object [("format", artifact.format.toJson), ("filename", .string artifact.filename),
    ("path", .string artifact.path), ("size_bytes", .nat artifact.size.toNat),
    ("checksum", .string artifact.checksum)]

def ofDraft? (v : Draft) : Option Artifact := do
  match ← v.slots? [["format"], ["filename"], ["path"], ["size_bytes"], ["checksum"]] with
  | [format, filename, path, size, checksum] =>
    return {
      format := ← format.required OutputFormat.ofDraft?
      filename := ← filename.required Draft.readString?
      path := ← path.required Draft.readString?
      size := ← size.required Draft.readWord64?
      checksum := ← checksum.required Draft.readString? }
  | _ => none

/-! ## Names -/

/-- Whether a text may name an artifact. -/
def validName (name : String) : Bool :=
  name != "" && name != "." && name != ".."
    && name.toList.all fun c => c != '/' && c != '\\' && c != '\x00'

def checkName (name : String) : Except ArtifactError Unit :=
  if validName name then .ok () else .error (.invalidName name)

end Artifact

end Bulletin
