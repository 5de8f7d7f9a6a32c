import Bulletin.Action.Basic
import Bulletin.Checksum.Blake3
import Bulletin.Document.Encode

/-!
# Writing the files of a result

Every format of a list is written in order. A format that is not known is passed over; the first
file that cannot be stored ends the writing.
-/

namespace Bulletin.Document

/-- The bytes of a text. -/
def bytes (text : List Char) : ByteArray := (String.ofList text).toUTF8

/-- Writes one file, and records it. -/
def render (rows : List Record) (charts : Fields Chart) (execution : ExecutionId)
    (format : OutputFormat) : Action ArtifactError (Option Artifact) :=
  match filename? execution format, encode? rows charts format execution with
  | some filename, some text => do
    let content := bytes text
    match ← Action.request (.putArtifact filename content) with
    | .error e => .fail e
    | .ok path =>
      return some {
        format
        filename
        path
        size := UInt64.ofNat content.size
        checksum := Blake3.hash content }
  | _, _ => pure none

/-- Writes a file for every known format. -/
def renderAll (rows : List Record) (charts : Fields Chart) (execution : ExecutionId) :
    List OutputFormat → Action ArtifactError (List Artifact)
  | [] => pure []
  | format :: rest => do
    let artifact ← render rows charts execution format
    let artifacts ← renderAll rows charts execution rest
    return artifact.toList ++ artifacts

end Bulletin.Document
