import Bulletin.Fault
import Bulletin.Text.Blank
import Bulletin.Json.Decode

/-!
# Data sources

A source says where rows come from: a relational database, a stored dataset, or an external
interface over HTTP. A kind outside these three is kept as it was written, so that a definition
with such a source can be stored and refused when it is run.

`validate` names the setting that a kind needs; `Query` asks for the same setting again when the
source is queried.
-/

namespace Bulletin

/-! ## Kinds -/

inductive SourceKind where
  | relational
  | dataset
  | externalApi
  /-- any other kind, as written -/
  | unsupported (name : String)
deriving DecidableEq

namespace SourceKind

def tag : SourceKind → String
  | .relational => "relational"
  | .dataset => "dataset"
  | .externalApi => "external_api"
  | .unsupported name => name

/-- Reads a tag or one of its other names, in any ASCII case. -/
def ofTag (tag : String) : SourceKind :=
  match Text.lower tag with
  | "relational" | "database" | "sql" => .relational
  | "dataset" | "data_set" => .dataset
  | "external_api" | "api" => .externalApi
  | _ => .unsupported tag

/-- Whether the kind is one of the three that can be queried. -/
def known : SourceKind → Bool
  | .unsupported _ => false
  | _ => true

def toJson (kind : SourceKind) : Json := .string kind.tag

def ofDraft? (v : Draft) : Option SourceKind := v.readString?.map ofTag

end SourceKind

/-! ## Sources -/

/-- A declared data source. -/
structure Source where
  name : String
  kind : SourceKind
  config : Fields Json
deriving DecidableEq

namespace Source

def toJson (source : Source) : Json :=
  .object [("name", .string source.name), ("type", source.kind.toJson),
    ("config", Json.ofFields source.config)]

def ofDraft? (v : Draft) : Option Source := do
  match ← v.slots? [["name"], ["type"], ["config"]] with
  | [name, kind, config] =>
    return {
      name := ← name.required Draft.readString?
      kind := ← kind.required SourceKind.ofDraft?
      config := ← config.orElse ∅ (Draft.readFields? Draft.readAny?) }
  | _ => none

/-- A source without settings. -/
def plain (name : String) (kind : SourceKind) : Source := ⟨name, kind, ∅⟩

def withSetting (source : Source) (key : String) (v : Json) : Source :=
  { source with config := source.config.insert key v }

def relational (name query : String) : Source :=
  (plain name .relational).withSetting "query" (.string query)

def dataset (name id : String) : Source :=
  (plain name .dataset).withSetting "dataset_id" (.string id)

def externalApi (name url : String) : Source :=
  (plain name .externalApi).withSetting "url" (.string url)

/-- A source of a tagged kind with the one setting that the kind needs; a kind without one gets
none. -/
def make (tag name argument : String) : Source :=
  match tag with
  | "relational" => relational name argument
  | "dataset" => dataset name argument
  | "external_api" => externalApi name argument
  | tag => plain name (.ofTag tag)

/-- A setting that is a string and not blank. -/
def setting? (source : Source) (key : String) : Option String :=
  match source.config.get? key with
  | some (.string s) => if Text.blank s then none else some s
  | _ => none

/-- The setting that the source needs, given the query text of its owner. A query text that is not
blank stands in for the one of a relational source. -/
def requiredSetting (source : Source) (query : Option String) : Option String :=
  match source.kind with
  | .relational => if query.any fun q => !Text.blank q then none else some "query"
  | .dataset => some "dataset_id"
  | .externalApi => some "url"
  | .unsupported _ => none

/-- Checks the name and the needed setting. -/
def validate (source : Source) (query : Option String) : Except DomainError Unit :=
  if Text.blank source.name then
    .error (.validation "data_source.name" "must not be empty")
  else
    match source.requiredSetting query with
    | none => .ok ()
    | some field =>
      if (source.setting? field).isSome then .ok ()
      else
        .error (.validation ("data_source." ++ source.name ++ "." ++ field)
          ("required for " ++ source.kind.tag ++ " sources"))

end Source

end Bulletin
