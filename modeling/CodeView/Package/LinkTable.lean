import CodeView.Package.Load
import CodeView.Text.Lowercase

/-!
# Links of type names

A link table belongs to one framework of a package. Types of the package itself lead into the
package's own pages; other types lead to an external reference if their name starts in a certain
way; all else has no link.
-/

namespace CodeView.Package

open CodeView.Json

/-- The link table of a package for one framework. -/
structure LinkTable where
  packageId : String
  version : String
  targetFramework : String
  /-- The assembly that defines each type, by full name; of repeated names the last counts. -/
  types : List (String × String) := []
  externalBase : String := "https://docs.microsoft.com/en-us/dotnet/api/"
  /-- How the names of types with an external reference start. -/
  externalStarts : List String := ["System.", "Microsoft."]
  deriving DecidableEq, Repr

namespace LinkTable

/-- A table without types of its own. -/
def ofPackage (packageId version targetFramework : String) : LinkTable :=
  { packageId, version, targetFramework }

/-- Adds a type and the assembly that defines it. -/
def insert (t : LinkTable) (fullName assembly : String) : LinkTable :=
  { t with types := t.types ++ [(fullName, assembly)] }

/-- The table as fields of a file. -/
def fields : Fields LinkTable :=
  let usual := ofPackage "" "" ""
  .mk <$> .required "package_id" string
    <*> .required "version" string
    <*> .required "target_framework" string
    <*> .optional "types" (table string) usual.types
    <*> .optional "external_base" string usual.externalBase
    <*> .optional "external_prefixes" (list string) usual.externalStarts

/-- Reads a link table. -/
def decode : Decoder LinkTable :=
  fields.decode "struct FrameworkLinks"

/-- The words for a table that could not be loaded. -/
def wording : Wording :=
  ⟨"Failed to read link table ", "Failed to parse link table "⟩

/-- How the external reference spells a name: in lower case, a dash before the number of type
parameters. -/
def slug (fullName : String) : String :=
  (Text.lowercase fullName).map fun c => if c = '\x60' then '-' else c

/-- The link of a type. -/
def url? (t : LinkTable) (fullName : String) : Option String :=
  match lastOf fullName t.types with
  | some assembly =>
    some ("/packages/" ++ t.packageId ++ "/" ++ t.version ++ "/lib/" ++ t.targetFramework ++ "/" ++
      assembly ++ "/" ++ fullName)
  | none =>
    if t.externalStarts.any fun start => start.toList.isPrefixOf fullName.toList then
      some (t.externalBase ++ slug fullName)
    else none

end LinkTable

end CodeView.Package
