import CodeView.Interface.Rule
import CodeView.Layout.Options
import CodeView.Package.Load

/-!
# Settings

How code is laid out, and which attributes are noise. Everything in a settings file may be absent.
-/

namespace CodeView.Package

open CodeView.Json

/-- The settings of a render. -/
structure Settings where
  layout : Layout.Options := .usual
  noise : List String := Interface.usualNoise
  deriving DecidableEq, Repr, Inhabited

namespace Settings

/-- The usual settings. -/
def usual : Settings := {}

/-- The settings as fields of a file. -/
def fields : Fields Settings :=
  .mk <$> .optional "formatting" Layout.Options.decode usual.layout
    <*> .optional "noise_attributes" (list string) usual.noise

/-- Reads settings. -/
def decode : Decoder Settings :=
  fields.decode "struct RenderConfig"

/-- The words for settings that could not be loaded. -/
def wording : Wording :=
  ⟨"failed to read config ", "invalid config "⟩

/-- The policy of the interface view of a type with a simple name. -/
def policy (s : Settings) (target : String) : Interface.Policy :=
  { target, noise := s.noise }

end Settings

end CodeView.Package
