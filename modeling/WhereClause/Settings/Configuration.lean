import WhereClause.Filter.Compile
import WhereClause.Settings.Basic

/-!
# From settings to a configuration

Settings are only text and numbers. `Settings.configuration` checks them and makes the configuration
that queries are compiled with.

* `configuration_initial`  the settings that a directory begins with make the default configuration.
-/

set_option autoImplicit false

namespace WhereClause.Settings

open WhereClause.Calendar WhereClause.Filter WhereClause.Text

/-- why settings make no configuration -/
inductive Refusal where
  | unsupportedVersion (found : UInt32)
  | noDepth
  | timeZone (e : ZoneError)
  deriving DecidableEq

def Refusal.message : Refusal → String
  | .unsupportedVersion found =>
    "unsupported configuration version " ++ String.ofList (decimal found.toNat) ++ ", expected " ++
      String.ofList (decimal currentVersion.toNat)
  | .noDepth => "maxDepth must be at least 1"
  | .timeZone e => "invalid time zone: " ++ e.message

/-- the configuration of settings: the version is checked first, the time zone last -/
def configuration (s : Settings) : Except Refusal Configuration :=
  if s.version ≠ currentVersion then .error (.unsupportedVersion s.version)
  else if s.maxDepth = 0 then .error .noDepth
  else do
    let zone ← (Zone.read s.timeZone).mapError .timeZone
    .ok { options := { dialect := s.dialect, zone }, maxDepth := s.maxDepth.toNat }

theorem configuration_initial : initial.configuration = .ok {} := rfl

end WhereClause.Settings
