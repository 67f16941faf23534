import JsonShape.Catalog.Loading
import JsonShape.Settings.Document

/-!
# Settings out of files
-/

namespace JsonShape.Settings

/-- The settings in the file at a path. -/
def ofFile (files : Files) (path : String) : Except LoadError Settings :=
  match files path with
  | .error e => .error (.file e)
  | .ok (.directory _) => .error .yaml
  | .ok (.file bytes) =>
    match ofYamlText? (Symbol.ofBytes bytes) with
    | some settings => .ok settings
    | none => .error .yaml

end JsonShape.Settings
