import ReadThrough.Settings.Basic
import ReadThrough.Settings.Json
import ReadThrough.Settings.Toml
/-!
# Loading settings

Settings come from files and from the environment. The later sources are laid over the earlier ones:
the general file, the local file, a file that was asked for, and the environment at last. The tree that
results is read section by section before anything is checked.
-/

namespace ReadThrough

/-- The formats of settings files. -/
inductive FileFormat where
  | json
  | toml
  deriving DecidableEq, Repr, Inhabited

/-- A file with settings. -/
structure SettingsFile where
  format : FileFormat
  text : String
  deriving DecidableEq, Repr, Inhabited

/-- The table that a file holds. A byte order mark in front is passed over. -/
def SettingsFile.table? (f : SettingsFile) : Option SettingTable :=
  let text := String.ofList (dropMark f.text.toList)
  match f.format with
  | .toml => Setting.Toml.table? text
  | .json => match Setting.ofJson? text with
    | some (.table t) => some t
    | _ => none

/-! ## The environment -/

/-- What the names of the service's variables begin with, in lower case. -/
def variableStart : List Char := "entity_loader__".toList

/-- A variable's name with a point for each pair of low lines. -/
def pointed : List Char → List Char
  | '_' :: '_' :: cs => '.' :: pointed cs
  | c :: cs => c :: pointed cs
  | [] => []

/-- The setting that a variable stands for, if it is one of the service's. -/
def ofVariable? (name value : String) : Option (String × Setting) :=
  let name := name.toLower.toList
  if variableStart.isPrefixOf name then
    some (String.ofList (pointed (name.drop variableStart.length)), .text value)
  else none

/-! ## Reading the tree -/

/-- A named part of a section, and how its value is taken into what has been read so far. -/
structure SettingField (σ : Type) where
  name : String
  read : σ → Setting → Option σ

/-- A plain value; `null` stands for none. -/
def SettingField.plain {σ α : Type} (name : String) (read : Setting → Option α)
    (set : σ → Option α → σ) : SettingField σ where
  name := name
  read acc
    | .null => some (set acc none)
    | v => (read v).map fun a => set acc (some a)

/-- A section: a table of its fields, or a list of them in their order. Names that are not known and
items beyond the last field are ignored. -/
def readSection {σ : Type} (fields : List (SettingField σ)) (acc : σ) : Setting → Option σ
  | .table t => fields.foldlM (fun acc f => match t.lookup f.name with
      | some v => f.read acc v
      | none => some acc) acc
  | .list l => (fields.zip l).foldlM (fun acc (p : SettingField σ × Setting) => p.1.read acc p.2) acc
  | _ => none

namespace SuppliedSettings

/-- The sections and their fields. -/
def sections : List (SettingField SuppliedSettings) :=
  let part (name : String) (fields : List (SettingField SuppliedSettings)) :
      SettingField SuppliedSettings := { name, read := readSection fields }
  [part "logging"
    [.plain "level" Setting.toText? fun s v => { s with level := v },
     .plain "json" Setting.toBool? fun s v => { s with json := v }],
   part "database"
    [.plain "url" Setting.toText? fun s v => { s with url := v },
     .plain "max_connections" Setting.toUInt32? fun s v => { s with maxConnections := v }],
   part "cache"
    [.plain "enabled" Setting.toBool? fun s v => { s with enabled := v },
     .plain "ttl_ms" Setting.toUInt64? fun s v => { s with ttl := v },
     .plain "batch_delay_ms" Setting.toUInt64? fun s v => { s with batchDelay := v },
     .plain "max_batch_size" Setting.toUInt64? fun s v => { s with maxBatchSize := v },
     .plain "fetch_timeout_ms" Setting.toUInt64? fun s v => { s with fetchTimeout := v }],
   part "invalidation"
    [.plain "channel" Setting.toText? fun s v => { s with channel := v }],
   part "query"
    [.plain "max_page_size" Setting.toUInt64? fun s v => { s with maxPageSize := v },
     .plain "default_page_size" Setting.toUInt64? fun s v => { s with defaultPageSize := v },
     .plain "default_first" Setting.toUInt64? fun s v => { s with defaultFirst := v },
     .plain "max_first" Setting.toUInt64? fun s v => { s with maxFirst := v }]]

/-- What a tree of settings supplies. -/
def ofSetting? (root : Setting) : Option SuppliedSettings := readSection sections {} root

end SuppliedSettings

/-- Where settings come from. -/
structure SettingsSources where
  general : Option SettingsFile := none
  nearby : Option SettingsFile := none
  /-- A file that was asked for; it has to be there. -/
  chosen : Option (Option SettingsFile) := none
  environment : List (String × String) := []
  deriving Repr, Inhabited

namespace SettingsSources

/-- The files in their order, and none for a file that has to be there and is not. -/
def files? (s : SettingsSources) : Option (List SettingsFile) := do
  let chosen ← match s.chosen with
    | none => some []
    | some file => file.map ([·])
  return s.general.toList ++ s.nearby.toList ++ chosen

/-- The tree that all sources make together. -/
def tree? (s : SettingsSources) : Option Setting := do
  let files ← s.files?
  let tables ← files.mapM (·.table?)
  let env := s.environment.filterMap fun (name, value) => ofVariable? name value
  return (tables ++ [env]).foldl Setting.overlay (.table [])

/-- The settings that the sources make. -/
def load (s : SettingsSources) : Except SettingsError Settings :=
  match s.tree?.bind SuppliedSettings.ofSetting? with
  | some supplied => supplied.check
  | none => .error .build

end SettingsSources

end ReadThrough
