/-!
# What can go wrong with settings
-/

namespace ReadThrough

/-- A setting that is checked. -/
inductive CheckedSetting where
  | level
  | maxConnections
  | ttl
  | maxBatchSize
  | fetchTimeout
  | channel
  | maxPageSize
  | defaultPageSize
  | maxFirst
  | defaultFirst
  deriving DecidableEq, Repr, Inhabited

/-- The full name of a setting. -/
def CheckedSetting.name : CheckedSetting → String
  | .level => "logging.level"
  | .maxConnections => "database.max_connections"
  | .ttl => "cache.ttl_ms"
  | .maxBatchSize => "cache.max_batch_size"
  | .fetchTimeout => "cache.fetch_timeout_ms"
  | .channel => "invalidation.channel"
  | .maxPageSize => "query.max_page_size"
  | .defaultPageSize => "query.default_page_size"
  | .maxFirst => "query.max_first"
  | .defaultFirst => "query.default_first"

/-- What is wrong with a setting. -/
inductive SettingFault where
  | unknownLevel
  | notPositive
  | beyondWord
  | blank
  | above (bound : CheckedSetting) (value : Nat)
  deriving DecidableEq, Repr

/-- The text of a fault. -/
def SettingFault.message : SettingFault → String
  | .unknownLevel =>
    "failed to parse: error parsing level filter: expected one of \"off\", \"error\", \"warn\", " ++
    "\"info\", \"debug\", \"trace\", or a number 0-5"
  | .notPositive => "must be greater than zero"
  | .beyondWord => "value exceeds supported range for u32"
  | .blank => "must not be empty"
  | .above bound value => s!"must not exceed {bound.name} ({value})"

/-- Why there are no settings: the sources cannot be read as settings, or a setting is refused. -/
inductive SettingsError where
  | build
  | invalid (setting : CheckedSetting) (fault : SettingFault)
  deriving DecidableEq, Repr

/-- The text of an error. -/
def SettingsError.message : SettingsError → String
  | .build => "failed to build configuration"
  | .invalid setting fault =>
    s!"invalid configuration for `{setting.name}`: {fault.message}"

end ReadThrough
