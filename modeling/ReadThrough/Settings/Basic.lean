import ReadThrough.Cache.Config
import ReadThrough.Paging.Limits
import ReadThrough.Settings.Error
import ReadThrough.Settings.Value
import ReadThrough.Text.Blank
/-!
# Settings

The settings of a service, as they are supplied and as they are used. Everything may be left out. What
is supplied is checked in a fixed order, and the first fault is reported; what is left out takes its
default, and the defaults take part in the checks that compare two settings.
-/

namespace ReadThrough

/-- How much is logged. -/
inductive LogLevel where
  | off
  | error
  | warn
  | info
  | debug
  | trace
  deriving DecidableEq, Repr, Inhabited

namespace LogLevel

/-- The levels, from the quietest on. -/
def all : List LogLevel := [.off, .error, .warn, .info, .debug, .trace]

/-- The name of a level. -/
def name : LogLevel → String
  | .off => "off"
  | .error => "error"
  | .warn => "warn"
  | .info => "info"
  | .debug => "debug"
  | .trace => "trace"

/-- The level of a text: its name in letters of any case or its number. The empty text asks for
errors. -/
def ofString? (s : String) : Option LogLevel :=
  match Setting.natural? UInt64.size s with
  | some n => all[n]?
  | none => if s = "" then some .error else all.find? (·.name = s.toLower)

end LogLevel

/-- How the log is written. -/
inductive LogFormat where
  | json
  | compact
  deriving DecidableEq, Repr, Inhabited

/-- The name of a format. -/
def LogFormat.name : LogFormat → String
  | .json => "json"
  | .compact => "compact"

/-- The settings that a service runs with. -/
structure Settings where
  logLevel : LogLevel := .info
  logFormat : LogFormat := .compact
  databaseUrl : Option String := none
  maxConnections : UInt32 := 8
  cache : CacheConfig := {}
  /-- The channel on which invalidations are published. -/
  channel : String := "cache-invalidation"
  limits : Limits := {}
  deriving DecidableEq, Repr, Inhabited

/-- The settings as they are supplied. -/
structure SuppliedSettings where
  level : Option String := none
  json : Option Bool := none
  url : Option String := none
  maxConnections : Option UInt32 := none
  enabled : Option Bool := none
  ttl : Option UInt64 := none
  batchDelay : Option UInt64 := none
  maxBatchSize : Option UInt64 := none
  fetchTimeout : Option UInt64 := none
  channel : Option String := none
  maxPageSize : Option UInt64 := none
  defaultPageSize : Option UInt64 := none
  maxFirst : Option UInt64 := none
  defaultFirst : Option UInt64 := none
  deriving DecidableEq, Repr, Inhabited

namespace SuppliedSettings

/-- A number that must not be zero, or its default. -/
def positive (setting : CheckedSetting) (default : UInt64) :
    Option UInt64 → Except SettingsError UInt64
  | none => .ok default
  | some n => if n = 0 then .error (.invalid setting .notPositive) else .ok n

/-- A number that must not be zero and fit a word of 32 bits, or its default. -/
def positiveWord (setting : CheckedSetting) (default : UInt32) :
    Option UInt64 → Except SettingsError UInt32
  | none => .ok default
  | some n =>
    if n = 0 then .error (.invalid setting .notPositive)
    else if n.toNat < UInt32.size then .ok n.toUInt32
    else .error (.invalid setting .beyondWord)

/-- Refuses a number above a bound. -/
def atMost (setting bound : CheckedSetting) (n max : UInt32) : Except SettingsError Unit :=
  if n ≤ max then .ok () else .error (.invalid setting (.above bound max.toNat))

/-- The level, or its default. -/
def checkLevel (s : SuppliedSettings) : Except SettingsError LogLevel :=
  match s.level with
  | none => .ok .info
  | some text => match LogLevel.ofString? text with
    | some level => .ok level
    | none => .error (.invalid .level .unknownLevel)

/-- The channel without blanks around it, or its default. -/
def checkChannel (s : SuppliedSettings) : Except SettingsError String :=
  match s.channel with
  | none => .ok "cache-invalidation"
  | some text =>
    let channel := trim text
    if channel = "" then .error (.invalid .channel .blank) else .ok channel

/-- The set-up of the cache. -/
def checkCache (s : SuppliedSettings) : Except SettingsError CacheConfig := do
  let base : CacheConfig := {}
  let ttl ← positive .ttl base.ttl s.ttl
  let maxBatchSize ← positive .maxBatchSize base.maxBatchSize s.maxBatchSize
  let fetchTimeout ← match s.fetchTimeout with
    | none => .ok none
    | some n => (positive .fetchTimeout n (some n)).map some
  return {
    enabled := s.enabled.getD base.enabled
    ttl
    batchDelay := s.batchDelay.getD base.batchDelay
    maxBatchSize
    fetchTimeout }

/-- The limits of a page. -/
def checkLimits (s : SuppliedSettings) : Except SettingsError Limits := do
  let base : Limits := {}
  let maxPageSize ← positiveWord .maxPageSize base.maxPageSize s.maxPageSize
  let defaultPageSize ← positiveWord .defaultPageSize base.defaultPageSize s.defaultPageSize
  let maxFirst ← positiveWord .maxFirst base.maxFirst s.maxFirst
  let defaultFirst ← positiveWord .defaultFirst base.defaultFirst s.defaultFirst
  atMost .defaultPageSize .maxPageSize defaultPageSize maxPageSize
  atMost .defaultFirst .maxFirst defaultFirst maxFirst
  return { maxPageSize, defaultPageSize, defaultFirst, maxFirst }

/-- The settings that a service runs with, or the first fault. -/
def check (s : SuppliedSettings) : Except SettingsError Settings := do
  let logLevel ← s.checkLevel
  let url := (s.url.map trim).filter (· ≠ "")
  let maxConnections ←
    positiveWord .maxConnections 8 (s.maxConnections.map UInt32.toUInt64)
  let cache ← s.checkCache
  let channel ← s.checkChannel
  let limits ← s.checkLimits
  return {
    logLevel
    logFormat := if s.json = some true then .json else .compact
    databaseUrl := url
    maxConnections, cache, channel, limits }

end SuppliedSettings

end ReadThrough
