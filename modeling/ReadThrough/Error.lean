import ReadThrough.Invalidation.Bus
import ReadThrough.Settings.Error
import ReadThrough.Sql.Error
/-!
# What can go wrong around a service
-/

namespace ReadThrough

/-- Why a service cannot be set up or go on. -/
inductive ServiceError where
  | io (detail : String)
  | database (detail : String)
  | telemetry (detail : String)
  | settings (error : SettingsError)
  | bus (error : BusError)
  deriving DecidableEq, Repr

namespace ServiceError

/-- The text of an error. -/
def message : ServiceError → String
  | .io detail => s!"io error: {detail}"
  | .database detail => s!"database error: {detail}"
  | .telemetry detail => s!"telemetry initialization failed: {detail}"
  | .settings error => s!"configuration error: {error.message}"
  | .bus error => s!"invalidation bus error: {error.message}"

/-- The error of a database call, for the service as a whole. -/
def ofSql (e : SqlError) : ServiceError := .database e.message

end ServiceError

end ReadThrough
