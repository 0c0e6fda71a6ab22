/-!
# Metrics

The quantities that are counted and sampled while rows are loaded and invalidated, each by segment.
-/

namespace ReadThrough

/-- A quantity that is counted or sampled. -/
inductive Metric where
  | hits
  | misses
  | batchSize
  | fetchTime
  | published
  | publishFailed
  | received
  deriving DecidableEq, Repr, Inhabited

/-- Whether a quantity only grows or has a distribution. -/
inductive MetricKind where
  | counter
  | histogram
  deriving DecidableEq, Repr

namespace Metric

/-- All metrics, in the order in which they are described. -/
def all : List Metric :=
  [.hits, .misses, .batchSize, .fetchTime, .published, .publishFailed, .received]

/-- The name under which a metric is reported. -/
def name : Metric → String
  | .hits => "entity_loader_cache_hit_total"
  | .misses => "entity_loader_cache_miss_total"
  | .batchSize => "entity_loader_batch_size"
  | .fetchTime => "entity_loader_fetch_ms"
  | .published => "entity_loader_invalidation_published_total"
  | .publishFailed => "entity_loader_invalidation_publish_failed_total"
  | .received => "entity_loader_invalidation_received_total"

/-- The kind of a metric. -/
def kind : Metric → MetricKind
  | .batchSize | .fetchTime => .histogram
  | _ => .counter

/-- The unit of a metric. -/
def unit : Metric → String
  | .fetchTime => "milliseconds"
  | _ => "count"

/-- What a metric tells. -/
def description : Metric → String
  | .hits => "Total number of loader requests served from the TTL cache."
  | .misses => "Total number of loader requests that joined a batch."
  | .batchSize => "Distinct keys per bulk fetch."
  | .fetchTime => "Bulk fetch latency in milliseconds."
  | .published => "Total number of invalidation messages published to peers."
  | .publishFailed => "Total number of invalidation messages that could not be published."
  | .received => "Total number of remote invalidation messages applied."

end Metric

end ReadThrough
