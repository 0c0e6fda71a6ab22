import ReadThrough.Json.Reader
/-!
# How a cache and its loaders are set up
-/

namespace ReadThrough

open Json

/-- The set-up of a cache and of the loaders that fill it. All times are in milliseconds. -/
structure CacheConfig where
  /-- Whether rows are kept at all; loads are put into batches either way. -/
  enabled : Bool := true
  /-- How long a row is kept. -/
  ttl : UInt64 := 30000
  /-- How long a batch stays open. -/
  batchDelay : UInt64 := 20
  /-- How many keys close a batch at once. -/
  maxBatchSize : UInt64 := 100
  /-- How long a batch waits for the store. -/
  fetchTimeout : Option UInt64 := none
  deriving DecidableEq, Repr, Inhabited

namespace CacheConfig

/-- The number of keys that fill a batch; zero counts as one. -/
def threshold (c : CacheConfig) : Nat := max 1 c.maxBatchSize.toNat

/-- The fields in their order. -/
def fields : List (Field Empty CacheConfig) :=
  [.opt "enabled" (single Token.bool?) fun c v => { c with enabled := v },
   .opt "ttl_ms" (single Token.uint64?) fun c v => { c with ttl := v },
   .opt "batch_delay_ms" (single Token.uint64?) fun c v => { c with batchDelay := v },
   .opt "max_batch_size" (single Token.uint64?) fun c v => { c with maxBatchSize := v },
   .opt "fetch_timeout_ms" (nullable (single Token.uint64?)) fun c v =>
     { c with fetchTimeout := v }]

/-- The set-up of a JSON text; fields that are left out keep their defaults. -/
def ofJson? (s : String) : Option CacheConfig := (decode (record fields {}) s).toOption

end CacheConfig

end ReadThrough
