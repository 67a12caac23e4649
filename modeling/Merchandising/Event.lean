/-
  What the library reports while it works.

  * `Event` is something that happened, in the words of the domain;
  * `Event.log?` is the line it leaves in the log, `Event.measurement?` the measurement;
  * `summarize` adds up measurements: counters are totals, gauges have their last value, and of
    durations only the number is kept.
-/
import Merchandising.Keyed
import Merchandising.Schema.Mapping

namespace Merchandising

/-- A tier of the cache. -/
inductive Tier where
  | «local»
  | shared
  deriving DecidableEq, Repr

/-- What takes a while. -/
inductive Operation where
  | resolve
  | merge
  deriving DecidableEq, Repr

/-- Something that happened. -/
inductive Event where
  /-- A field was declared again. -/
  | fieldReplaced
  /-- A property was placed over something. -/
  | mapped (remark : Remark)
  /-- A schema of so many fields was compiled. -/
  | schemaCompiled (fields : Nat)
  /-- A stored query was found in a tier. -/
  | hit (tier : Tier)
  /-- A stored query was found that consulted an id on the path. -/
  | overlap (tier : Tier)
  /-- No stored query was found in a tier. -/
  | miss (tier : Tier)
  /-- A stored text was found that is no stored query. -/
  | undecodable
  /-- The local tier has so many entries. -/
  | localSize (entries : Nat)
  /-- A query was compiled that leaves out categories on the path. -/
  | notStored
  /-- A category is on the path already. -/
  | onPath
  /-- A category was compiled. -/
  | built
  /-- A virtual root is on the path already. -/
  | rootOnPath
  /-- A virtual root is the root of the store. -/
  | rootIsStoreRoot
  /-- A virtual root does not exist or is the root of the tree. -/
  | rootUnusable
  /-- Both tiers were emptied. -/
  | invalidated
  /-- An operation ended, well or not. -/
  | finished (operation : Operation)
  /-- The shared tier was asked for a text. -/
  | loaded (key : String) (found : Bool)
  /-- A text was given to the shared tier. -/
  | saved (key text : String) (tags : List String)
  /-- The shared tier was told to drop what has one of the tags. -/
  | dropped (tags : List String)
  deriving DecidableEq, Repr

/-- How much a line of the log matters. -/
inductive Level where
  | debug
  | info
  | warn
  deriving DecidableEq, Repr

/-- A metric with its labels, in the order of their names. -/
structure Metric where
  name : String
  labels : List (String × String)
  deriving DecidableEq, Repr

/-- A metric as text. -/
def Metric.text (m : Metric) : String :=
  m.name ++ "\x7b" ++ ",".intercalate (m.labels.map fun (k, v) => k ++ "=" ++ v) ++ "\x7d"

/-- One observation of a metric. -/
inductive Measurement where
  /-- A counter goes up by one. -/
  | count (metric : Metric)
  /-- A gauge shows a value. -/
  | gauge (metric : Metric) (value : Nat)
  /-- A duration was measured. -/
  | duration (metric : Metric)
  deriving DecidableEq, Repr

/-- The line of a remark. -/
def Remark.log : Remark → Level × String
  | valueShadowed => (.warn, "Value property shadowed by child fields")
  | containerPromoted => (.debug, "Promoting object node to nested")
  | valueDropped => (.warn, "Value field collides with a container node, keeping children")

/-- The name of a tier. -/
def Tier.name : Tier → String
  | «local» => "local"
  | shared => "shared"

/-- The name of an operation. -/
def Operation.name : Operation → String
  | resolve => "resolve"
  | merge => "merge"

namespace Event

/-- The line that an event leaves in the log. -/
def log? : Event → Option (Level × String)
  | fieldReplaced => some (.debug, "Field redeclared, replacing")
  | mapped remark => some remark.log
  | schemaCompiled _ => some (.info, "Schema compiled")
  | hit .local => some (.debug, "Local rule cache hit")
  | hit .shared => some (.debug, "Shared rule cache hit")
  | overlap .local => some (.debug, "Local rule cache entry overlaps the call path")
  | undecodable => some (.warn, "Undecodable shared cache entry, recompiling")
  | notStored => some (.debug, "Partial category query, not cached")
  | onPath => some (.debug, "Category already on the call path, short-circuiting")
  | built => some (.debug, "Built category query")
  | rootOnPath => some (.debug, "Virtual root already covered by the call path")
  | rootIsStoreRoot => some (.debug, "Virtual root is the store root, ignoring")
  | rootUnusable => some (.debug, "Virtual root missing or tree-level, ignoring")
  | invalidated => some (.debug, "Invalidated category queries")
  | overlap .shared | miss _ | localSize _ | finished _ | loaded .. | saved .. | dropped _ => none

/-- The counter of look-ups in a tier. -/
def lookups (tier : Tier) (result : String) : Metric :=
  ⟨"catalog_search_rule_cache_total", [("result", result), ("tier", tier.name)]⟩

/-- The gauge of entries in the local tier. -/
def localEntries : Metric := ⟨"catalog_search_local_cache_entries", []⟩

/-- The measurement that an event makes. -/
def measurement? : Event → Option Measurement
  | schemaCompiled fields => some (.gauge ⟨"catalog_search_schema_fields", []⟩ fields)
  | hit tier => some (.count (lookups tier "hit"))
  | overlap tier | miss tier => some (.count (lookups tier "miss"))
  | undecodable => some (.count ⟨"catalog_search_rule_cache_decode_errors_total", []⟩)
  | onPath => some (.count ⟨"catalog_search_cycle_short_circuits_total", []⟩)
  | localSize entries => some (.gauge localEntries entries)
  | invalidated => some (.gauge localEntries 0)
  | finished operation =>
    some (.duration ⟨"catalog_search_resolve_seconds", [("operation", operation.name)]⟩)
  | _ => none

end Event

/-- The lines that events leave in the log. -/
def logLines (events : List Event) : List (Level × String) :=
  events.filterMap Event.log?

/-- The metrics after one more measurement. -/
def record (totals : KeyedMap Nat) : Measurement → KeyedMap Nat
  | .count m | .duration m => totals.insert m.text ((totals.get? m.text).getD 0 + 1)
  | .gauge m value => totals.insert m.text value

/-- The metrics that events touch. -/
def summarize (events : List Event) : KeyedMap Nat :=
  (events.filterMap Event.measurement?).foldl record .empty

end Merchandising
