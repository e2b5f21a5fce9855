import EagerLoad.Output
import EagerLoad.Time.Duration

/-! # Configuration

The settings that hold for all queries, their JSON form and their reading from environment
variables. A query may override most of them. -/
namespace EagerLoad

inductive SplitFailure where
  | skip
  | fail
deriving DecidableEq, Repr

namespace SplitFailure

def name : SplitFailure → String
  | skip => "skip"
  | fail => "fail"

def ofName? : String → Option SplitFailure
  | "skip" => some skip
  | "fail" => some fail
  | _ => none

end SplitFailure

structure Config where
  safeMode : Bool := true
  /-- The most relations of one statement; zero means any number. -/
  maxRelations : Nat := 0
  complexityThreshold : Nat := 8
  debug : Bool := false
  logQueries : Bool := false
  cacheEnabled : Bool := true
  cacheTtl : Option Duration := none
  cacheNamespace : String := "optimized_queries"
  format : OutputFormat := .array
  timeout : Option Duration := none
  splitFailure : SplitFailure := .skip
  maxLimit : Option Nat := none
deriving DecidableEq, Repr

namespace Config

def fault? (c : Config) : Option String :=
  if c.complexityThreshold = 0 then some "Complexity warning threshold must be greater than 0"
  else if Text.isBlankText c.cacheNamespace then some "Cache prefix cannot be empty"
  else if c.cacheTtl.any Duration.isZero then some "Default cache TTL must be greater than 0"
  else if c.timeout.any (fun t => t.millis = 0) then some "Statement timeout must be at least 1ms"
  else if c.maxLimit = some 0 then some "Max limit must be greater than 0"
  else none

def validate (c : Config) : Except ConfigError Unit :=
  match c.fault? with
  | some fault => .error (.validationFailed fault)
  | none => .ok ()

end Config

namespace Duration

def toJson (d : Duration) : Json := .obj [("secs", .ofNat d.secs), ("nanos", .ofNat d.nanos)]

/-- Reads seconds and nanoseconds; no other field may stand beside them. -/
def ofJson? (j : Json) : Option Duration := do
  if let .obj fields := j then
    if fields.any fun f => f.1 ≠ "secs" ∧ f.1 ≠ "nanos" then none
  match ← Json.record? ["secs", "nanos"] j with
  | [secs, nanos] =>
    let secs ← Json.required? Json.word? secs
    let nanos ← Json.required? (Json.nat? Bounds.unsigned32) nanos
    carry? secs nanos
  | _ => none

end Duration

namespace Config

def fieldNames : List String :=
  ["safe_mode", "max_relations_per_query", "complexity_warning_threshold", "debug", "log_queries",
    "cache_enabled", "default_cache_ttl", "cache_prefix", "default_format", "statement_timeout",
    "split_failure_policy", "max_limit"]

def toJson (c : Config) : Json :=
  .obj (fieldNames.zip
    [.bool c.safeMode, .ofNat c.maxRelations, .ofNat c.complexityThreshold, .bool c.debug,
      .bool c.logQueries, .bool c.cacheEnabled, Json.ofOption Duration.toJson c.cacheTtl,
      .str c.cacheNamespace, .str c.format.name, Json.ofOption Duration.toJson c.timeout,
      .str c.splitFailure.name, Json.ofOption Json.ofNat c.maxLimit])

def setField (c : Config) (field : String) (j : Json) : Option Config :=
  match field with
  | "safe_mode" => j.bool?.map fun safeMode => { c with safeMode }
  | "max_relations_per_query" => j.word?.map fun maxRelations => { c with maxRelations }
  | "complexity_warning_threshold" =>
    j.word?.map fun complexityThreshold => { c with complexityThreshold }
  | "debug" => j.bool?.map fun debug => { c with debug }
  | "log_queries" => j.bool?.map fun logQueries => { c with logQueries }
  | "cache_enabled" => j.bool?.map fun cacheEnabled => { c with cacheEnabled }
  | "default_cache_ttl" => (j.nullable? Duration.ofJson?).map fun cacheTtl => { c with cacheTtl }
  | "cache_prefix" => j.string?.map fun cacheNamespace => { c with cacheNamespace }
  | "default_format" => (j.unit?.bind OutputFormat.ofName?).map fun format => { c with format }
  | "statement_timeout" => (j.nullable? Duration.ofJson?).map fun timeout => { c with timeout }
  | "split_failure_policy" =>
    (j.unit?.bind SplitFailure.ofName?).map fun splitFailure => { c with splitFailure }
  | "max_limit" => (j.nullable? Json.word?).map fun maxLimit => { c with maxLimit }
  | _ => some c

/-- Reads a configuration; absent fields keep their defaults and unknown ones are ignored. -/
def ofJson? : Json → Option Config
  | .obj fields => fields.foldlM (fun c f => c.setField f.1 f.2) {}
  | .arr items =>
    if items.length ≤ fieldNames.length then
      (fieldNames.zip items).foldlM (fun c f => c.setField f.1 f.2) {}
    else none
  | _ => none

private def setting (env : List (String × String)) (name expected : String)
    (read : String → Option α) (initial : α) : Except ConfigError α :=
  match env.lookup name with
  | none => .ok initial
  | some value => match read (Text.trim value) with
    | some a => .ok a
    | none => .error (.invalidValue name value expected)

private def boolean? : String → Option Bool
  | "true" => some true
  | "false" => some false
  | _ => none

private def word? (s : String) : Option Nat := Text.natural? Bounds.unsigned64 s

private def formatOf (env : List (String × String)) : Except ConfigError OutputFormat :=
  match env.lookup "OPTIMIZED_QUERIES_FORMAT" with
  | none => .ok .array
  | some value => match OutputFormat.parse value with
    | .ok format => .ok format
    | .error _ => .error (.invalidValue "default_format" value "array, object or entity")

private def splitFailureOf (env : List (String × String)) : Except ConfigError SplitFailure :=
  match env.lookup "OPTIMIZED_QUERIES_SPLIT_FAILURE" with
  | none => .ok .skip
  | some value => match SplitFailure.ofName? value with
    | some policy => .ok policy
    | none => .error (.invalidValue "split_failure_policy" value "skip or fail")

/-- Reads the variables in turn; the first that cannot be read is the error. -/
def ofEnvironment (env : List (String × String)) : Except ConfigError Config := do
  let truth := "true or false"
  let safeMode ← setting env "OPTIMIZED_QUERIES_SAFE_MODE" truth boolean? true
  let maxRelations ← setting env "OPTIMIZED_QUERIES_MAX_RELATIONS_PER_QUERY"
    "a non-negative integer" word? 0
  let complexityThreshold ← setting env "OPTIMIZED_QUERIES_COMPLEXITY_THRESHOLD"
    "a positive integer" word? 8
  let debug ← setting env "OPTIMIZED_QUERIES_DEBUG" truth boolean? false
  let logQueries ← setting env "OPTIMIZED_QUERIES_LOG_QUERIES" truth boolean? false
  let cacheEnabled ← setting env "OPTIMIZED_QUERIES_CACHE_ENABLED" truth boolean? true
  let cacheTtl ← setting env "OPTIMIZED_QUERIES_CACHE_TTL" "a number of seconds"
    (fun s => (word? s).map fun n => some (Duration.ofSecs n)) none
  let cacheNamespace := (env.lookup "OPTIMIZED_QUERIES_CACHE_PREFIX").getD "optimized_queries"
  let format ← formatOf env
  let timeout ← setting env "OPTIMIZED_QUERIES_TIMEOUT_MS" "a number of milliseconds"
    (fun s => (word? s).map fun n => some (Duration.ofMillis n)) none
  let splitFailure ← splitFailureOf env
  let maxLimit ← setting env "OPTIMIZED_QUERIES_MAX_LIMIT" "a positive integer"
    (fun s => (word? s).map some) none
  let c : Config :=
    { safeMode, maxRelations, complexityThreshold, debug, logQueries, cacheEnabled, cacheTtl,
      cacheNamespace, format, timeout, splitFailure, maxLimit }
  c.validate
  return c

end Config
end EagerLoad
