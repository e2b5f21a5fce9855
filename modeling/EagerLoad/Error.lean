import EagerLoad.Sql.Identifier

/-! # Errors

Errors are grouped by the stage that raises them: a plan that cannot be compiled, a statement that
the database refuses, a cache that does not answer, a setting that makes no sense. -/
namespace EagerLoad

/-- A plan cannot be turned into statements. -/
inductive CompileError where
  | unknownRelation (entity relation : String)
  | unknownEntity (type : String)
  | malformedNestedPath (path : String)
  | invalidIdentifier (fault : IdentifierFault)
  | emptyAggregateColumn (relation : String)
  | bindingMismatch (placeholders bindings : Nat)
deriving DecidableEq, Repr

def CompileError.message : CompileError → String
  | unknownRelation entity relation =>
    "Relation '" ++ relation ++ "' is not defined on '" ++ entity ++ "'"
  | unknownEntity type => "Entity '" ++ type ++ "' is not registered"
  | malformedNestedPath path => "Malformed nested relation path '" ++ path ++ "'"
  | invalidIdentifier fault => "Invalid identifier: " ++ fault.message
  | emptyAggregateColumn relation =>
    "Invalid aggregate on relation '" ++ relation ++ "': aggregate column cannot be empty"
  | bindingMismatch placeholders bindings =>
    "Raw SQL has " ++ toString placeholders ++ " placeholders but " ++ toString bindings ++
      " bindings"

/-- The database refused or aborted a statement. -/
inductive ExecutionError where
  | database (detail : String)
  | timeout (detail : String)
  | connection (detail : String)
deriving DecidableEq, Repr

def ExecutionError.message : ExecutionError → String
  | database detail => "Database error: " ++ detail
  | timeout detail => "Statement timed out: " ++ detail
  | connection detail => "Connection error: " ++ detail

inductive CacheError where
  | serialization (detail : String)
  | backend (detail : String)
deriving DecidableEq, Repr

def CacheError.message : CacheError → String
  | serialization detail => "Serialization error: " ++ detail
  | backend detail => "Backend error: " ++ detail

inductive ConfigError where
  | invalidValue (field value expected : String)
  | validationFailed (detail : String)
deriving DecidableEq, Repr

def ConfigError.message : ConfigError → String
  | invalidValue field value expected =>
    "Invalid value '" ++ value ++ "' for " ++ field ++ ": expected " ++ expected
  | validationFailed detail => "Validation failed: " ++ detail

/-- A decoded result does not have what it was asked for. -/
inductive DecodeError where
  | hydration
  | relationNotLoaded (relation : String)
  | fieldType (field : String)
deriving DecidableEq, Repr

def DecodeError.message : DecodeError → String
  | hydration => "Failed to hydrate entity"
  | relationNotLoaded relation => "relation '" ++ relation ++ "' was not loaded"
  | fieldType field => "field '" ++ field ++ "' has another type"

inductive QueryError where
  | compile (error : CompileError)
  | execution (error : ExecutionError)
  | cache (error : CacheError)
  | decode (error : DecodeError)
  | configuration (error : ConfigError)
  | notFound (table : String)
deriving DecidableEq, Repr

namespace QueryError

def message : QueryError → String
  | compile e => "Compilation error: " ++ e.message
  | execution e => "Execution error: " ++ e.message
  | cache e => "Cache error: " ++ e.message
  | decode e => "Decode error: " ++ e.message
  | configuration e => "Configuration error: " ++ e.message
  | notFound table => "Record not found in table '" ++ table ++ "'"

/-- Whether safe mode may recover from the error. -/
def isRecoverable : QueryError → Bool
  | execution _ => true
  | _ => false

def isTimeout : QueryError → Bool
  | execution (.timeout _) => true
  | _ => false

end QueryError

inductive DriverFault where
  | database (code : Option String) (detail : String)
  | io (detail : String)
  | protocol (detail : String)
  | poolTimedOut
  | poolClosed
  | rowNotFound
  | workerCrashed
deriving DecidableEq, Repr

namespace DriverFault

def message : DriverFault → String
  | database _ detail => "error returned from database: " ++ detail
  | io detail => "error communicating with database: " ++ detail
  | protocol detail => "encountered unexpected or invalid data: " ++ detail
  | poolTimedOut => "pool timed out while waiting for an open connection"
  | poolClosed => "attempted to acquire a connection on a closed pool"
  | rowNotFound => "no rows returned by a query that expected to return at least one row"
  | workerCrashed => "attempted to communicate with a crashed background worker"

/-- The codes by which servers say that a statement ran out of time. -/
def timeoutCodes : List String := ["57014", "3024"]

/-- The pool and the wire are the connection's faults, a timeout code is a timeout, and all else is
the database's. -/
def toExecutionError : DriverFault → ExecutionError
  | database code detail =>
    if timeoutCodes.contains (code.getD "") then .timeout detail else .database detail
  | poolTimedOut => .connection poolTimedOut.message
  | poolClosed => .connection poolClosed.message
  | io detail => .connection (io detail).message
  | fault => .database fault.message

end DriverFault
end EagerLoad
