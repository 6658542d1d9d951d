/-!
# Errors

What can go wrong: a catalog that fails to answer, a document that does not decode, settings that
do not decode, a rule that gives up. `message` is the one place for the wording.

A document that does not decode is refused in some context, and the context is what the decoders
of this library tell. The words in which a reader of texts gives its own reason, with line and
column, are left out; `Error.inContext` makes the error of a reader that has such words.
-/

set_option autoImplicit false

namespace QuerySplit

/-- Why a catalog has no answer for a base name. -/
inductive LookupError
  | notFound (table : String)
  | unavailable (table message : String)
deriving DecidableEq, Repr

def LookupError.message : LookupError → String
  | .notFound table => "Table not found: " ++ table
  | .unavailable table message => "Metadata unavailable for " ++ table ++ ": " ++ message

/-- What ends an operation, with what it tells about the cause. -/
inductive Error
  | metadata (table message : String)
  | serialization (message : String)
  | config (message : String)
  | rule (name message : String)
deriving DecidableEq, Repr

namespace Error

/-- A document that failed in some context, for some reason. The error without a reason, which
`ofDocument` gives, has the same text up to the colon. -/
def inContext (context reason : String) : Error :=
  .serialization (context ++ ": " ++ reason)

def ofLookup : LookupError → Error
  | .notFound table => .metadata table ("table not found: " ++ table)
  | .unavailable table message => .metadata table message

def message : Error → String
  | .metadata table message => "Metadata error for table " ++ table ++ ": " ++ message
  | .serialization message => "Serialization error: " ++ message
  | .config message => "Configuration error: " ++ message
  | .rule name message => "Rule " ++ name ++ " failed: " ++ message

end Error

end QuerySplit
