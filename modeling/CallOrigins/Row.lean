import CallOrigins.Method

/-!
# Rows of the result

A *direct call* is one place where the target is called. A *row* says that an origin reaches
the target through such a place. Where the arguments of a call could not be read, the list of
arguments holds one placeholder that says why.
-/

namespace CallOrigins

/-- Why the arguments of a call could not be read. -/
inductive ExtractionFailure where
  /-- The source of the caller is not at hand. -/
  | noSource
  /-- The source of the caller has a syntax error at the call. -/
  | parseError
  /-- No call of the target stands where one was reported. -/
  | callSiteNotFound
  /-- The call has no argument list. -/
  | argumentsUnavailable
  deriving DecidableEq, Repr

namespace ExtractionFailure

/-- All the failures. -/
def all : List ExtractionFailure := [noSource, parseError, callSiteNotFound, argumentsUnavailable]

/-- What stands in a row in place of the arguments. -/
def placeholder : ExtractionFailure → String
  | noSource => "no-source"
  | parseError => "parse-error"
  | callSiteNotFound => "call-site-not-found"
  | argumentsUnavailable => "arguments-unavailable"

/-- The wording of a failure. -/
def message : ExtractionFailure → String
  | noSource => "no source available"
  | parseError => "source could not be parsed"
  | callSiteNotFound => "call site not found"
  | argumentsUnavailable => "arguments unavailable"

/-- The failure with a placeholder. -/
def ofPlaceholder? (s : String) : Option ExtractionFailure :=
  all.find? (fun f => f.placeholder == s)

end ExtractionFailure

/-- One place where the target is called. -/
structure DirectCall where
  caller : MethodId
  line : Option Nat
  arguments : List String
  offset : Nat
  length : Nat
  deriving DecidableEq, Repr

/-- An origin that reaches the target through a direct call. -/
structure Row where
  origin : MethodId
  directCaller : MethodId
  line : Option Nat
  arguments : List String
  deriving DecidableEq, Repr

namespace Row

/-- The row of an origin and a direct call. -/
def ofCall (origin : MethodId) (call : DirectCall) : Row :=
  ⟨origin, call.caller, call.line, call.arguments⟩

/-- The arguments in one text. -/
def argumentsText (r : Row) : String :=
  ", ".intercalate r.arguments

/-- Is the direct caller its own origin? -/
def isSelfOrigin (r : Row) : Bool :=
  r.origin = r.directCaller

/-- The failure that the arguments stand for, if they do. -/
def failure? (r : Row) : Option ExtractionFailure :=
  match r.arguments with
  | [only] => ExtractionFailure.ofPlaceholder? only
  | _ => none

end Row
end CallOrigins
