import CallOrigins.Method

/-!
# Failures

Everything that can go wrong, by cause. A failure keeps what its message shows. The failures
of one reference search, of one enclosing method or of one argument list do not end a search;
they have a wording all the same, because a caller may want to report them.
-/

namespace CallOrigins

/-- A failure, by cause. -/
inductive Failure where
  /-- The target of a search cannot be used. -/
  | invalidTarget (target reason : String)
  /-- The references to one method could not be searched. -/
  | searchFailed (method message : String)
  /-- No method encloses a reference. -/
  | noEnclosingMethod (file : String) (offset : Nat)
  /-- The arguments of a call could not be read. -/
  | argumentsUnread (caller reason : String)
  /-- No reference can be searched at all. -/
  | unavailable (message : String)
  /-- Cancellation was requested. -/
  | cancelled
  /-- The search broke down. -/
  | unexpected (message : String)
  /-- A file could not be read or written. -/
  | inputOutput (message : String)
  /-- A text is not JSON. -/
  | badJson (message : String)
  /-- A file of settings cannot be used. -/
  | badSettings (path message : String)
  /-- A pattern for library paths is not well formed. -/
  | badPattern (pattern message : String)
  deriving DecidableEq, Repr

/-- The wording of a failure. -/
def Failure.message : Failure → String
  | invalidTarget target reason => "Invalid target method '" ++ target ++ "': " ++ reason
  | searchFailed method message => "Reference search failed for " ++ method ++ ": " ++ message
  | noEnclosingMethod file offset =>
    "Could not resolve the enclosing method of a reference in " ++ file ++ " at offset " ++
      toString offset
  | argumentsUnread caller reason => "Argument extraction failed in " ++ caller ++ ": " ++ reason
  | unavailable message => "Reference provider unavailable: " ++ message
  | cancelled => "Search cancelled"
  | unexpected message => "Unexpected failure: " ++ message
  | inputOutput message => "I/O error: " ++ message
  | badJson message => "JSON error: " ++ message
  | badSettings path message => "Invalid configuration " ++ path ++ ": " ++ message
  | badPattern pattern message => "Invalid library pattern '" ++ pattern ++ "': " ++ message

end CallOrigins
