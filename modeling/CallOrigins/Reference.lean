import CallOrigins.Failure

/-!
# References

A reference is a place where a method may be called. It is *exact* where it can mean no other
method, and *potential* where it is one of several readings.
-/

namespace CallOrigins

/-- How sure it is that a reference means the method that was searched. -/
inductive Accuracy where
  | exact
  | potential
  deriving DecidableEq, Repr

/-- A reference to a method. -/
structure Reference where
  file : String
  /-- The byte offset in the file. -/
  offset : Nat
  length : Nat
  accuracy : Accuracy
  /-- The method that encloses the reference, where the search knows it. -/
  element : Option MethodId
  deriving DecidableEq, Repr

/-- Why the references to a method could not be searched. -/
inductive SearchFault where
  /-- The search of this one method failed. -/
  | query (message : String)
  /-- No method can be searched. -/
  | unavailable (message : String)
  /-- The search broke down, with or without a message. -/
  | crash (message : Option String)
  deriving DecidableEq, Repr

namespace SearchFault

/-- The wording of a fault. -/
def message : SearchFault → String
  | query message => message
  | unavailable message => message
  | crash message => message.getD "worker thread panicked"

/-- The failure by which a fault ends the whole search; the failure of one query does not. -/
def fatal? : SearchFault → Option Failure
  | query _ => none
  | unavailable message => some (.unavailable message)
  | crash message => some (.unexpected (SearchFault.crash message).message)

end SearchFault

end CallOrigins
