import CallOrigins.Reference
import CallOrigins.Row

/-!
# Codebases

A search knows the code only by its answers to questions: is there such a method, is it
library code, where is it referenced, which method encloses a reference, what are the
arguments of a call, and on which line is it. A codebase is a set of such answers.

The methods that enclose references are finitely many; a codebase lists them. This bounds
every search.
-/

namespace CallOrigins

/-- A question to a codebase. -/
inductive Question where
  /-- Is there such a method? -/
  | isPresent (m : MethodId)
  /-- Is it library code? -/
  | isExternal (m : MethodId)
  /-- Where is it referenced? -/
  | references (m : MethodId)
  /-- Which method encloses this reference? -/
  | enclosing (r : Reference)
  /-- What are the arguments of the call of the target in this range of the caller's file? -/
  | arguments (caller target : MethodId) (offset length : Nat)
  /-- On which line of the caller's file is this offset? -/
  | line (caller : MethodId) (offset : Nat)
  deriving DecidableEq, Repr

/-- The answer to a search for references. -/
abbrev References : Type := Except SearchFault (List Reference)

/-- What is answered to a question. -/
@[reducible] def Question.Reply : Question → Type
  | isPresent _ => Bool
  | isExternal _ => Bool
  | references _ => References
  | enclosing _ => Option MethodId
  | arguments _ _ _ _ => Except ExtractionFailure (List String)
  | line _ _ => Option Nat

/-- A codebase. -/
structure Codebase where
  isPresent : MethodId → Bool
  isExternal : MethodId → Bool
  references : MethodId → References
  /-- What a search for references answers if cancellation is requested before it ends. -/
  interrupted : MethodId → References
  enclosing : Reference → Option MethodId
  arguments : MethodId → MethodId → Nat → Nat → Except ExtractionFailure (List String)
  line : MethodId → Nat → Option Nat
  /-- The methods that enclose references. -/
  callers : List MethodId
  enclosing_mem : ∀ m rs, references m = .ok rs → ∀ r ∈ rs, ∀ c, enclosing r = some c →
    c ∈ callers

/-- The answer of a codebase to a question. `cancelled` says whether cancellation was requested
before the answer is given. -/
def Codebase.reply (cb : Codebase) (cancelled : Bool) : (q : Question) → q.Reply
  | .isPresent m => cb.isPresent m
  | .isExternal m => cb.isExternal m
  | .references m => if cancelled then cb.interrupted m else cb.references m
  | .enclosing r => cb.enclosing r
  | .arguments caller target offset length => cb.arguments caller target offset length
  | .line caller offset => cb.line caller offset

end CallOrigins
