import CallOrigins.Search.Codebase

/-!
# Scripts

A script is what a search does, seen from outside: it asks questions, looks from time to time
whether cancellation has been requested, and ends with a result or a failure. The answer to a
question decides how the script goes on.

Running a script against a codebase gives its outcome and its *progress*: the questions that
were asked and the number of looks. Cancellation is requested at some moment of a run; such a
moment is a condition on the progress that stays true once it is true.
-/

namespace CallOrigins

/-- A script with results of a type. -/
inductive Script (α : Type) where
  /-- Ends with a result. -/
  | done (result : α)
  /-- Ends with a failure. -/
  | fail (why : Failure)
  /-- Looks whether cancellation has been requested, and goes on if it has not. -/
  | check (next : Script α)
  /-- Asks a question and goes on as the answer demands. -/
  | ask (q : Question) (next : q.Reply → Script α)

namespace Script

variable {α β : Type}

/-- Goes on with the result of a script. -/
def bind : Script α → (α → Script β) → Script β
  | done a, f => f a
  | fail why, _ => fail why
  | check next, f => check (next.bind f)
  | ask q next, f => ask q (fun reply => (next reply).bind f)

instance : Monad Script where
  pure := done
  bind := bind

/-- Looks whether cancellation has been requested. -/
def checkpoint : Script Unit :=
  check (done ())

/-- Asks a question and gives the answer. -/
def put (q : Question) : Script q.Reply :=
  ask q done

end Script

/-! ## Running -/

/-- How far a run has come. -/
structure Progress where
  /-- The questions that were asked, the first one first. -/
  asked : List Question := []
  /-- The number of looks whether cancellation has been requested. -/
  checks : Nat := 0
  deriving DecidableEq, Repr

namespace Progress

/-- After one more question. -/
def afterQuestion (p : Progress) (q : Question) : Progress :=
  { p with asked := p.asked ++ [q] }

/-- After one more look. -/
def afterCheck (p : Progress) : Progress :=
  { p with checks := p.checks + 1 }

end Progress

/-- When cancellation is requested: has it been, at this point of the progress? -/
abbrev CancelMoment : Type := Progress → Bool

/-- Cancellation that is never requested. -/
def CancelMoment.never : CancelMoment := fun _ => false

/-- How a run ends. -/
inductive Outcome (α : Type) where
  | finished (result : α)
  | cancelled
  | failed (why : Failure)
  deriving Repr

/-- A run that has ended. -/
structure Run (α : Type) where
  outcome : Outcome α
  progress : Progress
  deriving Repr

/-- **Running a script** from some progress on. -/
def Script.run {α : Type} (cb : Codebase) (moment : CancelMoment) : Script α → Progress → Run α
  | .done a, p => ⟨.finished a, p⟩
  | .fail why, p => ⟨.failed why, p⟩
  | .check next, p =>
    if moment p.afterCheck then ⟨.cancelled, p.afterCheck⟩ else next.run cb moment p.afterCheck
  | .ask q next, p =>
    let p := p.afterQuestion q
    (next (cb.reply (moment p) q)).run cb moment p

end CallOrigins
