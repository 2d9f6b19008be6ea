import CallOrigins.Search.Script

/-!
# Scripts in sequence

Laws of sequencing for scripts, and what a script comes to where cancellation is never
requested. There the looks have no effect and a run depends on nothing but the answers, so it is
a plain computation with failures (`eval`), and sequencing is sequencing of these
(`eval_bind_of_ok`, `eval_bind_of_error`). Nothing later unfolds a run without cancellation.
-/

namespace CallOrigins

namespace Script

variable {α β γ : Type} {cb : Codebase}

/-! ## Sequencing -/

@[simp] theorem bind_eq_bind (s : Script α) (f : α → Script β) : (s >>= f) = s.bind f := rfl

@[simp] theorem pure_eq_done (a : α) : (pure a : Script α) = done a := rfl

@[simp] theorem done_bind (a : α) (f : α → Script β) : (done a).bind f = f a := rfl

@[simp] theorem fail_bind (why : Failure) (f : α → Script β) : (fail why).bind f = fail why := rfl

@[simp] theorem check_bind (next : Script α) (f : α → Script β) :
    (check next).bind f = check (next.bind f) := rfl

@[simp] theorem ask_bind (q : Question) (next : q.Reply → Script α) (f : α → Script β) :
    (ask q next).bind f = ask q (fun reply => (next reply).bind f) := rfl

@[simp] theorem checkpoint_bind (f : Unit → Script β) : checkpoint.bind f = check (f ()) := rfl

theorem bind_assoc (s : Script α) (f : α → Script β) (k : β → Script γ) :
    (s.bind f).bind k = s.bind (fun a => (f a).bind k) := by
  induction s with
  | done a => rfl
  | fail why => rfl
  | check next ih => simp only [check_bind, ih]
  | ask q next ih => simp only [ask_bind, ih]

/-! ## Running a sequence -/

theorem run_bind_of_finished {moment : CancelMoment} {s : Script α} {a : α} {p p' : Progress}
    (h : s.run cb moment p = ⟨.finished a, p'⟩) (f : α → Script β) :
    (s.bind f).run cb moment p = (f a).run cb moment p' := by
  induction s generalizing p with
  | done b =>
    cases h
    rfl
  | fail why => cases h
  | check next ih =>
    rw [run] at h
    by_cases hp : moment p.afterCheck = true
    · rw [if_pos hp] at h
      cases h
    · rw [if_neg hp] at h
      rw [check_bind, run, if_neg hp, ih h]
  | ask q next ih => exact ih _ h

/-- What follows a script matters to a run only where the script finishes. -/
theorem run_bind_congr {moment : CancelMoment} {s : Script α} {p : Progress} {f g : α → Script β}
    (h : ∀ a, (s.run cb moment p).outcome = .finished a → f a = g a) :
    (s.bind f).run cb moment p = (s.bind g).run cb moment p := by
  induction s generalizing p with
  | done a => rw [done_bind, done_bind, h a rfl]
  | fail why => rfl
  | check next ih =>
    rw [check_bind, check_bind, run, run]
    by_cases hp : moment p.afterCheck = true
    · rw [if_pos hp, if_pos hp]
    · rw [if_neg hp, if_neg hp]
      refine ih fun a ha => h a ?_
      rwa [run, if_neg hp]
  | ask q next ih => exact ih _ h

/-! ## Without cancellation -/

/-- What a script ends with where cancellation is never requested. -/
def eval (cb : Codebase) : Script α → Except Failure α
  | done a => .ok a
  | fail why => .error why
  | check next => next.eval cb
  | ask q next => (next (cb.reply false q)).eval cb

@[simp] theorem eval_done (a : α) : (done a).eval cb = .ok a := rfl

@[simp] theorem eval_fail (why : Failure) : (fail why : Script α).eval cb = .error why := rfl

@[simp] theorem eval_check (next : Script α) : (check next).eval cb = next.eval cb := rfl

@[simp] theorem eval_ask (q : Question) (next : q.Reply → Script α) :
    (ask q next).eval cb = (next (cb.reply false q)).eval cb := rfl

theorem eval_put (q : Question) : (put q).eval cb = .ok (cb.reply false q) := rfl

theorem eval_bind_of_ok {s : Script α} {a : α} (h : s.eval cb = .ok a) (f : α → Script β) :
    (s.bind f).eval cb = (f a).eval cb := by
  induction s with
  | done b =>
    cases h
    rfl
  | fail why => cases h
  | check next ih => exact ih h
  | ask q next ih => exact ih _ h

theorem eval_bind_of_error {s : Script α} {why : Failure} (h : s.eval cb = .error why)
    (f : α → Script β) : (s.bind f).eval cb = .error why := by
  induction s with
  | done b => cases h
  | fail why =>
    cases h
    rfl
  | check next ih => exact ih h
  | ask q next ih => exact ih _ h

end Script

/-- The outcome of a computation that ended by itself. -/
def Outcome.ofResult {α : Type} : Except Failure α → Outcome α
  | .ok result => .finished result
  | .error why => .failed why

/-- **Without cancellation a run ends as its script comes to.** -/
theorem Script.run_never_outcome {α : Type} {cb : Codebase} (s : Script α) (p : Progress) :
    (s.run cb .never p).outcome = .ofResult (s.eval cb) := by
  induction s generalizing p with
  | done a => rfl
  | fail why => rfl
  | check next ih => exact ih p.afterCheck
  | ask q next ih => exact ih _ (p.afterQuestion q)

end CallOrigins
