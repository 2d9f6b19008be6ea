import CallOrigins.Proofs.Search.Cancellation

/-!
# How soon a cancelled search stops

Once cancellation has been requested, a search goes on until it looks. How much it can still ask is
a property of its script: a *prompt* script asks at most three questions between two looks, and at
most one of them is a search for references. The property goes through sequencing where the second
script begins with a look, and the parts of the traversal are put together so.

After the traversal nothing is asked at all. The rows of a search come from what was found.
-/

namespace CallOrigins

/-- Is it a search for references? -/
def Question.isSearch : Question → Bool
  | references _ => true
  | _ => false

namespace Script

variable {α β : Type} {cb : Codebase} {moment : CancelMoment}

/-! ## Prompt scripts -/

/-- A script that may ask so many questions before its next look, and so many searches for
references among them. A look allows three questions with one search. -/
def Prompt : Script α → (questions searches : Nat) → Prop
  | done _, _, _ => True
  | fail _, _, _ => True
  | check next, _, _ => next.Prompt 3 1
  | ask q next, questions, searches =>
    0 < questions ∧ (if q.isSearch then 1 else 0) ≤ searches ∧
      ∀ reply, (next reply).Prompt (questions - 1) (searches - if q.isSearch then 1 else 0)

/-- A question that is no search for references. -/
theorem Prompt.ofQuestion {q : Question} {next : q.Reply → Script α} {n k : Nat}
    (hq : q.isSearch = false) (hnext : ∀ reply, (next reply).Prompt n k) :
    (ask q next).Prompt (n + 1) k := by
  simpa [Prompt, hq] using hnext

theorem Prompt.ofSearch {m : MethodId} {next : References → Script α} {n k : Nat}
    (hnext : ∀ answer, (next answer).Prompt n k) :
    (ask (.references m) next).Prompt (n + 1) (k + 1) := by
  simpa [Prompt, Question.isSearch] using hnext

theorem Prompt.mono {s : Script α} {n n' k k' : Nat} (h : s.Prompt n k) (hn : n ≤ n')
    (hk : k ≤ k') : s.Prompt n' k' := by
  induction s generalizing n n' k k' with
  | done a => trivial
  | fail why => trivial
  | check next ih => exact h
  | ask q next ih =>
    obtain ⟨hq, hsearch, hnext⟩ := h
    exact ⟨by omega, by omega, fun reply => ih reply (hnext reply) (by omega) (by omega)⟩

/-- A script that looks before it asks can follow any prompt script. -/
theorem Prompt.bind {s : Script α} {n k : Nat} (hs : s.Prompt n k) {f : α → Script β}
    (hf : ∀ a, (f a).Prompt 0 0) : (s.bind f).Prompt n k := by
  induction s generalizing n k with
  | done a => exact (hf a).mono n.zero_le k.zero_le
  | fail why => trivial
  | check next ih => exact ih hs
  | ask q next ih => exact ⟨hs.1, hs.2.1, fun reply => ih reply (hs.2.2 reply)⟩

/-- Was the last question a search for references? -/
def endsWithSearch (p : Progress) : Bool :=
  p.asked.getLast?.any Question.isSearch

theorem endsWithSearch_afterQuestion (p : Progress) (q : Question) :
    endsWithSearch (p.afterQuestion q) = q.isSearch := by
  simp [endsWithSearch, Progress.afterQuestion]

/-- What a prompt script asks under cancellation is within its allowance. -/
theorem Prompt.answered_of_requested (cb : Codebase) (sticky : moment.Sticky) {s : Script α}
    {n k : Nat} (hs : s.Prompt n k) {p : Progress} (hp : moment p = true) :
    (s.answeredAt cb moment p).length ≤ n ∧
      (s.answeredAt cb moment p).countP endsWithSearch ≤ k := by
  induction s generalizing n k p with
  | done a => exact ⟨n.zero_le, k.zero_le⟩
  | fail why => exact ⟨n.zero_le, k.zero_le⟩
  | check next ih =>
    rw [answeredAt, if_pos (sticky.afterCheck p hp)]
    exact ⟨n.zero_le, k.zero_le⟩
  | ask q next ih =>
    obtain ⟨hq, hsearch, hnext⟩ := hs
    rw [answeredAt, List.length_cons, List.countP_cons, endsWithSearch_afterQuestion]
    generalize cb.reply (moment (p.afterQuestion q)) q = reply
    obtain ⟨hlength, hsearches⟩ := ih reply (hnext reply) (sticky.afterQuestion p q hp)
    exact ⟨by omega, by omega⟩

/-- **Of the questions of a prompt script** at most three are answered after cancellation was
requested, and at most one of them is a search for references. -/
theorem Prompt.answered (cb : Codebase) (sticky : moment.Sticky) {s : Script α} {n k : Nat}
    (hs : s.Prompt n k) (hn : n ≤ 3) (hk : k ≤ 1) (p : Progress) :
    (s.answeredAt cb moment p).countP moment ≤ 3 ∧
      (s.answeredAt cb moment p).countP (fun p => moment p && endsWithSearch p) ≤ 1 := by
  induction s generalizing n k p with
  | done a => exact ⟨Nat.zero_le 3, Nat.zero_le 1⟩
  | fail why => exact ⟨Nat.zero_le 3, Nat.zero_le 1⟩
  | check next ih =>
    rw [answeredAt]
    split
    · exact ⟨Nat.zero_le 3, Nat.zero_le 1⟩
    · exact ih hs (Nat.le_refl 3) (Nat.le_refl 1) p.afterCheck
  | ask q next ih =>
    obtain ⟨hq, hsearch, hnext⟩ := hs
    rw [answeredAt, List.countP_cons, List.countP_cons]
    generalize cb.reply (moment (p.afterQuestion q)) q = reply
    by_cases hp : moment (p.afterQuestion q) = true
    · -- from here on every question counts, and the allowance bounds them
      obtain ⟨hlength, hsearches⟩ := (hnext reply).answered_of_requested cb sticky hp
      have hcount := List.countP_le_length (p := moment)
        (l := (next reply).answeredAt cb moment (p.afterQuestion q))
      have hmono := List.countP_mono_left (p := fun p => moment p && endsWithSearch p)
        (q := endsWithSearch) (l := (next reply).answeredAt cb moment (p.afterQuestion q))
        fun _ _ h => (Bool.and_eq_true_iff.1 h).2
      rw [if_pos hp, hp, Bool.true_and, endsWithSearch_afterQuestion]
      exact ⟨by omega, by omega⟩
    · rw [if_neg hp, if_neg (by simp [hp])]
      exact ih reply (hnext reply) (by omega) (by omega) _

/-! ## Silent scripts -/

/-- A script that asks nothing. -/
def Silent : Script α → Prop
  | done _ => True
  | fail _ => True
  | check next => next.Silent
  | ask _ _ => False

theorem Silent.bind {s : Script α} (hs : s.Silent) {f : α → Script β} (hf : ∀ a, (f a).Silent) :
    (s.bind f).Silent := by
  induction s with
  | done a => exact hf a
  | fail why => trivial
  | check next ih => exact ih hs
  | ask q next => exact hs.elim

theorem Silent.prompt {s : Script α} (hs : s.Silent) (n k : Nat) : s.Prompt n k := by
  induction s generalizing n k with
  | done a => trivial
  | fail why => trivial
  | check next ih => exact ih hs 3 1
  | ask q next => exact hs.elim

theorem Silent.asked_run (cb : Codebase) (moment : CancelMoment) {s : Script α} (hs : s.Silent)
    (p : Progress) : (s.run cb moment p).progress.asked = p.asked := by
  induction s generalizing p with
  | done a => rfl
  | fail why => rfl
  | check next ih =>
    rw [run]
    split
    · rfl
    · exact ih hs p.afterCheck
  | ask q next => exact hs.elim

/-- What follows a script adds no questions if it is silent. -/
theorem asked_bind_of_silent (cb : Codebase) (moment : CancelMoment) (s : Script α)
    {f : α → Script β} (hf : ∀ a, (f a).Silent) (p : Progress) :
    ((s.bind f).run cb moment p).progress.asked = (s.run cb moment p).progress.asked := by
  induction s generalizing p with
  | done a => exact (hf a).asked_run cb moment p
  | fail why => rfl
  | check next ih =>
    rw [check_bind, run, run]
    split
    · rfl
    · exact ih p.afterCheck
  | ask q next ih => exact ih _ (p.afterQuestion q)

end Script

/-! ## The traversal and the search -/

namespace Traversal

open Script

variable {α : Type} {target searched m : MethodId} {t : Traversal}

theorem classify_bind_prompt {n k : Nat} {f : Bool × Traversal → Script α}
    (hf : ∀ a, (f a).Prompt n k) : ((t.classify m).bind f).Prompt (n + 1) k := by
  unfold classify
  split
  · exact (hf _).mono n.le_succ k.le_refl
  · exact .ofQuestion rfl fun external => hf _

theorem record_prompt {r : Reference} : (t.record target m r).Prompt 1 0 :=
  .ofQuestion rfl fun _ => .ofQuestion rfl fun _ => trivial

/-- The classification of a caller and the arguments of its call are asked for without a look. -/
theorem acceptCaller_prompt {r : Reference} : (t.acceptCaller target searched r m).Prompt 2 0 := by
  refine classify_bind_prompt fun ⟨external, t'⟩ => ?_
  dsimp only
  split
  · exact record_prompt.bind fun _ => trivial
  · trivial

theorem accept_prompt {r : Reference} : (t.accept target searched r).Prompt 3 1 := by
  unfold accept
  split
  · trivial
  · refine .ofQuestion rfl fun enclosing => ?_
    cases enclosing with
    | none => trivial
    | some caller => exact acceptCaller_prompt.mono (Nat.le_refl 2) (Nat.zero_le 1)

theorem acceptAll_prompt {rs : List Reference} : (acceptAll target searched rs t).Prompt 0 0 := by
  induction rs generalizing t with
  | nil => trivial
  | cons r rs ih => exact accept_prompt.bind fun _ => ih

theorem visit_prompt : (visit t target m).Prompt 2 1 := by
  refine .ofQuestion rfl fun present => ?_
  cases present with
  | false => trivial
  | true =>
    refine .ofSearch fun answer => ?_
    rcases answer with fault | rs
    · simp only [done_bind]
      cases fault.fatal? <;> trivial
    · exact acceptAll_prompt

theorem expand_prompt (fuel : Nat) : (expand target fuel t).Prompt 0 0 := by
  induction fuel generalizing t with
  | zero => trivial
  | succ fuel ih =>
    rw [expand]
    simp only [bind_eq_bind, checkpoint_bind]
    split
    · trivial
    · split
      · exact ih.mono (by decide) (by decide)
      · exact (visit_prompt.bind fun _ => ih).mono (by decide) (by decide)

end Traversal

theorem traverse_prompt (callers : Nat) (target : MethodId) :
    (traverse callers target).Prompt 2 1 := by
  refine Traversal.classify_bind_prompt fun a => ?_
  refine Script.Prompt.mono ?_ (Nat.zero_le 1) (Nat.zero_le 1)
  exact (Traversal.expand_prompt (callers + 2)).bind fun _ => trivial

namespace Search

open Script

theorem assemble_silent (g : CallGraph) (calls : List DirectCall) : (assemble g calls).Silent := by
  induction calls with
  | nil => trivial
  | cons call calls ih => exact ih.bind fun _ => trivial

theorem report_silent (f : Findings) : (report f).Silent :=
  (assemble_silent f.graph f.directCalls).bind fun _ => trivial

theorem asked_script (cb : Codebase) (moment : CancelMoment) (callers : Nat) (target : MethodId) :
    ((script callers target).run cb moment {}).progress.asked =
      if cb.isPresent target then
        ((traverse callers target).run cb moment
          (Progress.afterQuestion {} (.isPresent target))).progress.asked
      else [.isPresent target] := by
  change (((if cb.isPresent target then (traverse callers target).bind report
    else fail _ : Script Report)).run cb moment _).progress.asked = _
  split
  · exact asked_bind_of_silent cb moment _ report_silent _
  · rfl

theorem script_prompt (callers : Nat) (target : MethodId) : (script callers target).Prompt 3 1 := by
  refine .ofQuestion rfl fun present => ?_
  cases present with
  | false => trivial
  | true => exact (traverse_prompt callers target).bind fun f => (report_silent f).prompt 0 0

end Search

namespace Codebase

/-- **A cancelled search stops soon.** At most three of its questions are answered after
cancellation was requested, and at most one of these is a search for references. The question that
was being answered when the request came is counted with them. After the traversal nothing is
asked, requested or not. -/
theorem search_stops (cb : Codebase) (moment : CancelMoment) (sticky : moment.Sticky)
    (target : MethodId) :
    (cb.answeredAt moment target).countP moment ≤ 3 ∧
    (cb.answeredAt moment target).countP (fun p => moment p && Script.endsWithSearch p) ≤ 1 ∧
    (cb.search moment target).progress.asked =
      if cb.isPresent target then
        ((CallOrigins.traverse cb.callers.length target).run cb moment
          (Progress.afterQuestion {} (.isPresent target))).progress.asked
      else [.isPresent target] := by
  obtain ⟨hquestions, hsearches⟩ := (Search.script_prompt cb.callers.length target).answered cb
    sticky (Nat.le_refl 3) (Nat.le_refl 1) {}
  exact ⟨hquestions, hsearches, Search.asked_script cb moment cb.callers.length target⟩

/-- The bound is reached, where cancellation is requested while the enclosing method of a reference
is asked for: its class and the arguments of the call are still asked for. -/
theorem oneCall_stops :
    (oneCall.codebase.answeredAt (.atQuestion 5) ⟨"shop.Cart#add(Item)"⟩).countP
      (CancelMoment.atQuestion 5) = 3 :=
  Nat.le_antisymm
    (search_stops oneCall.codebase (.atQuestion 5) (CancelMoment.atQuestion_sticky 5)
      ⟨"shop.Cart#add(Item)"⟩).1
    (by decide)

end Codebase
end CallOrigins
