import CallOrigins.Search
import CallOrigins.Search.Tables
import CallOrigins.Proofs.Search.Script

/-!
# Cancellation

A search looks from time to time whether cancellation has been requested. Between two looks it
goes on asking, and a search for references that is interrupted may answer anything. This module
proves that nothing of that is ever seen in a result.

Two properties of scripts carry the proofs. A *watched* script heeds what a search for references
has answered: it looks before it does anything else, or, where the answer ends the whole search,
fails with it. A script that *looks last* looks once more between its last question and its
result. Both are properties of the script alone, for all answers, and both go through sequencing.

**The laws.** A run under cancellation is cancelled or ends as it does without cancellation, and
it asks no other questions. It does not finish if cancellation was requested before the last
answer. An interrupted search for references ends the run cancelled, with one exception: where it
answers that no method can be searched, the run fails with that answer and cancellation goes
unnoticed.
-/

namespace CallOrigins

/-- Cancellation cannot be withdrawn: once requested, it stays so. -/
structure CancelMoment.Sticky (moment : CancelMoment) : Prop where
  afterQuestion : ∀ p q, moment p = true → moment (p.afterQuestion q) = true
  afterCheck : ∀ p, moment p = true → moment p.afterCheck = true

/-- Cancellation that is requested while the `n`-th question is answered. -/
def CancelMoment.atQuestion (n : Nat) : CancelMoment :=
  fun p => decide (n ≤ p.asked.length)

theorem CancelMoment.atQuestion_sticky (n : Nat) : (atQuestion n).Sticky where
  afterQuestion p q h := by
    simp only [atQuestion, Progress.afterQuestion, decide_eq_true_iff, List.length_append] at h ⊢
    omega
  afterCheck _ h := h

namespace Script

variable {α β : Type} {cb : Codebase} {moment : CancelMoment}

/-- The progress at which each question of a run is answered, the first one first. -/
def answeredAt (cb : Codebase) (moment : CancelMoment) : Script α → Progress → List Progress
  | done _, _ => []
  | fail _, _ => []
  | check next, p =>
    if moment p.afterCheck then [] else next.answeredAt cb moment p.afterCheck
  | ask q next, p =>
    p.afterQuestion q ::
      (next (cb.reply (moment (p.afterQuestion q)) q)).answeredAt cb moment (p.afterQuestion q)

/-! ## Watched scripts -/

/-- A script that begins with a look. -/
def Looks : Script α → Prop
  | check _ => True
  | _ => False

/-- A script that is fit to follow an answer: after a search for references it fails as the
answer demands, or begins with a look. -/
def Heeds (s : Script α) : (q : Question) → q.Reply → Prop
  | .references _, .ok _ => s.Looks
  | .references _, .error fault =>
    match fault.fatal? with
    | some why => s = fail why
    | none => s.Looks
  | _, _ => True

/-- A script that heeds every answer of a search for references. -/
def Watched : Script α → Prop
  | done _ => True
  | fail _ => True
  | check next => next.Watched
  | ask q next => ∀ reply, (next reply).Watched ∧ (next reply).Heeds q reply

theorem Looks.bind {s : Script α} (h : s.Looks) (f : α → Script β) : (s.bind f).Looks := by
  cases s with
  | check next => trivial
  | _ => exact h.elim

theorem Heeds.bind {s : Script α} {q : Question} {reply : q.Reply} (h : s.Heeds q reply)
    (f : α → Script β) : (s.bind f).Heeds q reply := by
  cases q with
  | references m =>
    cases reply with
    | ok rs => exact Looks.bind h f
    | error fault =>
      simp only [Heeds] at h ⊢
      split at h
      · rw [h, fail_bind]
      · exact h.bind f
  | _ => trivial

theorem Watched.bind {s : Script α} (hs : s.Watched) {f : α → Script β}
    (hf : ∀ a, (f a).Watched) : (s.bind f).Watched := by
  induction s with
  | done a => exact hf a
  | fail why => trivial
  | check next ih => exact ih hs
  | ask q next ih => exact fun reply => ⟨ih reply (hs reply).1, (hs reply).2.bind f⟩

/-! ## Looking last -/

/-- A script that looks between its last question and its result. Where a look is `due`, there
was a question before the script. -/
def LooksLast : Script α → Bool → Prop
  | done _, due => due = false
  | fail _, _ => True
  | check next, _ => next.LooksLast false
  | ask _ next, _ => ∀ reply, (next reply).LooksLast true

theorem LooksLast.of_due {s : Script α} (h : s.LooksLast true) (due : Bool) : s.LooksLast due := by
  cases s with
  | done a => cases h
  | _ => exact h

theorem LooksLast.bind {s : Script α} {due : Bool} (hs : s.LooksLast due) {f : α → Script β}
    (hf : ∀ a, (f a).LooksLast false) : (s.bind f).LooksLast due := by
  induction s generalizing due with
  | done a =>
    cases hs
    exact hf a
  | fail why => trivial
  | check next ih => exact ih hs
  | ask q next ih => exact fun reply => ih reply (hs reply)

/-- What is asked before does not matter to a script that looks before its result anyway. -/
theorem looksLast_bind_of_due (s : Script α) {f : α → Script β}
    (hf : ∀ a, (f a).LooksLast true) (due : Bool) : (s.bind f).LooksLast due := by
  induction s generalizing due with
  | done a => exact (hf a).of_due due
  | fail why => trivial
  | check next ih => exact ih false
  | ask q next ih => exact fun reply => ih reply true

/-! ## Runs under cancellation -/

/-- Once cancellation is requested, a look ends the run. -/
theorem run_of_looks (sticky : moment.Sticky) {s : Script α} (hs : s.Looks) {p : Progress}
    (hp : moment p = true) : s.run cb moment p = ⟨.cancelled, p.afterCheck⟩ := by
  cases s with
  | check next => exact if_pos (sticky.afterCheck p hp)
  | _ => exact hs.elim

theorem asked_isPrefix (s : Script α) (p : Progress) :
    p.asked <+: (s.run cb moment p).progress.asked := by
  induction s generalizing p with
  | done a => exact List.prefix_rfl
  | fail why => exact List.prefix_rfl
  | check next ih =>
    rw [run]
    split
    · exact List.prefix_rfl
    · exact ih p.afterCheck
  | ask q next ih => exact (List.prefix_append p.asked [q]).trans (ih _ (p.afterQuestion q))

/-- Every question of a run is answered at one point. -/
theorem asked_eq_answeredAt (s : Script α) (p : Progress) :
    (s.run cb moment p).progress.asked =
      p.asked ++ (s.answeredAt cb moment p).filterMap (·.asked.getLast?) := by
  induction s generalizing p with
  | done a => simp [run, answeredAt]
  | fail why => simp [run, answeredAt]
  | check next ih =>
    rw [run, answeredAt]
    split
    · simp [Progress.afterCheck]
    · exact ih p.afterCheck
  | ask q next ih =>
    rw [run, answeredAt, ih]
    simp [Progress.afterQuestion]

/-- Only a search for references can be answered otherwise under cancellation. -/
theorem reply_eq_or (cb : Codebase) (cancelled : Bool) (q : Question) :
    cb.reply cancelled q = cb.reply false q ∨ cancelled = true ∧ ∃ m, q = .references m := by
  cases q with
  | references m =>
    cases cancelled with
    | false => exact .inl rfl
    | true => exact .inr ⟨rfl, m, rfl⟩
  | _ => exact .inl rfl

/-- The outcome of a run whose search for references was interrupted and answered this. -/
def ofInterrupted : References → Outcome α
  | .ok _ => .cancelled
  | .error fault =>
    match fault.fatal? with
    | some why => .failed why
    | none => .cancelled

/-- A script that heeds the answer of an interrupted search ends at once. -/
theorem run_of_heeds (cb : Codebase) (sticky : moment.Sticky) {s : Script α} {m : MethodId}
    {answer : References} (hs : s.Heeds (.references m) answer) {p : Progress}
    (hp : moment p = true) :
    (s.run cb moment p).outcome = ofInterrupted answer ∧
      (s.run cb moment p).progress.asked = p.asked := by
  cases answer with
  | ok rs =>
    rw [run_of_looks sticky hs hp]
    exact ⟨rfl, rfl⟩
  | error fault =>
    simp only [Heeds] at hs
    simp only [ofInterrupted]
    split at hs
    · rw [hs]
      exact ⟨rfl, rfl⟩
    · rw [run_of_looks sticky hs hp]
      exact ⟨rfl, rfl⟩

/-- **Cancellation suppresses an outcome or leaves it as it is**, where interrupted searches for
references do not end the whole search. -/
theorem run_cancelled_or_never (sticky : moment.Sticky)
    (harmless : ∀ m, ofInterrupted (cb.interrupted m) = (.cancelled : Outcome α))
    {s : Script α} (hs : s.Watched) (p : Progress) :
    ((s.run cb moment p).outcome = .cancelled ∨
      (s.run cb moment p).outcome = (s.run cb .never p).outcome) ∧
    (s.run cb moment p).progress.asked <+: (s.run cb .never p).progress.asked := by
  induction s generalizing p with
  | done a => exact ⟨.inr rfl, List.prefix_rfl⟩
  | fail why => exact ⟨.inr rfl, List.prefix_rfl⟩
  | check next ih =>
    by_cases hp : moment p.afterCheck = true
    · rw [run, if_pos hp]
      exact ⟨.inl rfl, asked_isPrefix (check next) p⟩
    · rw [run, if_neg hp]
      exact ih hs p.afterCheck
  | ask q next ih =>
    rcases reply_eq_or cb (moment (p.afterQuestion q)) q with heq | ⟨hset, m, rfl⟩
    · rw [run, heq]
      exact ih _ (hs _).1 (p.afterQuestion q)
    · -- the search was interrupted: whatever it has answered, nothing more is asked
      obtain ⟨hout, hasked⟩ := run_of_heeds cb sticky (hs (cb.interrupted m)).2 hset
      simp only [run, hset, Codebase.reply, if_true, hout, hasked]
      exact ⟨.inl (harmless m), asked_isPrefix _ (p.afterQuestion (.references m))⟩

theorem run_ne_finished_of_due (sticky : moment.Sticky) {s : Script α} (hs : s.LooksLast true)
    {p : Progress} (hp : moment p = true) (a : α) : (s.run cb moment p).outcome ≠ .finished a := by
  induction s generalizing p with
  | done b => cases hs
  | fail why =>
    intro h
    cases h
  | check next ih =>
    rw [run, if_pos (sticky.afterCheck p hp)]
    intro h
    cases h
  | ask q next ih => exact ih _ (hs _) (sticky.afterQuestion p q hp)

/-- **A run does not finish** if cancellation was requested before its last answer. The answers
are counted in this run, or in one where cancellation is requested later or never. -/
theorem run_ne_finished (sticky : moment.Sticky) {later : CancelMoment}
    (hlater : ∀ p, later p = true → moment p = true) {s : Script α} {due : Bool}
    (hs : s.LooksLast due) {p q : Progress} (hq : q ∈ s.answeredAt cb later p)
    (hset : moment q = true) (a : α) : (s.run cb moment p).outcome ≠ .finished a := by
  induction s generalizing p due with
  | done b => exact absurd hq List.not_mem_nil
  | fail why => exact absurd hq List.not_mem_nil
  | check next ih =>
    by_cases hp : moment p.afterCheck = true
    · rw [run, if_pos hp]
      intro h
      cases h
    · rw [answeredAt, if_neg (fun h => hp (hlater _ h))] at hq
      rw [run, if_neg hp]
      exact ih hs hq
  | ask question next ih =>
    by_cases hp : moment (p.afterQuestion question) = true
    · exact run_ne_finished_of_due sticky (hs _) hp a
    · -- cancellation comes later, so both runs have got the same answer
      have hlate : later (p.afterQuestion question) = moment (p.afterQuestion question) := by
        rw [Bool.not_eq_true] at hp
        rw [hp]
        exact Bool.eq_false_iff.2 fun h => by simp [hlater _ h] at hp
      rw [answeredAt, hlate] at hq
      rcases List.mem_cons.1 hq with rfl | hq
      · exact absurd hset hp
      · exact ih _ (hs _) hq

/-- **An interrupted search for references ends the run**, and its answer says how. -/
theorem run_interrupted (sticky : moment.Sticky) {s : Script α} (hs : s.Watched)
    {p q : Progress} {m : MethodId} (hq : q ∈ s.answeredAt cb moment p)
    (hlast : q.asked.getLast? = some (.references m)) (hset : moment q = true) :
    (s.run cb moment p).outcome = ofInterrupted (cb.interrupted m) := by
  induction s generalizing p with
  | done b => exact absurd hq List.not_mem_nil
  | fail why => exact absurd hq List.not_mem_nil
  | check next ih =>
    rw [answeredAt] at hq
    split at hq
    · exact absurd hq List.not_mem_nil
    next hp =>
      rw [run, if_neg hp]
      exact ih hs hq
  | ask question next ih =>
    rcases List.mem_cons.1 hq with rfl | hq
    · obtain rfl : question = .references m := by simpa [Progress.afterQuestion] using hlast
      simp only [run, hset, Codebase.reply, if_true]
      exact (run_of_heeds cb sticky (hs (cb.interrupted m)).2 hset).1
    · exact ih _ (hs _).1 hq

end Script

/-! ## The traversal and the search -/

namespace Traversal

open Script

variable {α : Type} {target searched m : MethodId} {t : Traversal}

theorem classify_watched : (t.classify m).Watched := by
  unfold classify
  split
  · trivial
  · exact fun _ => ⟨trivial, trivial⟩

theorem record_watched {r : Reference} : (t.record target m r).Watched :=
  fun _ => ⟨fun _ => ⟨trivial, trivial⟩, trivial⟩

theorem acceptCaller_watched {r : Reference} : (t.acceptCaller target searched r m).Watched := by
  refine classify_watched.bind fun ⟨external, t'⟩ => ?_
  dsimp only
  split
  · exact record_watched.bind fun _ => trivial
  · trivial

theorem accept_watched {r : Reference} : (t.accept target searched r).Watched := by
  unfold accept
  split
  · trivial
  · refine fun reply => ⟨?_, trivial⟩
    cases reply with
    | none => trivial
    | some caller => exact acceptCaller_watched

theorem acceptAll_watched {rs : List Reference} : (acceptAll target searched rs t).Watched := by
  induction rs generalizing t with
  | nil => trivial
  | cons r rs ih => exact accept_watched.bind fun _ => ih

/-- Going through references begins with a look, and so does what follows them if there are
none. -/
theorem acceptAll_bind_looks {rs : List Reference} {k : Traversal → Script α}
    (hk : ∀ t, (k t).Looks) : ((acceptAll target searched rs t).bind k).Looks := by
  cases rs with
  | nil => exact hk t
  | cons r rs => trivial

theorem visit_bind_watched {k : Traversal → Script α} (looks : ∀ t, (k t).Looks)
    (watched : ∀ t, (k t).Watched) : ((visit t target m).bind k).Watched := by
  refine fun present => ⟨?_, trivial⟩
  cases present with
  | false => exact watched t
  | true =>
    intro answer
    cases answer with
    | ok rs => exact ⟨acceptAll_watched.bind watched, acceptAll_bind_looks looks⟩
    | error fault =>
      simp only [Heeds]
      cases hf : fault.fatal? with
      | none => simpa [hf] using ⟨watched t, looks t⟩
      | some why => simp [hf, Watched]

theorem expand_bind_looks (fuel : Nat) {k : Traversal → Script α} (looks : ∀ t, (k t).Looks) :
    ((expand target fuel t).bind k).Looks := by
  cases fuel with
  | zero => exact looks t
  | succ fuel => trivial

theorem expand_bind_watched (fuel : Nat) {k : Traversal → Script α} (looks : ∀ t, (k t).Looks)
    (watched : ∀ t, (k t).Watched) : ((expand target fuel t).bind k).Watched := by
  induction fuel generalizing t with
  | zero => exact watched t
  | succ fuel ih =>
    rw [expand]
    simp only [bind_eq_bind, checkpoint_bind, check_bind, Watched]
    split
    · exact watched t
    · split
      · exact ih
      · rw [bind_assoc]
        exact visit_bind_watched (fun _ => expand_bind_looks fuel looks) (fun _ => ih)

end Traversal

namespace Search

open Script

theorem assemble_watched (g : CallGraph) (calls : List DirectCall) :
    (assemble g calls).Watched := by
  induction calls with
  | nil => trivial
  | cons call calls ih => exact ih.bind fun _ => trivial

theorem script_watched (callers : Nat) (target : MethodId) : (script callers target).Watched := by
  have hreport : ∀ f, (report f).Watched := fun f =>
    (assemble_watched f.graph f.directCalls).bind fun _ => trivial
  refine fun present => ⟨?_, trivial⟩
  cases present with
  | false => trivial
  | true =>
    simp only [traverse, bind_eq_bind, bind_assoc]
    refine Traversal.classify_watched.bind fun ⟨_, t⟩ => ?_
    exact Traversal.expand_bind_watched _ (fun _ => trivial) (fun _ => hreport _)

theorem assemble_looksLast (g : CallGraph) (calls : List DirectCall) :
    (assemble g calls).LooksLast false := by
  induction calls with
  | nil => rfl
  | cons call calls ih => exact ih.bind fun _ => rfl

theorem script_looksLast (callers : Nat) (target : MethodId) :
    (script callers target).LooksLast false := by
  have hreport : ∀ f, (report f).LooksLast true := fun f =>
    (assemble_looksLast f.graph f.directCalls).bind fun _ => rfl
  intro present
  cases present with
  | false => trivial
  | true => exact looksLast_bind_of_due _ hreport true

end Search

namespace Codebase

/-- The progress at which each question of a search is answered, the first one first. -/
def answeredAt (cb : Codebase) (moment : CancelMoment) (target : MethodId) : List Progress :=
  (Search.script cb.callers.length target).answeredAt cb moment {}

/-- The points of a search at which questions are answered are one for each question. -/
theorem asked_eq_answeredAt (cb : Codebase) (moment : CancelMoment) (target : MethodId) :
    (cb.search moment target).progress.asked =
      (cb.answeredAt moment target).filterMap (·.asked.getLast?) :=
  Script.asked_eq_answeredAt _ {}

/-- **Cancellation never changes an answer, it only suppresses it.** Whenever it is requested, the
search is cancelled or ends as it does without cancellation, and what was asked is the beginning
of what is asked without it. If it was requested before some question was answered, of this
search or of the one without cancellation, no result is reported. -/
theorem search_cancelled_or_unchanged (cb : Codebase) (moment : CancelMoment)
    (sticky : moment.Sticky)
    (interrupted : ∀ m fault, cb.interrupted m = .error fault → ∃ message, fault = .query message)
    (target : MethodId) :
    ((cb.search moment target).outcome = .cancelled ∨
      (cb.search moment target).outcome = (cb.search .never target).outcome) ∧
    (cb.search moment target).progress.asked <+: (cb.search .never target).progress.asked ∧
    ∀ p, p ∈ cb.answeredAt moment target ∨ p ∈ cb.answeredAt .never target → moment p = true →
      ∀ report, (cb.search moment target).outcome ≠ .finished report := by
  have harmless : ∀ m, Script.ofInterrupted (cb.interrupted m) = (.cancelled : Outcome Report) := by
    intro m
    cases hm : cb.interrupted m with
    | ok rs => rfl
    | error fault =>
      obtain ⟨message, rfl⟩ := interrupted m fault hm
      rfl
  have watched := Search.script_watched cb.callers.length target
  have looksLast := Search.script_looksLast cb.callers.length target
  obtain ⟨houtcome, hasked⟩ := Script.run_cancelled_or_never sticky harmless watched {}
  have hnever : ∀ p, CancelMoment.never p = true → moment p = true := fun _ h => nomatch h
  refine ⟨houtcome, hasked, fun p hp hset report => ?_⟩
  rcases hp with hp | hp
  · exact Script.run_ne_finished sticky (fun _ h => h) looksLast hp hset report
  · exact Script.run_ne_finished sticky hnever looksLast hp hset report

/-- The point at which the first search for references is answered, the one for the target. -/
def firstSearch (target : MethodId) : Progress where
  asked := [.isPresent target, .isExternal target, .isPresent target, .references target]
  checks := 1

/-- Two methods, of which the second calls the first. -/
def oneCall : Tables where
  methods := [⟨"shop.Cart#add(Item)"⟩, ⟨"shop.Page#buy()"⟩]
  references := [(⟨"shop.Cart#add(Item)"⟩,
    ⟨"Page.java", 120, 9, .exact, some ⟨"shop.Page#buy()"⟩⟩)]
  lines := [(120, 7)]

/-- The same code, where an interrupted search for references gives up. -/
def oneCallGivingUp : Codebase :=
  { oneCall.codebase with interrupted := fun _ => .error (.query "gave up") }

theorem oneCallGivingUp_not_finished :
    (CancelMoment.atQuestion 4).Sticky ∧
    (∀ m fault, oneCallGivingUp.interrupted m = .error fault → ∃ text, fault = .query text) ∧
    ∀ report, (oneCallGivingUp.search (.atQuestion 4) ⟨"shop.Cart#add(Item)"⟩).outcome ≠
      .finished report := by
  have sticky := CancelMoment.atQuestion_sticky 4
  have interrupted : ∀ m fault, oneCallGivingUp.interrupted m = .error fault →
      ∃ text, fault = .query text := fun m fault h => ⟨"gave up", by cases h; rfl⟩
  refine ⟨sticky, interrupted, ?_⟩
  refine (search_cancelled_or_unchanged oneCallGivingUp (.atQuestion 4) sticky interrupted
    ⟨"shop.Cart#add(Item)"⟩).2.2 (firstSearch ⟨"shop.Cart#add(Item)"⟩) ?_ rfl
  exact .inl (by decide)

/-- **A search for references that is interrupted** ends the search as cancelled exactly where it
answers with references or with the failure of one query. The answer that no method can be
searched is reported instead, although cancellation has been requested. -/
theorem search_interrupted_outcome (cb : Codebase) (moment : CancelMoment)
    (sticky : moment.Sticky) (target m : MethodId) (p : Progress)
    (answered : p ∈ cb.answeredAt moment target)
    (last : p.asked.getLast? = some (.references m)) (requested : moment p = true) :
    ((cb.search moment target).outcome = .cancelled ↔
      (∃ rs, cb.interrupted m = .ok rs) ∨ ∃ message, cb.interrupted m = .error (.query message)) ∧
    ∀ message, cb.interrupted m = .error (.unavailable message) →
      (cb.search moment target).outcome = .failed (.unavailable message) := by
  have houtcome : (cb.search moment target).outcome = Script.ofInterrupted (cb.interrupted m) :=
    Script.run_interrupted sticky (Search.script_watched _ _) answered last requested
  rw [houtcome]
  constructor
  · rcases cb.interrupted m with (message | message | message) | rs
    · simp [Script.ofInterrupted, SearchFault.fatal?]
    · simp [Script.ofInterrupted, SearchFault.fatal?]
    · simp [Script.ofInterrupted, SearchFault.fatal?]
    · simp [Script.ofInterrupted]
  · intro message hm
    rw [hm]
    rfl

/-- A method whose references cannot be searched, because no method can be. -/
def indexDown : Tables where
  methods := [⟨"shop.Cart#add(Item)"⟩]
  faults := [(⟨"shop.Cart#add(Item)"⟩, .unavailable "index is down")]

theorem indexDown_interrupted_outcome :
    (indexDown.codebase.search (.atQuestion 4) ⟨"shop.Cart#add(Item)"⟩).outcome =
      .failed (.unavailable "index is down") :=
  (search_interrupted_outcome indexDown.codebase (.atQuestion 4) (CancelMoment.atQuestion_sticky 4)
    ⟨"shop.Cart#add(Item)"⟩ ⟨"shop.Cart#add(Item)"⟩ (firstSearch ⟨"shop.Cart#add(Item)"⟩)
    (by decide) rfl rfl).2 "index is down" rfl

/-- It is not so that every interrupted search for references ends the search as cancelled. -/
theorem indexDown_hides_cancellation :
    ¬ ∀ (cb : Codebase) (moment : CancelMoment), moment.Sticky →
      ∀ (target m : MethodId) (p : Progress), cb.isPresent target = true →
        p ∈ cb.answeredAt moment target → p.asked.getLast? = some (.references m) →
        moment p = true → (cb.search moment target).outcome = .cancelled := by
  intro h
  have := h indexDown.codebase (.atQuestion 4) (CancelMoment.atQuestion_sticky 4)
    ⟨"shop.Cart#add(Item)"⟩ ⟨"shop.Cart#add(Item)"⟩ (firstSearch ⟨"shop.Cart#add(Item)"⟩)
    (by decide) (by decide) rfl rfl
  cases this

end Codebase
end CallOrigins
