import CallOrigins.Proofs.Search.Traversal
import CallOrigins.Search
import CallOrigins.Search.Tables

/-!
# When a search fails

A search without cancellation either reports or fails, and the answers of the codebase decide
which. Reporting itself never fails (`eval_report`), so a search for a target that exists fails as
its traversal does (`eval_script_of_fatal`), and otherwise reports complete findings
(`eval_script_of_none`).

**The law** (`search_fails_exactly`): where no search for references breaks down, there are just
two failures. The target does not exist, or some reached method answers that no method can be
searched; the first such answer in breadth-first order is the one that is told. Nothing else ends
a search: not the failure of one query, a method that does not exist, a reference outside of all
methods, or arguments that could not be read.
-/

namespace CallOrigins

/-- What is reported of findings. -/
def Findings.reported (f : Findings) : Report where
  rows := f.directCalls.flatMap (Search.rowsOf f.graph)
  directCalls := f.directCalls.length
  methodsSearched := f.methodsSearched
  edges := f.graph.edgeCount

namespace Search

variable {cb : Codebase} {target : MethodId}

theorem eval_assemble (g : CallGraph) (calls : List DirectCall) :
    (assemble g calls).eval cb = .ok (calls.flatMap (rowsOf g)) := by
  induction calls with
  | nil => rfl
  | cons call calls ih =>
    rw [assemble, Script.bind_eq_bind, Script.checkpoint_bind, Script.eval_check,
      Script.bind_eq_bind, Script.eval_bind_of_ok ih]
    rfl

/-- Findings can always be reported. -/
theorem eval_report (f : Findings) : (report f).eval cb = .ok f.reported := by
  rw [report, Script.bind_eq_bind, Script.checkpoint_bind, Script.eval_check,
    Script.bind_eq_bind, Script.eval_bind_of_ok (eval_assemble ..)]
  rfl

/-- The script for a target that exists is its traversal and the report of it. -/
theorem eval_script_of_present (callers : Nat) (present : cb.isPresent target = true) :
    (script callers target).eval cb = ((traverse callers target).bind report).eval cb := by
  rw [script, Script.bind_eq_bind, Script.eval_bind_of_ok (Script.eval_put _), Codebase.reply,
    if_pos present]
  rfl

theorem eval_script_of_fatal {why : Failure} (present : cb.isPresent target = true)
    (fatal : (cb.breadthFirst target).findSome? cb.fatal? = some why) :
    (script cb.callers.length target).eval cb = .error why := by
  rw [eval_script_of_present _ present]
  exact Script.eval_bind_of_error ((eval_traverse cb target).1 why fatal) report

theorem eval_script_of_none (present : cb.isPresent target = true)
    (harmless : (cb.breadthFirst target).findSome? cb.fatal? = none) :
    ∃ f : Findings, f.Complete cb target ∧
      (script cb.callers.length target).eval cb = .ok f.reported := by
  obtain ⟨f, htraverse, hcomplete⟩ := (eval_traverse cb target).2 harmless
  refine ⟨f, hcomplete, ?_⟩
  rw [eval_script_of_present _ present, Script.eval_bind_of_ok htraverse, eval_report]

end Search

namespace Codebase

variable {cb : Codebase} {target m : MethodId}

/-- Every search for references is answered: none of them breaks down. -/
def Answers (cb : Codebase) : Prop :=
  ∀ m message, cb.references m ≠ .error (.crash message)

/-- The message by which the search for a method that exists says that no method can be
searched. -/
def outage? (cb : Codebase) (m : MethodId) : Option String :=
  if cb.isPresent m then
    match cb.references m with
    | .error (.unavailable message) => some message
    | _ => none
  else none

theorem outage?_eq_some {message : String} : cb.outage? m = some message ↔
    cb.isPresent m = true ∧ cb.references m = .error (.unavailable message) := by
  unfold outage?
  cases cb.isPresent m with
  | false => simp
  | true => rcases cb.references m with (_ | _ | _) | rs <;> simp

/-- Where searches are answered, nothing but an outage is fatal. -/
theorem Answers.fatal?_eq (answers : cb.Answers) (m : MethodId) :
    cb.fatal? m = (cb.outage? m).map .unavailable := by
  unfold fatal? outage?
  split
  · rcases hm : cb.references m with (message | message | message) | rs
    · rfl
    · rfl
    · exact absurd hm (answers m message)
    · rfl
  · rfl

theorem Answers.findSome?_fatal? (answers : cb.Answers) (ms : List MethodId) :
    ms.findSome? cb.fatal? = (ms.findSome? cb.outage?).map .unavailable := by
  rw [List.map_findSome?]
  congr
  exact funext answers.fatal?_eq

/-- Some reached method that exists answers that no method can be searched. -/
def ReachesOutage (cb : Codebase) (target : MethodId) : Prop :=
  ∃ m message, cb.Reached target m ∧ cb.isPresent m = true ∧
    cb.references m = .error (.unavailable message)

/-- The breadth-first order has an outage exactly where one is reached. -/
theorem reachesOutage_iff : cb.ReachesOutage target ↔
    ∃ message, (cb.breadthFirst target).findSome? cb.outage? = some message := by
  constructor
  · rintro ⟨m, message, hreached, hm⟩
    have hsome : ((cb.breadthFirst target).findSome? cb.outage?).isSome := by
      rw [List.findSome?_isSome_iff]
      refine ⟨m, mem_breadthFirst.2 hreached, ?_⟩
      rw [outage?_eq_some.2 hm]
      rfl
    exact Option.isSome_iff_exists.1 hsome
  · rintro ⟨message, hfirst⟩
    obtain ⟨m, hmem, hm⟩ := List.exists_of_findSome?_eq_some hfirst
    exact ⟨m, message, mem_breadthFirst.1 hmem, outage?_eq_some.1 hm⟩

theorem traverse_never_outcome (cb : Codebase) (target : MethodId) :
    (cb.traverse .never target).outcome =
      .ofResult ((CallOrigins.traverse cb.callers.length target).eval cb) :=
  Script.run_never_outcome _ _

/-- Where no search is fatal, a traversal finishes with complete findings. -/
theorem traverse_of_none (harmless : (cb.breadthFirst target).findSome? cb.fatal? = none) :
    ∃ f : Findings, (cb.traverse .never target).outcome = .finished f ∧ f.Complete cb target := by
  obtain ⟨f, heval, hcomplete⟩ := (eval_traverse cb target).2 harmless
  refine ⟨f, ?_, hcomplete⟩
  rw [traverse_never_outcome, heval]
  rfl

theorem search_never_outcome (cb : Codebase) (target : MethodId) :
    (cb.search .never target).outcome =
      .ofResult ((Search.script cb.callers.length target).eval cb) :=
  Script.run_never_outcome _ _

/-- Where no outage is reached, no search is fatal. -/
theorem Answers.not_fatal (answers : cb.Answers) (available : ¬ cb.ReachesOutage target) :
    (cb.breadthFirst target).findSome? cb.fatal? = none := by
  rw [answers.findSome?_fatal?, Option.map_eq_none_iff, Option.eq_none_iff_forall_ne_some]
  exact fun message hm => available (reachesOutage_iff.2 ⟨message, hm⟩)

/-- Where the target exists and no outage is reached, a search reports complete findings. -/
theorem Answers.search_of_available (answers : cb.Answers) (present : cb.isPresent target = true)
    (available : ¬ cb.ReachesOutage target) :
    ∃ f : Findings, f.Complete cb target ∧
      (cb.search .never target).outcome = .finished f.reported := by
  obtain ⟨f, hcomplete, heval⟩ := Search.eval_script_of_none present (answers.not_fatal available)
  refine ⟨f, hcomplete, ?_⟩
  rw [search_never_outcome, heval]
  rfl

/-- A target that does not exist is all that is asked for. -/
theorem search_of_not_present (absent : cb.isPresent target = false) :
    cb.search .never target =
      ⟨.failed (.invalidTarget target.text "method does not exist"), ⟨[.isPresent target], 0⟩⟩ := by
  have hrun : cb.search .never target = Script.run cb .never
      (if cb.isPresent target then
        (CallOrigins.traverse cb.callers.length target).bind Search.report
      else .fail (.invalidTarget target.text "method does not exist"))
      ⟨[.isPresent target], 0⟩ := rfl
  rw [hrun, if_neg (by simp [absent])]
  rfl

/-- The three ways in which a search without cancellation ends. -/
theorem Answers.search_cases (answers : cb.Answers) (target : MethodId) :
    (cb.isPresent target = false ∧ (cb.search .never target).outcome =
      .failed (.invalidTarget target.text "method does not exist")) ∨
    (cb.isPresent target = true ∧ ∃ message,
      (cb.breadthFirst target).findSome? cb.outage? = some message ∧
      (cb.search .never target).outcome = .failed (.unavailable message)) ∨
    (cb.isPresent target = true ∧ (cb.breadthFirst target).findSome? cb.outage? = none ∧
      ∃ report, (cb.search .never target).outcome = .finished report) := by
  cases present : cb.isPresent target with
  | false =>
    refine .inl ⟨rfl, ?_⟩
    rw [search_of_not_present present]
  | true =>
    have hfatal := answers.findSome?_fatal? (cb.breadthFirst target)
    rw [search_never_outcome]
    cases hfirst : (cb.breadthFirst target).findSome? cb.outage? with
    | some message =>
      rw [hfirst] at hfatal
      refine .inr (.inl ⟨rfl, message, rfl, ?_⟩)
      rw [Search.eval_script_of_fatal present hfatal]
      rfl
    | none =>
      rw [hfirst] at hfatal
      obtain ⟨f, -, heval⟩ := Search.eval_script_of_none present hfatal
      refine .inr (.inr ⟨rfl, rfl, ?_⟩)
      rw [heval]
      exact ⟨_, rfl⟩

/-- **A search without cancellation fails exactly so.** It tells that the target does not exist
where that is so, and then searches for nothing; else it tells the first outage among the reached
methods in breadth-first order; else it reports. No other failure is ever told. -/
theorem search_fails_exactly (cb : Codebase) (answers : cb.Answers) (target : MethodId) :
    ((∃ text reason, (cb.search .never target).outcome = .failed (.invalidTarget text reason)) ↔
      cb.isPresent target = false) ∧
    (cb.isPresent target = false →
      (cb.search .never target).outcome =
        .failed (.invalidTarget target.text "method does not exist") ∧
      ∀ m, .references m ∉ (cb.search .never target).progress.asked) ∧
    (∀ message, (cb.search .never target).outcome = .failed (.unavailable message) ↔
      cb.isPresent target = true ∧
        (cb.breadthFirst target).findSome? cb.outage? = some message) ∧
    ((∃ message, (cb.search .never target).outcome = .failed (.unavailable message)) ↔
      cb.isPresent target = true ∧ cb.ReachesOutage target) ∧
    ((∃ report, (cb.search .never target).outcome = .finished report) ↔
      cb.isPresent target = true ∧ ¬ cb.ReachesOutage target) ∧
    (∀ why, (cb.search .never target).outcome = .failed why →
      why = .invalidTarget target.text "method does not exist" ∨
      ∃ message, why = .unavailable message) ∧
    (cb.search .never target).outcome ≠ .cancelled := by
  rw [reachesOutage_iff]
  have hasked : cb.isPresent target = false →
      ∀ m, .references m ∉ (cb.search .never target).progress.asked := by
    intro absent m hm
    rw [search_of_not_present absent] at hm
    simp at hm
  rcases answers.search_cases target with
    ⟨present, houtcome⟩ | ⟨present, message, hfirst, houtcome⟩ | ⟨present, hfirst, report, houtcome⟩
  · simp [present, houtcome, hasked present]
  · simp [present, houtcome, hfirst]
  · simp [present, houtcome, hfirst]

/-- Two callers of which no method can be searched, after one that failed alone and one that does
not exist. Going depth first, the caller of the first caller would be met before the others. -/
def twoOutages : Tables where
  methods := [⟨"shop.Cart#add(Item)"⟩, ⟨"shop.Page#buy()"⟩, ⟨"shop.Page#sell()"⟩,
    ⟨"shop.Page#open()"⟩, ⟨"shop.Cart#merge(Cart)"⟩]
  references := [
    (⟨"shop.Cart#add(Item)"⟩, ⟨"Page.java", 120, 9, .exact, some ⟨"shop.Page#buy()"⟩⟩),
    (⟨"shop.Cart#add(Item)"⟩, ⟨"Cart.java", 300, 9, .exact, some ⟨"shop.Cart#merge(Cart)"⟩⟩),
    (⟨"shop.Cart#add(Item)"⟩, ⟨"Old.java", 40, 9, .exact, some ⟨"shop.Old#load()"⟩⟩),
    (⟨"shop.Cart#add(Item)"⟩, ⟨"Page.java", 180, 9, .exact, some ⟨"shop.Page#sell()"⟩⟩),
    (⟨"shop.Page#buy()"⟩, ⟨"Page.java", 20, 5, .exact, some ⟨"shop.Page#open()"⟩⟩)]
  faults := [(⟨"shop.Page#open()"⟩, .unavailable "index is gone"),
    (⟨"shop.Cart#merge(Cart)"⟩, .query "timeout"),
    (⟨"shop.Old#load()"⟩, .unavailable "never asked"),
    (⟨"shop.Page#sell()"⟩, .unavailable "index is down")]

theorem twoOutages_answers : twoOutages.codebase.Answers := by
  intro m message hcrash
  have hfaults : ∀ e ∈ twoOutages.faults, e.2 ≠ .crash message := by simp [twoOutages]
  change twoOutages.searchOf m = _ at hcrash
  unfold Tables.searchOf at hcrash
  split at hcrash
  next fault hfault =>
    cases hcrash
    exact hfaults _ (Tables.mem_of_last? hfault) rfl
  next => cases hcrash

theorem twoOutages_first_told :
    twoOutages.codebase.Answers ∧
    (twoOutages.codebase.search .never ⟨"shop.Cart#add(Item)"⟩).outcome =
      .failed (.unavailable "index is down") :=
  ⟨twoOutages_answers, ((search_fails_exactly twoOutages.codebase twoOutages_answers
    ⟨"shop.Cart#add(Item)"⟩).2.2.1 "index is down").2 ⟨by decide, by decide⟩⟩

end Codebase
end CallOrigins
