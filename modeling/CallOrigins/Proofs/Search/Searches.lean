import CallOrigins.Proofs.Search.Findings
import CallOrigins.Proofs.Search.Promptness
import CallOrigins.Proofs.Search.Questions

/-!
# What is counted as searched

The findings of a traversal tell a number of methods searched. It is taken from the methods that
were met, and not where searches are made: every method that is met is looked for, but only one that
exists is searched. So the number is that of the searches and of the methods that were looked for in
vain (`traverse_methodsSearched`), and it is too large as soon as one method that is reached does
not exist (`missingCaller_miscounted`).

The invariant ties the methods that were met to the questions asked so far (`Traversal.Tallied`).
Only looking for a method and searching it count in it, so the parts of the traversal that accept
references keep it as it is.
-/

namespace CallOrigins

/-! ## Questions that look for a method -/

/-- The method that a question looks for. -/
def Question.lookedFor? : Question → Option MethodId
  | isPresent m => some m
  | _ => none

/-- The methods that were looked for, in their order. -/
def lookedFor (asked : List Question) : List MethodId :=
  asked.filterMap Question.lookedFor?

theorem mem_lookedFor {asked : List Question} {m : MethodId} :
    m ∈ lookedFor asked ↔ .isPresent m ∈ asked := by
  rw [lookedFor, List.mem_filterMap]
  constructor
  · rintro ⟨q, hq, hm⟩
    cases q with
    | isPresent n =>
      cases hm
      exact hq
    | _ => cases hm
  · exact fun hm => ⟨.isPresent m, hm, rfl⟩

/-- No method is looked for twice. -/
theorem Ruled.nodup_lookedFor {cb : Codebase} {target : MethodId} {asked : List Question}
    (h : Ruled (MayAsk cb target) asked) : (lookedFor asked).Nodup := by
  induction h with
  | nil => exact List.nodup_nil
  | @concat asked q _ hq ih =>
    rw [lookedFor, List.filterMap_append]
    cases hq with
    | @isPresent m _ first =>
      refine List.nodup_append.2 ⟨ih, List.pairwise_singleton _ _, fun x hx y hy hxy => first ?_⟩
      rw [← mem_lookedFor, ← List.mem_singleton.1 hy, ← hxy]
      exact hx
    | _ => rwa [List.filterMap_cons_none rfl, List.filterMap_nil, List.append_nil]

namespace Traversal

open Script

/-- **The methods that were met are those that were looked for**, in their order, and as many were
searched as exist of them. -/
structure Tallied (cb : Codebase) (t : Traversal) (asked : List Question) : Prop where
  looked : lookedFor asked = t.visited.reverse
  searches : asked.countP Question.isSearch = (lookedFor asked).countP cb.isPresent

variable {cb : Codebase} {target searched m : MethodId} {t t' : Traversal} {asked : List Question}

theorem tallied_seeded (cb : Codebase) (target : MethodId) : Tallied cb (seeded target) [] :=
  ⟨rfl, rfl⟩

/-- Nothing but the methods that were met counts. -/
theorem Tallied.of_visited_eq (h : Tallied cb t asked) (hvisited : t'.visited = t.visited) :
    Tallied cb t' asked :=
  ⟨by rw [h.looked, hvisited], h.searches⟩

/-- A question that neither looks for a method nor searches one. -/
theorem Tallied.concat (h : Tallied cb t asked) {q : Question} (notLooked : q.lookedFor? = none)
    (notSearch : q.isSearch = false) : Tallied cb t (asked ++ [q]) := by
  have hlooked : lookedFor (asked ++ [q]) = lookedFor asked := by simp [lookedFor, notLooked]
  refine ⟨by rw [hlooked, h.looked], ?_⟩
  rw [hlooked, ← h.searches, List.countP_append]
  simp [notSearch]

/-- A method that does not exist is looked for, and that is all. -/
theorem Tallied.absent (h : Tallied cb t asked) (hm : cb.isPresent m = false)
    (hvisited : t'.visited = m :: t.visited) : Tallied cb t' (asked ++ [.isPresent m]) := by
  have hlooked : lookedFor (asked ++ [.isPresent m]) = lookedFor asked ++ [m] := by
    simp [lookedFor, Question.lookedFor?]
  refine ⟨by rw [hlooked, h.looked, hvisited, List.reverse_cons], ?_⟩
  rw [hlooked, List.countP_append, List.countP_append, h.searches]
  simp [hm, Question.isSearch]

/-- A method that exists is looked for and then searched. -/
theorem Tallied.present (h : Tallied cb t asked) (hm : cb.isPresent m = true)
    (hvisited : t'.visited = m :: t.visited) :
    Tallied cb t' (asked ++ [.isPresent m] ++ [.references m]) := by
  have hlooked : lookedFor (asked ++ [.isPresent m] ++ [.references m]) =
      lookedFor asked ++ [m] := by
    simp [lookedFor, Question.lookedFor?]
  refine ⟨by rw [hlooked, h.looked, hvisited, List.reverse_cons], ?_⟩
  rw [hlooked, List.countP_append, List.countP_append, List.countP_append, h.searches]
  simp [hm, Question.isSearch]

/-! ## The parts of the traversal -/

/-- A part of the traversal that keeps the tally, whatever is answered. -/
def Tallies (cb : Codebase) (s : Script Traversal) (asked : List Question) : Prop :=
  s.Follows cb (fun _ _ => True) (fun _ => True) (fun asked t => Tallied cb t asked) asked

theorem classify_tallies (h : Tallied cb t asked) (m : MethodId) :
    (t.classify m).Follows cb (fun _ _ => True) (fun _ => True)
      (fun asked a => Tallied cb a.2 asked) asked := by
  unfold classify
  cases t.external.lookup m with
  | some external => exact h
  | none => exact ⟨trivial, fun _ => (h.concat rfl rfl).of_visited_eq rfl⟩

theorem record_tallies (h : Tallied cb t asked) (r : Reference) :
    Tallies cb (t.record target m r) asked := by
  refine ⟨trivial, fun _ => ⟨trivial, fun _ => ?_⟩⟩
  exact ((h.concat rfl rfl).concat rfl rfl).of_visited_eq rfl

theorem visited_enqueue (t : Traversal) (m : MethodId) : (t.enqueue m).visited = t.visited := by
  unfold enqueue
  split <;> rfl

theorem acceptCaller_tallies (h : Tallied cb t asked) (r : Reference) :
    Tallies cb (t.acceptCaller target searched r m) asked := by
  refine (classify_tallies h m).bind fun asked a ha => ?_
  obtain ⟨external, t⟩ := a
  have hlast : ∀ asked t, Tallied cb t asked →
      Tallied cb (if external then t else t.enqueue m) asked := by
    intro asked t ht
    cases external with
    | true => exact ht
    | false => exact ht.of_visited_eq (visited_enqueue t m)
  have hedge : Tallied cb { t with graph := t.graph.addEdge searched m } asked :=
    ha.of_visited_eq rfl
  dsimp only
  split
  next => exact (record_tallies hedge r).bind fun asked t ht => hlast asked t ht
  next => exact hlast asked _ hedge

theorem accept_tallies (h : Tallied cb t asked) (r : Reference) :
    Tallies cb (t.accept target searched r) asked := by
  unfold accept
  cases r.accuracy with
  | potential => exact h
  | exact =>
    have hasked : Tallied cb t (asked ++ [.enclosing r]) := h.concat rfl rfl
    refine ⟨trivial, fun _ => ?_⟩
    dsimp only [Codebase.reply]
    cases cb.enclosing r with
    | none => exact hasked
    | some caller => exact acceptCaller_tallies hasked r

theorem acceptAll_tallies (rs : List Reference) (h : Tallied cb t asked) :
    Tallies cb (acceptAll target searched rs t) asked := by
  induction rs generalizing t asked with
  | nil => exact h
  | cons r rs ih => exact (accept_tallies h r).bind fun asked t ht => ih ht

/-- **One round**: the method that is taken off the queue is looked for, and searched if it exists.
-/
theorem visit_tallies (h : Tallied cb t asked) (hvisited : t'.visited = m :: t.visited) :
    Tallies cb (visit t' target m) asked := by
  refine ⟨trivial, fun _ => ?_⟩
  dsimp only [Codebase.reply]
  cases hm : cb.isPresent m with
  | false => exact h.absent hm hvisited
  | true =>
    refine ⟨trivial, fun cancelled => ?_⟩
    have hsearched := h.present hm hvisited
    generalize cb.reply cancelled (.references m) = answer
    rcases answer with fault | rs
    · simp only [done_bind]
      cases fault.fatal? with
      | none => exact hsearched
      | some why => trivial
    · exact acceptAll_tallies rs hsearched

/-- **All rounds** keep the tally. -/
theorem expand_tallies (fuel : Nat) (h : Tallied cb t asked) :
    Tallies cb (expand target fuel t) asked := by
  induction fuel generalizing t asked with
  | zero => exact h
  | succ fuel ih =>
    rw [expand]
    simp only [bind_eq_bind, checkpoint_bind]
    split
    next => exact h
    next m queue hqueue =>
      split
      next => exact ih (h.of_visited_eq rfl)
      next => exact (visit_tallies h rfl).bind fun asked t ht => ih ht

/-- The traversal before its first round. -/
def started (cb : Codebase) (target : MethodId) : Traversal :=
  (seeded target).noteExternal target (cb.isExternal target)

end Traversal

theorem traverse_tallies (cb : Codebase) (callers : Nat) (target : MethodId) :
    (traverse callers target).Follows cb (fun _ _ => True) (fun _ => True)
      (fun asked f => ∃ t, Traversal.Tallied cb t asked ∧ f = t.findings) [] := by
  refine (Traversal.classify_tallies (Traversal.tallied_seeded cb target) target).bind
    fun asked a ha => ?_
  exact (Traversal.expand_tallies (callers + 2) ha).bind fun asked t ht => ⟨t, ht, rfl⟩

namespace Codebase

variable {cb : Codebase} {target : MethodId}

/-- A traversal asks first whether the target is external, and after its rounds it asks nothing. -/
theorem asked_traverse (cb : Codebase) (moment : CancelMoment) (target : MethodId) :
    (cb.traverse moment target).progress.asked =
      ((Traversal.expand target (cb.callers.length + 2) (Traversal.started cb target)).run cb moment
        (Progress.afterQuestion {} (.isExternal target))).progress.asked :=
  Script.asked_bind_of_silent cb moment
    (Traversal.expand target (cb.callers.length + 2) (Traversal.started cb target))
    (f := fun t => .done t.findings) (fun _ => trivial) _

/-- **Without cancellation the reached methods are looked for**, in breadth-first order. -/
theorem lookedFor_traverse (harmless : (cb.breadthFirst target).findSome? cb.fatal? = none) :
    lookedFor (cb.traverse .never target).progress.asked = cb.breadthFirst target := by
  obtain ⟨t, hclassify, -, hends⟩ := Traversal.eval_expand_start cb target
  obtain ⟨t', hexpand, -, hvisited⟩ := hends harmless
  obtain rfl : Traversal.started cb target = t := congrArg Prod.snd (Except.ok.inj hclassify)
  have hstart : Traversal.Tallied cb (Traversal.started cb target)
      (Progress.afterQuestion {} (.isExternal target)).asked :=
    ((Traversal.tallied_seeded cb target).concat rfl rfl).of_visited_eq rfl
  have hrun : ((Traversal.expand target (cb.callers.length + 2) (Traversal.started cb target)).run cb
      .never (Progress.afterQuestion {} (.isExternal target))).outcome = .finished t' := by
    rw [Script.run_never_outcome, hexpand]
    rfl
  have hlooked := ((Traversal.expand_tallies (cb.callers.length + 2) hstart).finished hrun).looked
  rw [asked_traverse, hlooked, hvisited, List.reverse_reverse]

/-- **The number of methods searched**, whenever a traversal finishes, is that of its searches and
of the methods that it looked for in vain. The two numbers are one exactly where every method that
was looked for exists; without cancellation these are the methods reached from the target. -/
theorem traverse_methodsSearched (cb : Codebase) (moment : CancelMoment) (target : MethodId)
    (f : Findings) (finished : (cb.traverse moment target).outcome = .finished f) :
    ∃ missing : Finset MethodId,
      (∀ m, m ∈ missing ↔
        .isPresent m ∈ (cb.traverse moment target).progress.asked ∧ cb.isPresent m = false) ∧
      f.methodsSearched =
        (cb.traverse moment target).progress.asked.countP Question.isSearch + missing.card ∧
      (f.methodsSearched = (cb.traverse moment target).progress.asked.countP Question.isSearch ↔
        ∀ m, .isPresent m ∈ (cb.traverse moment target).progress.asked → cb.isPresent m = true) ∧
      ((∀ p, moment p = false) → ∀ m,
        .isPresent m ∈ (cb.traverse moment target).progress.asked ↔ cb.Reached target m) := by
  obtain ⟨t, htallied, rfl⟩ :=
    (traverse_tallies cb cb.callers.length target).finished (p := {}) finished
  have hnodup := (cb.traverse_ruled moment target).1.nodup_lookedFor
  have hreached : (∀ p, moment p = false) → ∀ m,
      .isPresent m ∈ (cb.traverse moment target).progress.asked ↔ cb.Reached target m := by
    intro never m
    obtain rfl : moment = .never := funext never
    rw [← mem_lookedFor, lookedFor_traverse (complete_of_finished finished).2, mem_breadthFirst]
  change t.Tallied cb (cb.traverse moment target).progress.asked at htallied
  generalize (cb.traverse moment target).progress.asked = asked at *
  have hmem : ∀ m, m ∈ ((lookedFor asked).filter fun m => !cb.isPresent m).toFinset ↔
      .isPresent m ∈ asked ∧ cb.isPresent m = false := by
    intro m
    rw [List.mem_toFinset, List.mem_filter, mem_lookedFor, Bool.not_eq_true']
  have hcount : t.findings.methodsSearched = asked.countP Question.isSearch +
      ((lookedFor asked).filter fun m => !cb.isPresent m).toFinset.card := by
    have hlength : t.findings.methodsSearched = (lookedFor asked).length := by
      rw [htallied.looked, List.length_reverse]
      rfl
    rw [List.toFinset_card_of_nodup (hnodup.filter _), ← List.countP_eq_length_filter, hlength,
      htallied.searches]
    simpa using List.length_eq_countP_add_countP cb.isPresent
  refine ⟨_, hmem, hcount, ?_, hreached⟩
  rw [hcount, Nat.add_eq_left, Finset.card_eq_zero, Finset.eq_empty_iff_forall_notMem]
  refine forall_congr' fun m => ?_
  rw [hmem, not_and, Bool.not_eq_false]

/-- A target with one caller, which does not exist any more. -/
def missingCaller : Tables where
  methods := [⟨"shop.Cart#add(Item)"⟩]
  references := [(⟨"shop.Cart#add(Item)"⟩,
    ⟨"Page.java", 120, 9, .exact, some ⟨"shop.Page#buy()"⟩⟩)]
  lines := [(120, 7)]

/-- What is found from a target whose caller does not exist. -/
def missingCallerFindings : Findings where
  graph := CallGraph.addEdge {} ⟨"shop.Cart#add(Item)"⟩ ⟨"shop.Page#buy()"⟩
  directCalls := [⟨⟨"shop.Page#buy()"⟩, some 7, [], 120, 9⟩]
  methodsSearched := 2

/-- The caller that does not exist is counted, as the one method that was looked for in vain. -/
theorem missingCaller_methodsSearched :
    (missingCaller.codebase.traverse .never ⟨"shop.Cart#add(Item)"⟩).outcome =
      .finished missingCallerFindings ∧
    ∃ missing : Finset MethodId, ⟨"shop.Page#buy()"⟩ ∈ missing ∧
      missingCallerFindings.methodsSearched = 1 + missing.card := by
  have finished : (missingCaller.codebase.traverse .never ⟨"shop.Cart#add(Item)"⟩).outcome =
      .finished missingCallerFindings := rfl
  refine ⟨finished, ?_⟩
  obtain ⟨missing, hmem, hcount, -, -⟩ := traverse_methodsSearched _ _ _ _ finished
  exact ⟨missing, (hmem _).2 (by decide), hcount⟩

/-- It is not so that the number told is always that of the searches. -/
theorem missingCaller_miscounted :
    ¬ ∀ (cb : Codebase) (target : MethodId) (f : Findings),
      (cb.traverse .never target).outcome = .finished f →
        f.methodsSearched =
          (cb.traverse .never target).progress.asked.countP Question.isSearch := by
  intro h
  have htold := h missingCaller.codebase ⟨"shop.Cart#add(Item)"⟩ missingCallerFindings rfl
  exact absurd htold (by decide)

end Codebase
end CallOrigins
