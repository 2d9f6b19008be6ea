import CallOrigins.Proofs.Search.Questions
import CallOrigins.Proofs.Search.Traversal
import Mathlib.Data.Set.Card

/-!
# The rounds of a traversal

A traversal works its queue off in rounds. A round looks whether cancellation has been requested,
takes one method off the queue and accepts what is found of it. Its state is spread over seven
collections that are kept in step with each other at different places of a round, and a round has
many ways out: the method is missing, its search fails, a reference is only a potential one or
stands in no method.

**The law** (`traverse_rounds`): at the start of every round the collections agree (`Consistent`).
So no method is ever taken off the queue a second time, and there are at most as many rounds that
take one off as there are methods that can be reached.

That they agree does not depend on the answers, so it holds of every codebase, whenever
cancellation is requested, and also after a search that was interrupted. The number of rounds does
depend on them: an interrupted search may answer with anything. But after it no round gets past its
look any more, because cancellation stays requested.
-/

namespace CallOrigins

namespace Traversal

open Script

/-! ## Rounds -/

/-- **One round**: a look, and then the first method of the queue. Gives the state after it, or
`none` where the queue is empty. -/
def round (target : MethodId) (t : Traversal) : Script (Option Traversal) := do
  .checkpoint
  match t.queue with
  | [] => return none
  | m :: queue =>
    if m ∈ t.visited then return some { t with queue }
    else do
      let t ← visit { t with queue, visited := m :: t.visited } target m
      return some t

/-- Going through the queue is one round after the other. -/
theorem expand_succ (target : MethodId) (fuel : Nat) (t : Traversal) :
    expand target (fuel + 1) t =
      (round target t).bind (fun next => next.elim (.done t) (expand target fuel)) := by
  rw [expand, round]
  simp only [bind_eq_bind, checkpoint_bind, check_bind]
  cases t.queue with
  | nil => rfl
  | cons m queue =>
    by_cases hm : m ∈ t.visited
    · simp only [if_pos hm]
      rfl
    · simp only [if_neg hm, bind_assoc]
      rfl

/-- **A traversal comes to the start of a round**, after so many rounds that took a method off the
queue, in a state and with a progress. -/
inductive StartsRound (cb : Codebase) (moment : CancelMoment) (target : MethodId) :
    Nat → Traversal → Progress → Prop where
  | first {external : Bool} {t : Traversal} {p : Progress}
    (classified : ((seeded target).classify target).run cb moment {} =
      ⟨.finished (external, t), p⟩) : StartsRound cb moment target 0 t p
  | next {n : Nat} {t t' : Traversal} {p p' : Progress} (before : StartsRound cb moment target n t p)
    (ran : (round target t).run cb moment p = ⟨.finished (some t'), p'⟩) :
    StartsRound cb moment target (n + 1) t' p'

/-! ## What the collections have to do with each other -/

/-- The caller and the offset of a direct call. -/
def callSite (call : DirectCall) : MethodId × Nat :=
  (call.caller, call.offset)

/-- **The collections of a state agree.** -/
structure Consistent (target : MethodId) (t : Traversal) : Prop where
  visited_nodup : t.visited.Nodup
  queue_nodup : t.queue.Nodup
  /-- No method in the queue was taken off it before. -/
  queue_new : ∀ m ∈ t.queue, m ∉ t.visited
  queued_iff : ∀ m, m ∈ t.queued ↔ m ∈ t.visited ∨ m ∈ t.queue
  /-- What was put into the queue is the target or was classified as not external. -/
  queued_source : ∀ m ∈ t.queued, m = target ∨ t.external.lookup m = some false
  /-- The marks in the graph are those of the methods that were classified as external. -/
  marked_iff : ∀ m, t.graph.isExternal m = true ↔ t.external.lookup m = some true
  /-- Every caller in the graph was classified. -/
  classified : ∀ e ∈ t.graph.edges, ∃ external, t.external.lookup e.2 = some external
  recorded_eq : t.recorded = (t.directCalls.map callSite).reverse
  recorded_nodup : t.recorded.Nodup

namespace Consistent

variable {target m : MethodId} {t : Traversal}

theorem seeded (target : MethodId) : (seeded target).Consistent target where
  visited_nodup := .nil
  queue_nodup := List.nodup_singleton _
  queue_new := by simp [Traversal.seeded, Traversal.enqueue]
  queued_iff := by simp [Traversal.seeded, Traversal.enqueue]
  queued_source := by simp [Traversal.seeded, Traversal.enqueue]
  marked_iff := by simp [Traversal.seeded, Traversal.enqueue, CallGraph.isExternal]
  classified := by simp [Traversal.seeded, Traversal.enqueue]
  recorded_eq := rfl
  recorded_nodup := .nil

/-- Taking the first method off the queue. -/
theorem dequeue (h : t.Consistent target) {queue : List MethodId} (hqueue : t.queue = m :: queue) :
    Consistent target { t with queue, visited := m :: t.visited } := by
  have hnodup : m ∉ queue ∧ queue.Nodup := List.nodup_cons.1 (hqueue ▸ h.queue_nodup)
  have hnew : ∀ x ∈ m :: queue, x ∉ t.visited := hqueue ▸ h.queue_new
  rw [List.forall_mem_cons] at hnew
  refine { h with
    visited_nodup := List.nodup_cons.2 ⟨hnew.1, h.visited_nodup⟩
    queue_nodup := hnodup.2
    queue_new := fun x hx => ?_
    queued_iff := fun x => ?_ }
  · exact List.not_mem_cons_of_ne_of_not_mem (fun heq => hnodup.1 (heq ▸ hx)) (hnew.2 x hx)
  · -- the method has gone over from the queue to those that were taken off
    rw [h.queued_iff, hqueue, List.mem_cons, List.mem_cons, or_left_comm, or_assoc]

/-- A method that is classified for the first time. -/
theorem noteExternal (h : t.Consistent target) (hm : t.external.lookup m = none)
    (external : Bool) : (t.noteExternal m external).Consistent target := by
  refine { h with queued_source := ?_, marked_iff := ?_, classified := ?_ }
  · intro x hx
    refine (h.queued_source x hx).imp_right fun hsource => ?_
    -- the method itself cannot have been classified already
    have hne : x ≠ m := by
      rintro rfl
      rw [hm] at hsource
      cases hsource
    rw [lookup_noteExternal, if_neg hne, hsource]
  · exact fun x => marked_noteExternal hm (h.marked_iff x) external
  · intro e he
    rw [edges_noteExternal] at he
    obtain ⟨known, hknown⟩ := h.classified e he
    rw [lookup_noteExternal]
    split
    · exact ⟨external, rfl⟩
    · exact ⟨known, hknown⟩

/-- The edge to a caller that was classified. -/
theorem addEdge (h : t.Consistent target) {external : Bool}
    (hm : t.external.lookup m = some external) (searched : MethodId) :
    Consistent target { t with graph := t.graph.addEdge searched m } := by
  refine { h with marked_iff := fun x => ?_, classified := fun e he => ?_ }
  · rw [CallGraph.isExternal_addEdge, h.marked_iff]
  · rcases CallGraph.mem_addEdge.1 he with he | rfl
    · exact h.classified e he
    · exact ⟨external, hm⟩

/-- A direct call that was not recorded before. -/
theorem record (h : t.Consistent target) (call : DirectCall) (hcall : callSite call ∉ t.recorded) :
    Consistent target
      { t with recorded := callSite call :: t.recorded, directCalls := t.directCalls ++ [call] } where
  __ := h
  recorded_eq := by
    rw [h.recorded_eq, List.map_append, List.map_singleton, List.reverse_append,
      List.reverse_singleton, List.singleton_append]
  recorded_nodup := List.nodup_cons.2 ⟨hcall, h.recorded_nodup⟩

/-- A caller that was classified as not external is put into the queue. -/
theorem enqueue (h : t.Consistent target) (hm : t.external.lookup m = some false) :
    (t.enqueue m).Consistent target := by
  unfold Traversal.enqueue
  split
  next => exact h
  next hnew =>
    rw [h.queued_iff, ← or_assoc, or_self, not_or] at hnew
    refine { h with queue_nodup := ?_, queue_new := ?_, queued_iff := ?_, queued_source := ?_ }
    · refine List.nodup_append.2 ⟨h.queue_nodup, List.nodup_singleton m, fun x hx y hy hxy => ?_⟩
      exact hnew.2 (List.mem_singleton.1 hy ▸ hxy ▸ hx)
    · intro x hx
      rcases List.mem_append.1 hx with hx | hx
      · exact h.queue_new x hx
      · exact List.mem_singleton.1 hx ▸ hnew.1
    · intro x
      rw [List.mem_cons, h.queued_iff, List.mem_append, List.mem_singleton, or_comm, or_assoc]
    · rw [List.forall_mem_cons]
      exact ⟨.inr hm, h.queued_source⟩

end Consistent

/-! ## A round keeps it -/

/-- A part of a round that keeps the collections in agreement and takes no method off the queue,
whatever is answered. -/
def Settles (cb : Codebase) (target : MethodId) (t : Traversal) (s : Script Traversal)
    (asked : List Question) : Prop :=
  s.Follows cb (fun _ _ => True) (fun _ => True)
    (fun _ t' => t'.Consistent target ∧ t'.visited = t.visited) asked

variable {cb : Codebase} {moment : CancelMoment} {target searched m : MethodId} {t t' : Traversal}
  {asked : List Question}

theorem classify_settles (h : t.Consistent target) (m : MethodId) :
    (t.classify m).Follows cb (fun _ _ => True) (fun _ => True) (fun _ a =>
      (a.2.Consistent target ∧ a.2.visited = t.visited) ∧ a.2.external.lookup m = some a.1)
      asked := by
  unfold classify
  cases hm : t.external.lookup m with
  | some external => exact ⟨⟨h, rfl⟩, hm⟩
  | none =>
    refine ⟨trivial, fun _ => ⟨⟨h.noteExternal hm _, rfl⟩, ?_⟩⟩
    rw [lookup_noteExternal, if_pos rfl]

theorem record_settles (h : t.Consistent target) {r : Reference}
    (first : (m, r.offset) ∉ t.recorded) :
    (t.record target m r).Follows cb (fun _ _ => True) (fun _ => True) (fun _ t' =>
      (t'.Consistent target ∧ t'.visited = t.visited) ∧ t'.external = t.external) asked := by
  refine ⟨trivial, fun _ => ⟨trivial, fun _ => ⟨⟨?_, rfl⟩, rfl⟩⟩⟩
  exact h.record ⟨m, _, _, r.offset, r.length⟩ first

theorem acceptCaller_settles (h : t.Consistent target) (r : Reference) (m : MethodId) :
    Settles cb target t (t.acceptCaller target searched r m) asked := by
  refine (classify_settles h m).bind fun asked a ha => ?_
  obtain ⟨external, t₁⟩ := a
  obtain ⟨⟨h₁, hvisited⟩, hm⟩ := ha
  have hedge := h₁.addEdge hm searched
  have hlast : ∀ t₂ : Traversal, t₂.Consistent target ∧ t₂.visited = t₁.visited →
      t₂.external = t₁.external →
        (if external then t₂ else t₂.enqueue m).Consistent target ∧
          (if external then t₂ else t₂.enqueue m).visited = t.visited := by
    intro t₂ h₂ hexternal
    cases external with
    | true => exact ⟨h₂.1, h₂.2.trans hvisited⟩
    | false =>
      refine ⟨h₂.1.enqueue (hexternal ▸ hm), ?_⟩
      simp only [Bool.false_eq_true, if_false, enqueue]
      split <;> exact h₂.2.trans hvisited
  dsimp only
  split
  next hnew =>
    have first : (m, r.offset) ∉ t₁.recorded := by simpa using (Bool.and_eq_true_iff.1 hnew).2
    exact (record_settles hedge first).bind fun _ t₂ h₂ => hlast t₂ h₂.1 h₂.2
  next => exact hlast _ ⟨hedge, rfl⟩ rfl

theorem accept_settles (h : t.Consistent target) (r : Reference) :
    Settles cb target t (t.accept target searched r) asked := by
  unfold accept
  cases r.accuracy with
  | potential => exact ⟨h, rfl⟩
  | exact =>
    refine ⟨trivial, fun _ => ?_⟩
    dsimp only [Codebase.reply]
    cases cb.enclosing r with
    | none => exact ⟨h, rfl⟩
    | some caller => exact acceptCaller_settles h r caller

theorem acceptAll_settles (h : t.Consistent target) (rs : List Reference) :
    Settles cb target t (acceptAll target searched rs t) asked := by
  induction rs generalizing t asked with
  | nil => exact ⟨h, rfl⟩
  | cons r rs ih =>
    refine (accept_settles h r).bind fun asked t₁ h₁ => ?_
    have hrest : Settles cb target t₁ (acceptAll target searched rs t₁) asked := ih h₁.1
    rwa [Settles, h₁.2] at hrest

theorem visit_settles (h : t.Consistent target) (m : MethodId) :
    Settles cb target t (t.visit target m) asked := by
  refine ⟨trivial, fun _ => ?_⟩
  dsimp only [Codebase.reply]
  cases cb.isPresent m with
  | false => exact ⟨h, rfl⟩
  | true =>
    refine ⟨trivial, fun cancelled => ?_⟩
    generalize cb.reply cancelled (.references m) = answer
    rcases answer with fault | rs
    · simp only [done_bind]
      cases fault.fatal? with
      | none => exact ⟨h, rfl⟩
      | some why => trivial
    · exact acceptAll_settles h rs

/-- **A round keeps the collections in agreement**, and takes one method off the queue. -/
theorem round_settles (h : t.Consistent target) :
    (round target t).Follows cb (fun _ _ => True) (fun _ => True) (fun _ next =>
      ∀ t' ∈ next, t'.Consistent target ∧ ∃ m queue, t.queue = m :: queue ∧
        t'.visited = m :: t.visited) asked := by
  rw [round]
  simp only [bind_eq_bind, checkpoint_bind]
  cases hqueue : t.queue with
  | nil => exact fun t' ht' => by cases ht'
  | cons m queue =>
    have hm : m ∉ t.visited := h.queue_new m (hqueue ▸ List.mem_cons_self)
    simp only [if_neg hm]
    refine (visit_settles (h.dequeue hqueue) m).bind fun asked t₁ h₁ t' ht' => ?_
    cases ht'
    exact ⟨h₁.1, m, queue, rfl, h₁.2⟩

/-- The start: the target was classified, and nothing was taken off the queue. -/
theorem classify_seeded {external : Bool} {p : Progress}
    (classified : ((seeded target).classify target).run cb moment {} =
      ⟨.finished (external, t), p⟩) : t.Consistent target ∧ t.visited = [] :=
  ((classify_settles (.seeded target) target).finished (p := {})
    (congrArg Run.outcome classified)).1

/-- **At the start of every round the collections agree**, and every round before has taken one
method off the queue. -/
theorem StartsRound.consistent {n : Nat} {p : Progress} (h : StartsRound cb moment target n t p) :
    t.Consistent target ∧ t.visited.length = n := by
  induction h with
  | first classified =>
    obtain ⟨h, hvisited⟩ := classify_seeded classified
    exact ⟨h, by rw [hvisited, List.length_nil]⟩
  | next _ ran ih =>
    obtain ⟨h', m, queue, -, hvisited⟩ :=
      (round_settles ih.1).finished (congrArg Run.outcome ran) _ rfl
    exact ⟨h', by rw [hvisited, List.length_cons, ih.2]⟩

end Traversal

/-! ## How many rounds there are -/

namespace Script

variable {α : Type} {cb : Codebase} {moment : CancelMoment}

/-- Once requested, cancellation is requested to the end of a run. -/
theorem requested_run (sticky : moment.Sticky) (s : Script α) {p : Progress}
    (hp : moment p = true) : moment (s.run cb moment p).progress = true := by
  induction s generalizing p with
  | done a => exact hp
  | fail why => exact hp
  | check next ih =>
    rw [run, if_pos (sticky.afterCheck p hp)]
    exact sticky.afterCheck p hp
  | ask q next ih => exact ih _ (sticky.afterQuestion p q hp)

/-- **A run that finishes before cancellation is requested** comes to the same as one without
cancellation. -/
theorem eval_of_run (sticky : moment.Sticky) {s : Script α} {a : α} {p p' : Progress}
    (ran : s.run cb moment p = ⟨.finished a, p'⟩) (hp' : moment p' = false) :
    s.eval cb = .ok a := by
  induction s generalizing p with
  | done b =>
    cases ran
    rfl
  | fail why => cases ran
  | check next ih =>
    rw [run] at ran
    by_cases hp : moment p.afterCheck = true
    · rw [if_pos hp] at ran
      cases ran
    · rw [if_neg hp] at ran
      exact ih ran
  | ask q next ih =>
    have hask : moment (p.afterQuestion q) = false := by
      cases hq : moment (p.afterQuestion q) with
      | false => rfl
      | true =>
        have hend : moment ((next (cb.reply true q)).run cb moment
            (p.afterQuestion q)).progress = true := requested_run sticky _ hq
        simp only [run, hq] at ran
        rw [ran, hp'] at hend
        cases hend
    simp only [run, hask] at ran
    exact ih _ ran

end Script

namespace Codebase

/-- There are as many reached methods as the breadth-first order lists. -/
theorem ncard_reached (cb : Codebase) (target : MethodId) :
    {m | cb.Reached target m}.ncard = (cb.breadthFirst target).length := by
  have hset : {m | cb.Reached target m} = ((cb.breadthFirst target).toFinset : Set MethodId) := by
    ext m
    simp [mem_breadthFirst]
  rw [hset, Set.ncard_coe_finset, List.toFinset_card_of_nodup (nodup_breadthFirst cb target)]

/-- Different reached methods are at most as many as there are. -/
theorem length_le_ncard_reached {cb : Codebase} {target : MethodId} {ms : List MethodId}
    (hnodup : ms.Nodup) (hreached : ∀ m ∈ ms, cb.Reached target m) :
    ms.length ≤ {m | cb.Reached target m}.ncard := by
  rw [ncard_reached]
  exact (hnodup.subperm fun m hm => mem_breadthFirst.2 (hreached m hm)).length_le

/-- The target apart, every reached method encloses a reference. -/
theorem ncard_reached_le (cb : Codebase) (target : MethodId) :
    {m | cb.Reached target m}.ncard ≤ cb.callers.length + 1 := by
  have hsubset : cb.breadthFirst target ⊆ target :: cb.callers := by
    intro m hm
    cases mem_breadthFirst.1 hm with
    | target => exact List.mem_cons_self
    | caller _ hc => exact List.mem_cons_of_mem _ (mem_callers_of_mem_sourceCallersOf cb _ _ hc)
  rw [ncard_reached]
  exact ((nodup_breadthFirst cb target).subperm hsubset).length_le

end Codebase

namespace Traversal

open Script

variable {cb : Codebase} {moment : CancelMoment} {target : MethodId} {t t' : Traversal} {n : Nat}
  {p p' : Progress}

/-- Only methods that can be reached were taken off the queue. Where cancellation has not been
requested yet, what is in the queue can be reached as well. -/
structure StaysWithin (cb : Codebase) (moment : CancelMoment) (target : MethodId) (t : Traversal)
    (p : Progress) : Prop where
  visited : ∀ m ∈ t.visited, cb.Reached target m
  explores : moment p = false → t.Explores cb target
  queue : moment p = false → ∀ m ∈ t.queue, cb.Reached target m

/-- What a round without cancellation does: it takes a method off whose search is not fatal, and
puts those of its callers into the queue that are new. -/
theorem Explores.round (h : t.Explores cb target)
    (hround : (Traversal.round target t).eval cb = .ok (some t')) :
    ∃ m queue, t.queue = m :: queue ∧ t'.Explores cb target ∧
      t'.queue = queue ++ fresh t.queued (cb.sourceCallersOf m) := by
  rw [Traversal.round] at hround
  simp only [bind_eq_bind, checkpoint_bind, eval_check] at hround
  cases hqueue : t.queue with
  | nil =>
    rw [hqueue] at hround
    cases hround
  | cons m queue =>
    rw [hqueue] at hround
    simp only [if_neg (h.head hqueue).2] at hround
    cases hfatal : cb.fatal? m with
    | some why =>
      have herror : (Traversal.visit { t with queue, visited := m :: t.visited } target m).eval cb =
          .error why := by rw [Traversal.eval_visit, hfatal]
      rw [Script.eval_bind_of_error herror] at hround
      cases hround
    | none =>
      obtain ⟨t₁, hvisit, h₁, -, hqueue₁, -⟩ := h.eval_visit hqueue hfatal
      rw [Script.eval_bind_of_ok hvisit] at hround
      cases hround
      exact ⟨m, queue, rfl, h₁, hqueue₁⟩

theorem StartsRound.staysWithin (sticky : moment.Sticky)
    (h : StartsRound cb moment target n t p) : StaysWithin cb moment target t p := by
  induction h with
  | first classified =>
    obtain ⟨t₁, hclassify, hcoherent, hclassifies⟩ :=
      eval_classify (coherent_seeded cb target) target
    obtain ⟨hexplores, -, hqueue, -⟩ := explores_start hcoherent hclassifies
    refine ⟨?_, fun hp => ?_, fun hp => ?_⟩
    · rw [(classify_seeded classified).2]
      exact fun m hm => absurd hm List.not_mem_nil
    · cases hclassify.symm.trans (eval_of_run sticky classified hp)
      exact hexplores
    · cases hclassify.symm.trans (eval_of_run sticky classified hp)
      rw [hqueue]
      exact fun m hm => List.mem_singleton.1 hm ▸ .target
  | @next n t t' p p' before ran ih =>
    obtain ⟨h, -⟩ := before.consistent
    obtain ⟨-, m, queue, hqueue, hvisited⟩ :=
      (round_settles h).finished (congrArg Run.outcome ran) _ rfl
    -- the round got past its look, so at its start cancellation was not requested
    have hp : moment p = false := by
      cases hset : moment p with
      | false => rfl
      | true =>
        rw [run_of_looks (s := round target t) sticky trivial hset] at ran
        cases ran
    have hm : ∀ x ∈ m :: queue, cb.Reached target x := hqueue ▸ ih.queue hp
    rw [List.forall_mem_cons] at hm
    refine ⟨?_, fun hp' => ?_, fun hp' => ?_⟩
    · rw [hvisited, List.forall_mem_cons]
      exact ⟨hm.1, ih.visited⟩
    · obtain ⟨-, -, -, hexplores, -⟩ := (ih.explores hp).round (eval_of_run sticky ran hp')
      exact hexplores
    · obtain ⟨m', queue', hqueue', -, hadded⟩ :=
        (ih.explores hp).round (eval_of_run sticky ran hp')
      cases hqueue.symm.trans hqueue'
      rw [hadded]
      intro x hx
      rcases List.mem_append.1 hx with hx | hx
      · exact hm.2 x hx
      · exact hm.1.caller (mem_fresh.1 hx).1

theorem StartsRound.le_ncard (sticky : moment.Sticky) (h : StartsRound cb moment target n t p) :
    n ≤ {m | cb.Reached target m}.ncard := by
  rw [← h.consistent.2]
  exact Codebase.length_le_ncard_reached h.consistent.1.visited_nodup (h.staysWithin sticky).visited

/-- A round that gets past its look and finds a method in the queue is not one too many. -/
theorem StartsRound.lt_ncard (sticky : moment.Sticky) (h : StartsRound cb moment target n t p)
    {m : MethodId} {queue : List MethodId} (hqueue : t.queue = m :: queue)
    (hlook : moment p.afterCheck = false) : n < {m | cb.Reached target m}.ncard := by
  obtain ⟨hconsistent, hlength⟩ := h.consistent
  have hwithin := h.staysWithin sticky
  have hp : moment p = false := by
    cases hset : moment p with
    | false => rfl
    | true =>
      rw [sticky.afterCheck p hset] at hlook
      cases hlook
  have hmem : m ∈ t.queue := hqueue ▸ List.mem_cons_self
  have hnodup : (m :: t.visited).Nodup :=
    List.nodup_cons.2 ⟨hconsistent.queue_new m hmem, hconsistent.visited_nodup⟩
  have hle := Codebase.length_le_ncard_reached hnodup
    (List.forall_mem_cons.2 ⟨hwithin.queue hp m hmem, hwithin.visited⟩)
  rwa [List.length_cons, hlength] at hle

/-- **The rounds come to an end** before they are too many, and how the last of them ends is how
going through the queue ends. -/
theorem StartsRound.exists_last (sticky : moment.Sticky) {fuel : Nat}
    (h : StartsRound cb moment target n t p)
    (hfuel : {m | cb.Reached target m}.ncard < n + fuel) :
    ∃ n' t' p', StartsRound cb moment target n' t' p' ∧
      (∀ u, ((round target t').run cb moment p').outcome ≠ .finished (some u)) ∧
      ∀ {α : Type} (k : Traversal → Script α),
        ((expand target fuel t).bind k).run cb moment p =
          ((round target t').bind fun _ => k t').run cb moment p' := by
  induction fuel generalizing n t p with
  | zero =>
    have := h.le_ncard sticky
    omega
  | succ fuel ih =>
    by_cases hlast : ∀ u, ((round target t).run cb moment p).outcome ≠ .finished (some u)
    · refine ⟨n, t, p, h, hlast, fun k => ?_⟩
      rw [expand_succ, bind_assoc]
      refine run_bind_congr fun next hnext => ?_
      cases next with
      | none => rfl
      | some u => exact absurd hnext (hlast u)
    · obtain ⟨u, hu⟩ := not_forall_not.1 hlast
      obtain ⟨p', hran⟩ : ∃ p', (round target t).run cb moment p = ⟨.finished (some u), p'⟩ :=
        ⟨_, congrArg (Run.mk · _) hu⟩
      obtain ⟨n', t', p'', hstarts, hends, hrun⟩ := ih (h.next hran) (by omega)
      refine ⟨n', t', p'', hstarts, hends, fun k => ?_⟩
      rw [expand_succ, bind_assoc, run_bind_of_finished hran, Option.elim_some]
      exact hrun k

end Traversal

namespace Codebase

open Traversal (StartsRound round)

/-- **The rounds of a traversal.** At the start of each of them the collections of the state agree,
and as many methods were taken off the queue as there were rounds before. The first method in the
queue was never taken off before, and a round takes it off only while the rounds are fewer than the
methods that can be reached. The traversal itself is nothing but these rounds: it ends as the last
of them does. -/
theorem traverse_rounds (cb : Codebase) (moment : CancelMoment) (sticky : moment.Sticky)
    (target : MethodId) :
    (∀ n t p, StartsRound cb moment target n t p →
      t.Consistent target ∧ t.visited.length = n ∧ n ≤ {m | cb.Reached target m}.ncard ∧
      ∀ m queue, t.queue = m :: queue →
        m ∉ t.visited ∧ (moment p.afterCheck = false → n < {m | cb.Reached target m}.ncard)) ∧
    ∃ n t p, StartsRound cb moment target n t p ∧
      (∀ t', ((round target t).run cb moment p).outcome ≠ .finished (some t')) ∧
      cb.traverse moment target =
        ((round target t).bind fun _ => .done t.findings).run cb moment p := by
  constructor
  · intro n t p h
    obtain ⟨hconsistent, hlength⟩ := h.consistent
    refine ⟨hconsistent, hlength, h.le_ncard sticky, fun m queue hqueue => ⟨?_, ?_⟩⟩
    · exact hconsistent.queue_new m (hqueue ▸ List.mem_cons_self)
    · exact h.lt_ncard sticky hqueue
  · obtain ⟨t, p, hfirst⟩ : ∃ t p, ((Traversal.seeded target).classify target).run cb moment {} =
        ⟨.finished (cb.isExternal target, t), p⟩ := ⟨_, _, rfl⟩
    have hfuel : {m | cb.Reached target m}.ncard < 0 + (cb.callers.length + 2) := by
      have := ncard_reached_le cb target
      omega
    obtain ⟨n, t', p', hstarts, hlast, hrun⟩ := (StartsRound.first hfirst).exists_last sticky hfuel
    refine ⟨n, t', p', hstarts, hlast, ?_⟩
    rw [traverse, CallOrigins.traverse, Script.bind_eq_bind, Script.run_bind_of_finished hfirst]
    exact hrun fun t => .done t.findings

/-- The second round for a call of `Cart#add`, where cancellation is requested while the callers of
`Page#buy` are searched: the caller is in the queue and was not taken off it before. -/
theorem oneCall_rounds :
    (CancelMoment.atQuestion 9).Sticky ∧ ∃ t p,
      StartsRound oneCall.codebase (.atQuestion 9) ⟨"shop.Cart#add(Item)"⟩ 1 t p ∧
      t.queue = [⟨"shop.Page#buy()"⟩] ∧ t.Consistent ⟨"shop.Cart#add(Item)"⟩ ∧
      1 < {m | oneCall.codebase.Reached ⟨"shop.Cart#add(Item)"⟩ m}.ncard := by
  have sticky := CancelMoment.atQuestion_sticky 9
  have starts : ∃ t p,
      StartsRound oneCall.codebase (.atQuestion 9) ⟨"shop.Cart#add(Item)"⟩ 1 t p ∧
      t.queue = [⟨"shop.Page#buy()"⟩] ∧ CancelMoment.atQuestion 9 p.afterCheck = false :=
    ⟨_, _, .next (.first rfl) rfl, rfl, rfl⟩
  obtain ⟨t, p, hstarts, hqueue, hlook⟩ := starts
  obtain ⟨hconsistent, -, -, hfirst⟩ :=
    (traverse_rounds oneCall.codebase (.atQuestion 9) sticky ⟨"shop.Cart#add(Item)"⟩).1 1 t p hstarts
  exact ⟨sticky, t, p, hstarts, hqueue, hconsistent, (hfirst _ _ hqueue).2 hlook⟩

end Codebase
end CallOrigins
