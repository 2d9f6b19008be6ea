import CallOrigins.Proofs.Origins
import Mathlib.Data.List.Dedup

/-!
# Operations on a call graph

A call graph is only ever changed by adding edges and by marking methods. What each of the two does to
the edges and the marks is known (`mem_addEdge`, `isExternal_markExternal`); here it is said what any
number of them come to.

**The law** (`ofOperations_observed`): all that can be asked of a graph is told by which operations were
carried out. Neither their order nor how often each of them was repeated makes a difference, except that
only the first of several equal ones is answered that the edge is new.

A graph *records* operations if its edges are those that they add, its marks those that they set, and
its entries those of called methods (`Records`). One operation more is recorded (`Records.perform`), so
all of them are (`records_ofOperations`), and graphs that record the same answer the same
(`Records.origins_eq`).
-/

namespace CallOrigins.CallGraph

variable {g g' : CallGraph} {callee caller m x : MethodId} {e : MethodId × MethodId}

/-! ## Operations -/

/-- An operation that changes a graph. -/
inductive Operation where
  | addEdge (callee caller : MethodId)
  | markExternal (m : MethodId)
  deriving DecidableEq, Repr

/-- The edge that an operation adds. -/
def Operation.edge? : Operation → Option (MethodId × MethodId)
  | addEdge callee caller => some (callee, caller)
  | markExternal _ => none

/-- Carries an operation out. Adding answers whether the edge is new, and marking answers nothing. -/
def perform (g : CallGraph) : Operation → Option Bool × CallGraph
  | .addEdge callee caller => ((g.insertEdge callee caller).1, (g.insertEdge callee caller).2)
  | .markExternal m => (none, g.markExternal m)

@[simp] theorem perform_addEdge :
    g.perform (.addEdge callee caller) =
      (some !g.hasEdge callee caller, g.addEdge callee caller) := rfl

@[simp] theorem perform_markExternal :
    g.perform (.markExternal m) = (none, g.markExternal m) := rfl

/-- Carries operations out, one after the other, and lists the answers. -/
def performAll (g : CallGraph) : List Operation → List (Option Bool) × CallGraph
  | [] => ([], g)
  | o :: os =>
    ((g.perform o).1 :: ((g.perform o).2.performAll os).1, ((g.perform o).2.performAll os).2)

/-- **The graph after operations**, which is empty before them. -/
def ofOperations (os : List Operation) : CallGraph :=
  (performAll {} os).2

/-- The answers to operations on a graph that is empty before them. -/
def answers (os : List Operation) : List (Option Bool) :=
  (performAll {} os).1

variable {o : Operation} {os os' : List Operation}

theorem performAll_append (g : CallGraph) (os os' : List Operation) :
    g.performAll (os ++ os') =
      ((g.performAll os).1 ++ ((g.performAll os).2.performAll os').1,
        ((g.performAll os).2.performAll os').2) := by
  induction os generalizing g with
  | nil => rfl
  | cons o os ih =>
    rw [List.cons_append, performAll, ih]
    rfl

theorem length_performAll (g : CallGraph) (os : List Operation) :
    (g.performAll os).1.length = os.length := by
  induction os generalizing g with
  | nil => rfl
  | cons o os ih =>
    rw [performAll, List.length_cons, ih, List.length_cons]

/-- An operation is answered by the graph after those before it. -/
theorem getElem?_answers (before after : List Operation) (o : Operation) :
    (answers (before ++ o :: after))[before.length]? =
      some ((ofOperations before).perform o).1 := by
  rw [answers, performAll_append, List.getElem?_append_right (by rw [length_performAll]),
    length_performAll, Nat.sub_self]
  rfl

/-- Every edge that is new adds one to their number. -/
theorem length_edges_performAll (g : CallGraph) (os : List Operation) :
    (g.performAll os).2.edges.length =
      g.edges.length + (g.performAll os).1.count (some true) := by
  induction os generalizing g with
  | nil => rfl
  | cons o os ih =>
    have hstep : (g.perform o).2.edges.length =
        g.edges.length + if (g.perform o).1 = some true then 1 else 0 := by
      cases o with
      | addEdge callee caller =>
        rw [perform_addEdge, length_edges_addEdge]
        cases g.hasEdge callee caller <;> simp
      | markExternal m => simp
    rw [performAll, ih, hstep, List.count_cons]
    simp only [beq_iff_eq]
    omega

/-! ## What a graph records -/

/-- The edges of a graph are those that operations add, and its marks those that they set. Only
called methods have an entry. -/
structure Records (g : CallGraph) (os : List Operation) : Prop where
  edges : ∀ e, e ∈ g.edges ↔ .addEdge e.1 e.2 ∈ os
  marks : ∀ m, g.isExternal m = true ↔ .markExternal m ∈ os
  entries : ∀ m, g.callersOf? m = none ↔ ∀ c, .addEdge m c ∉ os

namespace Records

/-- **One operation more.** -/
theorem perform (h : g.Records os) (o : Operation) : (g.perform o).2.Records (os ++ [o]) := by
  cases o with
  | addEdge callee caller =>
    refine ⟨fun e => ?_, fun m => ?_, fun m => ?_⟩
    · rw [perform_addEdge, mem_addEdge, h.edges, List.mem_append, List.mem_singleton, Prod.ext_iff,
        Operation.addEdge.injEq]
    · rw [perform_addEdge, isExternal_addEdge, h.marks, List.mem_append, List.mem_singleton,
        or_iff_left (by simp)]
    · rw [perform_addEdge, callersOf?_addEdge_eq_none_iff, h.entries]
      simp only [List.mem_append, List.mem_singleton, Operation.addEdge.injEq, not_or, not_and,
        forall_and, @eq_comm _ m]
      exact and_comm.trans (and_congr_right' ⟨fun hm _ heq => absurd heq hm,
        fun hm heq => hm caller heq rfl⟩)
  | markExternal m =>
    rw [perform_markExternal]
    refine ⟨fun e => ?_, fun x => ?_, fun x => ?_⟩
    · rw [edges_markExternal, h.edges, List.mem_append, List.mem_singleton, or_iff_left (by simp)]
    · rw [isExternal_markExternal, h.marks, List.mem_append, List.mem_singleton,
        Operation.markExternal.injEq]
    · rw [show (g.markExternal m).callersOf? x = g.callersOf? x from rfl, h.entries]
      simp

theorem performAll (h : g.Records os) (os' : List Operation) :
    (g.performAll os').2.Records (os ++ os') := by
  induction os' generalizing g os with
  | nil => rwa [List.append_nil]
  | cons o os' ih =>
    have hrest := ih (h.perform o)
    rwa [List.append_assoc, List.singleton_append] at hrest

/-! ### What is asked of a graph -/

variable (h : g.Records os)

include h

theorem mem_callers : x ∈ g.callers m ↔ .addEdge m x ∈ os := by
  rw [CallGraph.mem_callers, h.edges]

/-- The edges are counted as often as different ones were added. -/
theorem edgeCount_eq : g.edgeCount = (os.filterMap Operation.edge?).dedup.length := by
  rw [CallGraph.edgeCount_eq]
  refine ((List.perm_ext_iff_of_nodup g.nodup_edges (List.nodup_dedup _)).2 fun e => ?_).length_eq
  rw [List.mem_dedup, List.mem_filterMap, h.edges]
  constructor
  · exact fun he => ⟨_, he, rfl⟩
  · rintro ⟨o, ho, he⟩
    cases o with
    | addEdge callee caller =>
      cases he
      exact ho
    | markExternal m => cases he

variable (h' : g'.Records os') (same : ∀ o, o ∈ os' ↔ o ∈ os)

include h' same

theorem callers_eq (m : MethodId) : g'.callers m = g.callers m := by
  refine (callers_ascending g' m).eq_of_mem_iff (callers_ascending g m) fun x => ?_
  rw [h'.mem_callers, h.mem_callers, same]

theorem isExternal_eq (m : MethodId) : g'.isExternal m = g.isExternal m := by
  rw [Bool.eq_iff_iff, h'.marks, h.marks, same]

theorem edgeCount_eq_of_same : g'.edgeCount = g.edgeCount := by
  refine edgeCount_eq_of_mem_iff fun e => ?_
  rw [h'.edges, h.edges, same]

theorem callersOf?_eq (m : MethodId) : g'.callersOf? m = g.callersOf? m := by
  have hnone : g'.callersOf? m = none ↔ g.callersOf? m = none := by
    rw [h'.entries, h.entries]
    simp only [same]
  cases hcs : g.callersOf? m with
  | none => exact hnone.2 hcs
  | some cs =>
    cases hcs' : g'.callersOf? m with
    | none => exact absurd (hnone.1 hcs') (by simp [hcs])
    | some cs' =>
      rw [eq_callers_of_callersOf? hcs, eq_callers_of_callersOf? hcs', h.callers_eq h' same]

/-- Origins are told by callers and marks, so they are the same. -/
theorem origins_eq (m : MethodId) : g'.origins m = g.origins m := by
  have hsource : ∀ x, g'.sourceCallers x = g.sourceCallers x := by
    intro x
    rw [sourceCallers, sourceCallers, h.callers_eq h' same]
    simp only [h.isExternal_eq h' same]
  refine (origins_ascending g' m).eq_of_mem_iff (origins_ascending g m) fun r => ?_
  rw [CallGraph.mem_origins, CallGraph.mem_origins]
  simp only [IsOrigin, hsource, h.isExternal_eq h' same]

end Records

theorem records_ofOperations (os : List Operation) : (ofOperations os).Records os :=
  have hempty : Records {} [] := ⟨by simp, by simp [isExternal], by simp [callersOf?]⟩
  hempty.performAll os

/-- **A call graph is the set of edges and marks that it was given.** -/
theorem ofOperations_observed (os : List Operation) :
    (∀ m, (ofOperations os).callersOf? m = none ↔ ∀ c, .addEdge m c ∉ os) ∧
    (∀ m cs, (ofOperations os).callersOf? m = some cs →
      cs.Pairwise (fun a b => a.bytes < b.bytes) ∧ ∀ c, c ∈ cs ↔ .addEdge m c ∈ os) ∧
    (∀ before callee caller after, os = before ++ .addEdge callee caller :: after →
      ∃ isNew, (answers os)[before.length]? = some (some isNew) ∧
        (isNew = true ↔ .addEdge callee caller ∉ before)) ∧
    (ofOperations os).edgeCount = (os.filterMap Operation.edge?).dedup.length ∧
    (ofOperations os).edgeCount = (answers os).count (some true) ∧
    (∀ m, (ofOperations os).isExternal m = true ↔ .markExternal m ∈ os) ∧
    ∀ os', (∀ o, o ∈ os' ↔ o ∈ os) →
      (∀ m, (ofOperations os').callersOf? m = (ofOperations os).callersOf? m) ∧
      (∀ m, (ofOperations os').isExternal m = (ofOperations os).isExternal m) ∧
      (ofOperations os').edgeCount = (ofOperations os).edgeCount ∧
      ∀ m, (ofOperations os').origins m = (ofOperations os).origins m := by
  have h := records_ofOperations os
  refine ⟨h.entries, fun m cs hcs => ?_, ?_, h.edgeCount_eq, ?_, h.marks, fun os' same => ?_⟩
  · rw [eq_callers_of_callersOf? hcs]
    exact ⟨(callers_ascending _ m).imp MethodId.before_iff_bytes_lt.1, fun c => h.mem_callers⟩
  · rintro before callee caller after rfl
    refine ⟨!(ofOperations before).hasEdge callee caller, getElem?_answers before after _, ?_⟩
    rw [← (records_ofOperations before).edges (callee, caller), ← hasEdge_iff]
    simp
  · have hcount := length_edges_performAll {} os
    rw [edges_empty, List.length_nil, Nat.zero_add] at hcount
    exact (CallGraph.edgeCount_eq _).trans hcount
  · have h' := records_ofOperations os'
    exact ⟨h.callersOf?_eq h' same, h.isExternal_eq h' same, h.edgeCount_eq_of_same h' same,
      h.origins_eq h' same⟩

end CallOrigins.CallGraph
