import CallOrigins.CallGraph
import CallOrigins.Proofs.Order
import Mathlib.Data.List.Nodup
import Std.Data.TreeMap.Lemmas
import Std.Data.TreeSet.Lemmas

/-!
# The edges of a call graph

A call graph has a set of callers for every method that is called. It is seen here as one list of
edges, in which each of them stands once (`nodup_edges`) and which the graph counts (`edgeCount_eq`).
What can be asked of a graph and what a change makes of it are said of its edges and its marks, and
nothing else needs to know how they are kept.
-/

namespace CallOrigins

namespace MethodId

theorem compare_eq_lt_iff {a b : MethodId} : compare a b = .lt ↔ a.before b = true := by
  rw [before, decide_eq_true_iff]
  exact compareOfLessAndEq_eq_lt

end MethodId

namespace CallGraph

variable {g : CallGraph} {callee caller m c x : MethodId} {e : MethodId × MethodId}

/-- **The edges of a graph**: every called method with each of its callers. -/
def edges (g : CallGraph) : List (MethodId × MethodId) :=
  g.callerSets.toList.flatMap (fun e => e.2.toList.map (fun c => (e.1, c)))

@[simp] theorem edges_empty : edges {} = [] :=
  rfl

/-! ## What is asked -/

theorem mem_edges : e ∈ g.edges ↔ e.2 ∈ g.callerSet e.1 := by
  rw [callerSet, Std.TreeMap.getD_eq_getD_getElem?, edges, List.mem_flatMap]
  constructor
  · rintro ⟨⟨m, set⟩, hset, he⟩
    obtain ⟨c, hc, rfl⟩ := List.mem_map.1 he
    rw [Std.TreeMap.mem_toList_iff_getElem?_eq_some] at hset
    rw [hset]
    exact Std.TreeSet.mem_toList.1 hc
  · intro he
    cases hset : g.callerSets[e.1]? with
    | none =>
      rw [hset] at he
      exact absurd he Std.TreeSet.not_mem_emptyc
    | some set =>
      rw [hset] at he
      exact ⟨(e.1, set), Std.TreeMap.mem_toList_iff_getElem?_eq_some.2 hset,
        List.mem_map.2 ⟨e.2, Std.TreeSet.mem_toList.2 he, rfl⟩⟩

@[simp] theorem mem_callers : c ∈ g.callers m ↔ (m, c) ∈ g.edges := by
  rw [callers, Std.TreeSet.mem_toList, mem_edges]

theorem hasEdge_iff : g.hasEdge callee caller = true ↔ (callee, caller) ∈ g.edges := by
  rw [mem_edges, Std.TreeSet.mem_iff_contains, hasEdge]

/-- **Every edge is there once.** -/
theorem nodup_edges (g : CallGraph) : g.edges.Nodup := by
  refine List.nodup_flatMap.2 ⟨fun e _ => ?_, ?_⟩
  · refine List.Nodup.map (fun c d h => (Prod.mk.inj h).2) ?_
    refine Std.TreeSet.distinct_toList.imp ?_
    rintro a _ hab rfl
    exact hab Std.ReflCmp.compare_self
  · refine Std.TreeMap.distinct_keys_toList.imp fun {a b} hab => ?_
    intro e he he'
    obtain ⟨c, -, rfl⟩ := List.mem_map.1 he
    obtain ⟨d, -, hd⟩ := List.mem_map.1 he'
    exact hab ((Prod.mk.inj hd).1 ▸ Std.ReflCmp.compare_self)

theorem edgeCount_eq (g : CallGraph) : g.edgeCount = g.edges.length := by
  have hfold : ∀ (sets : List (MethodId × Std.TreeSet MethodId)) (n : Nat),
      sets.foldl (fun n e => n + e.2.size) n =
        n + (sets.flatMap fun e => e.2.toList.map fun c => (e.1, c)).length := by
    intro sets
    induction sets with
    | nil => exact fun _ => rfl
    | cons e sets ih =>
      intro n
      rw [List.foldl_cons, ih, List.flatMap_cons, List.length_append, List.length_map,
        Std.TreeSet.length_toList, Nat.add_assoc]
  rw [edgeCount, Std.TreeMap.foldl_eq_foldl_toList, hfold, Nat.zero_add, edges]

theorem edgeCount_eq_of_mem_iff {g' : CallGraph} (h : ∀ e, e ∈ g'.edges ↔ e ∈ g.edges) :
    g'.edgeCount = g.edgeCount := by
  rw [edgeCount_eq, edgeCount_eq]
  exact ((List.perm_ext_iff_of_nodup g'.nodup_edges g.nodup_edges).2 h).length_eq

/-- The callers of a method are listed in ascending order, each of them once. -/
theorem callers_ascending (g : CallGraph) (m : MethodId) : MethodId.Ascending (g.callers m) :=
  Std.TreeSet.ordered_toList.imp MethodId.compare_eq_lt_iff.1

theorem eq_callers_of_callersOf? {cs : List MethodId} (h : g.callersOf? m = some cs) :
    cs = g.callers m := by
  obtain ⟨set, hset, rfl⟩ := Option.map_eq_some_iff.1 h
  rw [callers, callerSet, Std.TreeMap.getD_eq_getD_getElem?, hset, Option.getD_some]

/-! ## What a change makes of it -/

theorem callerSet_addEdge : (g.addEdge callee caller).callerSet m =
    if callee = m then (g.callerSet callee).insert caller else g.callerSet m := by
  simp only [callerSet, addEdge, Std.TreeMap.getD_insert, Std.LawfulEqCmp.compare_eq_iff_eq]

theorem callersOf?_addEdge_eq_none_iff :
    (g.addEdge callee caller).callersOf? m = none ↔ callee ≠ m ∧ g.callersOf? m = none := by
  simp only [callersOf?, addEdge, Std.TreeMap.getElem?_insert, Std.LawfulEqCmp.compare_eq_iff_eq,
    Option.map_eq_none_iff]
  split
  next h => simp [h]
  next h => simp [h]

theorem mem_addEdge : e ∈ (g.addEdge callee caller).edges ↔ e ∈ g.edges ∨ e = (callee, caller) := by
  rw [mem_edges, mem_edges, callerSet_addEdge, Prod.ext_iff]
  split
  next h =>
    subst h
    rw [Std.TreeSet.mem_insert, Std.LawfulEqCmp.compare_eq_iff_eq]
    grind
  next h => grind

theorem length_edges_addEdge (g : CallGraph) (callee caller : MethodId) :
    (g.addEdge callee caller).edges.length =
      g.edges.length + if g.hasEdge callee caller then 0 else 1 := by
  have hsame {es : List (MethodId × MethodId)} (hes : es.Nodup)
      (h : ∀ e, e ∈ (g.addEdge callee caller).edges ↔ e ∈ es) :
      (g.addEdge callee caller).edges.length = es.length :=
    ((List.perm_ext_iff_of_nodup (nodup_edges _) hes).2 h).length_eq
  split
  next h =>
    refine hsame g.nodup_edges fun e => ?_
    rw [mem_addEdge, or_iff_left_iff_imp]
    rintro rfl
    exact hasEdge_iff.1 h
  next h =>
    rw [hasEdge_iff] at h
    refine hsame (List.nodup_cons.2 ⟨h, g.nodup_edges⟩) fun e => ?_
    rw [mem_addEdge, List.mem_cons, or_comm]

@[simp] theorem isExternal_addEdge : (g.addEdge callee caller).isExternal x = g.isExternal x :=
  rfl

@[simp] theorem edges_markExternal : (g.markExternal m).edges = g.edges :=
  rfl

theorem isExternal_markExternal :
    (g.markExternal m).isExternal x = true ↔ g.isExternal x = true ∨ x = m := by
  rw [isExternal, markExternal, Std.TreeSet.contains_insert, Bool.or_eq_true, beq_iff_eq,
    Std.LawfulEqCmp.compare_eq_iff_eq, or_comm, @eq_comm _ m, isExternal]

end CallGraph
end CallOrigins
