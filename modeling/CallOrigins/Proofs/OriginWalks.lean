import CallOrigins.Proofs.Origins
import Mathlib.Data.Set.Card

/-!
# A walk for origins ends and gives its path back

The walk is bounded by a number, and a number that is too small would cut it off without a word.
Here the walk is said without one, as a relation (`Walks`): the calls that are made for some
methods one after the other, how deep these calls go, and what they leave. On a graph with cycles
it is not plain that there always is such a walk.

**The law** (`walk_restores_path`): from every method, on every path and with any origins found
before, there is one walk and no other. It gives the path back, it adds the origins at the ends of
the chains of callers off the path, and it goes at most one call deeper than there are methods off
the path. Any bound from its depth on computes it.

A call goes deeper only at a method that has a caller and is not on the path, and the calls below
it have that method on their path (`Walks.exists_depth_le`). So what is left to go deeper at
gets less with every call, while the calls side by side start with one and the same path.
-/

namespace CallOrigins
namespace CallGraph

variable {g : CallGraph} {m : MethodId} {ms : List MethodId} {w w' : OriginWalk}

/-- What a walk leaves when it comes back to a method: the method is off the path again, and it is
an origin where it is not external and nothing of the source calls it. -/
def comeBack (g : CallGraph) (m : MethodId) (below : OriginWalk) : OriginWalk where
  path := below.path.erase m
  origins :=
    if (g.sourceCallers m).isEmpty && !g.isExternal m then MethodId.insertInto m below.origins
    else below.origins

/-- The walks from some methods, one after the other: what they start with, how many calls there
are in each other at the deepest place, and what they leave. -/
inductive Walks (g : CallGraph) : List MethodId → OriginWalk → Nat → OriginWalk → Prop
  | done {w : OriginWalk} : Walks g [] w 0 w
  /-- A method of the path is given up. -/
  | met {m : MethodId} {ms : List MethodId} {w w' : OriginWalk} {rest : Nat} :
      m ∈ w.path → Walks g ms w rest w' → Walks g (m :: ms) w (max 1 rest) w'
  /-- Any other method is on the path while its source callers are walked from. -/
  | deeper {m : MethodId} {ms : List MethodId} {w below w' : OriginWalk} {inner rest : Nat} :
      m ∉ w.path → Walks g (g.sourceCallers m) { w with path := m :: w.path } inner below →
        Walks g ms (g.comeBack m below) rest w' → Walks g (m :: ms) w (max (inner + 1) rest) w'

namespace Walks

variable {depth depth₂ : Nat} {w₂ : OriginWalk}

/-- **The path is given back.** -/
theorem path (h : g.Walks ms w depth w') : w'.path = w.path := by
  induction h with
  | done => rfl
  | met _ _ ih => exact ih
  | @deeper m _ w below _ _ _ _ _ _ inner rest =>
    rw [rest, comeBack, inner, List.erase_cons_head]

/-- There is no other walk. -/
theorem unique (h : g.Walks ms w depth w') (h₂ : g.Walks ms w depth₂ w₂) :
    depth₂ = depth ∧ w₂ = w' := by
  induction h generalizing depth₂ w₂ with
  | done =>
    cases h₂
    exact ⟨rfl, rfl⟩
  | met hm _ ih =>
    cases h₂ with
    | met _ rest₂ =>
      obtain ⟨rfl, rfl⟩ := ih rest₂
      exact ⟨rfl, rfl⟩
    | deeper hm₂ => exact absurd hm hm₂
  | deeper hm _ _ ihInner ihRest =>
    cases h₂ with
    | met hm₂ => exact absurd hm₂ hm
    | deeper _ inner₂ rest₂ =>
      obtain ⟨rfl, rfl⟩ := ihInner inner₂
      obtain ⟨rfl, rfl⟩ := ihRest rest₂
      exact ⟨rfl, rfl⟩

/-- A bound that the depth keeps to does not show. -/
theorem foldl_walkOrigins (h : g.Walks ms w depth w') {fuel : Nat} (hfuel : depth ≤ fuel) :
    ms.foldl (fun w c => g.walkOrigins fuel c w) w = w' := by
  induction h generalizing fuel with
  | done => rfl
  | met hm _ ih =>
    obtain ⟨hfirst, hrest⟩ := Nat.max_le.1 hfuel
    obtain ⟨fuel, rfl⟩ := Nat.exists_eq_add_of_le' hfirst
    rw [List.foldl_cons, walkOrigins, if_pos hm, ih hrest]
  | deeper hm _ _ ihInner ihRest =>
    obtain ⟨hfirst, hrest⟩ := Nat.max_le.1 hfuel
    obtain ⟨fuel, rfl⟩ := Nat.exists_eq_add_of_le' (Nat.le_of_add_left_le hfirst)
    rw [List.foldl_cons, walkOrigins, if_neg hm]
    dsimp only
    rw [ihInner (Nat.le_of_add_le_add_right hfirst)]
    exact ihRest hrest

/-- A walk from one method, and then the walks from others. -/
theorem cons {v : OriginWalk} {first rest : Nat} (hfirst : g.Walks [m] w first v)
    (hrest : g.Walks ms v rest w') : g.Walks (m :: ms) w (max first rest) w' := by
  cases hfirst with
  | met hm hdone =>
    cases hdone
    rw [Nat.max_zero]
    exact .met hm hrest
  | deeper hm hinner hdone =>
    cases hdone
    rw [Nat.max_zero]
    exact .deeper hm hinner hrest

end Walks

/-! ## There is a walk -/

/-- The methods of the graph that are called, each of them once. -/
def called (g : CallGraph) : List MethodId :=
  (g.edges.map Prod.fst).dedup

theorem mem_called_of_mem_sourceCallers {c : MethodId} (hc : c ∈ g.sourceCallers m) :
    m ∈ g.called :=
  List.mem_dedup.2 (List.mem_map.2 ⟨(m, c), (mem_sourceCallers.1 hc).1, rfl⟩)

/-- Walks side by side: each of them starts with the path that the one before it gave back. -/
theorem Walks.exists_of_forall {path : List MethodId} {bound : Nat}
    (each : ∀ c ∈ ms, ∀ w : OriginWalk, w.path = path →
      ∃ depth w', g.Walks [c] w depth w' ∧ depth ≤ bound) (hw : w.path = path) :
    ∃ depth w', g.Walks ms w depth w' ∧ depth ≤ bound := by
  induction ms generalizing w with
  | nil => exact ⟨0, w, .done, Nat.zero_le _⟩
  | cons c ms ih =>
    obtain ⟨first, v, hfirst, hle⟩ := each c (List.mem_cons_self ..) w hw
    obtain ⟨rest, w', hrest, hle'⟩ :=
      ih (fun c' hc' => each c' (List.mem_cons_of_mem _ hc')) (hfirst.path.trans hw)
    exact ⟨max first rest, w', hfirst.cons hrest, Nat.max_le.2 ⟨hle, hle'⟩⟩

/-- **There is a walk**, at most one call deeper than there are called methods off the path. -/
theorem Walks.exists_depth_le (g : CallGraph) (m : MethodId) (w : OriginWalk) :
    ∃ depth w', g.Walks [m] w depth w' ∧ depth ≤ (outside g.called w.path).length + 1 := by
  induction hn : (outside g.called w.path).length using Nat.strong_induction_on
    generalizing m w with
  | _ n ih =>
    subst hn
    by_cases hm : m ∈ w.path
    · exact ⟨_, w, .met hm .done, Nat.max_le.2 ⟨Nat.le_add_left .., Nat.zero_le _⟩⟩
    · have each : ∀ c ∈ g.sourceCallers m, ∀ v : OriginWalk, v.path = m :: w.path →
          ∃ depth v', g.Walks [c] v depth v' ∧ depth ≤ (outside g.called w.path).length := by
        intro c hc v hv
        have hless : (outside g.called v.path).length < (outside g.called w.path).length :=
          hv ▸ length_outside_cons_lt (mem_called_of_mem_sourceCallers hc) hm
        obtain ⟨depth, v', hwalk, hdepth⟩ := ih _ hless c v rfl
        exact ⟨depth, v', hwalk, Nat.le_trans hdepth hless⟩
      obtain ⟨inner, below, hinner, hle⟩ :=
        Walks.exists_of_forall (w := { w with path := m :: w.path }) each rfl
      refine ⟨_, g.comeBack m below, .deeper hm hinner .done, Nat.max_le.2 ⟨?_, Nat.zero_le _⟩⟩
      exact Nat.add_le_add_right hle 1

theorem length_outside_called_le (g : CallGraph) (path : List MethodId) :
    (outside g.called path).length ≤ g.edges.length := by
  calc (outside g.called path).length
      ≤ g.called.length := List.length_filter_le ..
    _ ≤ (g.edges.map Prod.fst).length := (List.dedup_sublist _).length_le
    _ = g.edges.length := List.length_map ..

/-- Is a method a caller in the graph, or called? -/
def Mentions (g : CallGraph) (x : MethodId) : Prop :=
  ∃ y, y ∈ g.callers x ∨ x ∈ g.callers y

theorem finite_mentions (g : CallGraph) : {x | g.Mentions x}.Finite := by
  refine (g.edges.map Prod.fst ++ g.edges.map Prod.snd).finite_toSet.subset ?_
  rintro x ⟨y, h | h⟩
  · exact List.mem_append_left _ (List.mem_map.2 ⟨(x, y), mem_callers.1 h, rfl⟩)
  · exact List.mem_append_right _ (List.mem_map.2 ⟨(y, x), mem_callers.1 h, rfl⟩)

/-- Called methods off the path are methods of the graph. -/
theorem length_outside_called_le_ncard (g : CallGraph) (m : MethodId) (path : List MethodId) :
    (outside g.called path).length ≤ {x | (x = m ∨ g.Mentions x) ∧ x ∉ path}.ncard := by
  have hnodup : (outside g.called path).Nodup := (List.nodup_dedup _).filter _
  rw [← List.toFinset_card_of_nodup hnodup, ← Set.ncard_coe_finset]
  refine Set.ncard_le_ncard ?_ ?_
  · intro x hx
    obtain ⟨hcalled, hoff⟩ := List.mem_filter.1 (List.mem_toFinset.1 hx)
    obtain ⟨⟨_, c⟩, hedge, rfl⟩ := List.mem_map.1 (List.mem_dedup.1 hcalled)
    exact ⟨.inr ⟨c, .inl (mem_callers.2 hedge)⟩, of_decide_eq_true hoff⟩
  · exact ((Set.finite_singleton m).union g.finite_mentions).subset fun x hx => hx.1

/-- **A walk ends and gives its path back.** From every method, on every path and with any origins
found before it, there is exactly one walk.

* It goes at most one call deeper than there are different methods off the path, the start and
  those of the graph, and every bound from its depth on computes it: the number of edges with one
  more is such a bound.
* It leaves the path it started with.
* It adds to the origins the methods that are not external, have no caller but external ones, and
  are the last of a chain of callers that begins with the start, meets the path nowhere and has no
  external method after the start. There is none where the start is on the path. Origins in
  ascending order stay so. -/
theorem walk_restores_path (g : CallGraph) (m : MethodId) (w : OriginWalk) :
    ∃ depth w', g.Walks [m] w depth w' ∧
      (∀ depth₂ w₂, g.Walks [m] w depth₂ w₂ → depth₂ = depth ∧ w₂ = w') ∧
      depth ≤ {x | (x = m ∨ g.Mentions x) ∧ x ∉ w.path}.ncard + 1 ∧
      depth ≤ g.edges.length + 1 ∧ (∀ fuel, depth ≤ fuel → g.walkOrigins fuel m w = w') ∧
      w'.path = w.path ∧
      (∀ r, r ∈ w'.origins ↔ r ∈ w.origins ∨
        (g.isExternal r = false ∧ (∀ c ∈ g.callers r, g.isExternal c = true) ∧
          ∃ chain : List MethodId, (m :: chain).IsChain (fun x c => c ∈ g.callers x) ∧
            (∀ c ∈ chain, g.isExternal c = false) ∧ (∀ c ∈ m :: chain, c ∉ w.path) ∧
              (m :: chain).getLast? = some r)) ∧
      (MethodId.Ascending w.origins → MethodId.Ascending w'.origins) := by
  obtain ⟨depth, w', hwalk, hdepth⟩ := Walks.exists_depth_le g m w
  have hedges := length_outside_called_le g w.path
  have hmethods := length_outside_called_le_ncard g m w.path
  have hcomputes : ∀ fuel, depth ≤ fuel → g.walkOrigins fuel m w = w' :=
    fun fuel hfuel => hwalk.foldl_walkOrigins hfuel
  have hbound : g.walkOrigins (g.edges.length + 1) m w = w' := hcomputes _ (by omega)
  have hwalked : g.Walked [m] w w' := by
    rw [← hbound]
    refine walkOrigins_spec _ m w (.inl (Nat.lt_succ_of_le ?_))
    exact (List.length_filter_le _ g.allCallers).trans_eq (List.length_map ..)
  refine ⟨depth, w', hwalk, fun _ _ => hwalk.unique, by omega, by omega, hcomputes, hwalk.path,
    fun r => ?_, fun h => ?_⟩
  · rw [hwalked.mem_origins, isOrigin_iff]
    simp only [List.mem_singleton, exists_eq_left, reachesOff_iff_chain, and_assoc]
  · exact hbound ▸ walkOrigins_ascending _ m w h

/-- Three methods in a cycle, of which one is called by `main`: with `main` on the path the walk
finds nothing, and `main` is on the path after it. -/
example :
    CallGraph.walkOrigins
      ([("a", "b"), ("b", "c"), ("c", "a"), ("c", "main")].foldl
        (fun g e => g.addEdge ⟨e.1⟩ ⟨e.2⟩) {}) 4 ⟨"a"⟩ { path := [⟨"main"⟩] } =
      { path := [⟨"main"⟩] } := by
  decide +kernel

end CallGraph
end CallOrigins
