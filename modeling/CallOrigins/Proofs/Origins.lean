import CallOrigins.CallGraph.Origins
import CallOrigins.Proofs.CallGraph
import CallOrigins.Proofs.Levels
import Mathlib.Data.List.Chain
import Mathlib.Logic.Relation

/-!
# Origins are what can be reached

The walk for the origins of a method gives a branch up when it meets a method of its own path.
**The law** (`mem_origins`): nothing is lost by that. The origins of a method are the methods
without source callers, not external, that are reached from it by any steps from a method to
one of its source callers.

The walk is described for every path it may be on (`walkOrigins_spec`): it gives its path back
and adds the origins that are reached *off the path*. A way off the path that comes back to its
start can be cut there (`reachesOff_iff`), which is why the longer path of the inner walks does
no harm. The fuel counts callers that are not on the path yet.

Last, the law is said of what a graph records and no more: its callers and its marks
(`origins_chain_ends`).
-/

namespace CallOrigins

open Relation (ReflTransGen)

namespace CallGraph

variable {g : CallGraph} {path : List MethodId} {m c r : MethodId}

@[simp] theorem mem_sourceCallers :
    c ∈ g.sourceCallers m ↔ (m, c) ∈ g.edges ∧ g.isExternal c = false := by
  simp [sourceCallers]

/-- A method at which walks end: it is not external and has no caller but external ones. -/
def IsOrigin (g : CallGraph) (m : MethodId) : Prop :=
  g.isExternal m = false ∧ g.sourceCallers m = []

/-- One method is reached from another by steps to source callers, and no method on the way,
both ends included, is on the path. -/
def ReachesOff (g : CallGraph) (path : List MethodId) (m r : MethodId) : Prop :=
  m ∉ path ∧ ReflTransGen (fun x y => y ∈ g.sourceCallers x ∧ y ∉ path) m r

/-! ## Cutting loops -/

/-- A way that meets a method can be cut at the last place where it does. -/
private theorem cut_at_last {x : MethodId}
    (h : ReflTransGen (fun x y => y ∈ g.sourceCallers x ∧ y ∉ path) x r) (hx : x ∉ path) :
    g.ReachesOff (m :: path) x r ∨ r = m ∨
      ∃ c ∈ g.sourceCallers m, g.ReachesOff (m :: path) c r := by
  induction h using ReflTransGen.head_induction_on with
  | refl =>
    by_cases hr : r = m
    · exact .inr (.inl hr)
    · exact .inl ⟨List.not_mem_cons_of_ne_of_not_mem hr hx, .refl⟩
  | @head x y hxy _ ih =>
    rcases ih hxy.2 with hy | hrest
    · by_cases hxm : x = m
      · exact .inr (.inr ⟨y, hxm ▸ hxy.1, hy⟩)
      · exact .inl ⟨List.not_mem_cons_of_ne_of_not_mem hxm hx, .head ⟨hxy.1, hy.1⟩ hy.2⟩
    · exact .inr hrest

theorem ReachesOff.mono (h : g.ReachesOff (m :: path) c r) :
    ReflTransGen (fun x y => y ∈ g.sourceCallers x ∧ y ∉ path) c r := by
  refine ReflTransGen.mono (fun x y hxy => ?_) c r h.2
  exact ⟨hxy.1, fun hy => hxy.2 (List.mem_cons_of_mem _ hy)⟩

/-- **What is reached off a path** is the method itself, and what one of its source callers
reaches off the path with the method on it. -/
theorem reachesOff_iff : g.ReachesOff path m r ↔
    m ∉ path ∧ (r = m ∨ ∃ c ∈ g.sourceCallers m, g.ReachesOff (m :: path) c r) := by
  refine and_congr_right fun hm => ⟨fun h => ?_, ?_⟩
  · rcases cut_at_last (m := m) h hm with hoff | hrest
    · exact absurd (List.mem_cons_self ..) hoff.1
    · exact hrest
  · rintro (rfl | ⟨c, hc, hoff⟩)
    · exact .refl
    · exact .head ⟨hc, fun h => hoff.1 (List.mem_cons_of_mem _ h)⟩ hoff.mono

/-! ## The walk -/

/-- The callers in the graph, as often as they stand in an edge. -/
def allCallers (g : CallGraph) : List MethodId :=
  g.edges.map Prod.snd

/-- Enough fuel to walk on from a method: more than there are callers off the path, or as much
where the method is one of them. -/
def EnoughFuel (g : CallGraph) (path : List MethodId) (m : MethodId) (fuel : Nat) : Prop :=
  (outside g.allCallers path).length < fuel ∨
    m ∈ g.allCallers ∧ (outside g.allCallers path).length ≤ fuel

theorem EnoughFuel.mem_path (h : g.EnoughFuel path m 0) : m ∈ path := by
  rcases h with h | ⟨hm, h⟩
  · omega
  · have hnil : outside g.allCallers path = [] := List.eq_nil_of_length_eq_zero (by omega)
    by_cases hpath : m ∈ path
    · exact hpath
    · have hoff : m ∈ outside g.allCallers path := List.mem_filter.2 ⟨hm, by simpa using hpath⟩
      rw [hnil] at hoff
      exact absurd hoff List.not_mem_nil

theorem EnoughFuel.step {fuel : Nat} (h : g.EnoughFuel path m (fuel + 1)) (hpath : m ∉ path)
    (hc : c ∈ g.sourceCallers m) : g.EnoughFuel (m :: path) c fuel := by
  refine .inr ⟨List.mem_map.2 ⟨(m, c), (mem_sourceCallers.1 hc).1, rfl⟩, ?_⟩
  rcases h with h | ⟨hm, h⟩
  · have := length_outside_cons_le g.allCallers path m
    omega
  · have := length_outside_cons_lt hm hpath
    omega

/-- What a walk from a method does: it gives the path back, and the origins it adds are those
that are reached off the path. -/
structure Walked (g : CallGraph) (starts : List MethodId) (w w' : OriginWalk) : Prop where
  path : w'.path = w.path
  mem_origins : ∀ r, r ∈ w'.origins ↔
    r ∈ w.origins ∨ ∃ c ∈ starts, g.IsOrigin r ∧ g.ReachesOff w.path c r

/-- Walks from one caller after the other. -/
theorem foldl_walked {f : OriginWalk → MethodId → OriginWalk} {path : List MethodId} :
    ∀ {cs : List MethodId} {w : OriginWalk}, w.path = path →
      (∀ c ∈ cs, ∀ w : OriginWalk, w.path = path → g.Walked [c] w (f w c)) →
      g.Walked cs w (cs.foldl f w)
  | [], w, _, _ => ⟨rfl, by simp⟩
  | c :: cs, w, hw, step => by
    have first := step c (List.mem_cons_self ..) w hw
    have rest := foldl_walked (first.path.trans hw)
      (fun c' hc' => step c' (List.mem_cons_of_mem _ hc'))
    refine ⟨rest.path.trans first.path, fun r => ?_⟩
    rw [List.foldl_cons, rest.mem_origins, first.mem_origins, first.path]
    simp [or_assoc]

/-- **The walk** from a method, on any path. -/
theorem walkOrigins_spec : ∀ (fuel : Nat) (m : MethodId) (w : OriginWalk),
    g.EnoughFuel w.path m fuel → g.Walked [m] w (g.walkOrigins fuel m w) := by
  intro fuel
  induction fuel with
  | zero =>
    intro m w hfuel
    have hm := hfuel.mem_path
    exact ⟨rfl, fun r => by simp [walkOrigins, ReachesOff, hm]⟩
  | succ fuel ih =>
    intro m w hfuel
    by_cases hm : m ∈ w.path
    · rw [walkOrigins, if_pos hm]
      exact ⟨rfl, fun r => by simp [ReachesOff, hm]⟩
    · let inner : OriginWalk := { w with path := m :: w.path }
      have below : g.Walked (g.sourceCallers m) inner
          ((g.sourceCallers m).foldl (fun w c => g.walkOrigins fuel c w) inner) :=
        foldl_walked rfl fun c hc w' hw' => ih c w' (hw' ▸ hfuel.step hm hc)
      rw [walkOrigins, if_neg hm]
      dsimp only
      refine ⟨?_, fun r => ?_⟩
      · rw [below.path, List.erase_cons_head]
      · have hself : (g.sourceCallers m).isEmpty && !g.isExternal m ↔ g.IsOrigin m := by
          simp [IsOrigin, and_comm]
        have hoff : g.ReachesOff w.path m r ↔ m ∉ w.path ∧
            (r = m ∨ ∃ c ∈ g.sourceCallers m, g.ReachesOff (m :: w.path) c r) := reachesOff_iff
        have hmem := below.mem_origins r
        split
        next ho =>
          rw [MethodId.mem_insertInto, hmem]
          have := hself.1 ho
          grind
        next ho =>
          rw [hmem]
          have : ¬ g.IsOrigin m := fun h => ho (hself.2 h)
          grind

/-- **The origins of a method** are the methods it reaches at which walks end. -/
theorem mem_origins : r ∈ g.origins m ↔
    g.IsOrigin r ∧ ReflTransGen (fun x y => y ∈ g.sourceCallers x) m r := by
  have hfuel : g.EnoughFuel [] m (g.edges.length + 1) := by
    refine .inl (Nat.lt_succ_of_le ?_)
    exact List.length_map (f := Prod.snd) ▸ List.length_filter_le _ (g.edges.map Prod.snd)
  have walked := walkOrigins_spec (g.edges.length + 1) m {} hfuel
  rw [origins, edgeCount_eq, walked.mem_origins]
  simp [ReachesOff]

theorem walkOrigins_ascending : ∀ (fuel : Nat) (m : MethodId) (w : OriginWalk),
    MethodId.Ascending w.origins → MethodId.Ascending (g.walkOrigins fuel m w).origins := by
  intro fuel
  induction fuel with
  | zero => exact fun _ _ h => h
  | succ fuel ih =>
    intro m w h
    have fold : ∀ (cs : List MethodId) (w : OriginWalk), MethodId.Ascending w.origins →
        MethodId.Ascending (cs.foldl (fun w c => g.walkOrigins fuel c w) w).origins := by
      intro cs
      induction cs with
      | nil => exact fun _ h => h
      | cons c cs ihcs => exact fun w h => ihcs _ (ih c w h)
    have below := fold (g.sourceCallers m) { w with path := m :: w.path } h
    rw [walkOrigins]
    split
    · exact h
    · dsimp only
      split
      · exact below.insertInto m
      · exact below

/-- Origins are listed in ascending order, each of them once. -/
theorem origins_ascending (g : CallGraph) (m : MethodId) : MethodId.Ascending (g.origins m) :=
  walkOrigins_ascending _ _ _ List.Pairwise.nil

/-! ## Chains of callers -/

/-- Steps off a path are the links of a chain of callers that does not meet the path and of which
none is external. -/
theorem reachesOff_iff_chain : g.ReachesOff path m r ↔
    ∃ chain : List MethodId, (m :: chain).IsChain (fun x y => y ∈ g.callers x) ∧
      (∀ c ∈ chain, g.isExternal c = false) ∧ (∀ c ∈ m :: chain, c ∉ path) ∧
        (m :: chain).getLast? = some r := by
  constructor
  · rintro ⟨hm, h⟩
    induction h using ReflTransGen.head_induction_on with
    | refl => exact ⟨[], .singleton r, by simp, by simpa using hm, rfl⟩
    | @head x y hxy _ ih =>
      obtain ⟨chain, hchain, hsource, hoff, hlast⟩ := ih hxy.2
      obtain ⟨hcaller, hy⟩ := mem_sourceCallers.1 hxy.1
      refine ⟨y :: chain, hchain.cons_cons (mem_callers.2 hcaller), ?_, ?_, ?_⟩
      · simpa [hy] using hsource
      · exact List.forall_mem_cons.2 ⟨hm, hoff⟩
      · rw [List.getLast?_cons_cons]
        exact hlast
  · rintro ⟨chain, hchain, hsource, hoff, hlast⟩
    refine ⟨hoff m (List.mem_cons_self ..), ?_⟩
    induction chain generalizing m with
    | nil =>
      obtain rfl : m = r := by simpa using hlast
      exact .refl
    | cons c chain ih =>
      obtain ⟨hcaller, hrest⟩ := List.isChain_cons_cons.1 hchain
      obtain ⟨hc, hsource⟩ := List.forall_mem_cons.1 hsource
      obtain ⟨-, hoff⟩ := List.forall_mem_cons.1 hoff
      have hstep : c ∈ g.sourceCallers m := mem_sourceCallers.2 ⟨mem_callers.1 hcaller, hc⟩
      rw [List.getLast?_cons_cons] at hlast
      exact .head ⟨hstep, hoff c (List.mem_cons_self ..)⟩ (ih hrest hsource hoff hlast)

/-- Steps to source callers are the links of a chain of callers of which none is external. -/
theorem reaches_iff_chain : ReflTransGen (fun x y => y ∈ g.sourceCallers x) m r ↔
    ∃ chain : List MethodId, (m :: chain).IsChain (fun x y => y ∈ g.callers x) ∧
      (∀ c ∈ chain, g.isExternal c = false) ∧ (m :: chain).getLast? = some r := by
  have hoff := @reachesOff_iff_chain g [] m r
  simpa [ReachesOff] using hoff

theorem isOrigin_iff : g.IsOrigin r ↔
    g.isExternal r = false ∧ ∀ c ∈ g.callers r, g.isExternal c = true := by
  rw [IsOrigin, sourceCallers, List.filter_eq_nil_iff]
  simp

/-- **Origins are the ends of chains of callers.** Each of them is listed once, in the order of
the bytes of the names. A method is listed just if it is not external, has no caller but external
ones, and is the last of a chain that begins with the start: every other method of the chain is a
recorded caller of the one before it and not external. The start may be external. -/
theorem origins_chain_ends (g : CallGraph) (start : MethodId) :
    (g.origins start).Pairwise (fun a b => a.bytes < b.bytes) ∧
      ∀ r, r ∈ g.origins start ↔
        g.isExternal r = false ∧ (∀ c ∈ g.callers r, g.isExternal c = true) ∧
          ∃ chain : List MethodId, (start :: chain).IsChain (fun m c => c ∈ g.callers m) ∧
            (∀ c ∈ chain, g.isExternal c = false) ∧ (start :: chain).getLast? = some r := by
  refine ⟨?_, fun r => ?_⟩
  · exact (origins_ascending g start).imp (fun h => MethodId.before_iff_bytes_lt.1 h)
  · rw [mem_origins, isOrigin_iff, reaches_iff_chain, and_assoc]

/-- Two cycles with a method in common: the way to the origin leaves the first one inside the
second, and the library that calls the origin does not count. -/
example :
    CallGraph.origins
      ([("a", "b"), ("b", "a"), ("b", "c"), ("c", "b"), ("c", "main"), ("main", "lib")].foldl
        (fun g e => g.addEdge ⟨e.1⟩ ⟨e.2⟩) (markExternal {} ⟨"lib"⟩)) ⟨"a"⟩ = [⟨"main"⟩] := by
  decide +kernel

end CallGraph
end CallOrigins
