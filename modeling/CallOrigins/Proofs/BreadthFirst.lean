import CallOrigins.BreadthFirst
import CallOrigins.Proofs.Levels
import Mathlib.Data.List.Flatten

/-!
# Breadth-first order and distance

A point is *so many steps away* from some starts where a chain of so many successors leads to it
(`StepsFrom`); its distance is the least such number. Two laws tie breadth-first order to it.

A search that goes level by level finds a point with a property at the least distance at which there
is one (`steps_of_find?_levelsFrom`). One invariant carries this (`Frontier`): when a level is
reached, everything nearer was met, hasn't got the property and has its successors among what was
met.

`breadthFirst` marks a point when it is taken off the queue, so that its queue may hold a point many
times, and it is given fuel. It goes by levels nevertheless (`breadthFirst_eq_levelsFrom`): what
counts of its queue are the fresh entries, and the fuel lasts until the queue is empty, on cycles as
well.
-/

namespace CallOrigins

/-! ## Steps and distance -/

section Steps

variable {α : Type} [DecidableEq α] {next : α → List α} {starts : List α} {k n : Nat} {x y : α}

/-- A chain of so many successors leads from a start to a point. -/
inductive StepsFrom (next : α → List α) (starts : List α) : Nat → α → Prop where
  | start {x : α} : x ∈ starts → StepsFrom next starts 0 x
  | step {n : Nat} {x y : α} : StepsFrom next starts n x → y ∈ next x →
    StepsFrom next starts (n + 1) y

/-- **What is known when a level is reached** in the search for a property: the points of the level
are `k` steps away and no less; all points up to there were met; and what was met before the level
has not got the property, and its successors were met too. -/
structure Frontier (next : α → List α) (starts : List α) (p : α → Bool) (k : Nat)
    (met level : List α) : Prop where
  away : ∀ x ∈ level, StepsFrom next starts k x
  least : ∀ x ∈ level, ∀ j, StepsFrom next starts j x → k ≤ j
  nearer : ∀ j ≤ k, ∀ x, StepsFrom next starts j x → x ∈ met
  past : ∀ x ∈ met, x ∈ level ∨ p x = false ∧ ∀ y ∈ next x, y ∈ met

variable {p : α → Bool} {met level : List α}

/-- The starts are the first level. -/
theorem frontier_starts (next : α → List α) (starts : List α) (p : α → Bool) :
    Frontier next starts p 0 (fresh [] starts).reverse (fresh [] starts) where
  away x hx := .start (mem_fresh.1 hx).1
  least _ _ j _ := j.zero_le
  nearer j hj x hx := by
    obtain rfl : j = 0 := Nat.le_zero.1 hj
    cases hx with
    | start hx => exact List.mem_reverse.2 (mem_fresh.2 ⟨hx, List.not_mem_nil⟩)
  past x hx := .inl (List.mem_reverse.1 hx)

/-- **From a level without the property to the next one.** -/
theorem Frontier.step (h : Frontier next starts p k met level) (none : ∀ x ∈ level, p x = false) :
    Frontier next starts p (k + 1) ((fresh met (level.flatMap next)).reverse ++ met)
      (fresh met (level.flatMap next)) := by
  have hadded : ∀ x ∈ level, ∀ y ∈ next x,
      y ∈ (fresh met (level.flatMap next)).reverse ++ met := by
    intro x hx y hy
    by_cases hmet : y ∈ met
    · exact List.mem_append_right _ hmet
    · have hnew : y ∈ fresh met (level.flatMap next) :=
        mem_fresh.2 ⟨List.mem_flatMap.2 ⟨x, hx, hy⟩, hmet⟩
      exact List.mem_append_left _ (List.mem_reverse.2 hnew)
  have hnext : ∀ x ∈ met, p x = false ∧
      ∀ y ∈ next x, y ∈ (fresh met (level.flatMap next)).reverse ++ met := by
    intro x hx
    rcases h.past x hx with hlevel | ⟨hp, hclosed⟩
    · exact ⟨none x hlevel, hadded x hlevel⟩
    · exact ⟨hp, fun y hy => List.mem_append_right _ (hclosed y hy)⟩
  refine ⟨fun y hy => ?_, fun y hy j hj => ?_, fun j hj y hy => ?_, fun y hy => ?_⟩
  · obtain ⟨x, hx, hxy⟩ := List.mem_flatMap.1 (mem_fresh.1 hy).1
    exact .step (h.away x hx) hxy
  · -- what is new was not met, so it is further away than what was
    refine Nat.lt_of_not_le fun hle => ?_
    exact (mem_fresh.1 hy).2 (h.nearer j hle y hj)
  · rcases Nat.le_succ_iff.1 hj with hj | rfl
    · exact List.mem_append_right _ (h.nearer j hj y hy)
    · cases hy with
      | step hx hxy => exact (hnext _ (h.nearer k (Nat.le_refl k) _ hx)).2 y hxy
  · rcases List.mem_append.1 hy with hy | hy
    · exact .inl (List.mem_reverse.1 hy)
    · exact .inr (hnext y hy)

/-- **The levels are searched by distance**: what is found first is as near as anything with the
property. -/
theorem steps_of_find?_levelsFrom (rounds : Nat) (h : Frontier next starts p k met level)
    (found : (levelsFrom next rounds met level).find? p = some x) :
    ∃ n, StepsFrom next starts n x ∧ ∀ j y, StepsFrom next starts j y → p y = true → n ≤ j := by
  induction rounds generalizing k met level with
  | zero => cases found
  | succ rounds ih =>
    rw [levelsFrom, List.find?_append] at found
    cases hlevel : level.find? p with
    | none =>
      rw [hlevel, Option.none_or] at found
      refine ih (h.step fun y hy => ?_) found
      simpa using List.find?_eq_none.1 hlevel y hy
    | some z =>
      rw [hlevel, Option.some_or] at found
      cases found
      refine ⟨k, h.away x (List.mem_of_find?_eq_some hlevel), fun j y hy hp => ?_⟩
      refine Nat.le_of_not_lt fun hlt => ?_
      -- something nearer was met, and it stands in no level before this one
      rcases h.past y (h.nearer j (Nat.le_of_lt hlt) y hy) with hmem | ⟨hfalse, -⟩
      · exact Nat.not_le_of_lt hlt (h.least y hmem j hy)
      · rw [hfalse] at hp
        cases hp

/-- **The levels hold what can be reached**, however far away. -/
theorem mem_levelsFrom_starts {all : List α} (hall : ∀ x, ∀ y ∈ next x, y ∈ all) {rounds : Nat}
    (hrounds : (outside all (fresh [] starts).reverse).length < rounds) :
    x ∈ levelsFrom next rounds (fresh [] starts).reverse (fresh [] starts) ↔
      ∃ n, StepsFrom next starts n x := by
  constructor
  · refine levelsFrom_forall (P := fun x => ∃ n, StepsFrom next starts n x) ?_ _ _ _ ?_ x
    · rintro x ⟨n, hx⟩ y hy
      exact ⟨n + 1, .step hx hy⟩
    · exact fun x hx => ⟨0, .start (mem_fresh.1 hx).1⟩
  · rintro ⟨n, hx⟩
    have first : ∀ y ∈ fresh [] starts,
        y ∈ levelsFrom next rounds (fresh [] starts).reverse (fresh [] starts) := by
      obtain ⟨k, rfl⟩ : ∃ k, rounds = k + 1 := ⟨rounds - 1, by omega⟩
      exact fun y hy => List.mem_append_left _ hy
    induction hx with
    | start hx => exact first _ (mem_fresh.2 ⟨hx, List.not_mem_nil⟩)
    | step _ hxy ih =>
      rcases levelsFrom_closed hall rounds _ _ hrounds _ ih _ hxy with hmet | hlevels
      · exact first _ (List.mem_reverse.1 hmet)
      · exact hlevels

end Steps

/-! ## A queue with repeats -/

variable {size fuel : Nat} {next : Nat → List Nat} {met queue starts : List Nat} {x : Nat}

/-- The number of successors of the points that were not met. -/
def pending (size : Nat) (next : Nat → List Nat) (met : List Nat) : Nat :=
  ((outside (List.range size) met).flatMap next).length

theorem length_flatMap_filter_ne_le {xs : List Nat} (h : x ∈ xs) :
    ((xs.filter (fun y => y ≠ x)).flatMap next).length + (next x).length ≤
      (xs.flatMap next).length := by
  induction xs with
  | nil => cases h
  | cons y ys ih =>
    have hrest : ((ys.filter (fun y => y ≠ x)).flatMap next).length ≤ (ys.flatMap next).length :=
      (List.Sublist.flatMap (List.filter_sublist ..) next).length_le
    by_cases hy : y = x
    · rw [List.filter_cons_of_neg (by simpa using hy), List.flatMap_cons, List.length_append, hy]
      omega
    · have hx := ih ((List.mem_cons.1 h).resolve_left (Ne.symm hy))
      rw [List.filter_cons_of_pos (by simpa using hy), List.flatMap_cons, List.flatMap_cons,
        List.length_append, List.length_append]
      omega

/-- A point that is met for the first time takes its successors with it. -/
theorem pending_cons_le (hsize : ∀ x, size ≤ x → next x = []) (hx : x ∉ met) :
    pending size next (x :: met) + (next x).length ≤ pending size next met := by
  rw [pending, pending, outside_cons]
  by_cases hlt : x < size
  · apply length_flatMap_filter_ne_le
    exact List.mem_filter.2 ⟨List.mem_range.2 hlt, by simpa using hx⟩
  · rw [hsize x (Nat.le_of_not_lt hlt)]
    exact (List.Sublist.flatMap (List.filter_sublist ..) next).length_le

/-- **Of a queue the fresh entries count.** With enough fuel for every entry that the queue can come
to hold, marking points when they are taken off goes through the order of `drain`. -/
theorem breadthFirstFrom_eq_drain (hsize : ∀ x, size ≤ x → next x = []) {all : List Nat}
    (hall : ∀ x, ∀ y ∈ next x, y ∈ all) {fuel' : Nat}
    (hfuel : queue.length + pending size next met ≤ fuel)
    (hfuel' : (fresh met queue).length +
      (outside all ((fresh met queue).reverse ++ met)).length ≤ fuel') :
    breadthFirstFrom next fuel met queue =
      drain next fuel' ((fresh met queue).reverse ++ met) (fresh met queue) := by
  induction fuel generalizing met queue fuel' with
  | zero =>
    obtain rfl : queue = [] := List.eq_nil_of_length_eq_zero (by omega)
    rw [breadthFirstFrom, fresh_nil, drain_nil]
  | succ fuel ih =>
    cases queue with
    | nil => rw [breadthFirstFrom, fresh_nil, drain_nil]
    | cons x queue =>
      rw [List.length_cons] at hfuel
      rw [breadthFirstFrom]
      by_cases hx : x ∈ met
      · rw [if_pos hx]
        rw [fresh_cons_of_mem hx] at hfuel' ⊢
        exact ih (by omega) hfuel'
      · rw [if_neg hx]
        rw [fresh_cons_of_not_mem hx, List.reverse_cons, List.append_assoc,
          List.singleton_append] at hfuel' ⊢
        have hpending := pending_cons_le hsize hx
        have hroom := length_fresh_add_outside_le
          ((fresh (x :: met) queue).reverse ++ x :: met) (hall x)
        have happend := fresh_append (x :: met) queue (next x)
        obtain ⟨fuel', rfl⟩ : ∃ k, fuel' = k + 1 := ⟨fuel' - 1, by simp at hfuel'; omega⟩
        rw [drain, ← happend, ← List.append_assoc, ← List.reverse_append, ← happend]
        refine congrArg (x :: ·) (ih ?_ ?_)
        · rw [List.length_append]
          omega
        · rw [happend, List.length_append, List.reverse_append, List.append_assoc]
          rw [List.length_cons] at hfuel'
          omega

theorem foldr_length_eq (xs : List Nat) :
    (xs.map (fun x => (next x).length)).foldr (· + ·) 0 = (xs.flatMap next).length := by
  induction xs with
  | nil => rfl
  | cons x xs ih => rw [List.map_cons, List.foldr_cons, ih, List.flatMap_cons, List.length_append]

/-- The points that are successors. -/
def successors (size : Nat) (next : Nat → List Nat) : List Nat :=
  (List.range size).flatMap next

theorem mem_successors (hsize : ∀ x, size ≤ x → next x = []) (x : Nat) :
    ∀ y ∈ next x, y ∈ successors size next := by
  intro y hy
  refine List.mem_flatMap.2 ⟨x, List.mem_range.2 (Nat.lt_of_not_le fun hle => ?_), hy⟩
  rw [hsize x hle] at hy
  exact List.not_mem_nil hy

/-- **A breadth-first search ends**: with as many rounds as there are starts and successors it has
worked off its queue, by levels, and more rounds add nothing. -/
theorem breadthFirstFrom_eq_levelsFrom (hsize : ∀ x, size ≤ x → next x = [])
    (hfuel : starts.length + (successors size next).length ≤ fuel) :
    breadthFirstFrom next fuel [] starts =
      levelsFrom next ((outside (successors size next) (fresh [] starts).reverse).length + 1)
        (fresh [] starts).reverse (fresh [] starts) := by
  have hall := mem_successors hsize
  have hpending : pending size next [] = (successors size next).length := by
    rw [pending, outside, List.filter_eq_self.2 (by simp), successors]
  have hdrain : breadthFirstFrom next fuel [] starts =
      drain next _ ((fresh [] starts).reverse ++ []) (fresh [] starts) :=
    breadthFirstFrom_eq_drain hsize hall (hpending ▸ hfuel) (Nat.le_refl _)
  rw [hdrain, List.append_nil]
  exact drain_eq_levelsFrom hall _ _ _ _ (Nat.lt_succ_self _) (Nat.le_refl _)

theorem breadthFirst_eq_levelsFrom (hsize : ∀ x, size ≤ x → next x = []) (starts : List Nat) :
    breadthFirst size next starts =
      levelsFrom next ((outside (successors size next) (fresh [] starts).reverse).length + 1)
        (fresh [] starts).reverse (fresh [] starts) := by
  rw [breadthFirst, foldr_length_eq]
  exact breadthFirstFrom_eq_levelsFrom hsize (Nat.le_refl _)

/-- **Breadth-first order lists what can be reached.** -/
theorem mem_breadthFirst_iff (hsize : ∀ x, size ≤ x → next x = []) :
    x ∈ breadthFirst size next starts ↔ ∃ n, StepsFrom next starts n x := by
  rw [breadthFirst_eq_levelsFrom hsize]
  exact mem_levelsFrom_starts (mem_successors hsize) (Nat.lt_succ_self _)

/-- **Breadth-first order goes by distance.** -/
theorem steps_of_find?_breadthFirst (hsize : ∀ x, size ≤ x → next x = []) {p : Nat → Bool}
    (found : (breadthFirst size next starts).find? p = some x) :
    ∃ n, StepsFrom next starts n x ∧ ∀ j y, StepsFrom next starts j y → p y = true → n ≤ j := by
  rw [breadthFirst_eq_levelsFrom hsize] at found
  exact steps_of_find?_levelsFrom _ (frontier_starts next starts p) found

end CallOrigins
