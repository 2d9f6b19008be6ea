import CallOrigins.Proofs.Levels
import Mathlib.Data.List.Nodup

/-!
# Lists that agree key by key

Two lists *agree by* a key if they have the same entries for every value of it, in the same order
(`AgreeBy`). Entries with different keys may change places. Such lists are permutations of each
other, and what keeps the first entry for each key keeps the same entries of both.

A stable sort and the removal of repetitions work key by key, if the order tells all that the key
tells.
-/

namespace CallOrigins

variable {α β κ μ : Type}

/-- For every key the two lists have the same entries, in the same order. -/
def AgreeBy [DecidableEq κ] (key : α → κ) (xs ys : List α) : Prop :=
  ∀ k, xs.filter (fun x => key x = k) = ys.filter (fun x => key x = k)

namespace AgreeBy

variable [DecidableEq κ] [DecidableEq μ] {key : α → κ} {xs ys : List α}

theorem perm [DecidableEq α] (h : AgreeBy key xs ys) : xs.Perm ys := by
  refine List.perm_iff_count.2 fun a => ?_
  have hcount : ∀ zs : List α, (zs.filter (fun x => key x = key a)).count a = zs.count a :=
    fun zs => List.count_filter (by simp)
  rw [← hcount xs, ← hcount ys, h (key a)]

theorem mem_iff (h : AgreeBy key xs ys) {x : α} : x ∈ xs ↔ x ∈ ys := by
  have hmem : ∀ zs : List α, x ∈ zs ↔ x ∈ zs.filter (fun y => key y = key x) := by simp
  rw [hmem xs, hmem ys, h (key x)]

/-- Entries that are made of entries agree, if their key tells the key of what they are made of. -/
theorem filterMap (h : AgreeBy key xs ys) {f : α → Option β} {key' : β → μ}
    (hkey : ∀ a ∈ xs, ∀ b ∈ xs, ∀ x y, f a = some x → f b = some y → key' x = key' y →
      key a = key b) :
    AgreeBy key' (xs.filterMap f) (ys.filterMap f) := by
  intro k'
  rw [List.filter_filterMap, List.filter_filterMap]
  by_cases hsome : ∃ a ∈ xs, ∃ x, f a = some x ∧ key' x = k'
  · obtain ⟨a, ha, x, hx, rfl⟩ := hsome
    -- everything with this key is made of entries with one key
    have hone : ∀ zs : List α, (∀ b ∈ zs, b ∈ xs) →
        zs.filterMap (fun b => (f b).filter (fun y => key' y = key' x)) =
          (zs.filter (fun b => key b = key a)).filterMap
            (fun b => (f b).filter (fun y => key' y = key' x)) := by
      intro zs hzs
      rw [List.filterMap_filter]
      refine List.filterMap_congr fun b hb => ?_
      cases hfb : f b with
      | none => simp
      | some y =>
        by_cases hy : key' y = key' x
        · simp [hkey b (hzs b hb) a ha y x hfb hx hy]
        · simp [hy]
    rw [hone xs fun _ hb => hb, hone ys fun _ hb => h.mem_iff.2 hb, h (key a)]
  · have hnone : ∀ zs : List α, (∀ b ∈ zs, b ∈ xs) →
        zs.filterMap (fun b => (f b).filter (fun y => key' y = k')) = [] := by
      intro zs hzs
      refine List.filterMap_eq_nil_iff.2 fun b hb => ?_
      cases hfb : f b with
      | none => rfl
      | some y => simpa [Option.filter] using fun hy => hsome ⟨b, hzs b hb, y, hfb, hy⟩
    rw [hnone xs fun _ hb => hb, hnone ys fun _ hb => h.mem_iff.2 hb]

end AgreeBy

/-! ## The first entry for each key -/

theorem mem_freshBy [DecidableEq κ] {key : α → κ} {met : List κ} {xs : List α} {x : α} :
    x ∈ freshBy key met xs ↔
      key x ∉ met ∧ (xs.filter (fun y => key y = key x)).head? = some x := by
  induction xs generalizing met with
  | nil => simp [freshBy]
  | cons y xs ih =>
    rw [freshBy, List.filter_cons]
    by_cases hmet : key y ∈ met
    · rw [if_pos hmet, ih]
      by_cases hkey : key y = key x
      · simp [← hkey, hmet]
      · simp [hkey]
    · rw [if_neg hmet, List.mem_cons, ih]
      by_cases hkey : key y = key x
      · simp only [hkey, decide_true, if_true, List.head?_cons, Option.some.injEq]
        rw [hkey] at hmet
        simp [hmet, eq_comm]
      · have hne : x ≠ y := fun h => hkey (h ▸ rfl)
        simp [hkey, hne, Ne.symm hkey]

theorem AgreeBy.freshBy_perm [DecidableEq κ] {key : α → κ} {xs ys : List α}
    (h : AgreeBy key xs ys) : (freshBy key [] xs).Perm (freshBy key [] ys) := by
  have hnodup : ∀ zs : List α, (freshBy key [] zs).Nodup :=
    fun zs => (nodup_freshBy key [] zs).1.of_map
  refine (List.perm_ext_iff_of_nodup (hnodup xs) (hnodup ys)).2 fun x => ?_
  rw [mem_freshBy, mem_freshBy, h (key x)]

/-! ## Sorting -/

section Sorting

variable {le : α → α → Bool} {p : α → Bool} {xs : List α}

/-- **Sorting is stable**: entries that stand in one place of the order stay as they were. -/
theorem filter_mergeSort (trans : ∀ a b c, le a b = true → le b c = true → le a c = true)
    (total : ∀ a b, (le a b || le b a) = true)
    (hp : ∀ a ∈ xs, ∀ b ∈ xs, p a = true → p b = true → le a b = true) :
    (xs.mergeSort le).filter p = xs.filter p := by
  have hsorted : (xs.filter p).Pairwise (fun a b => le a b = true) := by
    refine List.pairwise_of_forall_mem_list fun a ha b hb => ?_
    obtain ⟨ha, hpa⟩ := List.mem_filter.1 ha
    obtain ⟨hb, hpb⟩ := List.mem_filter.1 hb
    exact hp a ha b hb hpa hpb
  have hsub := (List.sublist_mergeSort trans total hsorted List.filter_sublist).filter p
  simp only [List.filter_filter, Bool.and_self] at hsub
  exact (hsub.eq_of_length ((List.mergeSort_perm xs le).filter p).length_eq.symm).symm

variable [DecidableEq α]

theorem eraseReps_cons_cons (a b : α) (as : List α) :
    (a :: b :: as).eraseReps = if a = b then (b :: as).eraseReps else a :: (b :: as).eraseReps := by
  have hloop : ∀ (as : List α) (a : α) (acc : List α),
      List.eraseRepsBy.loop (· == ·) a as acc =
        acc.reverse ++ List.eraseRepsBy.loop (· == ·) a as [] := by
    intro as
    induction as with
    | nil => simp [List.eraseRepsBy.loop]
    | cons b as ih =>
      intro a acc
      rw [List.eraseRepsBy.loop, List.eraseRepsBy.loop]
      split
      · exact ih a acc
      · rw [ih b (a :: acc), ih b [a]]
        simp
  rw [List.eraseReps, List.eraseReps, List.eraseRepsBy, List.eraseRepsBy, List.eraseRepsBy.loop]
  by_cases hab : a = b
  · simp [hab]
  · rw [beq_eq_false_iff_ne.2 hab, if_neg hab]
    exact hloop as b [a]

theorem eraseReps_map [DecidableEq β] {f : α → β} (hf : f.Injective) (xs : List α) :
    (xs.map f).eraseReps = xs.eraseReps.map f := by
  induction xs with
  | nil => rfl
  | cons a xs ih =>
    cases xs with
    | nil => rfl
    | cons b xs =>
      rw [List.map_cons] at ih
      rw [List.map_cons, List.map_cons, eraseReps_cons_cons, eraseReps_cons_cons, ih]
      simp only [hf.eq_iff]
      split <;> rfl

/-- In a sorted list the entries of one place stand side by side, so that repetitions of one of
them have nothing else between them. -/
theorem filter_eraseReps (hsorted : xs.Pairwise (fun a b => le a b = true))
    (hp : ∀ a ∈ xs, ∀ b ∈ xs, ∀ c ∈ xs, le a b = true → le b c = true → p a = true →
      p c = true → p b = true) :
    xs.eraseReps.filter p = (xs.filter p).eraseReps := by
  induction xs with
  | nil => rfl
  | cons a xs ih =>
    cases xs with
    | nil =>
      rw [show [a].eraseReps = [a] from rfl, List.filter_singleton]
      cases p a <;> rfl
    | cons b xs =>
      obtain ⟨hab, hsorted'⟩ := List.pairwise_cons.1 hsorted
      have hrest := ih hsorted' fun a ha b hb c hc =>
        hp a (List.mem_cons_of_mem _ ha) b (List.mem_cons_of_mem _ hb) c (List.mem_cons_of_mem _ hc)
      rw [eraseReps_cons_cons]
      by_cases heq : a = b
      · subst heq
        rw [if_pos rfl, hrest]
        by_cases ha : p a = true
        · rw [List.filter_cons_of_pos ha, List.filter_cons_of_pos ha, List.filter_cons_of_pos ha,
            eraseReps_cons_cons, if_pos rfl]
        · rw [List.filter_cons_of_neg ha, List.filter_cons_of_neg ha, List.filter_cons_of_neg ha]
      · rw [if_neg heq]
        by_cases ha : p a = true
        · rw [List.filter_cons_of_pos ha, hrest, List.filter_cons_of_pos ha]
          by_cases hb : p b = true
          · rw [List.filter_cons_of_pos hb, eraseReps_cons_cons, if_neg heq]
          · -- the entries of this place ended with `a`
            have hnone : (b :: xs).filter p = [] := by
              refine List.filter_eq_nil_iff.2 fun c hc hpc => hb ?_
              rcases List.mem_cons.1 hc with rfl | hc'
              · exact hpc
              · exact hp a List.mem_cons_self b (by simp) c (by simp [hc'])
                  (hab b List.mem_cons_self) ((List.pairwise_cons.1 hsorted').1 c hc') ha hpc
            rw [hnone]
            rfl
        · rw [List.filter_cons_of_neg ha, List.filter_cons_of_neg ha, hrest]

end Sorting
end CallOrigins
