/-!
# Breadth-first order by levels

The breadth-first order of what can be reached from a start is said here by **levels**: the
start, then what one step adds to it, then what one more step adds, each entry once and at the
first place where it is found (`levelsFrom`).

A search with a queue takes one entry off at a time and puts the new ones of its successors to
the end (`drain`). **The law** (`drain_eq_levelsFrom`): it goes through the same order. The
queue always holds the rest of one level and the part of the next one that was found so far.

Where all successors lie in a finite list, the number of its entries that were not met yet
(`outside`) bounds what is to come.
-/

namespace CallOrigins

variable {α β γ : Type} [DecidableEq α]

/-! ## Entries not met yet -/

/-- The entries of a list that were not met. -/
def outside (xs met : List α) : List α :=
  xs.filter (fun x => x ∉ met)

theorem outside_cons {xs met : List α} {x : α} :
    outside xs (x :: met) = (outside xs met).filter (fun y => y ≠ x) := by
  rw [outside, outside, List.filter_filter]
  refine List.filter_congr fun y _ => ?_
  simp [not_or]

theorem length_outside_cons_le (xs met : List α) (x : α) :
    (outside xs (x :: met)).length ≤ (outside xs met).length := by
  rw [outside_cons]
  exact List.length_filter_le ..

theorem length_outside_cons_lt {xs met : List α} {x : α} (hx : x ∈ xs) (hmet : x ∉ met) :
    (outside xs (x :: met)).length < (outside xs met).length := by
  rw [outside_cons, List.length_filter_lt_length_iff_exists]
  exact ⟨x, List.mem_filter.2 ⟨hx, by simpa using hmet⟩, by simp⟩

/-- The entries of a list whose key was not met, the first one for each key. -/
def freshBy (key : β → α) (met : List α) : List β → List β
  | [] => []
  | x :: xs => if key x ∈ met then freshBy key met xs else x :: freshBy key (key x :: met) xs

theorem freshBy_sublist (key : β → α) (met : List α) (xs : List β) :
    (freshBy key met xs).Sublist xs := by
  induction xs generalizing met with
  | nil => exact .slnil
  | cons x xs ih =>
    unfold freshBy
    split
    · exact (ih met).cons x
    · exact (ih (key x :: met)).cons_cons x

/-- Fresh entries of a longer list: those of its front, and then those that are fresh to what
the front has added. -/
theorem freshBy_append (key : β → α) (met : List α) (xs ys : List β) :
    freshBy key met (xs ++ ys) = freshBy key met xs ++
      freshBy key (((freshBy key met xs).map key).reverse ++ met) ys := by
  induction xs generalizing met with
  | nil => rfl
  | cons x xs ih =>
    by_cases hx : key x ∈ met
    · simp only [List.cons_append, freshBy, if_pos hx, ih]
    · simp only [List.cons_append, freshBy, if_neg hx, ih, List.map_cons, List.reverse_cons,
        List.append_assoc, List.nil_append]

/-- Where no key occurs twice or was met, all entries are fresh. -/
theorem freshBy_eq_self (key : β → α) (met : List α) (xs : List β) (hxs : (xs.map key).Nodup)
    (hmet : ∀ x ∈ xs, key x ∉ met) : freshBy key met xs = xs := by
  induction xs generalizing met with
  | nil => rfl
  | cons x xs ih =>
    obtain ⟨hx, hrest⟩ := List.nodup_cons.1 hxs
    rw [freshBy, if_neg (hmet x (List.mem_cons_self ..)), ih _ hrest]
    intro y hy hkey
    rcases List.mem_cons.1 hkey with hkey | hkey
    · exact hx (hkey ▸ List.mem_map_of_mem hy)
    · exact hmet y (List.mem_cons_of_mem _ hy) hkey

/-- What was met counts for the keys in the list alone. -/
theorem freshBy_congr {key : β → α} {met met' : List α} {xs : List β}
    (h : ∀ x ∈ xs, key x ∈ met ↔ key x ∈ met') : freshBy key met xs = freshBy key met' xs := by
  induction xs generalizing met met' with
  | nil => rfl
  | cons x xs ih =>
    simp only [List.forall_mem_cons] at h
    have hcons : ∀ y ∈ xs, key y ∈ key x :: met ↔ key y ∈ key x :: met' := by
      intro y hy
      rw [List.mem_cons, List.mem_cons, h.2 y hy]
    rw [freshBy, freshBy, ih h.2, ih hcons]
    simp only [h.1]

theorem freshBy_map (key : γ → α) (g : β → γ) (met : List α) (xs : List β) :
    freshBy key met (xs.map g) = (freshBy (key ∘ g) met xs).map g := by
  induction xs generalizing met with
  | nil => rfl
  | cons x xs ih =>
    rw [List.map_cons, freshBy, freshBy, ih, ih, Function.comp_apply]
    split <;> rfl

/-- Fresh entries have keys that were not met, and no two of them have one key. -/
theorem nodup_freshBy (key : β → α) (met : List α) (xs : List β) :
    ((freshBy key met xs).map key).Nodup ∧ ∀ x ∈ freshBy key met xs, key x ∉ met := by
  induction xs generalizing met with
  | nil => simp [freshBy]
  | cons x xs ih =>
    rw [freshBy]
    split
    next => exact ih met
    next hx =>
      obtain ⟨hnodup, hfresh⟩ := ih (key x :: met)
      refine ⟨List.nodup_cons.2 ⟨fun hmem => ?_, hnodup⟩, fun y hy => ?_⟩
      · obtain ⟨y, hy, hkey⟩ := List.mem_map.1 hmem
        exact hfresh y hy (hkey ▸ List.mem_cons_self)
      · rcases List.mem_cons.1 hy with rfl | hy
        · exact hx
        · exact fun hmet => hfresh y hy (List.mem_cons_of_mem _ hmet)

/-- The first entry with a key that was not met is fresh. -/
theorem find?_freshBy {key : β → α} {met : List α} {k : α} (hk : k ∉ met) (xs : List β) :
    (freshBy key met xs).find? (fun x => key x == k) = xs.find? (fun x => key x == k) := by
  induction xs generalizing met with
  | nil => rfl
  | cons x xs ih =>
    rw [freshBy]
    by_cases hx : key x = k
    · rw [if_neg (hx ▸ hk), List.find?_cons_of_pos (by simpa using hx),
        List.find?_cons_of_pos (by simpa using hx)]
    · rw [List.find?_cons_of_neg (by simpa using hx)]
      split
      next => exact ih hk
      next =>
        rw [List.find?_cons_of_neg (by simpa using hx)]
        exact ih (by simp [hk, Ne.symm hx])

/-- For every entry of a list there is a fresh one with its key. -/
theorem exists_mem_freshBy (key : β → α) {xs : List β} {x : β} (h : x ∈ xs) :
    ∃ y ∈ freshBy key [] xs, key y = key x := by
  have hsome : ((freshBy key [] xs).find? (fun y => key y == key x)).isSome = true := by
    rw [find?_freshBy List.not_mem_nil]
    exact List.find?_isSome.2 ⟨x, h, by simp⟩
  obtain ⟨y, hy⟩ := Option.isSome_iff_exists.1 hsome
  exact ⟨y, List.mem_of_find?_eq_some hy, by simpa using List.find?_some hy⟩

/-- Where all entries of a list have one key, one of them is fresh. -/
theorem length_freshBy_of_key_eq {key : β → α} {xs : List β} {k : α} (h : ∀ x ∈ xs, key x = k)
    (hne : xs ≠ []) : (freshBy key [] xs).length = 1 := by
  cases xs with
  | nil => exact absurd rfl hne
  | cons x xs =>
    simp only [List.forall_mem_cons] at h
    have hrest : freshBy key [key x] xs = [] := by
      refine List.eq_nil_iff_forall_not_mem.2 fun y hy => ?_
      have hmet := (nodup_freshBy key [key x] xs).2 y hy
      rw [h.1, h.2 y ((freshBy_sublist ..).subset hy)] at hmet
      exact hmet (List.mem_singleton.2 rfl)
    rw [freshBy, if_neg List.not_mem_nil, hrest, List.length_singleton]

/-- The fresh entries of a list, each of them once. -/
def fresh (met xs : List α) : List α :=
  freshBy id met xs

@[simp] theorem fresh_nil (met : List α) : fresh met [] = [] := rfl

theorem fresh_cons_of_mem {met : List α} {x : α} (hx : x ∈ met) (xs : List α) :
    fresh met (x :: xs) = fresh met xs :=
  if_pos hx

theorem fresh_cons_of_not_mem {met : List α} {x : α} (hx : x ∉ met) (xs : List α) :
    fresh met (x :: xs) = x :: fresh (x :: met) xs :=
  if_neg hx

theorem fresh_append (met xs ys : List α) :
    fresh met (xs ++ ys) = fresh met xs ++ fresh ((fresh met xs).reverse ++ met) ys := by
  simpa only [fresh, List.map_id] using freshBy_append id met xs ys

theorem mem_fresh {met xs : List α} {x : α} : x ∈ fresh met xs ↔ x ∈ xs ∧ x ∉ met := by
  induction xs generalizing met with
  | nil => simp
  | cons y xs ih =>
    by_cases hy : y ∈ met
    · rw [fresh_cons_of_mem hy, ih, List.mem_cons]
      grind
    · rw [fresh_cons_of_not_mem hy, List.mem_cons, ih, List.mem_cons]
      grind

theorem nodup_fresh (met xs : List α) : (fresh met xs).Nodup := by
  induction xs generalizing met with
  | nil => exact List.nodup_nil
  | cons y xs ih =>
    by_cases hy : y ∈ met
    · rw [fresh_cons_of_mem hy]
      exact ih met
    · rw [fresh_cons_of_not_mem hy, List.nodup_cons]
      exact ⟨fun h => (mem_fresh.1 h).2 (List.mem_cons_self ..), ih _⟩

/-- Every fresh entry of a finite list leaves one less outside. -/
theorem length_fresh_add_outside_le {all xs : List α} (met : List α) (hall : ∀ x ∈ xs, x ∈ all) :
    (fresh met xs).length + (outside all ((fresh met xs).reverse ++ met)).length ≤
      (outside all met).length := by
  induction xs generalizing met with
  | nil => simp
  | cons x xs ih =>
    have hxs : ∀ y ∈ xs, y ∈ all := fun y hy => hall y (List.mem_cons_of_mem _ hy)
    by_cases hx : x ∈ met
    · rw [fresh_cons_of_mem hx]
      exact ih met hxs
    · have hlt := length_outside_cons_lt (hall x (List.mem_cons_self ..)) hx
      have hle := ih (x :: met) hxs
      rw [fresh_cons_of_not_mem hx, List.length_cons, List.reverse_cons, List.append_assoc]
      simp only [List.cons_append, List.nil_append]
      omega

/-! ## Two ways through a graph -/

variable {next : α → List α} {all : List α}

/-- The first levels of a breadth-first order, from a level on. -/
def levelsFrom (next : α → List α) : Nat → List α → List α → List α
  | 0, _, _ => []
  | n + 1, met, level =>
    let new := fresh met (level.flatMap next)
    level ++ levelsFrom next n (new.reverse ++ met) new

/-- The order in which a queue is worked off, for at most `fuel` entries. -/
def drain (next : α → List α) : Nat → List α → List α → List α
  | 0, _, _ => []
  | _ + 1, _, [] => []
  | fuel + 1, met, x :: queue =>
    let new := fresh met (next x)
    x :: drain next fuel (new.reverse ++ met) (queue ++ new)

theorem levelsFrom_nil (n : Nat) (met : List α) : levelsFrom next n met [] = [] := by
  induction n generalizing met with
  | zero => rfl
  | succ n ih => simp [levelsFrom, ih]

theorem drain_nil (fuel : Nat) (met : List α) : drain next fuel met [] = [] := by
  cases fuel <;> rfl

/-- Working off a level: what it adds follows the part of the next level that is there. -/
theorem drain_level (next : α → List α) (level rest met : List α) (fuel : Nat)
    (hfuel : level.length ≤ fuel) :
    drain next fuel met (level ++ rest) = level ++
      drain next (fuel - level.length) ((fresh met (level.flatMap next)).reverse ++ met)
        (rest ++ fresh met (level.flatMap next)) := by
  induction level generalizing rest met fuel with
  | nil => simp
  | cons x level ih =>
    obtain ⟨fuel, rfl⟩ : ∃ k, fuel = k + 1 := ⟨fuel - 1, by simp at hfuel; omega⟩
    have hle : level.length ≤ fuel := by simpa using hfuel
    rw [List.cons_append, drain, List.append_assoc, ih _ _ _ hle, List.flatMap_cons, fresh_append]
    simp only [List.length_cons, Nat.reduceSubDiff, List.cons_append, List.reverse_append,
      List.append_assoc]

/-- **A queue is worked off level by level.** -/
theorem drain_eq_levelsFrom (hall : ∀ x, ∀ y ∈ next x, y ∈ all) (n fuel : Nat)
    (met level : List α) (hn : (outside all met).length < n)
    (hfuel : level.length + (outside all met).length ≤ fuel) :
    drain next fuel met level = levelsFrom next n met level := by
  induction n generalizing fuel met level with
  | zero => omega
  | succ n ih =>
    have hnew : ∀ y ∈ level.flatMap next, y ∈ all := by
      intro y hy
      obtain ⟨x, _, hxy⟩ := List.mem_flatMap.1 hy
      exact hall x y hxy
    have hroom := length_fresh_add_outside_le met hnew
    have hlevel := drain_level next level [] met fuel (by omega)
    rw [List.append_nil, List.nil_append] at hlevel
    rw [hlevel, levelsFrom]
    -- a level that adds nothing is the last one, any other leaves less outside
    generalize fresh met (level.flatMap next) = new at hroom
    cases new with
    | nil => rw [drain_nil, levelsFrom_nil]
    | cons x new =>
      rw [List.length_cons] at hroom
      rw [ih]
      · omega
      · rw [List.length_cons]
        omega

/-! ## What the levels hold -/

/-- The levels stay in every set that holds the first one and is closed under steps. -/
theorem levelsFrom_forall {P : α → Prop} (step : ∀ x, P x → ∀ y ∈ next x, P y) (n : Nat)
    (met level : List α) (hlevel : ∀ x ∈ level, P x) : ∀ x ∈ levelsFrom next n met level, P x := by
  induction n generalizing met level with
  | zero => exact fun x hx => absurd hx List.not_mem_nil
  | succ n ih =>
    intro x hx
    rcases List.mem_append.1 hx with hx | hx
    · exact hlevel x hx
    · refine ih _ _ (fun y hy => ?_) x hx
      obtain ⟨z, hz, hzy⟩ := List.mem_flatMap.1 (mem_fresh.1 hy).1
      exact step z (hlevel z hz) y hzy

/-- Each entry stands once in the levels, and what follows the first level was not met before. -/
theorem nodup_levelsFrom (next : α → List α) (n : Nat) (met level : List α) (hlevel : level.Nodup)
    (hmet : ∀ x ∈ level, x ∈ met) :
    (levelsFrom next n met level).Nodup ∧
      ∀ x ∈ levelsFrom next n met level, x ∈ level ∨ x ∉ met := by
  induction n generalizing met level with
  | zero => exact ⟨List.nodup_nil, fun x hx => absurd hx List.not_mem_nil⟩
  | succ n ih =>
    have hnew : ∀ x ∈ fresh met (level.flatMap next), x ∉ met := fun x hx => (mem_fresh.1 hx).2
    have hfresh := nodup_fresh met (level.flatMap next)
    rw [levelsFrom]
    generalize fresh met (level.flatMap next) = new at hnew hfresh
    obtain ⟨hnodup, hrest⟩ := ih (new.reverse ++ met) new hfresh
      (fun x hx => List.mem_append_left _ (List.mem_reverse.2 hx))
    have hout : ∀ x ∈ levelsFrom next n (new.reverse ++ met) new, x ∉ met := by
      intro x hx
      rcases hrest x hx with hx | hx
      · exact hnew x hx
      · exact fun hm => hx (List.mem_append_right _ hm)
    refine ⟨List.nodup_append.2 ⟨hlevel, hnodup, ?_⟩, fun x hx => ?_⟩
    · intro x hx y hy hxy
      exact hout y hy (hxy ▸ hmet x hx)
    · rcases List.mem_append.1 hx with hx | hx
      · exact .inl hx
      · exact .inr (hout x hx)

/-- The levels are closed under steps, but for what was met before. -/
theorem levelsFrom_closed (hall : ∀ x, ∀ y ∈ next x, y ∈ all) (n : Nat) (met level : List α)
    (hn : (outside all met).length < n) :
    ∀ x ∈ levelsFrom next n met level, ∀ y ∈ next x, y ∈ met ∨ y ∈ levelsFrom next n met level := by
  induction n generalizing met level with
  | zero => omega
  | succ n ih =>
    have hnew : ∀ y ∈ level.flatMap next, y ∈ all := by
      intro y hy
      obtain ⟨x, _, hxy⟩ := List.mem_flatMap.1 hy
      exact hall x y hxy
    have hroom := length_fresh_add_outside_le met hnew
    have hmem : ∀ y, y ∈ level.flatMap next → y ∈ met ∨ y ∈ fresh met (level.flatMap next) := by
      intro y hy
      by_cases hmet : y ∈ met
      · exact .inl hmet
      · exact .inr (mem_fresh.2 ⟨hy, hmet⟩)
    intro x hx y hxy
    simp only [levelsFrom, List.mem_append] at hx ⊢
    generalize fresh met (level.flatMap next) = new at *
    -- the next level is among the levels as soon as it has an entry
    have hlevel : y ∈ new → y ∈ levelsFrom next n (new.reverse ++ met) new := by
      intro hy
      have hpos : 0 < new.length := List.length_pos_of_mem hy
      obtain ⟨k, rfl⟩ : ∃ k, n = k + 1 := ⟨n - 1, by omega⟩
      exact List.mem_append_left _ hy
    rcases hx with hx | hx
    · rcases hmem y (List.mem_flatMap.2 ⟨x, hx, hxy⟩) with hy | hy
      · exact .inl hy
      · exact .inr (.inr (hlevel hy))
    · have hpos : 0 < new.length := by
        rcases new with _ | ⟨z, new⟩
        · rw [levelsFrom_nil] at hx
          exact absurd hx List.not_mem_nil
        · exact Nat.succ_pos _
      rcases ih _ _ (by omega) x hx y hxy with hy | hy
      · rcases List.mem_append.1 hy with hy | hy
        · exact .inr (.inr (hlevel (List.mem_reverse.1 hy)))
        · exact .inl hy
      · exact .inr (.inr hy)

end CallOrigins
