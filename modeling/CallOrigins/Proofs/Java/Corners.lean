import CallOrigins.Proofs.Java.Productions

/-!
# Corners

The corners of a rule that begin with a symbol are all the productions that do, of all the rules
that a phrase can begin with (`mem_corners`). The rule itself is one of these, and there whatever
may follow the phrase may follow (`exists_outer`).
-/

namespace CallOrigins.Java

namespace Grammar

theorem mem_addCorner {c c' : Corner} {x y : Symbol} {corners : Corners} :
    c' ∈ ((addCorner c x corners).lookup y).getD [] ↔
      (c' = c ∧ x = y) ∨ c' ∈ (corners.lookup y).getD [] := by
  induction corners with
  | nil =>
    rw [addCorner, List.lookup_cons]
    by_cases hyx : y = x
    · simp [hyx]
    · rw [beq_eq_false_iff_ne.2 hyx]
      simp [Ne.symm hyx]
  | cons first rest ih =>
    obtain ⟨z, cs⟩ := first
    rw [addCorner]
    by_cases hyz : y = z
    · by_cases hxz : x = z
      · simp [hxz, hyz]
      · simp [hxz, hyz]
    · have hlookup : ∀ (cs : List Corner) (rest : Corners),
          List.lookup y ((z, cs) :: rest) = rest.lookup y := by
        intro cs rest
        rw [List.lookup_cons, beq_eq_false_iff_ne.2 hyz]
      split
      next hxz =>
        rw [hlookup, hlookup]
        exact ⟨.inr, fun h => h.resolve_left fun heq => hyz (heq.2.symm.trans hxz)⟩
      next =>
        rw [hlookup, hlookup]
        exact ih

/-- The first part of a production is a symbol. -/
def Begins (p : Production) (x : Symbol) : Prop :=
  ∃ step more, p.steps = step :: more ∧ step.symbol = x

theorem foldl_iff {α β : Type} {f : β → α → β} {P : β → Prop} {Q : α → Prop}
    (h : ∀ b a, P (f b a) ↔ Q a ∨ P b) (l : List α) (b : β) :
    P (l.foldl f b) ↔ (∃ a ∈ l, Q a) ∨ P b := by
  induction l generalizing b with
  | nil => simp
  | cons a l ih =>
    simp only [List.foldl_cons, ih, h, List.mem_cons, exists_eq_or_imp, or_left_comm, or_assoc]

/-- The rules that a phrase of a rule can begin with, with what may follow them. -/
def cornerRules (n : Nat) : List (Nat × Ahead) :=
  collectCorners (bound * 16) [(n, ⟨0, true⟩)] []

theorem mem_cornersOf {n : Nat} {x : Symbol} {c : Corner} :
    c ∈ ((cornersOf n).lookup x).getD [] ↔
      (c.production.rule, c.ahead) ∈ cornerRules n ∧
        c.production ∈ productionsOf c.production.rule ∧ Begins c.production x := by
  have hfold : c ∈ ((cornersOf n).lookup x).getD [] ↔
      (∃ entry ∈ cornerRules n, ∃ p ∈ productionsOf entry.1, c = ⟨p, entry.2⟩ ∧ Begins p x) ∨
        c ∈ (List.lookup x ([] : Corners)).getD [] := by
    refine foldl_iff (P := fun corners : Corners => c ∈ (corners.lookup x).getD []) ?_ _ _
    intro corners entry
    refine foldl_iff (P := fun corners : Corners => c ∈ (corners.lookup x).getD []) ?_ _ _
    intro corners p
    cases hsteps : p.steps with
    | nil =>
      refine (or_iff_right ?_).symm
      rintro ⟨-, step, more, h, -⟩
      rw [hsteps] at h
      cases h
    | cons step more =>
      dsimp only
      rw [mem_addCorner]
      refine or_congr_left (and_congr_right fun _ => ⟨fun h => ⟨step, more, hsteps, h⟩, ?_⟩)
      rintro ⟨step', more', h, hsymbol⟩
      rw [hsteps] at h
      cases h
      exact hsymbol
  rw [hfold]
  constructor
  · rintro (⟨entry, hentry, p, hp, rfl, hbegins⟩ | h)
    · have hrule := (rule_of_mem_productionsOf hp).1
      dsimp only
      rw [hrule]
      exact ⟨hentry, hp, hbegins⟩
    · exact absurd h List.not_mem_nil
  · rintro ⟨hrule, hproduction, hbegins⟩
    exact .inl ⟨_, hrule, c.production, hproduction, rfl, hbegins⟩

/-- **The corners of a rule** are all the productions that begin with a symbol, of all the rules
that a phrase can begin with. -/
theorem mem_corners {n : Nat} {x : Symbol} {c : Corner} :
    c ∈ corners n x ↔ n < ruleCount ∧ (c.production.rule, c.ahead) ∈ cornerRules n ∧
      c.production ∈ productionsOf c.production.rule ∧ Begins c.production x := by
  rw [corners, cornerTable, Array.getD_eq_getD_getElem?, List.getElem?_toArray, List.getElem?_map]
  by_cases hn : n < ruleCount
  · rw [List.getElem?_range hn, Option.map_some, Option.getD_some, mem_cornersOf]
    exact ⟨fun h => ⟨hn, h⟩, And.right⟩
  · rw [List.getElem?_eq_none (by rw [List.length_range]; omega), Option.map_none, Option.getD_none]
    exact ⟨fun h => absurd h List.not_mem_nil, fun h => absurd h.1 hn⟩

theorem lookup_map {n : Nat} {f : Nat × Ahead → Nat × Ahead} (hf : ∀ e, (f e).1 = e.1)
    (found : List (Nat × Ahead)) :
    (found.map f).lookup n = (found.lookup n).map fun b => (f (n, b)).2 := by
  induction found with
  | nil => rfl
  | cons entry found ih =>
    obtain ⟨m, b⟩ := entry
    have hfirst : f (m, b) = (m, (f (m, b)).2) := Prod.ext (hf (m, b)) rfl
    rw [List.map_cons, hfirst, List.lookup_cons, List.lookup_cons]
    by_cases hn : n = m
    · subst hn
      simp
    · rw [beq_eq_false_iff_ne.2 hn]
      exact ih

/-- Whatever may follow a phrase may follow its corners of the same rule, and this stays so. -/
theorem outer_collectCorners {n : Nat} (fuel : Nat) (todo found : List (Nat × Ahead))
    (h : ∃ a, found.lookup n = some a ∧ a.outer = true) :
    ∃ a, (collectCorners fuel todo found).lookup n = some a ∧ a.outer = true := by
  induction fuel generalizing todo found with
  | zero => exact h
  | succ fuel ih =>
    cases todo with
    | nil => exact h
    | cons entry todo =>
      obtain ⟨m, a⟩ := entry
      obtain ⟨known, hknown, houter⟩ := h
      rw [collectCorners]
      dsimp only
      cases hm : found.lookup m with
      | none =>
        have hne : n ≠ m := fun heq => by
          rw [heq, hm] at hknown
          cases hknown
        refine ih _ _ ⟨known, ?_, houter⟩
        rw [List.lookup_cons, beq_eq_false_iff_ne.2 hne]
        exact hknown
      | some known' =>
        dsimp only
        split
        · exact ih _ _ ⟨known, hknown, houter⟩
        · refine ih _ _ ?_
          rw [lookup_map (by intro e; split <;> rfl), hknown]
          by_cases heq : n = m
          · rw [← heq, hknown] at hm
            cases hm
            refine ⟨_, rfl, ?_⟩
            dsimp only
            rw [if_pos heq]
            exact Bool.or_eq_true_iff.2 (.inl houter)
          · refine ⟨_, rfl, ?_⟩
            dsimp only
            rw [if_neg heq]
            exact houter

theorem exists_outer (n : Nat) : ∃ a, (n, a) ∈ cornerRules n ∧ a.outer = true := by
  have hfound : ∃ a, (cornerRules n).lookup n = some a ∧ a.outer = true := by
    obtain ⟨fuel, hfuel⟩ : ∃ fuel, bound * 16 = fuel + 1 := ⟨bound * 16 - 1, by decide⟩
    rw [cornerRules, hfuel, collectCorners]
    refine outer_collectCorners fuel _ [(n, ⟨0, true⟩)] ⟨⟨0, true⟩, ?_, rfl⟩
    rw [List.lookup_cons, beq_self_eq_true]
  obtain ⟨a, hlookup, houter⟩ := hfound
  obtain ⟨front, back, hsplit, -⟩ := List.lookup_eq_some_iff.1 hlookup
  exact ⟨a, hsplit ▸ List.mem_append_right _ (.head _), houter⟩

end Grammar
end CallOrigins.Java
