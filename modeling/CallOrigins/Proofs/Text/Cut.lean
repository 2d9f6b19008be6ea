import CallOrigins.Text.Cut
import Mathlib.Data.List.TakeWhile

/-!
# Cut texts put together

What the pieces of a cut text say about the text: where it was cut in two, the two halves with the
character between them are the text, and what follows the last of some characters depends on
nothing before it. The pieces between all the occurrences of a character, joined by it, are the text
(`intercalate_pieces`), and there is no other way to take it apart (`pieces_intercalate`).
-/

namespace CallOrigins.Text

/-! ## Up to a character -/

theorem takeWhile_append_cons {p : Char → Bool} {c : Char} (hc : p c = false)
    (before after : List Char) : (before ++ c :: after).takeWhile p = before.takeWhile p := by
  induction before with
  | nil => simp [hc]
  | cons d ds ih => simp [List.takeWhile_cons, ih]

theorem takeWhile_congr {p q : Char → Bool} {cs : List Char} (h : ∀ c ∈ cs, p c = q c) :
    cs.takeWhile p = cs.takeWhile q := by
  induction cs with
  | nil => rfl
  | cons c cs ih =>
    simp only [List.forall_mem_cons] at h
    rw [List.takeWhile_cons, List.takeWhile_cons, h.1, ih h.2]

theorem beforeFirst_append {c : Char} {before : List Char} (h : c ∉ before) (after : List Char) :
    beforeFirst c (before ++ c :: after) = before := by
  have hbefore : ∀ d ∈ before, (d != c) = true :=
    fun d hd => bne_iff_ne.2 (ne_of_mem_of_not_mem hd h)
  rw [beforeFirst, List.takeWhile_append_of_pos hbefore]
  simp

/-- Nothing before the character counts. -/
theorem afterLastOf_append_cons {p : Char → Bool} {c : Char} (hc : p c = true)
    (before after : List Char) : afterLastOf p (before ++ c :: after) = afterLastOf p after := by
  rw [afterLastOf, List.reverse_append, List.reverse_cons, List.append_assoc, List.singleton_append,
    takeWhile_append_cons (by simp [hc]), afterLastOf]

theorem afterLastOf_congr {p q : Char → Bool} {cs : List Char} (h : ∀ c ∈ cs, p c = q c) :
    afterLastOf p cs = afterLastOf q cs := by
  have hnot : ∀ c ∈ cs.reverse, (!p c) = !q c := fun c hc => by rw [h c (List.mem_reverse.1 hc)]
  rw [afterLastOf, afterLastOf, takeWhile_congr hnot]

theorem not_mem_afterLastOf {p : Char → Bool} {c : Char} (hc : p c = true) (cs : List Char) :
    c ∉ afterLastOf p cs := by
  intro h
  have hnot := List.mem_takeWhile_imp (List.mem_reverse.1 h)
  simp [hc] at hnot

/-- The whole text follows if none of the characters is in it. -/
theorem afterLastOf_eq_self_iff {p : Char → Bool} {cs : List Char} :
    afterLastOf p cs = cs ↔ ∀ c ∈ cs, p c = false := by
  rw [afterLastOf, ← List.reverse_inj, List.reverse_reverse, List.takeWhile_eq_self_iff]
  simp

/-! ## In two -/

theorem eq_append_of_cutFirst {c : Char} {cs before after : List Char}
    (h : cutFirst c cs = some (before, after)) : cs = before ++ c :: after := by
  induction cs generalizing before with
  | nil => cases h
  | cons d ds ih =>
    rw [cutFirst] at h
    split at h
    next hd =>
      cases h
      rw [hd, List.nil_append]
    next =>
      obtain ⟨⟨before', after'⟩, hcut, heq⟩ := Option.map_eq_some_iff.1 h
      cases heq
      rw [ih hcut, List.cons_append]

theorem cutFirst_append {c : Char} {before : List Char} (h : c ∉ before) (after : List Char) :
    cutFirst c (before ++ c :: after) = some (before, after) := by
  induction before with
  | nil => simp [cutFirst]
  | cons d ds ih =>
    rw [List.mem_cons, not_or] at h
    rw [List.cons_append, cutFirst, if_neg (Ne.symm h.1), ih h.2, Option.map_some]

theorem cutFirst_eq_none_iff {c : Char} {cs : List Char} : cutFirst c cs = none ↔ c ∉ cs := by
  induction cs with
  | nil => simp [cutFirst]
  | cons d ds ih =>
    rw [cutFirst, List.mem_cons, not_or]
    split
    next hd => simp [hd]
    next hd => simp [ih, Ne.symm hd]

theorem not_mem_of_cutFirst {c : Char} {cs before after : List Char}
    (h : cutFirst c cs = some (before, after)) : c ∉ before := by
  induction cs generalizing before with
  | nil => cases h
  | cons d ds ih =>
    rw [cutFirst] at h
    split at h
    next =>
      cases h
      exact List.not_mem_nil
    next hd =>
      obtain ⟨⟨before', after'⟩, hcut, heq⟩ := Option.map_eq_some_iff.1 h
      cases heq
      exact List.not_mem_cons_of_ne_of_not_mem (Ne.symm hd) (ih hcut)

/-- A text is cut at the occurrence of a character that is known, or before it. -/
theorem exists_cutFirst_append (c : Char) (before after : List Char) :
    ∃ front back, cutFirst c (before ++ c :: after) = some (front, back ++ after) := by
  induction before with
  | nil => exact ⟨[], [], by simp [cutFirst]⟩
  | cons d ds ih =>
    by_cases hd : d = c
    · exact ⟨[], ds ++ [c], by simp [cutFirst, hd]⟩
    · obtain ⟨front, back, hcut⟩ := ih
      exact ⟨d :: front, back, by rw [List.cons_append, cutFirst, if_neg hd, hcut, Option.map_some]⟩

theorem cutLast_concat (c : Char) (cs : List Char) : cutLast c (cs ++ [c]) = some (cs, []) := by
  induction cs with
  | nil => simp [cutLast]
  | cons d ds ih => rw [List.cons_append, cutLast, ih]

theorem dropFront?_eq_some {front cs rest : List Char} :
    dropFront? front cs = some rest ↔ cs = front ++ rest := by
  induction front generalizing cs with
  | nil => simp [dropFront?]
  | cons f fs ih =>
    cases cs with
    | nil => simp [dropFront?]
    | cons c cs =>
      rw [dropFront?]
      split
      next h => simp [ih, h]
      next h => simpa using fun heq : c = f => absurd heq.symm h

theorem dropBack?_eq_some {back cs rest : List Char} :
    dropBack? back cs = some rest ↔ cs = rest ++ back := by
  simp only [dropBack?, Option.map_eq_some_iff, dropFront?_eq_some]
  constructor
  · rintro ⟨front, hcs, rfl⟩
    rw [← List.reverse_reverse cs, hcs]
    simp
  · rintro rfl
    exact ⟨rest.reverse, by simp, by simp⟩

theorem endsWith_iff {back cs : List Char} :
    endsWith back cs = true ↔ ∃ front, cs = front ++ back := by
  simp only [endsWith, Option.isSome_iff_exists, dropBack?_eq_some]

/-! ## Into pieces -/

theorem pieces_ne_nil (c : Char) (cs : List Char) : pieces c cs ≠ [] := by
  cases cs with
  | nil => exact List.cons_ne_nil _ _
  | cons d ds =>
    rw [pieces]
    split
    · exact List.cons_ne_nil _ _
    · split <;> exact List.cons_ne_nil _ _

theorem pieces_cons_of_ne {c d : Char} (h : d ≠ c) (ds : List Char) :
    ∃ p ps, pieces c ds = p :: ps ∧ pieces c (d :: ds) = (d :: p) :: ps := by
  obtain ⟨p, ps, hps⟩ := List.exists_cons_of_ne_nil (pieces_ne_nil c ds)
  exact ⟨p, ps, hps, by rw [pieces, if_neg h, hps]⟩

theorem pieces_eq_splitOn (c : Char) (cs : List Char) : pieces c cs = cs.splitOn c := by
  induction cs with
  | nil => simp [pieces]
  | cons d ds ih =>
    rw [List.splitOn, List.splitOnP_cons_eq_if_modifyHead, ← List.splitOn, ← ih]
    by_cases hd : d = c
    · simp [pieces, hd]
    · obtain ⟨p, ps, hps, hcons⟩ := pieces_cons_of_ne hd ds
      rw [if_neg (by simpa using hd), hcons, hps, List.modifyHead_cons]

theorem not_mem_of_mem_pieces {c : Char} {cs p : List Char} (h : p ∈ pieces c cs) : c ∉ p := by
  induction cs generalizing p with
  | nil =>
    rw [List.mem_singleton.1 h]
    exact List.not_mem_nil
  | cons d ds ih =>
    by_cases hd : d = c
    · rw [pieces, if_pos hd] at h
      rcases List.mem_cons.1 h with rfl | hp
      · exact List.not_mem_nil
      · exact ih hp
    · obtain ⟨q, ps, hps, hcons⟩ := pieces_cons_of_ne hd ds
      rw [hps] at ih
      rw [hcons] at h
      rcases List.mem_cons.1 h with rfl | hp
      · exact List.not_mem_cons_of_ne_of_not_mem (Ne.symm hd) (ih List.mem_cons_self)
      · exact ih (List.mem_cons_of_mem _ hp)

theorem intercalate_pieces (c : Char) (cs : List Char) : [c].intercalate (pieces c cs) = cs := by
  rw [pieces_eq_splitOn, List.intercalate_splitOn]

/-- A text is put together of its pieces between the commas. -/
theorem intercalate_commaPieces (s : String) :
    ",".intercalate ((pieces ',' s.toList).map String.ofList) = s := by
  rw [← String.toList_inj, String.toList_intercalate, List.map_map]
  simpa [Function.comp_def] using intercalate_pieces ',' s.toList

/-- The pieces have all the characters of the text but the one between them. -/
theorem count_flatten_pieces {c d : Char} (h : d ≠ c) (cs : List Char) :
    (pieces c cs).flatten.count d = cs.count d := by
  induction cs with
  | nil => rfl
  | cons e es ih =>
    by_cases he : e = c
    · rw [pieces, if_pos he, List.flatten_cons, List.nil_append, ih, he,
        List.count_cons_of_ne (Ne.symm h)]
    · obtain ⟨p, ps, hps, hcons⟩ := pieces_cons_of_ne he es
      rw [hps] at ih
      rw [hcons, List.flatten_cons, List.cons_append, List.count_cons, ← List.flatten_cons, ih,
        List.count_cons]

theorem mem_of_mem_pieces {c d : Char} {cs p : List Char} (hp : p ∈ pieces c cs) (hd : d ∈ p) :
    d ∈ cs := by
  have hne : d ≠ c := ne_of_mem_of_not_mem hd (not_mem_of_mem_pieces hp)
  have hmem : d ∈ (pieces c cs).flatten := List.mem_flatten.2 ⟨p, hp, hd⟩
  rw [← List.count_pos_iff, ← count_flatten_pieces hne]
  exact List.count_pos_iff.2 hmem

theorem pieces_intercalate {c : Char} {ps : List (List Char)} (hne : ps ≠ [])
    (h : ∀ p ∈ ps, c ∉ p) : pieces c ([c].intercalate ps) = ps := by
  rw [pieces_eq_splitOn, List.splitOn_intercalate c h hne]

end CallOrigins.Text
