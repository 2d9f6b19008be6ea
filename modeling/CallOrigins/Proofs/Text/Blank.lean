import CallOrigins.Text.Blank
import CallOrigins.Text.Cut
import Mathlib.Data.List.Basic
import Mathlib.Data.List.TakeWhile

/-!
# Solid texts and texts in one line

A text is *solid* if it has no blanks, and *in one line* if it has no line feed. Both say of every
character what it is not (`Only`), so they hold of a text that is put together if they hold of its
pieces, and of every piece that is cut out of a text.

Compacting makes a text solid, and collapsing puts it in one line (`oneLine_collapse`).
-/

namespace CallOrigins.Text

/-- All characters of a text have a property. -/
def Only (p : Char → Prop) (s : String) : Prop :=
  ∀ c ∈ s.toList, p c

instance {p : Char → Prop} [DecidablePred p] (s : String) : Decidable (Only p s) :=
  List.decidableBAll p s.toList

/-- A text of blanks, or of nothing. -/
abbrev IsBlank (s : String) : Prop := Only (fun c => isBlank c = true) s

/-- A text without blanks. -/
abbrev Solid (s : String) : Prop := Only (fun c => isBlank c = false) s

/-- A text without a line feed. -/
abbrev OneLine (s : String) : Prop := Only (fun c => c ≠ '\n') s

variable {p q : Char → Prop} {s t : String}

/-- The blank characters, by their numbers. -/
def blanks : List Nat :=
  [9, 10, 11, 12, 13, 0x20, 0x85, 0xA0, 0x1680, 0x2000, 0x2001, 0x2002, 0x2003, 0x2004, 0x2005,
    0x2006, 0x2007, 0x2008, 0x2009, 0x200A, 0x2028, 0x2029, 0x202F, 0x205F, 0x3000]

theorem toNat_mem_blanks {c : Char} (h : isBlank c = true) : c.toNat ∈ blanks := by
  simp only [isBlank, Bool.or_eq_true, Bool.and_eq_true, decide_eq_true_eq, beq_iff_eq] at h
  simp only [blanks, List.mem_cons, List.not_mem_nil, or_false]
  omega

/-! ## Texts put together -/

theorem Only.mono (h : Only p s) (hpq : ∀ c, p c → q c) : Only q s :=
  fun c hc => hpq c (h c hc)

@[simp] theorem only_empty (p : Char → Prop) : Only p "" := by
  simp [Only]

@[simp] theorem only_append : Only p (s ++ t) ↔ Only p s ∧ Only p t := by
  simp only [Only, String.toList_append, List.forall_mem_append]

@[simp] theorem only_ofList {cs : List Char} : Only p (String.ofList cs) ↔ ∀ c ∈ cs, p c := by
  rw [Only, String.toList_ofList]

theorem only_intercalate {separator : String} {texts : List String} (hseparator : Only p separator)
    (h : ∀ s ∈ texts, Only p s) : Only p (separator.intercalate texts) := by
  induction texts with
  | nil => simp
  | cons s texts ih =>
    simp only [List.forall_mem_cons] at h
    cases texts with
    | nil => simpa using h.1
    | cons t texts =>
      rw [String.intercalate_cons_cons, only_append, only_append]
      exact ⟨⟨h.1, hseparator⟩, ih h.2⟩

theorem only_intercalate_iff {separator : String} (hseparator : Only p separator)
    {texts : List String} : Only p (separator.intercalate texts) ↔ ∀ s ∈ texts, Only p s := by
  refine ⟨fun h => ?_, only_intercalate hseparator⟩
  induction texts with
  | nil => simp
  | cons s texts ih =>
    rw [List.forall_mem_cons]
    cases texts with
    | nil => simpa using h
    | cons t texts =>
      rw [String.intercalate_cons_cons, only_append, only_append] at h
      exact ⟨h.1.1, ih h.2⟩

theorem Solid.oneLine (h : Solid s) : OneLine s := by
  refine h.mono fun c hc => ?_
  rintro rfl
  cases hc

theorem solid_toString (n : Nat) : Solid (toString n) := by
  rw [Nat.toString_eq_ofList_toDigits]
  refine only_ofList.2 fun c hc => ?_
  have hdigit : c.isDigit = true := Nat.isDigit_of_mem_toDigits (by decide) (by decide) hc
  simp only [Char.isDigit, Bool.and_eq_true, decide_eq_true_eq] at hdigit
  have hlow : 48 ≤ c.toNat := hdigit.1
  have hhigh : c.toNat ≤ 57 := hdigit.2
  simp only [isBlank, Bool.or_eq_false_iff, Bool.and_eq_false_iff, decide_eq_false_iff_not,
    beq_eq_false_iff_ne]
  omega

/-! ## Texts cut out -/

theorem Only.of_subset (h : Only p s) {cs : List Char} (hcs : cs ⊆ s.toList) :
    Only p (String.ofList cs) :=
  only_ofList.2 fun c hc => h c (hcs hc)

theorem beforeFirst_subset (c : Char) (cs : List Char) : beforeFirst c cs ⊆ cs :=
  (List.takeWhile_sublist _).subset

theorem afterLastOf_subset (p : Char → Bool) (cs : List Char) : afterLastOf p cs ⊆ cs := by
  intro c hc
  exact List.mem_reverse.1 ((List.takeWhile_sublist _).subset (List.mem_reverse.1 hc))

theorem trimChars_subset (cs : List Char) : trimChars cs ⊆ cs := by
  intro c hc
  have hback : c ∈ trimFront cs :=
    List.mem_reverse.1 ((List.dropWhile_sublist _).subset (List.mem_reverse.1 hc))
  exact (List.dropWhile_sublist _).subset hback

theorem Only.trim (h : Only p s) : Only p (trim s) :=
  h.of_subset (trimChars_subset _)

/-- Nothing is left of a text exactly where it is blank. -/
theorem trimChars_eq_nil_iff {cs : List Char} :
    trimChars cs = [] ↔ ∀ c ∈ cs, isBlank c = true := by
  rw [trimChars, trimBack, List.reverse_eq_nil_iff, List.dropWhile_eq_nil_iff]
  constructor
  · intro h c hc
    rw [← List.takeWhile_append_dropWhile (p := isBlank) (l := cs)] at hc
    rcases List.mem_append.1 hc with hfront | hrest
    · exact List.mem_takeWhile_imp hfront
    · exact h c (List.mem_reverse.2 hrest)
  · intro h c hc
    exact h c ((List.dropWhile_sublist _).subset (List.mem_reverse.1 hc))

theorem dropWhile_isBlank_eq_self {cs : List Char} (h : ∀ c ∈ cs.head?, isBlank c = false) :
    cs.dropWhile isBlank = cs := by
  cases cs with
  | nil => rfl
  | cons c cs => rw [List.dropWhile_cons_of_neg (by simp [h c rfl])]

/-- There is nothing to take off a text that neither starts nor ends with a blank. -/
theorem trimChars_of_ends {cs : List Char} (hfront : ∀ c ∈ cs.head?, isBlank c = false)
    (hback : ∀ c ∈ cs.getLast?, isBlank c = false) : trimChars cs = cs := by
  rw [trimChars, trimFront, dropWhile_isBlank_eq_self hfront, trimBack,
    dropWhile_isBlank_eq_self (by simpa using hback), List.reverse_reverse]

theorem trimChars_eq_self {cs : List Char} (h : ∀ c ∈ cs, isBlank c = false) :
    trimChars cs = cs :=
  trimChars_of_ends (fun c hc => h c (List.mem_of_mem_head? hc))
    fun c hc => h c (List.mem_of_mem_getLast? hc)

theorem head?_dropWhile_isBlank {cs : List Char} {c : Char}
    (h : c ∈ (cs.dropWhile isBlank).head?) : isBlank c = false := by
  have hhead := List.head?_dropWhile_not isBlank cs
  rw [Option.mem_def.1 h] at hhead
  simpa using hhead

theorem trimBack_prefix (cs : List Char) : trimBack cs <+: cs := by
  rw [trimBack, ← List.reverse_suffix, List.reverse_reverse]
  exact List.dropWhile_suffix _

theorem isBlank_head?_trimChars {cs : List Char} {c : Char} (h : c ∈ (trimChars cs).head?) :
    isBlank c = false := by
  rw [trimChars] at h
  obtain ⟨back, hback⟩ := trimBack_prefix (trimFront cs)
  have hfront : c ∈ (trimFront cs).head? := by
    rw [← hback, List.head?_append, Option.mem_def.1 h]
    rfl
  exact head?_dropWhile_isBlank hfront

theorem isBlank_getLast?_trimChars {cs : List Char} {c : Char}
    (h : c ∈ (trimChars cs).getLast?) : isBlank c = false := by
  rw [trimChars, trimBack, List.getLast?_reverse] at h
  exact head?_dropWhile_isBlank h

theorem trimChars_trimChars (cs : List Char) : trimChars (trimChars cs) = trimChars cs :=
  trimChars_of_ends (fun _ => isBlank_head?_trimChars) fun _ => isBlank_getLast?_trimChars

@[simp] theorem trim_trim (s : String) : Text.trim (Text.trim s) = Text.trim s := by
  simp [Text.trim, trimChars_trimChars]

theorem Solid.trim_eq (h : Solid s) : Text.trim s = s := by
  rw [Text.trim, trimChars_eq_self h, String.ofList_toList]

/-! ## Compacting and collapsing -/

theorem solid_compact (s : String) : Solid (compact s) := by
  refine only_ofList.2 fun c hc => ?_
  simpa using (List.mem_filter.1 hc).2


@[simp] theorem compactChars_nil : compactChars [] = [] := rfl

theorem compactChars_cons (c : Char) (cs : List Char) :
    compactChars (c :: cs) = if isBlank c then compactChars cs else c :: compactChars cs := by
  rw [compactChars, List.filter_cons]
  cases isBlank c <;> rfl

@[simp] theorem compactChars_append (cs ds : List Char) :
    compactChars (cs ++ ds) = compactChars cs ++ compactChars ds :=
  List.filter_append ..

theorem compactChars_eq_self {cs : List Char} (h : ∀ c ∈ cs, isBlank c = false) :
    compactChars cs = cs :=
  List.filter_eq_self.2 fun c hc => by simp [h c hc]

theorem Solid.compact_eq (h : Solid s) : compact s = s := by
  rw [compact, compactChars_eq_self h, String.ofList_toList]

theorem compactChars_eq_nil {cs : List Char} (h : ∀ c ∈ cs, isBlank c = true) :
    compactChars cs = [] :=
  List.filter_eq_nil_iff.2 fun c hc => by simp [h c hc]

theorem intercalate_cons {α : Type} (separator first : List α) (lists : List (List α)) :
    separator.intercalate (first :: lists) = first ++ lists.flatMap (separator ++ ·) := by
  induction lists generalizing first with
  | nil => simp
  | cons second lists ih =>
    rw [List.intercalate_cons_cons, ih, List.flatMap_cons]
    simp

theorem intercalate_nil_left {α : Type} (lists : List (List α)) :
    [].intercalate lists = lists.flatten := by
  cases lists with
  | nil => rfl
  | cons first lists =>
    rw [intercalate_cons, List.flatten_cons]
    simp [List.flatMap_id']

theorem compactChars_intercalate (separator : String) (texts : List String) :
    compactChars (separator.intercalate texts).toList =
      (compactChars separator.toList).intercalate (texts.map fun s => compactChars s.toList) := by
  induction texts with
  | nil => rfl
  | cons s texts ih =>
    cases texts with
    | nil => simp
    | cons t texts =>
      rw [String.intercalate_cons_cons, String.toList_append, String.toList_append,
        compactChars_append, compactChars_append, ih]
      simp

/-- The run that is being read has no blanks, nor have those after it. -/
theorem solid_wordsFrom {word : List Char} (hword : ∀ c ∈ word, isBlank c = false)
    (cs : List Char) : ∀ w ∈ wordsFrom word cs, ∀ c ∈ w, isBlank c = false := by
  have hread : ∀ c ∈ word.reverse, isBlank c = false := fun c hc => hword c (List.mem_reverse.1 hc)
  induction cs generalizing word with
  | nil =>
    rw [wordsFrom]
    split
    · exact fun _ h => absurd h List.not_mem_nil
    · exact List.forall_mem_singleton.2 hread
  | cons c cs ih =>
    have hrest := @ih [] (by simp) (by simp)
    rw [wordsFrom]
    split
    · split
      · exact hrest
      · exact List.forall_mem_cons.2 ⟨hread, hrest⟩
    next hc =>
      have hlonger : ∀ d ∈ c :: word, isBlank d = false :=
        List.forall_mem_cons.2 ⟨Bool.eq_false_iff.2 hc, hword⟩
      exact ih hlonger fun d hd => hlonger d (List.mem_reverse.1 hd)

/-- The runs are what is left without the blanks. -/
theorem flatten_wordsFrom (word cs : List Char) :
    (wordsFrom word cs).flatten = word.reverse ++ compactChars cs := by
  induction cs generalizing word with
  | nil =>
    rw [wordsFrom]
    split
    next h => simp [List.isEmpty_iff.1 h, compactChars]
    next => simp [compactChars]
  | cons c cs ih =>
    rw [wordsFrom]
    split
    next hc =>
      have hcompact : compactChars (c :: cs) = compactChars cs := by simp [compactChars, hc]
      rw [hcompact]
      split
      next h => rw [ih, List.isEmpty_iff.1 h]
      next => rw [List.flatten_cons, ih, List.reverse_nil, List.nil_append]
    next hc =>
      have hcompact : compactChars (c :: cs) = c :: compactChars cs := by simp [compactChars, hc]
      rw [hcompact, ih, List.reverse_cons, List.append_assoc, List.singleton_append]

/-- **Collapsing changes nothing but blanks.** -/
theorem compactChars_collapse (s : String) :
    compactChars (collapse s).toList = compactChars s.toList := by
  have hwords : ((wordsFrom [] s.toList).map String.ofList).map (fun w => compactChars w.toList) =
      wordsFrom [] s.toList := by
    rw [List.map_map, List.map_congr_left (g := id), List.map_id]
    intro w hw
    rw [Function.comp_apply, String.toList_ofList]
    exact compactChars_eq_self (solid_wordsFrom (by simp) _ w hw)
  have hspace : compactChars " ".toList = [] := by decide
  rw [collapse, words, compactChars_intercalate, hspace, hwords, intercalate_nil_left,
    flatten_wordsFrom, List.reverse_nil, List.nil_append]

/-- **A collapsed text is in one line.** -/
theorem oneLine_collapse (s : String) : OneLine (collapse s) := by
  refine only_intercalate (by decide) fun w hw => ?_
  obtain ⟨cs, hcs, rfl⟩ := List.mem_map.1 hw
  exact Solid.oneLine (only_ofList.2 (solid_wordsFrom (by simp) _ cs hcs))

end CallOrigins.Text
