import CallOrigins.Proofs.Java.ErasedTypes
import CallOrigins.Proofs.Java.Scanning

/-!
# Annotations in erased types

An `@` outside of angle brackets begins an annotation, and the next blank ends it, wherever it stands.
What stands in brackets or in an annotation is passed over.

**The law** (`eraseType_annotated`): of an annotation before a type nothing is shown exactly if all its
characters are in angle brackets or in one word with an `@`, and if it leaves no bracket open; where it
leaves one open, the type is what disappears. So an annotation that is written without blanks, and in
which all brackets are closed, is erased whole. One with a blank among its arguments is not, nor is the
type behind one that compares its arguments (`spacedArguments_shown`).
-/

namespace CallOrigins.Java

open Text

/-! ## What is passed over -/

/-- An annotation goes on behind a text: outside of angle brackets there is an `@` in it, and no blank
after that. -/
def IsMarked (front : List Char) : Prop :=
  ∃ before word, front = before ++ '@' :: word ∧ depthAfter 0 before = 0 ∧
    ∀ c ∈ word, isBlank c = false

/-- What stands behind a text is passed over: it is in angle brackets or in an annotation. -/
def PassedOver (front : List Char) : Prop :=
  0 < depthAfter 0 front ∨ IsMarked front

theorem isMarked_append_singleton {front : List Char} {c : Char} : IsMarked (front ++ [c]) ↔
    c = '@' ∧ depthAfter 0 front = 0 ∨ isBlank c = false ∧ IsMarked front := by
  constructor
  · rintro ⟨before, word, heq, hdepth, hsolid⟩
    rcases List.eq_nil_or_concat' word with rfl | ⟨word, d, rfl⟩
    · obtain ⟨rfl, hc⟩ := List.append_inj' heq rfl
      exact .inl ⟨(List.cons.inj hc).1, hdepth⟩
    · rw [List.forall_mem_append, List.forall_mem_singleton] at hsolid
      rw [← List.cons_append, ← List.append_assoc] at heq
      obtain ⟨rfl, hc⟩ := List.append_inj' heq rfl
      cases hc
      exact .inr ⟨hsolid.2, before, word, rfl, hdepth, hsolid.1⟩
  · rintro (⟨rfl, hdepth⟩ | ⟨hc, before, word, rfl, hdepth, hsolid⟩)
    · exact ⟨front, [], rfl, hdepth, by simp⟩
    · refine ⟨before, word ++ [c], by simp, hdepth, ?_⟩
      exact List.forall_mem_append.2 ⟨hsolid, List.forall_mem_singleton.2 hc⟩

theorem markAfter_eq_true_iff {front : List Char} :
    markAfter 0 false front = true ↔ IsMarked front := by
  induction front using List.reverseRecOn with
  | nil =>
    refine iff_of_false (by simp [markAfter]) ?_
    rintro ⟨before, word, heq, -⟩
    simp at heq
  | append_singleton front c ih =>
    rw [markAfter_append_singleton, isMarked_append_singleton, ← ih, nextMark]
    by_cases hat : c = '@' ∧ depthAfter 0 front = 0
    · simp [hat]
    · have hnot : ¬ ((c = '@' && depthAfter 0 front = 0) = true) := by simpa using hat
      rw [if_neg hnot]
      cases isBlank c <;> simp [hat]

theorem passedOver_iff {front : List Char} :
    PassedOver front ↔ ¬ (depthAfter 0 front = 0 ∧ markAfter 0 false front = false) := by
  rw [PassedOver, ← markAfter_eq_true_iff, not_and_or, Bool.not_eq_false, Nat.pos_iff_ne_zero]

/-- **Nothing of a text is shown exactly if all of it is passed over.** -/
theorem eraseType_eq_empty_iff {s : String} : eraseType s = "" ↔
    ∀ front c back, s.toList = front ++ c :: back → isPlain c = true → PassedOver front := by
  rw [eraseType, String.ofList_eq_empty_iff, List.eq_nil_iff_forall_not_mem]
  simp only [mem_eraseFrom_iff, passedOver_iff]
  constructor
  · intro h front c back heq hplain hshown
    exact h c ⟨hplain, front, back, heq, hshown⟩
  · rintro h c ⟨hplain, front, back, heq, hshown⟩
    exact h front c back heq hplain hshown

/-! ## Annotations -/

/-- A name without points. -/
structure IsWord (cs : List Char) : Prop where
  letters : ∀ c ∈ cs, Scanner.continuesWord c = true
  ne_nil : cs ≠ []

/-- A qualified name. There may be blanks around its points. -/
inductive IsQualified : List Char → Prop where
  | word {cs : List Char} (word : IsWord cs) : IsQualified cs
  | member {qualifier gap gap' cs : List Char} (qualified : IsQualified qualifier)
    (blank : ∀ c ∈ gap, isBlank c = true) (blank' : ∀ c ∈ gap', isBlank c = true)
    (word : IsWord cs) : IsQualified (qualifier ++ gap ++ '.' :: gap' ++ cs)

/-- The arguments of an annotation in round brackets, or none. -/
def IsArguments (cs : List Char) : Prop :=
  cs = [] ∨ ∃ gap inner, cs = gap ++ '(' :: inner ++ [')'] ∧ (∀ c ∈ gap, isBlank c = true) ∧
    Balanced '(' ')' inner

/-- **An annotation**: an `@`, a qualified name and perhaps arguments, with blanks between them. -/
def Annotates (cs : List Char) : Prop :=
  ∃ gap name arguments, cs = '@' :: gap ++ name ++ arguments ∧ (∀ c ∈ gap, isBlank c = true) ∧
    IsQualified name ∧ IsArguments arguments

/-- A character of a qualified name. -/
def isOfName (c : Char) : Bool :=
  Scanner.continuesWord c || c == '.' || isBlank c

theorem IsQualified.forall_isOfName {cs : List Char} (h : IsQualified cs) :
    ∀ c ∈ cs, isOfName c = true := by
  have hword : ∀ {cs}, IsWord cs → ∀ c ∈ cs, isOfName c = true := by
    intro cs hcs c hc
    simp [isOfName, hcs.letters c hc]
  induction h with
  | word h => exact hword h
  | member _ hgap hgap' h ih =>
    simp only [List.forall_mem_append, List.forall_mem_cons]
    refine ⟨⟨⟨ih, fun c hc => ?_⟩, rfl, fun c hc => ?_⟩, hword h⟩
    · simp [isOfName, hgap c hc]
    · simp [isOfName, hgap' c hc]

/-- A qualified name ends with a letter or digit. -/
theorem IsQualified.exists_last {cs : List Char} (h : IsQualified cs) :
    ∃ front c, cs = front ++ [c] ∧ Scanner.continuesWord c = true := by
  have hword : ∀ {cs}, IsWord cs → ∃ front c, cs = front ++ [c] ∧ Scanner.continuesWord c = true := by
    intro cs hcs
    rcases List.eq_nil_or_concat' cs with rfl | ⟨front, c, rfl⟩
    · exact absurd rfl hcs.ne_nil
    · exact ⟨front, c, rfl, hcs.letters c (by simp)⟩
  cases h with
  | word h => exact hword h
  | @member qualifier gap gap' _ _ _ _ h =>
    obtain ⟨front, c, rfl, hc⟩ := hword h
    exact ⟨qualifier ++ gap ++ '.' :: gap' ++ front, c, by simp, hc⟩

/-! ## Erasing behind an annotation -/

/-- **A type behind a blank**: it is erased by itself, or disappears in an open bracket. -/
theorem eraseType_append_space (front : String) {type : String}
    (balanced : Balanced '<' '>' type.toList) :
    eraseType (front ++ " " ++ type) =
      eraseType front ++ if depthAfter 0 front.toList = 0 then eraseType type else "" := by
  have hchars : (front ++ " " ++ type).toList = front.toList ++ ' ' :: type.toList := by simp
  rw [eraseType, hchars, eraseFrom_append_blank rfl, balanced.eraseFrom_eq, String.ofList_append]
  split <;> rfl

/-- All that follows an `@` without a blank is passed over. -/
theorem eraseType_eq_empty {s : String} {cs : List Char} (hs : s.toList = '@' :: cs)
    (solid : Solid s) : eraseType s = "" := by
  rw [eraseType_eq_empty_iff, hs]
  intro front c back heq hc
  cases front with
  | nil =>
    cases heq
    cases hc
  | cons d front =>
    cases heq
    refine .inr ⟨[], front, rfl, rfl, fun e he => solid e ?_⟩
    rw [hs]
    exact .tail _ (List.mem_append_left _ he)

section

variable {s : String} {gap name : List Char} (hs : s.toList = '@' :: gap ++ name)
  (blank : ∀ c ∈ gap, isBlank c = true) (qualified : IsQualified name)

include blank qualified

theorem isOfName_of_mem : ∀ c ∈ gap ++ name, isOfName c = true := by
  refine List.forall_mem_append.2 ⟨fun c hc => ?_, qualified.forall_isOfName⟩
  simp [isOfName, blank c hc]

include hs

/-- An annotation without arguments opens no angle bracket. -/
theorem depthAfter_marker : depthAfter 0 s.toList = 0 := by
  refine depthAfter_eq_zero fun hless => ?_
  have hmem : '<' ∈ gap ++ name := by simpa [hs] using hless
  exact absurd (isOfName_of_mem blank qualified '<' hmem) (by decide)

/-- The last letter of an annotation without arguments is shown behind a blank. -/
theorem solid_of_eraseType_eq_empty (h : eraseType s = "") : Solid s := by
  have hname := isOfName_of_mem blank qualified
  have hopen := depthAfter_marker hs blank qualified
  obtain ⟨front, c, rfl, hc⟩ := qualified.exists_last
  have hne : ∀ d ∈ ['<', '>', '@'], c ≠ d := by
    have hmarks : ['<', '>', '@'].all (fun d => !Scanner.continuesWord d) = true := by decide
    rintro d hd rfl
    simpa [hc] using List.all_eq_true.1 hmarks c hd
  have hlast : isPlain c = true := by
    simp [isPlain, Terminal.isBlank_of_continuesWord hc, hne]
  have hwhole : s.toList = '@' :: (gap ++ front) ++ [c] := by simp [hs]
  rw [hwhole, depthAfter_append_singleton, nextDepth, if_neg (hne '<' (by simp)),
    if_neg (hne '>' (by simp))] at hopen
  rw [eraseType_eq_empty_iff, hwhole] at h
  rcases h ('@' :: (gap ++ front)) c [] rfl hlast with hpassed | ⟨before, word, heq, -, hsolid⟩
  · omega
  · -- there is no `@` but the first one
    cases before with
    | nil =>
      obtain rfl : gap ++ front = word := (List.cons.inj heq).2
      intro d hd
      rw [hwhole, List.mem_append, List.mem_cons, List.mem_singleton] at hd
      rcases hd with (rfl | hd) | rfl
      · rfl
      · exact hsolid d hd
      · exact Terminal.isBlank_of_continuesWord hc
    | cons d before =>
      have hat : '@' ∈ gap ++ (front ++ [c]) := by
        rw [← List.append_assoc, (List.cons.inj heq).2]
        simp
      exact absurd (hname '@' hat) (by decide)

end

/-- **An annotation before a type.** What is shown is what is shown of the annotation, and then the
type, unless the annotation leaves an angle bracket open. So it is erased whole exactly if it leaves no
bracket open and every character that could be shown is passed over; where it leaves one open, only if
what is shown of it happens to be the type. Without blanks, and with its brackets closed, it is erased
whole, and an annotation without arguments is so only without blanks. -/
theorem eraseType_annotated {tag type : String}
    (annotated : Annotates tag.toList) (balanced : Balanced '<' '>' type.toList) :
    eraseType (tag ++ " " ++ type) =
      eraseType tag ++ (if depthAfter 0 tag.toList = 0 then eraseType type else "") ∧
    (eraseType (tag ++ " " ++ type) = eraseType type ↔
      if depthAfter 0 tag.toList = 0 then
        ∀ front c back, tag.toList = front ++ c :: back → isPlain c = true → PassedOver front
      else eraseType tag = eraseType type) ∧
    (Solid tag → depthAfter 0 tag.toList = 0 →
      eraseType (tag ++ " " ++ type) = eraseType type) ∧
    ('(' ∉ tag.toList →
      (eraseType (tag ++ " " ++ type) = eraseType type ↔ Solid tag)) := by
  have htext := eraseType_append_space tag balanced
  have hwhole : depthAfter 0 tag.toList = 0 →
      (eraseType (tag ++ " " ++ type) = eraseType type ↔ eraseType tag = "") := by
    intro hclosed
    rw [htext, if_pos hclosed]
    exact String.append_eq_right_iff
  obtain ⟨gap, name, arguments, hs, hgap, hname, harguments⟩ := annotated
  have hsolid : Solid tag → eraseType tag = "" := eraseType_eq_empty hs
  refine ⟨htext, ?_, fun solid hclosed => (hwhole hclosed).2 (hsolid solid), fun hparen => ?_⟩
  · by_cases hclosed : depthAfter 0 tag.toList = 0
    · rw [hwhole hclosed, if_pos hclosed, eraseType_eq_empty_iff]
    · rw [htext, if_neg hclosed, if_neg hclosed, String.append_empty]
  · have hnone : arguments = [] := by
      rcases harguments with rfl | ⟨gap', inner, rfl, -⟩
      · rfl
      · exact absurd (by simp [hs]) hparen
    rw [hnone, List.append_nil] at hs
    rw [hwhole (depthAfter_marker hs hgap hname)]
    exact ⟨solid_of_eraseType_eq_empty hs hgap hname, hsolid⟩

/-! ## Annotations with arguments -/

theorem isWord_of_all {cs : List Char} (h : cs.all Scanner.continuesWord = true) (ne : cs ≠ []) :
    IsWord cs :=
  ⟨List.all_eq_true.1 h, ne⟩

theorem annotates_size : Annotates "@a.Size(max=2)".toList := by
  refine ⟨[], "a.Size".toList, "(max=2)".toList, by decide, by simp, ?_, .inr ?_⟩
  · have hmember := @IsQualified.member ['a'] [] [] "Size".toList
      (.word (isWord_of_all (by decide) (by decide))) (by simp) (by simp)
      (isWord_of_all (by decide) (by decide))
    exact hmember
  · exact ⟨[], "max=2".toList, by decide, by simp, by decide⟩

theorem size_erased :
    Annotates "@a.Size(max=2)".toList ∧ Balanced '<' '>' "Map<K, V>[]".toList ∧
    Solid "@a.Size(max=2)" ∧ depthAfter 0 "@a.Size(max=2)".toList = 0 ∧
    eraseType ("@a.Size(max=2)" ++ " " ++ "Map<K, V>[]") = "Map[]" := by
  have balanced : Balanced '<' '>' "Map<K, V>[]".toList := by decide
  have solid : Solid "@a.Size(max=2)" := by decide
  have hclosed : depthAfter 0 "@a.Size(max=2)".toList = 0 := by decide
  refine ⟨annotates_size, balanced, solid, hclosed, ?_⟩
  rw [(eraseType_annotated annotates_size balanced).2.2.1 solid hclosed]
  decide

/-- An annotation of a class `A` with arguments. -/
theorem annotates_arguments {s inner : String} (hs : s = "@A(" ++ inner ++ ")")
    (balanced : Balanced '(' ')' inner.toList) : Annotates s.toList := by
  refine ⟨[], ['A'], '(' :: inner.toList ++ [')'], by simp [hs], by simp, ?_, .inr ?_⟩
  · exact .word (isWord_of_all (by decide) (by decide))
  · exact ⟨[], inner.toList, rfl, by simp, balanced⟩

/-- **Arguments are shown behind a blank**, and an angle bracket among them hides the type. -/
theorem spacedArguments_shown :
    (Annotates "@A(x = 1)".toList ∧ Annotates "@A(1<2)".toList ∧
      Balanced '<' '>' "B".toList ∧ '@' ∉ "B".toList) ∧
    eraseType "B" = "B" ∧ eraseType ("@A(x = 1)" ++ " " ++ "B") = "=1)B" ∧
    eraseType ("@A(1<2)" ++ " " ++ "B") = "" := by
  refine ⟨⟨?_, ?_, by decide, by decide⟩, by decide, by decide, by decide⟩
  · exact @annotates_arguments _ "x = 1" (by decide) (by decide)
  · exact @annotates_arguments _ "1<2" (by decide) (by decide)

end CallOrigins.Java
