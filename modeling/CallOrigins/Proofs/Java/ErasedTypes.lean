import CallOrigins.Java.TypeName
import CallOrigins.Proofs.Text.Blank
import Mathlib.Data.List.Infix

/-!
# Erased types as normal forms

A type is erased character by character. Two things are kept in mind on the way: how many angle
brackets are open, and whether an annotation goes on. An `@` outside of brackets begins one, and the
next blank ends it, wherever it stands. So what is shown of the second part of a text depends on the
first part by these two alone (`eraseFrom_append`).

**The law** (`eraseType_normalizes`): whatever the text, balanced or not, no blank, bracket or `@` is
left of it, and the texts without them are just those that erasing leaves alone, so a type that was
erased may be erased again. A text that opens no annotation, and closes all brackets that it opens and
no others, is erased by itself, and so is what follows it.
-/

namespace CallOrigins.Java

open Text

/-! ## One character -/

/-- The number of open angle brackets behind a character. -/
def nextDepth (depth : Nat) (c : Char) : Nat :=
  if c = '<' then depth + 1 else if c = '>' then depth - 1 else depth

/-- Does an annotation go on behind a character? -/
def nextMark (depth : Nat) (marked : Bool) (c : Char) : Bool :=
  if c = '@' && depth = 0 then true else if isBlank c then false else marked

/-- A character that is shown outside of brackets and annotations. -/
def isPlain (c : Char) : Bool :=
  !isBlank c && c != '<' && c != '>' && c != '@'

/-- **One step**: a character is shown or not, and the rest is erased from there. -/
theorem eraseFrom_cons (depth : Nat) (marked : Bool) (c : Char) (cs : List Char) :
    eraseFrom depth marked (c :: cs) =
      (if isPlain c = true ∧ depth = 0 ∧ marked = false then [c] else []) ++
        eraseFrom (nextDepth depth c) (nextMark depth marked c) cs := by
  rw [eraseFrom, isPlain, nextDepth, nextMark]
  by_cases hless : c = '<'
  · simp [hless, isBlank]
  by_cases hgreater : c = '>'
  · simp [hgreater, isBlank]
  by_cases hat : c = '@'
  · by_cases hdepth : depth = 0
    · simp [hat, hdepth]
    · simp [hat, hdepth, isBlank]
  by_cases hblank : isBlank c = true
  · simp [hless, hgreater, hat, hblank]
  · by_cases hshown : depth = 0 ∧ marked = false
    · simp [hless, hgreater, hat, hblank, hshown]
    · have hhidden : ¬ ((decide (depth = 0) && !marked) = true) := by simpa using hshown
      simp [hless, hgreater, hat, hblank, hshown, hhidden]

section

variable {depth : Nat} {c : Char} (h : c = '>' → 0 < depth)

include h

/-- Where a bracket is closed only if one is open, each bracket counts. -/
theorem nextDepth_add_count (cs : List Char) :
    nextDepth depth c + (c :: cs).count '>' + cs.count '<' =
      depth + (c :: cs).count '<' + cs.count '>' := by
  rw [nextDepth]
  by_cases hless : c = '<'
  · subst hless
    rw [if_pos rfl, List.count_cons_self, List.count_cons_of_ne (by decide)]
    omega
  by_cases hgreater : c = '>'
  · subst hgreater
    have hdepth := h rfl
    rw [if_neg hless, if_pos rfl, List.count_cons_self, List.count_cons_of_ne (by decide)]
    omega
  · rw [if_neg hless, if_neg hgreater, List.count_cons_of_ne hgreater, List.count_cons_of_ne hless]
    omega

theorem nextDepth_succ : nextDepth (depth + 1) c = nextDepth depth c + 1 := by
  have hstep := nextDepth_add_count h []
  have hmore := nextDepth_add_count (fun _ : c = '>' => depth.add_one_pos) []
  omega

end

/-- An `@` begins an annotation only outside of brackets. -/
theorem nextMark_eq_false {depth : Nat} {c : Char} (h : c = '@' → 0 < depth) :
    nextMark depth false c = false := by
  have hnot : ¬ ((c = '@' && depth = 0) = true) := by
    simp only [Bool.and_eq_true, decide_eq_true_eq]
    rintro ⟨hat, hdepth⟩
    have := h hat
    omega
  rw [nextMark, if_neg hnot, ite_self]

/-! ## Texts put together -/

/-- The number of open angle brackets behind a text. -/
def depthAfter (depth : Nat) (cs : List Char) : Nat :=
  cs.foldl nextDepth depth

/-- Does an annotation go on behind a text? -/
def markAfter (depth : Nat) (marked : Bool) : List Char → Bool
  | [] => marked
  | c :: cs => markAfter (nextDepth depth c) (nextMark depth marked c) cs

theorem depthAfter_append_singleton (depth : Nat) (cs : List Char) (c : Char) :
    depthAfter depth (cs ++ [c]) = nextDepth (depthAfter depth cs) c := by
  rw [depthAfter, List.foldl_append]
  rfl

theorem markAfter_append_singleton (depth : Nat) (marked : Bool) (cs : List Char) (c : Char) :
    markAfter depth marked (cs ++ [c]) =
      nextMark (depthAfter depth cs) (markAfter depth marked cs) c := by
  induction cs generalizing depth marked with
  | nil => rfl
  | cons d cs ih => exact ih (nextDepth depth d) (nextMark depth marked d)

/-- **Two texts in a row**: the second one is erased from where the first one leaves off. -/
theorem eraseFrom_append (depth : Nat) (marked : Bool) (cs ds : List Char) :
    eraseFrom depth marked (cs ++ ds) = eraseFrom depth marked cs ++
      eraseFrom (depthAfter depth cs) (markAfter depth marked cs) ds := by
  induction cs generalizing depth marked with
  | nil => rfl
  | cons c cs ih =>
    rw [List.cons_append, eraseFrom_cons, ih, eraseFrom_cons, List.append_assoc]
    rfl

/-- **A blank ends an annotation**, and brackets stay open across it. -/
theorem eraseFrom_append_blank {b : Char} (hb : isBlank b = true) (depth : Nat) (marked : Bool)
    (cs ds : List Char) :
    eraseFrom depth marked (cs ++ b :: ds) =
      eraseFrom depth marked cs ++ eraseFrom (depthAfter depth cs) false ds := by
  have hne : b ≠ '<' ∧ b ≠ '>' ∧ b ≠ '@' := by
    refine ⟨?_, ?_, ?_⟩ <;> (rintro rfl; cases hb)
  rw [eraseFrom_append]
  simp [eraseFrom, hne, hb]

theorem markAfter_eq_false {depth : Nat} {cs : List Char} (h : '@' ∉ cs) :
    markAfter depth false cs = false := by
  induction cs generalizing depth with
  | nil => rfl
  | cons c cs ih =>
    rw [List.mem_cons, not_or] at h
    rw [markAfter, nextMark_eq_false fun hat => absurd hat.symm h.1]
    exact ih h.2

/-! ## What is shown -/

theorem isPlain_iff {c : Char} :
    isPlain c = true ↔ isBlank c = false ∧ c ≠ '<' ∧ c ≠ '>' ∧ c ≠ '@' := by
  simp [isPlain, and_assoc]

/-- **What is shown**: the plain characters that stand outside of brackets and annotations. -/
theorem mem_eraseFrom_iff {depth : Nat} {marked : Bool} {cs : List Char} {c : Char} :
    c ∈ eraseFrom depth marked cs ↔ isPlain c = true ∧ ∃ front back, cs = front ++ c :: back ∧
      depthAfter depth front = 0 ∧ markAfter depth marked front = false := by
  -- for any start, since the rest is erased from where the first character leaves off
  induction cs generalizing depth marked with
  | nil => simp [eraseFrom]
  | cons d cs ih =>
    rw [eraseFrom_cons, List.mem_append, List.mem_ite_nil_right, List.mem_singleton, ih]
    constructor
    · rintro (⟨⟨hplain, hdepth, hmark⟩, rfl⟩ | ⟨hplain, front, back, rfl, hdepth, hmark⟩)
      · exact ⟨hplain, [], cs, rfl, hdepth, hmark⟩
      · exact ⟨hplain, d :: front, back, rfl, hdepth, hmark⟩
    · rintro ⟨hplain, front, back, heq, hdepth, hmark⟩
      cases front with
      | nil =>
        cases heq
        exact .inl ⟨⟨hplain, hdepth, hmark⟩, rfl⟩
      | cons e front =>
        cases heq
        exact .inr ⟨hplain, front, back, rfl, hdepth, hmark⟩

theorem eraseFrom_sublist (depth : Nat) (marked : Bool) (cs : List Char) :
    (eraseFrom depth marked cs).Sublist cs := by
  fun_induction eraseFrom depth marked cs
  case case1 => exact .slnil
  case case2 ih | case3 ih | case4 ih | case5 ih | case7 ih => exact ih.cons _
  case case6 ih => exact ih.cons_cons _

theorem eraseFrom_eq_self {cs : List Char} (h : ∀ c ∈ cs, isPlain c = true) :
    eraseFrom 0 false cs = cs := by
  induction cs with
  | nil => rfl
  | cons c cs ih =>
    rw [List.forall_mem_cons] at h
    obtain ⟨hblank, hless, hgreater, hat⟩ := isPlain_iff.1 h.1
    simp [eraseFrom, hless, hgreater, hat, hblank, ih h.2]

/-- A text without the signs that erasing takes out: angle brackets and the sign of an annotation.
-/
abbrev Unmarked (s : String) : Prop := Only (fun c => c ≠ '<' ∧ c ≠ '>' ∧ c ≠ '@') s

theorem solid_eraseType (s : String) : Solid (eraseType s) :=
  only_ofList.2 fun _ hc => (isPlain_iff.1 (mem_eraseFrom_iff.1 hc).1).1

theorem unmarked_eraseType (s : String) : Unmarked (eraseType s) :=
  only_ofList.2 fun _ hc => (isPlain_iff.1 (mem_eraseFrom_iff.1 hc).1).2

/-- **Erasing leaves a text as it is** exactly where there is nothing to take out. -/
theorem eraseType_eq_self_iff {s : String} : eraseType s = s ↔ Solid s ∧ Unmarked s := by
  constructor
  · intro h
    rw [← h]
    exact ⟨solid_eraseType s, unmarked_eraseType s⟩
  · rintro ⟨solid, unmarked⟩
    have hplain : ∀ c ∈ s.toList, isPlain c = true :=
      fun c hc => isPlain_iff.2 ⟨solid c hc, unmarked c hc⟩
    rw [eraseType, eraseFrom_eq_self hplain, String.ofList_toList]

/-! ## Brackets that are closed -/

/-- A text behind `depth` open angle brackets nowhere closes more than are open. -/
def ClosesWithin (depth : Nat) (cs : List Char) : Prop :=
  ∀ front, front <+: cs → front.count '>' ≤ depth + front.count '<'

namespace ClosesWithin

variable {depth : Nat} {c : Char} {cs : List Char}

theorem pos (h : ClosesWithin depth (c :: cs)) (hc : c = '>') : 0 < depth := by
  subst hc
  have hcount := h ['>'] ⟨cs, rfl⟩
  simpa [Nat.succ_le_iff] using hcount

theorem rest (h : ClosesWithin depth (c :: cs)) : ClosesWithin (nextDepth depth c) cs := by
  intro front hfront
  have hcount := h (c :: front) (List.cons_prefix_cons.2 ⟨rfl, hfront⟩)
  have hstep := nextDepth_add_count h.pos front
  omega

/-- Where nothing is closed that is not open, the brackets that are open can be counted. -/
theorem depthAfter_add_count (h : ClosesWithin depth cs) :
    depthAfter depth cs + cs.count '>' = depth + cs.count '<' := by
  induction cs generalizing depth with
  | nil => rfl
  | cons c cs ih =>
    have hrest := ih h.rest
    have hstep := nextDepth_add_count h.pos cs
    rw [depthAfter, List.foldl_cons, ← depthAfter]
    omega

/-- Nothing is shown while a further bracket is open. -/
theorem eraseFrom_eq_nil (h : ClosesWithin depth cs) (marked : Bool) :
    eraseFrom (depth + 1) marked cs = [] := by
  induction cs generalizing depth marked with
  | nil => rfl
  | cons c cs ih =>
    -- the further bracket stays open: where `c` closes one, that is one of the `depth` others
    rw [eraseFrom_cons, nextDepth_succ h.pos, ih h.rest, if_neg (by omega), List.append_nil]

/-- No annotation begins while a further bracket is open. -/
theorem markAfter_eq_false (h : ClosesWithin depth cs) :
    markAfter (depth + 1) false cs = false := by
  induction cs generalizing depth with
  | nil => rfl
  | cons c cs ih =>
    rw [markAfter, nextDepth_succ h.pos, nextMark_eq_false fun _ => Nat.succ_pos depth]
    exact ih h.rest

end ClosesWithin

theorem depthAfter_eq_zero {cs : List Char} (h : '<' ∉ cs) : depthAfter 0 cs = 0 := by
  induction cs with
  | nil => rfl
  | cons c cs ih =>
    rw [List.mem_cons, not_or] at h
    have hnext : nextDepth 0 c = 0 := by simp [nextDepth, Ne.symm h.1]
    rw [depthAfter, List.foldl_cons, hnext]
    exact ih h.2

/-! ## Balanced texts -/

/-- **A balanced text**: nowhere have more been closed than opened, and in the end all are closed. -/
structure Balanced (opening closing : Char) (cs : List Char) : Prop where
  fronts : ∀ front, front <+: cs → front.count closing ≤ front.count opening
  whole : cs.count closing = cs.count opening

instance (opening closing : Char) (cs : List Char) : Decidable (Balanced opening closing cs) :=
  decidable_of_iff ((∀ front ∈ cs.inits, front.count closing ≤ front.count opening) ∧
      cs.count closing = cs.count opening)
    ⟨fun h => ⟨fun front hfront => h.1 front ((List.mem_inits ..).2 hfront), h.2⟩,
      fun h => ⟨fun front hfront => h.fronts front ((List.mem_inits ..).1 hfront), h.whole⟩⟩

namespace Balanced

variable {cs : List Char}

theorem closesWithin (h : Balanced '<' '>' cs) (depth : Nat) : ClosesWithin depth cs := by
  intro front hfront
  have := h.fronts front hfront
  omega

/-- Behind a balanced text as many brackets are open as before it. -/
theorem depthAfter_eq (h : Balanced '<' '>' cs) (depth : Nat) : depthAfter depth cs = depth := by
  have hcount := (h.closesWithin depth).depthAfter_add_count
  have hwhole := h.whole
  omega

/-- A balanced text is shown as it is erased, or not at all behind an open bracket. -/
theorem eraseFrom_eq (h : Balanced '<' '>' cs) (depth : Nat) :
    eraseFrom depth false cs = if depth = 0 then eraseFrom 0 false cs else [] := by
  cases depth with
  | zero => rfl
  | succ depth => exact (h.closesWithin depth).eraseFrom_eq_nil false

end Balanced

/-- What follows a balanced text without annotations is erased by itself. -/
theorem eraseFrom_append_balanced {cs : List Char} (unannotated : '@' ∉ cs)
    (balanced : Balanced '<' '>' cs) (ds : List Char) :
    eraseFrom 0 false (cs ++ ds) = eraseFrom 0 false cs ++ eraseFrom 0 false ds := by
  rw [eraseFrom_append, balanced.depthAfter_eq, markAfter_eq_false unannotated]

/-- **Type arguments are erased whole**, with the annotations in them. -/
theorem eraseFrom_arguments {cs : List Char} (balanced : Balanced '<' '>' cs) (ds : List Char) :
    eraseFrom 0 false ('<' :: cs ++ '>' :: ds) = eraseFrom 0 false ds := by
  have hinner := balanced.closesWithin 0
  calc eraseFrom 0 false ('<' :: cs ++ '>' :: ds)
      = eraseFrom 1 false (cs ++ '>' :: ds) := by simp [eraseFrom]
    _ = eraseFrom 1 false ('>' :: ds) := by
      rw [eraseFrom_append, hinner.eraseFrom_eq_nil, balanced.depthAfter_eq,
        hinner.markAfter_eq_false, List.nil_append]
    _ = eraseFrom 0 false ds := by simp [eraseFrom]

/-- **Erased types are normal forms.** No blank, no angle bracket and no `@` is left of any text;
erasing again changes nothing, and the texts that it leaves alone are those without such characters.
Behind a balanced text without annotations a type is erased by itself, and type arguments between
the two make no difference. -/
theorem eraseType_normalizes (t : String) :
    (Solid (eraseType t) ∧ Unmarked (eraseType t)) ∧
    eraseType (eraseType t) = eraseType t ∧
    (eraseType t = t ↔ Solid t ∧ Unmarked t) ∧
    ∀ a b : String, '@' ∉ a.toList → Balanced '<' '>' a.toList →
      eraseType (a ++ b) = eraseType a ++ eraseType b ∧
      ∀ inner : String, Balanced '<' '>' inner.toList →
        eraseType (a ++ "<" ++ inner ++ ">" ++ b) = eraseType a ++ eraseType b := by
  have hnormal : Solid (eraseType t) ∧ Unmarked (eraseType t) :=
    ⟨solid_eraseType t, unmarked_eraseType t⟩
  refine ⟨hnormal, eraseType_eq_self_iff.2 hnormal, eraseType_eq_self_iff, ?_⟩
  intro a b unannotated balanced
  -- behind `a` all starts anew: no bracket is open, and no annotation goes on
  have hsplit := eraseFrom_append_balanced unannotated balanced
  constructor
  · rw [eraseType, String.toList_append, hsplit, String.ofList_append]
    rfl
  · intro inner hinner
    have hchars : (a ++ "<" ++ inner ++ ">" ++ b).toList =
        a.toList ++ ('<' :: inner.toList ++ '>' :: b.toList) := by simp
    rw [eraseType, hchars, hsplit, eraseFrom_arguments hinner, String.ofList_append]
    rfl

theorem nestedArguments_erased :
    ('@' ∉ "Map<K, List<V>> []".toList ∧ Balanced '<' '>' "Map<K, List<V>> []".toList) ∧
    Balanced '<' '>' "@A(1) T".toList ∧
    eraseType (eraseType "a>b@C(x<y> z>") = "abz" ∧
    eraseType ("Map<K, List<V>> []" ++ "@B .C") = "Map[].C" ∧
    eraseType ("Map<K, List<V>> []" ++ "<" ++ "@A(1) T" ++ ">" ++ "@B .C") = "Map[].C" := by
  have unannotated : '@' ∉ "Map<K, List<V>> []".toList := by decide
  have balanced : Balanced '<' '>' "Map<K, List<V>> []".toList := by decide
  have hinner : Balanced '<' '>' "@A(1) T".toList := by decide
  obtain ⟨-, hagain, -, happend⟩ := eraseType_normalizes "a>b@C(x<y> z>"
  obtain ⟨hdirect, harguments⟩ := happend _ "@B .C" unannotated balanced
  refine ⟨⟨unannotated, balanced⟩, hinner, ?_, ?_, ?_⟩
  · rw [hagain]
    decide
  · rw [hdirect]
    decide
  · rw [harguments _ hinner]
    decide

end CallOrigins.Java
