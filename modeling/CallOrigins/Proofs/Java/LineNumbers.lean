import CallOrigins.Java.Source
import CallOrigins.Proofs.Order
import Mathlib.Data.List.Basic

/-!
# Line numbers

The line of an offset is looked up among the line starts, and what is found there is counted
differently for the start of a line and for any other place. The starts are computed from
characters, and they are offsets of bytes.

**The law** (`SourceFile.lineOf_read`): in a source with fewer lines than a word can count, the line
of an offset is one more than the number of line feeds among the bytes before it, and past the end
there is none.

A line feed is a byte of no other character (`mem_utf8EncodeChar`), so the later lines start behind
the line feeds among the bytes (`laterLineStarts_eq`). These offsets ascend, and in an ascending list
the place of a number tells how many entries are not greater (`line_placeFrom`).
-/

namespace CallOrigins

namespace Text

/-! ## Line feeds among bytes -/

/-- The byte of a line feed. -/
def lineFeed : UInt8 := 10

/-- A line feed is a byte of no other character: those beyond ASCII have only bytes beyond it. -/
theorem mem_utf8EncodeChar {c : Char} : lineFeed ∈ String.utf8EncodeChar c ↔ c = '\n' := by
  have hc : c = '\n' ↔ c.val.toNat = 10 := by
    rw [← Char.val_inj, ← UInt32.toNat_inj]
    rfl
  have hbyte : ∀ n < 256, lineFeed = UInt8.ofNat n ↔ n = 10 := by
    intro n hn
    rw [← UInt8.toNat_inj, UInt8.toNat_ofNat', lineFeed]
    show 10 = _ ↔ _
    omega
  rw [hc]
  unfold String.utf8EncodeChar
  dsimp only
  split
  · rw [List.mem_singleton, hbyte _ (by omega)]
  · repeat' split
    all_goals
      simp (disch := omega) only [List.mem_cons, List.not_mem_nil, or_false, hbyte]
      omega

/-- The offsets behind the line feeds among bytes, before which there are `offset` others. -/
def startsBehind (offset : Nat) : List UInt8 → List Nat
  | [] => []
  | b :: bs =>
    if b = lineFeed then (offset + 1) :: startsBehind (offset + 1) bs
    else startsBehind (offset + 1) bs

theorem startsBehind_append (offset : Nat) (bs cs : List UInt8) :
    startsBehind offset (bs ++ cs) =
      startsBehind offset bs ++ startsBehind (offset + bs.length) cs := by
  induction bs generalizing offset with
  | nil => rfl
  | cons b bs ih =>
    rw [List.cons_append, startsBehind, startsBehind, ih, List.length_cons, Nat.add_assoc,
      Nat.add_comm 1]
    split <;> rfl

theorem startsBehind_eq_nil {offset : Nat} {bs : List UInt8} (h : lineFeed ∉ bs) :
    startsBehind offset bs = [] := by
  induction bs generalizing offset with
  | nil => rfl
  | cons b bs ih =>
    rw [List.mem_cons, not_or] at h
    rw [startsBehind, if_neg (Ne.symm h.1), ih h.2]

/-- **The later lines start behind the line feeds.** -/
theorem laterLineStarts_eq (offset : Nat) (cs : List Char) :
    laterLineStarts offset cs = startsBehind offset (cs.flatMap String.utf8EncodeChar) := by
  induction cs generalizing offset with
  | nil => rfl
  | cons c cs ih =>
    rw [List.flatMap_cons, startsBehind_append, String.length_utf8EncodeChar, ← ih, laterLineStarts]
    by_cases hc : c = '\n'
    · subst hc
      rfl
    · rw [if_neg hc, startsBehind_eq_nil (mt mem_utf8EncodeChar.1 hc), List.nil_append]

theorem lineStarts_eq (s : String) : lineStarts s = 0 :: startsBehind 0 (bytes s) := by
  rw [lineStarts, laterLineStarts_eq, bytes_eq]

/-- A later line starts behind the offset, and behind the lines before it. -/
theorem pairwise_cons_startsBehind (offset : Nat) (bs : List UInt8) :
    (offset :: startsBehind offset bs).Pairwise (· < ·) := by
  induction bs generalizing offset with
  | nil => exact List.pairwise_singleton ..
  | cons b bs ih =>
    have hrest := ih (offset + 1)
    have hlater := List.pairwise_cons.1 hrest
    rw [startsBehind]
    split
    · refine List.pairwise_cons.2 ⟨fun n hn => ?_, hrest⟩
      rcases List.mem_cons.1 hn with rfl | hn
      · exact Nat.lt_succ_self offset
      · exact Nat.lt_of_succ_lt (hlater.1 n hn)
    · exact List.pairwise_cons.2 ⟨fun n hn => Nat.lt_of_succ_lt (hlater.1 n hn), hlater.2⟩

/-- As many lines start up to an offset as there are line feeds before it. -/
theorem countP_startsBehind (offset n : Nat) (bs : List UInt8) :
    (startsBehind offset bs).countP (· ≤ n) = (bs.take (n - offset)).count lineFeed := by
  induction bs generalizing offset with
  | nil => simp [startsBehind]
  | cons b bs ih =>
    by_cases hn : offset + 1 ≤ n
    · obtain ⟨k, rfl⟩ := Nat.exists_eq_add_of_le' hn
      have hsplit : k + (offset + 1) - offset = k + (offset + 1) - (offset + 1) + 1 := by omega
      rw [hsplit, List.take_succ_cons, List.count_cons, ← ih, startsBehind]
      by_cases hb : b = lineFeed
      · simp [hb]
      · simp [hb]
    · -- no line starts so early, and nothing is taken
      have hnone : n - (offset + 1) = 0 := by omega
      have hnil : n - offset = 0 := by omega
      have hrest := ih (offset + 1)
      rw [hnone, List.take_zero] at hrest
      rw [hnil, List.take_zero, startsBehind]
      split
      · rw [List.countP_cons_of_neg (by simpa using hn), hrest]
      · exact hrest

/-! ## Places in ascending lists -/

/-- **The line of a place** counts the entries that are not greater, in an ascending list. -/
theorem line_placeFrom {ms : List Nat} (h : ms.Pairwise (· < ·)) (n before : Nat) :
    (placeFrom n before ms).line = before + ms.countP (· ≤ n) := by
  induction ms generalizing before with
  | nil => rfl
  | cons m ms ih =>
    obtain ⟨hm, hms⟩ := List.pairwise_cons.1 h
    have hgreater : n ≤ m → ms.countP (· ≤ n) = 0 := by
      intro hn
      refine List.countP_eq_zero.2 fun k hk => ?_
      have := hm k hk
      simp only [decide_eq_true_eq]
      omega
    rw [placeFrom]
    by_cases hless : m < n
    · rw [if_pos hless, ih hms, List.countP_cons_of_pos (by simpa using Nat.le_of_lt hless)]
      omega
    · rw [if_neg hless]
      by_cases heq : m = n
      · subst heq
        rw [if_pos rfl, List.countP_cons_of_pos (by simp), hgreater (Nat.le_refl m)]
        rfl
      · rw [if_neg heq, List.countP_cons_of_neg (by simp; omega), hgreater (by omega)]
        rfl

/-- Where the line feeds of a text are few, its lines are counted as they are. -/
theorem lineIn_lineStarts {s : String} (few : (bytes s).count lineFeed < halfWordCount - 1)
    (size offset : Nat) : lineIn (lineStarts s) size offset =
      if size < offset then none else some (1 + ((bytes s).take offset).count lineFeed) := by
  have hascending := pairwise_cons_startsBehind 0 (bytes s)
  have hcount : (placeFrom offset 0 (lineStarts s)).line =
      1 + ((bytes s).take offset).count lineFeed := by
    rw [lineStarts_eq, line_placeFrom hascending, List.countP_cons_of_pos (by simp),
      countP_startsBehind, Nat.sub_zero]
    omega
  have hle : ((bytes s).take offset).count lineFeed ≤ (bytes s).count lineFeed :=
    (List.take_sublist ..).count_le _
  rw [lineIn, hcount, Nat.mod_eq_of_lt (by rw [halfWordCount] at *; omega)]

end Text

/-! ## Lines of a source -/

namespace Java.SourceFile

open Text

/-- **The lines of a source.** Where its line feeds are fewer than a word of 32 bits can count, an
offset has a line just if it is not past the end, and then its number is one more than the number of
line feeds among the bytes before the offset. So lines are counted from one and do not decrease, and
they start at strictly ascending offsets, the first one at zero. -/
theorem lineOf_read (s : Source) (few : (bytes s.content).count lineFeed < 0xffffffff) :
    (∀ offset, (read s).lineOf offset =
      if (bytes s.content).length < offset then none
      else some (1 + ((bytes s.content).take offset).count lineFeed)) ∧
    (∀ offset line, (read s).lineOf offset = some line → 1 ≤ line) ∧
    (∀ offset offset' line line', offset ≤ offset' → (read s).lineOf offset = some line →
      (read s).lineOf offset' = some line' → line ≤ line') ∧
    (read s).lineStarts.Pairwise (· < ·) ∧ (read s).lineStarts.head? = some 0 := by
  have hline : ∀ offset, (read s).lineOf offset =
      if (bytes s.content).length < offset then none
      else some (1 + ((bytes s.content).take offset).count lineFeed) :=
    lineIn_lineStarts few _
  have hvalue : ∀ {offset line}, (read s).lineOf offset = some line →
      line = 1 + ((bytes s.content).take offset).count lineFeed := by
    intro offset line h
    rw [hline] at h
    by_cases hpast : (bytes s.content).length < offset
    · rw [if_pos hpast] at h
      cases h
    · rw [if_neg hpast] at h
      exact (Option.some.inj h).symm
  refine ⟨hline, fun offset line h => ?_, fun offset offset' line line' hle h h' => ?_, ?_, rfl⟩
  · rw [hvalue h]
    omega
  · rw [hvalue h, hvalue h']
    exact Nat.add_le_add_left ((List.take_sublist_take_left hle).count_le _) 1
  · show (Text.lineStarts s.content).Pairwise (· < ·)
    rw [lineStarts_eq]
    exact pairwise_cons_startsBehind ..

/-- Two lines and a third one without a line feed. The umlaut has two bytes. -/
def threeLines : Source where
  path := "A.java"
  content := "/*\nä*/\n;"
  external := false

theorem threeLines_lines :
    (bytes threeLines.content).count lineFeed < 0xffffffff ∧
    (bytes threeLines.content).length = 9 ∧
    (List.range 11).map (read threeLines).lineOf =
      [some 1, some 1, some 1, some 2, some 2, some 2, some 2, some 2, some 3, some 3, none] := by
  have few : (bytes threeLines.content).count lineFeed < 0xffffffff := by decide
  have hline := (lineOf_read threeLines few).1
  refine ⟨few, by decide, ?_⟩
  rw [funext hline]
  decide

end Java.SourceFile
end CallOrigins
