import CallOrigins.Java.Reading.Repair
import CallOrigins.Proofs.Text.Blank
import CallOrigins.Proofs.Text.Cut

/-!
# Tokens in a source

A token stands behind what was read before, and what is left of the source begins where it stops
(`Scanner.next?_fits`). Keywords and marks have the texts that they are named by, so these and
names have no blanks in them (`Terminal.Allows.solid`). A keyword counts as a name only where it is
not expected (`Scanner.not_expected_of_next?`).
-/

namespace CallOrigins.Java

open Text

namespace Terminal

/-- A quote, a digit or a point: what a literal can start with. -/
def startsLiteral (c : Char) : Bool :=
  c = '"' || c = '\'' || c = '.' || Number.isDecimal c

/-- The texts that a token of a terminal can have. Some marks may be missing. -/
def Allows : Terminal → String → Prop
  | .name, text => text ≠ "" ∧ Only (fun c => Scanner.continuesWord c = true) text
  | .word w, text => text = w
  | .mark m, text => text = m ∨ text = "" ∧ .mark m ∈ Reading.closing
  | .number, text | .character, text | .string, text | .stringHead, text | .textBlock, text
  | .blockHead, text => ∀ c ∈ text.toList.head?, startsLiteral c = true
  | _, _ => True

/-- The texts that a token can have, by the number of its terminal. -/
def Reads (n : Nat) (text : String) : Prop :=
  ∀ t, Terminal.all[n]? = some t → t.Allows text

theorem Reads.allows {t : Terminal} {text : String} (h : Reads t.index text) (ht : t ∈ all) :
    t.Allows text :=
  h t (List.getElem?_idxOf ht)

theorem reads_of_allows (t : Terminal) {text : String} (h : t.Allows text) :
    Reads t.index text := by
  intro u hu
  by_cases ht : t ∈ all
  · rw [index, List.getElem?_idxOf ht] at hu
    cases hu
    exact h
  · rw [index, List.idxOf_eq_length ht, List.getElem?_length] at hu
    cases hu

theorem index_ne_name {t : Terminal} (h : t ≠ .name) : t.index ≠ name.index :=
  fun hindex => h ((List.idxOf_inj (.head _)).1 hindex.symm).symm

theorem word_mem_all {w : String} (hw : w ∈ words) : word w ∈ all :=
  List.mem_append_left _ (List.mem_append_right _ (List.mem_map_of_mem hw))

theorem isBlank_of_continuesWord {c : Char} (h : Scanner.continuesWord c = true) :
    isBlank c = false := by
  have hblanks : ∀ n ∈ blanks, Scanner.continuesWord (Char.ofNat n) = false := by decide +kernel
  by_contra hc
  have hword := hblanks c.toNat (toNat_mem_blanks (by simpa using hc))
  rw [Char.ofNat_toNat, h] at hword
  cases hword

/-- **A keyword could be a name.** -/
theorem name_allows_word {w : String} (hw : w ∈ words) : name.Allows w := by
  have h : ∀ w ∈ words, w ≠ "" ∧ Only (fun c => Scanner.continuesWord c = true) w := by
    decide +kernel
  exact h w hw

/-- Names, keywords and marks. The other terminals are literals and parts of them. -/
def isSpelled : Terminal → Bool
  | name | word _ | mark _ => true
  | _ => false

/-- **Names, keywords and marks have no blanks in them.** -/
theorem Allows.solid {t : Terminal} {text : String} (hallows : t.Allows text) (ht : t ∈ all)
    (hspelled : t.isSpelled = true) : Solid text := by
  have hmarks : ∀ m ∈ marks, Solid m := by decide
  cases t with
  | name => exact hallows.2.mono fun c => isBlank_of_continuesWord
  | word w =>
    have hw : w ∈ words := by simpa [all] using ht
    obtain rfl : text = w := hallows
    exact (name_allows_word hw).2.mono fun c => isBlank_of_continuesWord
  | mark m =>
    have hm : m ∈ marks := by simpa [all] using ht
    rcases hallows with rfl | ⟨rfl, -⟩
    · exact hmarks _ hm
    · exact only_empty _
  | _ => cases hspelled

end Terminal

/-! ## Bytes -/

/-- The number of bytes of a text. -/
def byteCount (cs : List Char) : Nat :=
  (String.ofList cs).utf8ByteSize

theorem byteCount_take_add_drop (n : Nat) (cs : List Char) :
    byteCount (cs.take n) + byteCount (cs.drop n) = byteCount cs := by
  rw [byteCount, byteCount, byteCount, ← String.utf8ByteSize_append, ← String.ofList_append,
    List.take_append_drop]

namespace Scanner

/-! ## Terminals -/

/-- A terminal that is no name was found, with a text of the terminal. -/
def Match.IsOther (m : Match) (text : String) : Prop :=
  ∃ t : Terminal, t ≠ .name ∧ m.terminal = t.index ∧ t.Allows text

theorem isOther_of_mark? {expected : TerminalSet} {cs : List Char} {m : Match}
    (h : mark? expected cs = some m) : m.IsOther (String.ofList (cs.take m.length)) := by
  obtain ⟨found, hfound, rfl⟩ := Option.map_eq_some_iff.1 h
  obtain ⟨mark, -, rfl⟩ := List.mem_map.1 (List.mem_of_find?_eq_some hfound)
  have hstarts := List.find?_some hfound
  simp only [Bool.and_eq_true, startsWith, Option.isSome_iff_exists, dropFront?_eq_some] at hstarts
  obtain ⟨-, rest, rfl⟩ := hstarts
  dsimp only [Match.IsOther]
  refine ⟨.mark mark, by simp, rfl, ?_⟩
  rw [List.take_left, String.ofList_toList]
  exact .inl rfl

theorem isOther_of_map_stretch {last embedding : Terminal} {found : Option Stretch} {m : Match}
    (h : found.map (stretch last embedding) = some m) {text : String}
    (hlast : last ≠ .name ∧ last.Allows text)
    (hembedding : embedding ≠ .name ∧ embedding.Allows text) : m.IsOther text := by
  obtain ⟨s, -, rfl⟩ := Option.map_eq_some_iff.1 h
  rw [stretch]
  split
  · exact ⟨embedding, hembedding.1, rfl, hembedding.2⟩
  · exact ⟨last, hlast.1, rfl, hlast.2⟩

theorem isOther_of_quoted? {fuel : Nat} {cs : List Char} {m : Match} (h : quoted? fuel cs = some m)
    {text : String} (htext : ∀ c ∈ text.toList.head?, Terminal.startsLiteral c = true) :
    m.IsOther text := by
  unfold quoted? at h
  split at h
  · exact isOther_of_map_stretch h ⟨by simp, htext⟩ ⟨by simp, htext⟩
  · exact isOther_of_map_stretch h ⟨by simp, htext⟩ ⟨by simp, htext⟩

theorem isOther_of_resumed? {fuel : Nat} {expected : TerminalSet} {cs : List Char} {m : Match}
    (h : resumed? fuel expected cs = some m) (text : String) : m.IsOther text := by
  unfold resumed? at h
  split at h
  · exact isOther_of_map_stretch h ⟨by simp, trivial⟩ ⟨by simp, trivial⟩
  · split at h
    · exact isOther_of_map_stretch h ⟨by simp, trivial⟩ ⟨by simp, trivial⟩
    · cases h

/-- A number starts with a digit or a point. -/
theorem startsLiteral_of_length_pos {c : Char} {cs : List Char}
    (h : 0 < Number.length (c :: cs)) : Terminal.startsLiteral c = true := by
  by_contra hc
  simp only [Terminal.startsLiteral, Bool.or_eq_true, decide_eq_true_eq, not_or,
    Bool.not_eq_true] at hc
  obtain ⟨⟨-, hpoint⟩, hdecimal⟩ := hc
  have hzero : c ≠ '0' := by
    rintro rfl
    cases hdecimal
  have hdigits : Number.wholeDigits (c :: cs) = 0 := by
    simp [Number.wholeDigits, hdecimal]
  have hwhole : Number.whole (c :: cs) = 0 := by
    simp only [Number.whole, hdigits, if_pos]
    split
    next heq => exact absurd (List.cons_eq_cons.1 heq).1 hzero
    next => rfl
  have hfraction : Number.fraction (c :: cs) = 0 := by
    simp [Number.fraction, Number.wholeDigits, Number.digits, hdecimal, hpoint]
  have hhex : Number.hexFraction (c :: cs) = 0 := by
    simp [Number.hexFraction, hzero]
  rw [Number.length, hwhole, hfraction, hhex] at h
  cases h

theorem head?_take_cons (n : Nat) (c : Char) (cs : List Char) :
    ∀ d ∈ (String.ofList ((c :: cs).take n)).toList.head?, d = c := by
  rw [String.toList_ofList]
  cases n with
  | zero => simp
  | succ n => simp

/-- **What is found** is a word, or a terminal that is no name. -/
theorem word_or_isOther_of_match? {fuel : Nat} {expected : TerminalSet} {cs : List Char} {m : Match}
    (h : match? fuel expected cs = some m) :
    word? expected cs = some m ∨ m.IsOther (String.ofList (cs.take m.length)) := by
  unfold match? at h
  cases cs with
  | nil =>
    dsimp only at h
    split at h
    · cases h
      exact .inr ⟨.finish, by simp, rfl, trivial⟩
    · cases h
  | cons c rest =>
    dsimp only at h
    split at h
    · rcases Option.or_eq_some_iff.1 h with h | ⟨-, h⟩
      · exact .inr (isOther_of_mark? h)
      · exact .inl h
    · refine .inr ?_
      have hfirst : Terminal.startsLiteral c = true →
          ∀ d ∈ (String.ofList ((c :: rest).take m.length)).toList.head?,
            Terminal.startsLiteral d = true := by
        intro hc d hd
        rwa [head?_take_cons m.length c rest d hd]
      split at h
      next hquote =>
        refine isOther_of_quoted? h (hfirst ?_)
        simp only [Bool.and_eq_true, decide_eq_true_eq] at hquote
        rw [hquote.1]
        rfl
      · split at h
        next hquote =>
          obtain ⟨n, -, rfl⟩ := Option.map_eq_some_iff.1 h
          refine ⟨.character, by simp, rfl, hfirst ?_⟩
          simp only [Bool.and_eq_true, decide_eq_true_eq] at hquote
          rw [hquote.1]
          rfl
        · split at h
          next hnumber =>
            cases h
            simp only [Bool.and_eq_true, decide_eq_true_eq] at hnumber
            exact ⟨.number, by simp, rfl, hfirst (startsLiteral_of_length_pos hnumber.2)⟩
          · split at h
            · rcases Option.or_eq_some_iff.1 h with h | ⟨-, h⟩
              · exact isOther_of_resumed? h _
              · exact isOther_of_mark? h
            · exact isOther_of_mark? h

/-! ## Words -/

theorem lookup_wordTable {w : String} (hw : w ∈ Terminal.words) :
    wordTable.lookup w = some (Terminal.word w).index := by
  rw [wordTable]
  generalize Terminal.words = words at hw ⊢
  induction words with
  | nil => exact absurd hw List.not_mem_nil
  | cons v words ih =>
    rw [List.map_cons, List.lookup_cons]
    by_cases hv : w = v
    · rw [hv, beq_self_eq_true]
    · rw [beq_eq_false_iff_ne.2 hv]
      exact ih ((List.mem_cons.1 hw).resolve_left hv)

theorem exists_of_isWord {n : Nat} (h : isWord n = true) :
    ∃ w ∈ Terminal.words, n = (Terminal.word w).index := by
  obtain ⟨entry, hentry, hn⟩ := List.any_eq_true.1 h
  obtain ⟨w, hw, rfl⟩ := List.mem_map.1 hentry
  exact ⟨w, hw, (beq_iff_eq.1 hn).symm⟩

/-- A keyword may be read as a name. -/
theorem reads_name_of_isWord {n : Nat} {text : String} (h : Terminal.Reads n text)
    (hword : isWord n = true) : Terminal.Reads Terminal.name.index text := by
  obtain ⟨w, hw, rfl⟩ := exists_of_isWord hword
  obtain rfl : text = w := h.allows (Terminal.word_mem_all hw)
  exact Terminal.reads_of_allows .name (Terminal.name_allows_word hw)

/-- **A word** is an expected keyword, or a name; no name is an expected keyword. -/
theorem keyword_or_name_of_word? {expected : TerminalSet} {cs : List Char} {m : Match}
    (h : word? expected cs = some m) :
    (∃ w ∈ Terminal.words, m.terminal = (Terminal.word w).index ∧
      String.ofList (cs.take m.length) = w) ∨
    (m.terminal = Terminal.name.index ∧ Terminal.name.Allows (String.ofList (cs.take m.length)) ∧
      ∀ w ∈ Terminal.words, String.ofList (cs.take m.length) = w →
        expected.has (Terminal.word w).index = false) := by
  have htake : cs.take (cs.takeWhile continuesWord).length = cs.takeWhile continuesWord :=
    (List.prefix_iff_eq_take.1 (List.takeWhile_prefix _)).symm
  unfold word? at h
  dsimp only at h
  by_cases hempty : (cs.takeWhile continuesWord).isEmpty = true
  · rw [if_pos hempty] at h
    cases h
  rw [if_neg hempty] at h
  have hname : Terminal.name.Allows
      (String.ofList (cs.take (cs.takeWhile continuesWord).length)) := by
    rw [htake]
    refine ⟨fun htext => hempty ?_, only_ofList.2 (List.all_eq_true.1 List.all_takeWhile)⟩
    rw [List.isEmpty_iff, ← String.toList_ofList (l := cs.takeWhile continuesWord), htext]
    rfl
  cases hword : wordTable.lookup (String.ofList (cs.takeWhile continuesWord)) with
  | none =>
    simp only [hword] at h
    split at h
    · cases h
      refine .inr ⟨rfl, hname, fun w hw htext => ?_⟩
      rw [htake] at htext
      rw [htext, lookup_wordTable hw] at hword
      cases hword
    · cases h
  | some n =>
    simp only [hword] at h
    split at h
    · cases h
      obtain ⟨front, back, hsplit, -⟩ := List.lookup_eq_some_iff.1 hword
      have hmem : (String.ofList (cs.takeWhile continuesWord), n) ∈ wordTable :=
        hsplit ▸ List.mem_append_right _ (.head _)
      obtain ⟨w, hw, hpair⟩ := List.mem_map.1 hmem
      simp only [Prod.mk.injEq] at hpair
      refine .inl ⟨w, hw, hpair.2.symm, ?_⟩
      rw [htake]
      exact hpair.1.symm
    next hexpected =>
      split at h
      · cases h
        refine .inr ⟨rfl, hname, fun w hw htext => ?_⟩
        rw [htake] at htext
        rw [htext, lookup_wordTable hw] at hword
        cases hword
        exact Bool.eq_false_iff.2 hexpected
      · cases h

/-- **What is found has a text of its terminal.** -/
theorem reads_of_match? {fuel : Nat} {expected : TerminalSet} {cs : List Char} {m : Match}
    (h : match? fuel expected cs = some m) :
    Terminal.Reads m.terminal (String.ofList (cs.take m.length)) := by
  rcases word_or_isOther_of_match? h with h | ⟨t, -, hterminal, hallows⟩
  · rcases keyword_or_name_of_word? h with ⟨w, -, hterminal, htext⟩ | ⟨hterminal, hname, -⟩
    · exact hterminal ▸ Terminal.reads_of_allows (.word w) htext
    · exact hterminal ▸ Terminal.reads_of_allows .name hname
  · exact hterminal ▸ Terminal.reads_of_allows t hallows

/-! ## The next token -/

/-- The token stands at or after an offset, the source has a size, and the text is one of the
terminal. -/
structure Scanned.Fits (t : Scanned) (size offset : Nat) : Prop where
  start_le : offset ≤ t.token.start
  size_eq : t.token.stop + byteCount t.rest = size
  reads : Terminal.Reads t.terminal t.token.text

/-- **The next token fits.** -/
theorem next?_fits {fuel : Nat} {expected : TerminalSet} {offset : Nat} {cs : List Char}
    {t : Scanned} (h : next? fuel expected offset cs = some t) :
    t.Fits (offset + byteCount cs) offset := by
  obtain ⟨m, hm, rfl⟩ := Option.map_eq_some_iff.1 h
  refine ⟨Nat.le_add_right .., ?_, reads_of_match? hm⟩
  dsimp only [Token.stop]
  generalize hn : (_ + gapLength fuel _ : Nat) = n
  have hgap := byteCount_take_add_drop n cs
  have htext := byteCount_take_add_drop m.length (cs.drop n)
  simp only [byteCount] at hgap htext ⊢
  omega

/-- **A keyword is taken for a name** only where it is not expected. -/
theorem not_expected_of_next? {fuel : Nat} {expected : TerminalSet} {offset : Nat} {cs : List Char}
    {t : Scanned} (h : next? fuel expected offset cs = some t)
    (hname : t.terminal = Terminal.name.index) {w : String} (hw : w ∈ Terminal.words)
    (htext : t.token.text = w) : expected.has (Terminal.word w).index = false := by
  obtain ⟨m, hm, rfl⟩ := Option.map_eq_some_iff.1 h
  rcases word_or_isOther_of_match? hm with hword | ⟨other, hne, hterminal, -⟩
  · rcases keyword_or_name_of_word? hword with ⟨v, -, hterminal, -⟩ | ⟨-, -, hnot⟩
    · exact absurd (hterminal.symm.trans hname) (Terminal.index_ne_name (by simp))
    · exact hnot w hw htext
  · exact absurd (hterminal.symm.trans hname) (Terminal.index_ne_name hne)

end Scanner
end CallOrigins.Java
