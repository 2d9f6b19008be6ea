import CallOrigins.Method
import CallOrigins.Proofs.Text.Blank
import CallOrigins.Proofs.Text.Cut

/-!
# Identifiers and their parts

An identifier is one flat text, `Type#name(Param,Param)`, and its parts are found in it by looking
for four signs. Putting it together and taking it apart fit each other as long as no part holds the
sign that ends it.

`parse_normal` is the law for texts that are read: which ones they are (`IsWritten`), that the blanks
that do not count are gone from the identifier and all else is as it was written, and that an
identifier is read as itself. `ofParts_determines` is the law for identifiers that are put together:
the type, the name and the trimmed parameters can be read off them (`AreParts`), so no two methods
share one.

A `(` in the type is why `AreParts` asks for more than `IsWritten`. A text that is read is cut at its
`#` first, but the parameters of an identifier are looked for from the first `(` of all.
-/

namespace CallOrigins

open Text

namespace MethodId

variable {m m' : MethodId} {s s' type name inner inner' : String} {params : List String}

/-! ## The parts of an identifier -/

theorem toList_text_ofParts (type name : String) (params : List String) :
    (ofParts type name params).text.toList = type.toList ++ '#' ::
      (name.toList ++ '(' :: ((",".intercalate (params.map trim)).toList ++ [')'])) := by
  simp [ofParts]

/-- The part of an identifier before its first `#` depends on the type alone. -/
theorem declaringType_ofParts_eq (type name : String) (params : List String) :
    (ofParts type name params).declaringType = String.ofList (beforeFirst '#' type.toList) := by
  rw [declaringType, toList_text_ofParts, beforeFirst, beforeFirst,
    takeWhile_append_cons (by simp)]

theorem declaringType_ofParts (h : '#' ∉ type.toList) (name : String) (params : List String) :
    (ofParts type name params).declaringType = type := by
  rw [declaringType, toList_text_ofParts, beforeFirst_append h, String.ofList_toList]

theorem name_ofParts (type_cut : '#' ∉ type.toList) (name_cut : '(' ∉ name.toList)
    (params : List String) : (ofParts type name params).name = name := by
  rw [MethodId.name, toList_text_ofParts, cutFirst_append type_cut]
  dsimp only
  rw [beforeFirst_append name_cut, String.ofList_toList]

/-- An identifier is put together of its type, its name and a list of parameters. -/
structure IsComposed (m : MethodId) (inner : String) : Prop where
  text : m.text = m.declaringType ++ "#" ++ m.name ++ "(" ++ inner ++ ")"
  type_cut : '#' ∉ m.declaringType.toList
  name_cut : '(' ∉ m.name.toList

/-- The type ends at the first `#`, wherever this comes from, and the name at the first `(` after
it. -/
theorem exists_isComposed (type name : String) (params : List String) :
    ∃ inner, (ofParts type name params).IsComposed inner := by
  let list := (",".intercalate (params.map trim)).toList
  have htext := toList_text_ofParts type name params
  obtain ⟨front, back, htype⟩ :=
    exists_cutFirst_append '#' type.toList (name.toList ++ '(' :: (list ++ [')']))
  obtain ⟨before, after, hname⟩ :=
    exists_cutFirst_append '(' (back ++ name.toList) (list ++ [')'])
  rw [List.append_assoc] at hname
  rw [← htext] at htype
  have hmember := eq_append_of_cutFirst hname
  have hwhole := eq_append_of_cutFirst htype
  have hdeclaring : (ofParts type name params).declaringType = String.ofList front := by
    rw [declaringType, hwhole, beforeFirst_append (not_mem_of_cutFirst htype)]
  have hmethod : (ofParts type name params).name = String.ofList before := by
    rw [MethodId.name, htype]
    dsimp only
    rw [hmember, beforeFirst_append (not_mem_of_cutFirst hname)]
  refine ⟨String.ofList (after ++ list), ?_, ?_, ?_⟩
  · rw [← String.toList_inj, hdeclaring, hmethod, hwhole, hmember]
    simp
  · simpa [hdeclaring] using not_mem_of_cutFirst htype
  · simpa [hmethod] using not_mem_of_cutFirst hname

/-- The parameters in a list. -/
def listed (inner : String) : List String :=
  if inner = "" then [] else (pieces ',' inner.toList).map String.ofList

theorem intercalate_listed (inner : String) : ",".intercalate (listed inner) = inner := by
  rw [listed]
  split
  next hinner => simp [hinner]
  next => exact intercalate_commaPieces inner

theorem listed_injective : Function.Injective listed :=
  Function.LeftInverse.injective intercalate_listed

/-- The parameters are read from the first `(` of the identifier on. -/
theorem params_of_text {front : String} (text : m.text = front ++ "(" ++ inner ++ ")")
    (cut : '(' ∉ front.toList) : m.params = listed inner := by
  have htext : m.text.toList = front.toList ++ '(' :: (inner.toList ++ [')']) := by
    simp [text]
  rw [params, htext, cutFirst_append cut]
  dsimp only
  rw [cutLast_concat, listed]
  simp

theorem IsComposed.params_eq (h : m.IsComposed inner) (plain : '(' ∉ m.declaringType.toList) :
    m.params = listed inner := by
  refine params_of_text h.text ?_
  simp [plain, h.name_cut]

/-- Where the first `(` belongs to the type, the parameters start in the type and go over the `#`.
-/
theorem IsComposed.exists_params_eq (h : m.IsComposed inner)
    (opened : '(' ∈ m.declaringType.toList) :
    ∃ back, m.params = listed (back ++ "#" ++ m.name ++ "(" ++ inner) := by
  cases hcut : cutFirst '(' m.declaringType.toList with
  | none => exact absurd opened (cutFirst_eq_none_iff.1 hcut)
  | some cut =>
    obtain ⟨front, back⟩ := cut
    have htype : m.declaringType = String.ofList front ++ "(" ++ String.ofList back := by
      rw [← String.toList_inj, eq_append_of_cutFirst hcut]
      simp
    have htext : m.text = String.ofList front ++ "(" ++
        (String.ofList back ++ "#" ++ m.name ++ "(" ++ inner) ++ ")" := by
      rw [h.text, htype]
      simp only [String.append_assoc]
    exact ⟨_, params_of_text htext (by simpa using not_mem_of_cutFirst hcut)⟩

/-- Identifiers with the same parts are one. -/
theorem IsComposed.eq_of_parts (h : m.IsComposed inner) (h' : m'.IsComposed inner')
    (plain : '(' ∉ m.declaringType.toList) (htype : m'.declaringType = m.declaringType)
    (hname : m'.name = m.name) (hparams : m'.params = m.params) : m' = m := by
  have hinner : inner' = inner := by
    rw [h.params_eq plain, h'.params_eq (htype ▸ plain)] at hparams
    exact listed_injective hparams
  have htext : m'.text = m.text := by
    rw [h.text, h'.text, htype, hname, hinner]
  cases m
  cases m'
  exact congrArg MethodId.mk htext

/-! ## Lists of parameters -/

theorem not_mem_of_mem_listed {p : String} (h : p ∈ listed inner) : ',' ∉ p.toList := by
  rw [listed] at h
  split at h
  next => exact absurd h List.not_mem_nil
  next =>
    obtain ⟨cs, hcs, rfl⟩ := List.mem_map.1 h
    rw [String.toList_ofList]
    exact not_mem_of_mem_pieces hcs

theorem pieces_intercalate_commas (hcut : ∀ p ∈ params, ',' ∉ p.toList) (hne : params ≠ []) :
    pieces ',' (",".intercalate params).toList = params.map String.toList := by
  rw [String.toList_intercalate]
  exact pieces_intercalate (by simpa using hne) (by simpa using hcut)

theorem listed_intercalate (hcut : ∀ p ∈ params, ',' ∉ p.toList)
    (hne : ",".intercalate params ≠ "") : listed (",".intercalate params) = params := by
  have hparams : params ≠ [] := by
    rintro rfl
    exact hne rfl
  rw [listed, if_neg hne, pieces_intercalate_commas hcut hparams, List.map_map]
  simp [Function.comp_def]

/-- The empty text has one piece, which is empty. -/
theorem eq_singleton_of_intercalate (hcut : ∀ p ∈ params, ',' ∉ p.toList) (hne : params ≠ [])
    (h : ",".intercalate params = "") : params = [""] := by
  have hpieces := pieces_intercalate_commas hcut hne
  rw [h] at hpieces
  exact List.map_injective_iff.2 (fun _ _ => String.toList_injective) hpieces.symm

/-- A list of parameters without the blanks around them. -/
def tidied (inner : String) : String :=
  ",".intercalate ((listed inner).map trim)

theorem not_mem_trim {p : String} {c : Char} (h : c ∉ p.toList) : c ∉ (trim p).toList := by
  rw [trim, String.toList_ofList]
  exact fun hc => h (trimChars_subset _ hc)

theorem forall_not_mem_trim (h : ∀ p ∈ params, ',' ∉ p.toList) :
    ∀ p ∈ params.map trim, ',' ∉ p.toList :=
  List.forall_mem_map.2 fun p hp => not_mem_trim (h p hp)

/-- A tidy list stays as it is. -/
theorem tidied_intercalate (h : ∀ p ∈ params, ',' ∉ p.toList) :
    tidied (",".intercalate (params.map trim)) = ",".intercalate (params.map trim) := by
  by_cases hempty : ",".intercalate (params.map trim) = ""
  · rw [hempty]
    rfl
  · rw [tidied, listed_intercalate (forall_not_mem_trim h) hempty, List.map_map]
    simp [Function.comp_def]

theorem trim_eq_empty_iff : trim s = "" ↔ IsBlank s := by
  rw [trim, String.ofList_eq_empty_iff, trimChars_eq_nil_iff, IsBlank, Only]

/-- Nothing is left of a list exactly where it is blank. -/
theorem tidied_eq_empty_iff : tidied inner = "" ↔ IsBlank inner := by
  by_cases hinner : inner = ""
  · simp [hinner, tidied, listed]
  have hlisted : listed inner ≠ [] := by
    rw [listed, if_neg hinner]
    simpa using pieces_ne_nil ',' inner.toList
  constructor
  · intro h
    have hone : (listed inner).map trim = [""] :=
      eq_singleton_of_intercalate (forall_not_mem_trim fun _ => not_mem_of_mem_listed)
        (by simpa using hlisted) h
    obtain ⟨p, hp, htrim⟩ := List.map_eq_singleton_iff.1 hone
    have hwhole : inner = p := by
      rw [← intercalate_listed inner, hp, String.intercalate_singleton]
    rw [hwhole]
    exact trim_eq_empty_iff.1 htrim
  · intro h
    have hcut : ',' ∉ inner.toList := fun hc => absurd (h _ hc) (by decide)
    have hone : listed inner = [inner] := by
      have hjoined : ",".intercalate [inner] = inner := String.intercalate_singleton
      have hself : listed (",".intercalate [inner]) = [inner] :=
        listed_intercalate (by simpa using hcut) (by rwa [hjoined])
      rwa [hjoined] at hself
    rw [tidied, hone, List.map_singleton, String.intercalate_singleton]
    exact trim_eq_empty_iff.2 h

/-- Two lists are the same up to blanks: nothing but blanks is in either of them, or they have the
same parameters with other blanks around them. -/
def SameParameters (inner inner' : String) : Prop :=
  IsBlank inner ∧ IsBlank inner' ∨ (listed inner).map trim = (listed inner').map trim

theorem tidied_eq_iff : tidied inner = tidied inner' ↔ SameParameters inner inner' := by
  constructor
  · intro h
    by_cases hempty : tidied inner = ""
    · exact .inl ⟨tidied_eq_empty_iff.1 hempty, tidied_eq_empty_iff.1 (h ▸ hempty)⟩
    · refine .inr ?_
      have hcut : ∀ list : String, ∀ p ∈ (listed list).map trim, ',' ∉ p.toList := fun list =>
        forall_not_mem_trim fun _ => not_mem_of_mem_listed
      rw [← listed_intercalate (hcut inner) hempty,
        ← listed_intercalate (hcut inner') (show tidied inner' ≠ "" from h ▸ hempty)]
      exact congrArg listed h
  · rintro (⟨hblank, hblank'⟩ | hparams)
    · rw [tidied_eq_empty_iff.2 hblank, tidied_eq_empty_iff.2 hblank']
    · rw [tidied, tidied, hparams]

theorem ofParts_eq_iff {params params' : List String} :
    ofParts type name params = ofParts type name params' ↔
      ",".intercalate (params.map trim) = ",".intercalate (params'.map trim) := by
  constructor
  · intro h
    have htext := congrArg (fun m => m.text.toList) h
    simp only [toList_text_ofParts, List.append_cancel_left_eq, List.cons.injEq, true_and,
      List.append_cancel_right_eq] at htext
    exact String.toList_inj.1 htext
  · intro h
    rw [ofParts, ofParts, h]

/-! ## Texts that are read -/

/-- **The form of an identifier**: a type up to the first `#`, a name up to the next `(`, and a list
of parameters up to the `)` at the end. Neither the type nor the name is empty. -/
structure IsWritten (s type name inner : String) : Prop where
  text : trim s = type ++ "#" ++ name ++ "(" ++ inner ++ ")"
  type_cut : '#' ∉ type.toList
  name_cut : '(' ∉ name.toList
  type_ne : type ≠ ""
  name_ne : name ≠ ""

theorem IsWritten.toList_text (h : IsWritten s type name inner) :
    trimChars s.toList = type.toList ++ '#' :: (name.toList ++ '(' :: (inner.toList ++ [')'])) := by
  have htext := congrArg String.toList h.text
  simpa [trim] using htext

/-- A text of the form is read, and its parts are kept but for the blanks around the parameters. -/
theorem IsWritten.parse_eq (h : IsWritten s type name inner) :
    parse s = .ok (ofParts type name (listed inner)) := by
  have hdrop : dropBack? [')'] (inner.toList ++ [')']) = some inner.toList :=
    dropBack?_eq_some.2 rfl
  rw [parse, h.toList_text, cutFirst_append h.type_cut]
  dsimp only
  rw [cutFirst_append h.name_cut]
  dsimp only
  rw [hdrop]
  dsimp only
  rw [if_neg (by simp [h.type_ne, h.name_ne]), String.ofList_toList, String.ofList_toList,
    Except.ok.injEq, ofParts_eq_iff, ← tidied]
  by_cases hblank : IsBlank inner
  · have hnone : (trimChars inner.toList).isEmpty = true :=
      List.isEmpty_iff.2 (trimChars_eq_nil_iff.2 hblank)
    rw [if_pos hnone, tidied_eq_empty_iff.2 hblank]
    rfl
  · have hsome : ¬(trimChars inner.toList).isEmpty = true := fun hnone =>
      hblank (trimChars_eq_nil_iff.1 (List.isEmpty_iff.1 hnone))
    have hinner : inner ≠ "" := by
      rintro rfl
      exact hblank (by simp)
    rw [if_neg hsome, tidied, listed, if_neg hinner]

/-- A text that is read has the form. -/
theorem exists_isWritten_of_parse (h : parse s = .ok m) :
    ∃ type name inner, IsWritten s type name inner := by
  rw [parse] at h
  cases hcut : cutFirst '#' (trimChars s.toList) with
  | none => simp [hcut] at h
  | some cut =>
    obtain ⟨type, member⟩ := cut
    simp only [hcut] at h
    cases hname : cutFirst '(' member with
    | none => simp [hname] at h
    | some cut =>
      obtain ⟨name, after⟩ := cut
      simp only [hname] at h
      cases hdrop : dropBack? [')'] after with
      | none => simp [hdrop] at h
      | some inner =>
        simp only [hdrop] at h
        by_cases hempty : (type.isEmpty || name.isEmpty) = true
        · simp [hempty] at h
        rw [Bool.or_eq_true, not_or] at hempty
        refine ⟨String.ofList type, String.ofList name, String.ofList inner, ?_, ?_, ?_, ?_, ?_⟩
        · rw [trim, eq_append_of_cutFirst hcut, eq_append_of_cutFirst hname,
            dropBack?_eq_some.1 hdrop, ← String.toList_inj]
          simp
        · simpa using not_mem_of_cutFirst hcut
        · simpa using not_mem_of_cutFirst hname
        · simpa using hempty.1
        · simpa using hempty.2

/-- What the type starts with is not blank, as the text was trimmed. -/
theorem IsWritten.isBlank_head (h : IsWritten s type name inner) :
    ∃ c ∈ type.toList.head?, isBlank c = false := by
  cases htype : type.toList with
  | nil => exact absurd (String.toList_eq_nil_iff.1 htype) h.type_ne
  | cons c cs =>
    have hfront : c ∈ (trimChars s.toList).head? := by
      rw [h.toList_text, htype]
      rfl
    exact ⟨c, rfl, isBlank_head?_trimChars hfront⟩

/-- An identifier has the form of one, with its parameters tidied. -/
theorem isWritten_text_ofParts (type_cut : '#' ∉ type.toList) (name_cut : '(' ∉ name.toList)
    (type_front : ∃ c ∈ type.toList.head?, isBlank c = false) (name_ne : name ≠ "")
    (params : List String) :
    IsWritten (ofParts type name params).text type name (",".intercalate (params.map trim)) := by
  obtain ⟨c, hc, hfront⟩ := type_front
  obtain ⟨cs, htype⟩ := List.head?_eq_some_iff.1 hc
  have htrim : trim (ofParts type name params).text = (ofParts type name params).text := by
    rw [trim, trimChars_of_ends, String.ofList_toList]
    · rw [toList_text_ofParts, htype]
      rintro _ ⟨⟩
      exact hfront
    · have hlast : (ofParts type name params).text.toList.getLast? = some ')' := by
        rw [ofParts, String.toList_append]
        exact List.getLast?_concat
      rw [hlast]
      rintro _ ⟨⟩
      rfl
  refine ⟨htrim, type_cut, name_cut, ?_, name_ne⟩
  rintro rfl
  cases htype

/-- **An identifier is read as itself.** -/
theorem parse_text_ofParts (type_cut : '#' ∉ type.toList) (name_cut : '(' ∉ name.toList)
    (type_front : ∃ c ∈ type.toList.head?, isBlank c = false) (name_ne : name ≠ "")
    (hparams : ∀ p ∈ params, ',' ∉ p.toList) :
    parse (ofParts type name params).text = .ok (ofParts type name params) := by
  rw [(isWritten_text_ofParts type_cut name_cut type_front name_ne params).parse_eq,
    Except.ok.injEq, ofParts_eq_iff]
  exact tidied_intercalate hparams

/-- **Reading is a normal form.** A text is read exactly where it has the form of an identifier, and
the identifier has the type and the name that are written and the trimmed parameters. An identifier
that was read is read again as itself, and texts with the same type and the same name give one
identifier exactly where their parameters are the same up to blanks. -/
theorem parse_normal (s : String) :
    (∀ m, parse s = .ok m ↔ ∃ type name inner, IsWritten s type name inner ∧
      m.text = type ++ "#" ++ name ++ "(" ++ ",".intercalate ((listed inner).map trim) ++ ")") ∧
    (∀ m, parse s = .ok m → parse m.text = .ok m) ∧
    ∀ s' type name inner inner', IsWritten s type name inner → IsWritten s' type name inner' →
      (parse s = parse s' ↔ SameParameters inner inner') := by
  refine ⟨fun m => ⟨fun hm => ?_, ?_⟩, fun m hm => ?_, ?_⟩
  · obtain ⟨type, name, inner, h⟩ := exists_isWritten_of_parse hm
    rw [h.parse_eq] at hm
    cases hm
    exact ⟨type, name, inner, h, rfl⟩
  · rintro ⟨type, name, inner, h, htext⟩
    rw [h.parse_eq, Except.ok.injEq, ofParts, ← htext]
  · obtain ⟨type, name, inner, h⟩ := exists_isWritten_of_parse hm
    rw [h.parse_eq] at hm
    cases hm
    exact parse_text_ofParts h.type_cut h.name_cut h.isBlank_head h.name_ne fun _ =>
      not_mem_of_mem_listed
  · intro s' type name inner inner' h h'
    rw [h.parse_eq, h'.parse_eq, Except.ok.injEq, ofParts_eq_iff]
    exact tidied_eq_iff

/-- Blanks around the text and around the parameters do not count. -/
theorem parse_normal_spaced :
    IsWritten " a.B#m( int ,T) " "a.B" "m" " int ,T" ∧
    IsWritten "a.B#m(int, T )" "a.B" "m" "int, T " ∧
    parse " a.B#m( int ,T) " = .ok ⟨"a.B#m(int,T)"⟩ ∧
    parse " a.B#m( int ,T) " = parse "a.B#m(int, T )" := by
  have spaced : IsWritten " a.B#m( int ,T) " "a.B" "m" " int ,T" := by
    constructor <;> decide
  have other : IsWritten "a.B#m(int, T )" "a.B" "m" "int, T " := by
    constructor <;> decide
  obtain ⟨hread, -, hsame⟩ := parse_normal " a.B#m( int ,T) "
  exact ⟨spaced, other, (hread _).2 ⟨_, _, _, spaced, by decide⟩,
    (hsame _ _ _ _ _ spaced other).2 (.inr (by decide))⟩

/-! ## Identifiers that are put together -/

/-- Parts that no sign of an identifier is in where it would end them: the type has no `#` and no
`(`, the name has no `(`, and the parameters are not blank and have no comma. -/
structure AreParts (type name : String) (params : List String) : Prop where
  type_cut : '#' ∉ type.toList
  type_plain : '(' ∉ type.toList
  name_cut : '(' ∉ name.toList
  params_ne : ∀ p ∈ params, ¬IsBlank p
  params_cut : ∀ p ∈ params, ',' ∉ p.toList

/-- The parameters are found as they were, without the blanks around them. -/
theorem AreParts.params_eq (h : AreParts type name params) :
    (ofParts type name params).params = params.map trim := by
  have htext : (ofParts type name params).text =
      (type ++ "#" ++ name) ++ "(" ++ ",".intercalate (params.map trim) ++ ")" := rfl
  rw [params_of_text htext (by simp [h.type_plain, h.name_cut])]
  cases params with
  | nil => rfl
  | cons p params =>
    refine listed_intercalate (forall_not_mem_trim h.params_cut) fun hempty => ?_
    have hone := eq_singleton_of_intercalate (forall_not_mem_trim h.params_cut) (by simp) hempty
    have hfirst : trim p = "" := (List.cons.inj hone).1
    exact h.params_ne p List.mem_cons_self (trim_eq_empty_iff.1 hfirst)

theorem isVarargs_iff : m.isVarargs = true ↔
    ∃ p ∈ m.params.getLast?, ∃ front, p = front ++ "..." := by
  rw [isVarargs]
  cases m.params.getLast? with
  | none => simp
  | some p =>
    simp only [endsWith_iff, Option.mem_some_iff, exists_eq_left']
    constructor
    · rintro ⟨front, hp⟩
      exact ⟨String.ofList front, by rw [← String.toList_inj, hp]; simp⟩
    · rintro ⟨front, rfl⟩
      exact ⟨front.toList, String.toList_append⟩

theorem acceptsArity_iff {n : Nat} (h : n + 1 < wordCount) : m.acceptsArity n = true ↔
    n = m.params.length ∨ m.isVarargs = true ∧ m.params.length ≤ n + 1 := by
  rw [acceptsArity, paramCount, Nat.mod_eq_of_lt h]
  cases m.isVarargs with
  | false => simp
  | true =>
    simp only [if_true, decide_eq_true_eq, true_and]
    omega

/-- **An identifier determines its parts.** The type, the name and the trimmed parameters are found
in it, so overloads never share one. It accepts as many arguments as there are parameters, and one
less or any more where the last parameter ends with three points; and it is read as itself, unless
its name is empty or its type is empty or starts with a blank. -/
theorem ofParts_determines (h : AreParts type name params) :
    (ofParts type name params).declaringType = type ∧ (ofParts type name params).name = name ∧
    (ofParts type name params).params = params.map trim ∧
    (∀ type' name' params', AreParts type' name' params' →
      (ofParts type' name' params' = ofParts type name params ↔
        type' = type ∧ name' = name ∧ params'.map trim = params.map trim)) ∧
    (∀ n, n + 1 < wordCount → ((ofParts type name params).acceptsArity n = true ↔
      n = params.length ∨
        (∃ p ∈ params.getLast?, ∃ front, trim p = front ++ "...") ∧ params.length ≤ n + 1)) ∧
    (name ≠ "" → (∃ c ∈ type.toList.head?, isBlank c = false) →
      parse (ofParts type name params).text = .ok (ofParts type name params)) := by
  have htype := declaringType_ofParts h.type_cut name params
  have hname := name_ofParts h.type_cut h.name_cut params
  refine ⟨htype, hname, h.params_eq, fun type' name' params' h' => ⟨fun heq => ?_, ?_⟩,
    fun n hn => ?_, fun hne hfront => ?_⟩
  · refine ⟨?_, ?_, ?_⟩
    · rw [← declaringType_ofParts h'.type_cut name' params', heq, htype]
    · rw [← name_ofParts h'.type_cut h'.name_cut params', heq, hname]
    · rw [← h'.params_eq, heq, h.params_eq]
  · rintro ⟨rfl, rfl, hparams⟩
    exact ofParts_eq_iff.2 (congrArg _ hparams)
  · have hlast : (∃ p ∈ (params.map trim).getLast?, ∃ front, p = front ++ "...") ↔
        ∃ p ∈ params.getLast?, ∃ front, trim p = front ++ "..." := by
      rw [List.getLast?_map]
      cases params.getLast? <;> simp
    rw [acceptsArity_iff hn, isVarargs_iff, h.params_eq, List.length_map, hlast]
  · exact parse_text_ofParts h.type_cut h.name_cut hfront hne h.params_cut

/-- Signs that do not end a part may stand in it. -/
theorem ofParts_determines_signs :
    AreParts "a.B" "m)#" ["int", " T(#)... "] ∧
    (ofParts "a.B" "m)#" ["int", " T(#)... "]).params = ["int", "T(#)..."] ∧
    (ofParts "a.B" "m)#" ["int", " T(#)... "]).acceptsArity 1 = true ∧
    parse "a.B#m)#(int,T(#)...)" = .ok (ofParts "a.B" "m)#" ["int", " T(#)... "]) := by
  have parts : AreParts "a.B" "m)#" ["int", " T(#)... "] := by
    constructor <;> decide
  obtain ⟨-, -, hparams, -, harity, hread⟩ := ofParts_determines parts
  refine ⟨parts, hparams.trans (by decide), ?_, hread (by decide) ⟨'a', rfl, by decide⟩⟩
  refine (harity 1 (by decide)).2 (.inr ⟨⟨" T(#)... ", rfl, "T(#)", by decide⟩, by decide⟩)


end MethodId
end CallOrigins
