import CallOrigins.Proofs.Java.Displayed

/-!
# Weights

To see that something is missing in a text it is enough to count. The weight of a text is its number
of characters that are neither blank nor a square bracket. Brackets count for nothing because a pair
of them is shown for each one that is opened in the dimensions of an array, within annotations too.

**The law** (`Form.Yields.weight_pos`): a form that cannot do without a heavy token yields nodes of
positive weight, if nothing is missing in them. That a form cannot do without a token of some kind is
checked on the form alone (`Form.needs`).
-/

namespace CallOrigins.Java

open Grammar Text

/-! ## Characters -/

/-- A character that is neither blank nor a square bracket. -/
def isHeavy (c : Char) : Bool :=
  !isBlank c && c != '[' && c != ']'

/-- The number of characters that are neither blank nor square brackets. -/
def weight (cs : List Char) : Nat :=
  cs.countP isHeavy

@[simp] theorem weight_nil : weight [] = 0 := rfl

@[simp] theorem weight_append (cs ds : List Char) : weight (cs ++ ds) = weight cs + weight ds :=
  List.countP_append

theorem weight_cons (c : Char) (cs : List Char) :
    weight (c :: cs) = weight cs + if isHeavy c then 1 else 0 :=
  List.countP_cons

@[simp] theorem weight_compactChars (cs : List Char) : weight (compactChars cs) = weight cs := by
  rw [weight, weight, compactChars, List.countP_filter]
  refine List.countP_congr fun c _ => ?_
  simp only [isHeavy, Bool.and_eq_true, and_iff_left_iff_imp]
  exact fun h => h.1.1

theorem weight_pos_iff {cs : List Char} : 0 < weight cs ↔ ∃ c ∈ cs, isHeavy c = true :=
  List.countP_pos_iff

theorem isHeavy_of_continuesWord {c : Char} (h : Scanner.continuesWord c = true) :
    isHeavy c = true := by
  have hopening : c ≠ '[' := by
    rintro rfl
    cases h
  have hclosing : c ≠ ']' := by
    rintro rfl
    cases h
  simp [isHeavy, Terminal.isBlank_of_continuesWord h, hopening, hclosing]

theorem isHeavy_of_startsLiteral {c : Char} (h : Terminal.startsLiteral c = true) :
    isHeavy c = true := by
  simp only [Terminal.startsLiteral, Bool.or_eq_true, decide_eq_true_eq] at h
  rcases h with ((rfl | rfl) | rfl) | h
  · rfl
  · rfl
  · rfl
  · refine isHeavy_of_continuesWord ?_
    have hdigit : c.isDigit = true := h
    simp only [Number.isDecimal, Bool.and_eq_true, decide_eq_true_eq] at h
    have hhigh : c.toNat ≤ 57 := h.2
    rw [Scanner.continuesWord, if_pos (by omega)]
    simp [Char.isAlphanum, hdigit]

/-! ## Terminals and forms -/

/-- What is read for the terminal has a character that counts. -/
def Terminal.isHeavy : Terminal → Bool
  | name | number | character | string | stringHead | textBlock | blockHead => true
  | word text | mark text => text.toList.any Java.isHeavy
  | _ => false

theorem Terminal.Allows.weight_pos {t : Terminal} {text : String} (h : t.Allows text)
    (ht : t.isHeavy = true) (htext : text ≠ "") : 0 < weight text.toList := by
  have hhead : ∃ c ∈ text.toList, text.toList.head? = some c := by
    cases hcs : text.toList with
    | nil => exact absurd (String.toList_eq_nil_iff.1 hcs) htext
    | cons c cs => exact ⟨c, .head _, rfl⟩
  obtain ⟨c, hc, hfirst⟩ := hhead
  rw [weight_pos_iff]
  cases t with
  | name => exact ⟨c, hc, isHeavy_of_continuesWord (h.2 c hc)⟩
  | number | character | string | stringHead | textBlock | blockHead =>
    exact ⟨c, hc, isHeavy_of_startsLiteral (h c hfirst)⟩
  | word w =>
    obtain rfl : text = w := h
    exact List.any_eq_true.1 ht
  | mark m =>
    obtain rfl : text = m := h.resolve_right fun h => htext h.1
    exact List.any_eq_true.1 ht
  | _ => cases ht

namespace Form

/-- The form cannot do without a token of certain terminals. The rules are taken to need one, too. -/
def needs (terminals : Terminal → Bool) (rules : List Rule) : Form → Bool
  | nothing => false
  | token t => terminals t
  | rule r => rules.contains r
  | seq f g => f.needs terminals rules || g.needs terminals rules
  | alt f g => f.needs terminals rules && g.needs terminals rules
  | repeated f | as _ f | shown _ f | before _ f => f.needs terminals rules

/-- **What a form needs is there**, if nothing is missing. -/
theorem Yields.exists_token {terminals : Terminal → Bool} {rules : List Rule}
    (hrules : ∀ r ∈ rules, ∀ a ∈ (definition r).alternatives,
      a.form.needs terminals rules = true)
    {f : Form} {given role : Option Role} {kind : Option Kind} {ns : List Node}
    (h : f.Yields given role kind ns) (hf : f.needs terminals rules = true)
    (hns : ∀ n ∈ ns, n.isIncomplete = false) :
    ∃ t token, terminals t = true ∧ t.Allows token.text ∧ token.text ≠ "" ∧
      token ∈ ns.flatMap Node.tokens := by
  induction h with
  | nothing => cases hf
  | @token _ _ _ t token allows =>
    obtain ⟨htext, -⟩ := Terminal.shownAs_of_complete (hns _ (.head _))
    exact ⟨t, token, hf, allows, htext, by simp [Node.tokens_leaf]⟩
  | @node _ role r a k parts _ ha nodes ih =>
    have hparts : ∀ p ∈ parts, p.isIncomplete = false := by
      intro p hp
      have hheld : (Node.branch role k parts).Holds p := .single hp
      exact hheld.complete (hns _ (.head _))
    rw [needs, List.contains_iff_mem] at hf
    simpa [Node.tokens_branch] using ih (hrules r hf a ha) hparts
  | @group _ _ r a _ _ ha _ ih =>
    rw [needs, List.contains_iff_mem] at hf
    exact ih (hrules r hf a ha) hns
  | seq _ _ ihf ihg =>
    rw [List.forall_mem_append] at hns
    rw [needs, Bool.or_eq_true] at hf
    simp only [List.flatMap_append, List.mem_append]
    rcases hf with hf | hf
    · obtain ⟨t, token, ht, hallows, htext, hmem⟩ := ihf hf hns.1
      exact ⟨t, token, ht, hallows, htext, .inl hmem⟩
    · obtain ⟨t, token, ht, hallows, htext, hmem⟩ := ihg hf hns.2
      exact ⟨t, token, ht, hallows, htext, .inr hmem⟩
  | left _ ih =>
    rw [needs, Bool.and_eq_true] at hf
    exact ih hf.1 hns
  | right _ ih =>
    rw [needs, Bool.and_eq_true] at hf
    exact ih hf.2 hns
  | again _ _ ihf _ =>
    rw [List.forall_mem_append] at hns
    obtain ⟨t, token, ht, hallows, htext, hmem⟩ := ihf hf hns.1
    refine ⟨t, token, ht, hallows, htext, ?_⟩
    rw [List.flatMap_append]
    exact List.mem_append_left _ hmem
  | once _ ih | as _ ih | shown _ ih | before _ ih => exact ih hf hns

end Form

/-- Rules whose phrases all have a character that counts. -/
def heavyRules : List Rule :=
  [.expression, .assignmentExpression, .binaryExpression, .instanceofExpression,
    .lambdaExpression, .ternaryExpression, .updateExpression, .primaryExpression,
    .unaryExpression, .castExpression, .switchExpression, .literal, .stringLiteral, .classLiteral,
    .reservedIdentifier, .parenthesizedExpression, .objectCreationExpression, .fieldAccess,
    .arrayAccess, .methodInvocation, .methodReference, .arrayCreationExpression,
    .templateExpression, .unqualifiedCreation, .annotationUse, .annotationMarker,
    .annotationWithArguments, .typeArguments]

namespace Form

/-- What the form yields has a character that counts. -/
def isHeavy : Form → Bool
  | token t => t.isHeavy
  | rule r => heavyRules.contains r
  | seq f g => f.isHeavy || g.isHeavy
  | alt f g => f.isHeavy && g.isHeavy
  | repeated f | as _ f | shown _ f | before _ f => f.isHeavy
  | nothing => false

theorem isHeavy_of_mem_heavyRules {r : Rule} (hr : r ∈ heavyRules) {a : Alternative}
    (ha : a ∈ (definition r).alternatives) : a.form.isHeavy = true := by
  have h : heavyRules.all (fun r => (definition r).alternatives.all fun a => a.form.isHeavy) =
      true := by
    decide +kernel
  exact List.all_eq_true.1 (List.all_eq_true.1 h r hr) a ha

theorem isHeavy_eq_needs (f : Form) : f.isHeavy = f.needs Terminal.isHeavy heavyRules := by
  induction f with
  | nothing | token | rule => rfl
  | seq f g ihf ihg | alt f g ihf ihg => rw [isHeavy, needs, ihf, ihg]
  | repeated f ih | as _ f ih | shown _ f ih | before _ f ih => exact ih

theorem Yields.weight_pos {f : Form} {given role : Option Role} {kind : Option Kind} {ns : List Node}
    (h : f.Yields given role kind ns) (hf : f.isHeavy = true)
    (hns : ∀ n ∈ ns, n.isIncomplete = false) : 0 < weight (ns.flatMap Node.inSource) := by
  have hrules : ∀ r ∈ heavyRules, ∀ a ∈ (definition r).alternatives,
      a.form.needs Terminal.isHeavy heavyRules = true := by
    intro r hr a ha
    rw [← isHeavy_eq_needs]
    exact isHeavy_of_mem_heavyRules hr ha
  rw [isHeavy_eq_needs] at hf
  obtain ⟨t, token, ht, hallows, htext, htoken⟩ := h.exists_token hrules hf hns
  obtain ⟨c, hc, hheavy⟩ := weight_pos_iff.1 (hallows.weight_pos ht htext)
  obtain ⟨n, hn, htoken⟩ := List.mem_flatMap.1 htoken
  have hblank : isBlank c = false := by
    simp only [Java.isHeavy, Bool.and_eq_true, Bool.not_eq_true'] at hheavy
    exact hheavy.1.1
  have hmem : c ∈ compactChars token.text.toList := List.mem_filter.2 ⟨hc, by simp [hblank]⟩
  refine weight_pos_iff.2 ⟨c, List.mem_flatMap.2 ⟨n, hn, ?_⟩, hheavy⟩
  exact List.mem_flatMap.2 ⟨token, htoken, hmem⟩

end Form
end CallOrigins.Java
