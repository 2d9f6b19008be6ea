import CallOrigins.Proofs.Java.Constructors
import CallOrigins.Proofs.Java.Omissions
import CallOrigins.Proofs.Java.TextExport
import CallOrigins.Proofs.Search.Cancellation
import CallOrigins.Proofs.Search.Reordering

/-!
# Placeholders

Where the arguments of a call could not be read, a row has a placeholder in their place. It stands in
the same list as arguments do, so it must not be mistaken for one.

All placeholders are hyphenated words, and no argument is shown as such a word. Most expressions are
shown with a blank, a point or a bracket between their parts: `no-source` in a source is a
subtraction, which is shown as `no - source`. A sign before an operand comes first, and one behind it
comes last. What is shown as it is written is a name, and has no hyphen, or a literal, and does not
start with a letter, or has a point or a bracket in it. All this is read off the forms of the grammar.

**The law** (`Index.failure?_of_finished`): in every row of a report on an index of sources, a failure
is told exactly if the arguments of the row's call could not be read for this reason, and otherwise
the arguments are those that were read. The same holds of all files whose trees follow the grammar
(`SourceFile.IsGrammatical`), whatever they were read by.
-/

namespace CallOrigins.Java

open Grammar Text

/-! ## Hyphenated words -/

/-- A word that has hyphens in it, but not at its ends. -/
structure IsHyphenated (s : String) : Prop where
  only : Only (fun c => Scanner.continuesWord c = true ∨ c = '-') s
  hyphen : '-' ∈ s.toList
  first : s.toList.head?.any Scanner.startsWord = true
  last : s.toList.getLast?.any Scanner.continuesWord = true

theorem isHyphenated_placeholder (e : ExtractionFailure) : IsHyphenated e.placeholder := by
  cases e <;> exact ⟨by decide, by decide, by decide, by decide⟩

/-- A character that is in no hyphenated word. -/
def isTelling (c : Char) : Bool :=
  !Scanner.continuesWord c && c != '-'

theorem not_isHyphenated_of_isTelling {s : String} {c : Char} (hc : c ∈ s.toList)
    (htelling : isTelling c = true) : ¬ IsHyphenated s := by
  intro h
  simp only [isTelling, Bool.and_eq_true, Bool.not_eq_true', bne_iff_ne] at htelling
  rcases h.only c hc with hword | hhyphen
  · rw [htelling.1] at hword
    cases hword
  · exact htelling.2 hhyphen

theorem Lettered.not_isHyphenated {s : String} (h : Lettered s) : ¬ IsHyphenated s :=
  fun hs => h.not_mem (c := '-') rfl hs.hyphen

theorem Terminal.startsWord_of_startsLiteral {c : Char} (h : startsLiteral c = true) :
    Scanner.startsWord c = false := by
  simp only [startsLiteral, Bool.or_eq_true, decide_eq_true_eq] at h
  rcases h with ((rfl | rfl) | rfl) | h
  · rfl
  · rfl
  · rfl
  · obtain ⟨n, hn, rfl⟩ : ∃ n ∈ List.range' 48 10, c = Char.ofNat n := by
      simp only [Number.isDecimal, Bool.and_eq_true, decide_eq_true_eq] at h
      exact ⟨c.toNat, List.mem_range'_1.2 ⟨h.1, Nat.lt_succ_of_le h.2⟩, (Char.ofNat_toNat c).symm⟩
    have hdigits : ∀ n ∈ List.range' 48 10, Scanner.startsWord (Char.ofNat n) = false := by decide
    exact hdigits n hn

theorem not_isHyphenated_of_startsLiteral {s : String}
    (h : ∀ c ∈ s.toList.head?, Terminal.startsLiteral c = true) : ¬ IsHyphenated s := by
  intro hs
  obtain ⟨c, hc, hword⟩ := (Option.any_eq_true ..).1 hs.first
  rw [Terminal.startsWord_of_startsLiteral (h c hc)] at hword
  cases hword

/-! ## Expressions -/

namespace Expr

/-- The operators that stand before an operand. -/
def prefixOperators : List String := ["+", "-", "!", "~", "++", "--"]

/-- The operators that stand behind an operand. -/
def postfixOperators : List String := ["++", "--"]

theorem not_isHyphenated_prefixed {op : String} (hop : op ∈ prefixOperators) (operand : Expr) :
    ¬ IsHyphenated (prefixed op operand).render := by
  intro h
  have hfirst := h.first
  simp only [prefixOperators, List.mem_cons, List.not_mem_nil, or_false] at hop
  rcases hop with rfl | rfl | rfl | rfl | rfl | rfl <;> simp [render] at hfirst <;> cases hfirst

theorem not_isHyphenated_postfixed {op : String} (hop : op ∈ postfixOperators) (operand : Expr) :
    ¬ IsHyphenated (postfixed operand op).render := by
  intro h
  have hlast := h.last
  simp only [postfixOperators, List.mem_cons, List.not_mem_nil, or_false] at hop
  rcases hop with rfl | rfl <;> simp [render] at hlast <;> cases hlast

/-- Expressions that are shown with something between or around their parts. -/
def isJoined : Expr → Bool
  | literal _ | name _ | classLiteral _ | other _ | prefixed .. | postfixed .. => false
  | _ => true

/-- **What is between the parts of an expression** is no letter and no hyphen. -/
theorem exists_isTelling {e : Expr} (h : e.isJoined = true) :
    ∃ c ∈ e.render.toList, isTelling c = true := by
  cases e with
  | call | creation | cast | paren => exact ⟨'(', by simp [render], rfl⟩
  | newArray | lambda | instanceOf | assign | binary | conditional =>
    exact ⟨' ', by simp [render], rfl⟩
  | arrayInit => exact ⟨'\x7b', by simp [render, initializerText], rfl⟩
  | field => exact ⟨'.', by simp [render], rfl⟩
  | index => exact ⟨'[', by simp [render], rfl⟩
  | methodRef => exact ⟨':', by simp [render], rfl⟩
  | _ => cases h

example : (binary (name "no") "-" (name "source")).render = "no - source" := by
  rfl

end Expr

/-- The kinds of nodes whose expressions are shown so. -/
def Kind.isJoined : Kind → Bool
  | .methodInvocation | .objectCreationExpression | .arrayCreationExpression | .fieldAccess
  | .arrayAccess | .castExpression | .parenthesizedExpression | .lambdaExpression
  | .methodReference | .instanceofExpression | .ternaryExpression | .assignmentExpression
  | .binaryExpression => true
  | _ => false

theorem Lifted.isJoined_compose {n : Node} (parts : List Lifted) (h : n.kind.isJoined = true) :
    (compose n parts).isJoined = true := by
  unfold compose
  revert h
  generalize n.kind = k
  intro h
  cases k <;> first | rfl | cases h

/-- The kinds of nodes whose text is shown as it is. -/
def Kind.isText : Kind → Bool
  | .literal | .stringLiteral | .identifier | .thisWord => true
  | _ => false

/-! ## Texts of nodes -/

theorem mem_collapse {s : String} {c : Char} (hc : c ∈ s.toList) (hblank : isBlank c = false) :
    c ∈ (collapse s).toList := by
  have hcompact : c ∈ compactChars (collapse s).toList := by
    rw [compactChars_collapse]
    exact List.mem_filter.2 ⟨hc, by simp [hblank]⟩
  exact List.mem_of_mem_filter hcompact

namespace Node

/-- The characters of a token are in the text of every node around it. -/
theorem mem_text {n : Node} {t : Token} (ht : t ∈ n.tokens) {c : Char} (hc : c ∈ t.text.toList) :
    c ∈ n.text.toList := by
  rw [text]
  cases hts : n.tokens with
  | nil =>
    rw [hts] at ht
    cases ht
  | cons u us =>
    rw [hts] at ht
    rw [textOf, String.toList_append, List.mem_append]
    rcases List.mem_cons.1 ht with rfl | ht
    · exact .inl hc
    · rw [String.toList_join, List.mem_flatMap]
      exact .inr ⟨t.gap ++ t.text, List.mem_map_of_mem ht, by simp [hc]⟩

/-- A text starts with its first token. -/
theorem head?_text {role r : Option Role} {k k' : Kind} {t : Token} {parts : List Node}
    (ht : t.text ≠ "") :
    (branch role k (leaf r k' t :: parts)).text.toList.head? = t.text.toList.head? := by
  rw [text, tokens_branch, List.flatMap_cons, tokens_leaf, List.singleton_append, textOf,
    String.toList_append, List.head?_append]
  cases hcs : t.text.toList with
  | nil => exact absurd (String.toList_eq_nil_iff.1 hcs) ht
  | cons c cs => rfl

theorem render_ofNode_of_isText {n : Node} (h : n.kind.isText = true) :
    (Expr.ofNode n).render = n.text := by
  rw [ofNode_eq, Lifted.compose]
  revert h
  generalize n.kind = k
  intro h
  cases k <;> first | rfl | cases h

/-! ## Phrases -/

variable {n : Node} {r : Rule}

/-- **A sign before an operand** comes first. -/
theorem IsPhrase.exists_prefixed (h : n.IsPhrase .unaryExpression) (hn : n.isIncomplete = false) :
    ∃ op ∈ Expr.prefixOperators, ∃ operand, Expr.ofNode n = .prefixed op operand := by
  obtain ⟨ps, hps, hfits⟩ := h.exists_layout hn
  obtain ⟨m, operator, operand, hm, hoperator, -, hparts⟩ := exists_unary hps hfits
  refine ⟨m, List.mem_append_left ["++", "--"] hm, ?_⟩
  have htext : Lifted.textAs (n.parts.map Lifted.ofNode) .operator = m := by
    rw [Lifted.textAs, child?_map, hparts, partAs_cons, if_pos hoperator.role_eq]
    simp [Lifted.node_ofNode, hoperator.text_eq, Terminal.text]
  rw [ofNode_eq, Lifted.compose, h.kind_eq rfl]
  exact ⟨_, congrArg (Expr.prefixed · _) htext⟩

/-- **An increment or decrement** begins or ends with its operator. -/
theorem IsPhrase.exists_update_operator (h : n.IsPhrase .updateExpression)
    (hn : n.isIncomplete = false) :
    ∃ op ∈ Expr.postfixOperators, ∃ operand,
      Expr.ofNode n = .prefixed op operand ∨ Expr.ofNode n = .postfixed operand op := by
  obtain ⟨ps, hps, hfits⟩ := h.exists_layout hn
  obtain ⟨m, op, operand, hm, hop, hoperand, hparts⟩ := exists_update hps hfits
  refine ⟨m, by simpa [Expr.postfixOperators] using hm,
    Lifted.firstNamed (n.parts.map Lifted.ofNode), ?_⟩
  have hupdate : Expr.ofNode n = Lifted.update (n.parts.map Lifted.ofNode) := by
    rw [ofNode_eq, Lifted.compose, h.kind_eq rfl]
  rw [hupdate]
  rcases hparts with hparts | hparts
  · right
    simp [Lifted.update, Lifted.lastText, hparts, hoperand.kind_ne_symbol, Lifted.node_ofNode,
      hop.text_eq, Terminal.text]
  · left
    have hkind : op.kind = .symbol := hop.kind_eq
    simp [Lifted.update, hparts, hkind, hm, Lifted.node_ofNode, hop.text_eq, Terminal.text]

/-- A string starts with a quote. -/
theorem IsPhrase.startsLiteral_head?_text (h : n.IsPhrase .stringLiteral)
    (hn : n.isIncomplete = false) :
    ∀ c ∈ n.text.toList.head?, Terminal.startsLiteral c = true := by
  have hleaf {t : Terminal} {front back : List Node} (hfront : (Form.token t).Builds none front)
      (hparts : n.parts = front ++ back) (hkind : t.kind = .symbol)
      (hstarts : ∀ text, t.Allows text → ∀ c ∈ text.toList.head?, Terminal.startsLiteral c = true) :
      ∀ c ∈ n.text.toList.head?, Terminal.startsLiteral c = true := by
    obtain ⟨token, hallows, htext, rfl⟩ := (Form.builds_token (by simp [hkind])).1 hfront
    rw [h.branch, hparts, List.singleton_append, head?_text htext]
    exact hstarts _ hallows
  obtain ⟨a, ha, hbuilds⟩ := h.exists_builds hn
  cases List.mem_singleton.1 ha
  rcases Form.builds_alt.1 hbuilds with hbuilds | hbuilds
  · exact hleaf hbuilds (List.append_nil _).symm rfl fun _ h => h
  rcases Form.builds_alt.1 hbuilds with hbuilds | hbuilds
  · exact hleaf hbuilds (List.append_nil _).symm rfl fun _ h => h
  rcases Form.builds_alt.1 hbuilds with hbuilds | hbuilds
  · obtain ⟨front, hfront, back, -, hparts⟩ := Form.builds_seq.1 hbuilds
    exact hleaf hfront hparts rfl fun _ h => h
  · obtain ⟨front, hfront, back, -, hparts⟩ := Form.builds_seq.1 hbuilds
    exact hleaf hfront hparts rfl fun _ h => h

/-- Rules whose phrases all have a point or an opening bracket in them. -/
def punctuatedRules : List Rule :=
  [.classLiteral, .templateExpression, .switchExpression, .parenthesizedExpression]

theorem IsPhrase.exists_isTelling (h : n.IsPhrase r) (hr : r ∈ punctuatedRules)
    (hn : n.isIncomplete = false) :
    ∃ c ∈ (Lifted.collapsedText n).toList, isTelling c = true := by
  have hyields : (Form.rule r).Yields none n.role none [n] :=
    (Form.yields_node (by simp [h.kind])).2 ⟨rfl, n, rfl, rfl, h⟩
  obtain ⟨t, token, ht, hallows, htext, htoken⟩ :=
    @Form.Yields.exists_token (fun t => t == .mark "." || t == .mark "(") punctuatedRules (by decide)
      _ _ _ _ _ hyields (List.contains_iff_mem.2 hr) (List.forall_mem_singleton.2 hn)
  have hmark : ∃ c, token.text = String.singleton c ∧ isTelling c = true ∧ isBlank c = false := by
    simp only [Bool.or_eq_true, beq_iff_eq] at ht
    rcases ht with rfl | rfl
    · exact ⟨'.', hallows.resolve_right fun h => htext h.1, rfl, rfl⟩
    · exact ⟨'(', hallows.resolve_right fun h => htext h.1, rfl, rfl⟩
  obtain ⟨c, hc, htelling, hblank⟩ := hmark
  have hmem : c ∈ n.text.toList := by
    rw [List.flatMap_singleton] at htoken
    exact mem_text htoken (by simp [hc])
  exact ⟨c, mem_collapse hmem hblank, htelling⟩

/-- The rules of nodes that arguments are. -/
def argumentRules : List Rule :=
  [.assignmentExpression, .binaryExpression, .instanceofExpression, .lambdaExpression,
    .ternaryExpression, .updateExpression, .unaryExpression, .castExpression, .switchExpression,
    .stringLiteral, .classLiteral, .parenthesizedExpression, .objectCreationExpression, .fieldAccess,
    .arrayAccess, .methodInvocation, .methodReference, .arrayCreationExpression, .templateExpression]

/-- **No phrase is shown as a hyphenated word.** -/
theorem IsPhrase.not_isHyphenated (h : n.IsPhrase r) (hr : r ∈ argumentRules)
    (hn : n.isIncomplete = false) : ¬ IsHyphenated (Expr.ofNode n).render := by
  have hrules : ∀ r ∈ argumentRules, r = .unaryExpression ∨ r = .updateExpression ∨
      r = .stringLiteral ∨ (definition r).kind.any Kind.isJoined = true ∨
      r ∈ [.classLiteral, .templateExpression, .switchExpression] := by
    decide
  -- an operator stands at an end, a string starts with a quote, and the rest has a telling character
  rcases hrules r hr with rfl | rfl | rfl | hjoined | hverbatim
  · obtain ⟨op, hop, operand, hexpr⟩ := h.exists_prefixed hn
    rw [hexpr]
    exact Expr.not_isHyphenated_prefixed hop operand
  · obtain ⟨op, hop, operand, hexpr | hexpr⟩ := h.exists_update_operator hn
    · rw [hexpr]
      exact Expr.not_isHyphenated_prefixed (List.mem_append_right ["+", "-", "!", "~"] hop) operand
    · rw [hexpr]
      exact Expr.not_isHyphenated_postfixed hop operand
  · rw [render_ofNode_of_isText (by rw [h.kind_eq rfl]; rfl)]
    exact not_isHyphenated_of_startsLiteral (h.startsLiteral_head?_text hn)
  · rw [h.kind, Option.any_some] at hjoined
    have hexpr := Lifted.isJoined_compose (n.parts.map Lifted.ofNode) hjoined
    rw [← ofNode_eq] at hexpr
    obtain ⟨c, hc, htelling⟩ := Expr.exists_isTelling hexpr
    exact not_isHyphenated_of_isTelling hc htelling
  · obtain ⟨c, hc, htelling⟩ := h.exists_isTelling (List.mem_append_left [_] hverbatim) hn
    have htext : (Expr.ofNode n).render = Lifted.collapsedText n := by
      simp only [List.mem_cons, List.not_mem_nil, or_false] at hverbatim
      rcases hverbatim with rfl | rfl | rfl <;> rw [ofNode_eq, Lifted.compose, h.kind_eq rfl] <;> rfl
    rw [htext]
    exact not_isHyphenated_of_isTelling hc htelling

end Node

/-! ## Arguments -/

/-- The groups of what arguments are. -/
def argumentGroups : List Rule :=
  [.expression, .primaryExpression, .literal, .reservedIdentifier]

/-- Numbers and characters. -/
def Terminal.isQuantity : Terminal → Bool
  | number | character => true
  | _ => false

theorem Terminal.Allows.not_isHyphenated {t : Terminal} {text : String} (h : t.Allows text)
    (ht : t.isLettered = true ∨ t.isQuantity = true) : ¬ IsHyphenated text := by
  rcases ht with ht | ht
  · exact (h.lettered ht).not_isHyphenated
  · cases t with
    | number | character => exact not_isHyphenated_of_startsLiteral h
    | _ => cases ht

namespace Form

/-- What the form yields are symbols, phrases and words that arguments are, where they are shown as a
kind. -/
def isArgument (kind : Option Kind) : Form → Bool
  | nothing => true
  | token t =>
    kind.getD t.kind = .symbol || (kind.getD t.kind).isText && (t.isLettered || t.isQuantity)
  | rule r => (Node.argumentRules ++ argumentGroups).contains r
  | seq f g | alt f g => f.isArgument kind && g.isArgument kind
  | repeated f | as _ f | before _ f => f.isArgument kind
  | shown k f => f.isArgument (some k)

/-- **No argument is shown as a hyphenated word.** -/
theorem Yields.not_isHyphenated {f : Form} {given role : Option Role} {kind : Option Kind}
    {ns : List Node} (h : f.Yields given role kind ns) (hf : f.isArgument kind = true)
    (hns : ∀ n ∈ ns, n.isIncomplete = false) :
    ∀ n ∈ ns, n.isNamed = true → ¬ IsHyphenated (Expr.ofNode n).render := by
  induction h with
  | nothing => exact fun _ hn => absurd hn List.not_mem_nil
  | @token _ role kind t token allows =>
    refine List.forall_mem_singleton.2 fun hnamed => ?_
    obtain ⟨-, hshown⟩ := Terminal.shownAs_of_complete (hns _ (.head _))
    rw [isArgument, Bool.or_eq_true, Bool.and_eq_true, Bool.or_eq_true, decide_eq_true_eq,
      ← hshown] at hf
    -- a bracket or a comma is no argument
    rcases hf with hsymbol | ⟨htext, ht⟩
    · simp [Node.isNamed, Node.kind, hsymbol] at hnamed
    · have hleaf : (Node.leaf role (t.shownAs kind token.text) token).kind.isText = true := htext
      rw [Node.render_ofNode_of_isText hleaf, Node.text_leaf]
      exact allows.not_isHyphenated ht
  | @node _ role r a k parts hk ha nodes _ =>
    have hphrase : (Node.branch role k parts).IsPhrase r := ⟨hk, rfl, a, ha, nodes⟩
    have hgroups : ∀ r ∈ argumentGroups, (definition r).kind = none := by decide
    refine List.forall_mem_singleton.2 fun _ => hphrase.not_isHyphenated ?_ (hns _ (.head _))
    rw [isArgument, List.contains_iff_mem, List.mem_append] at hf
    refine hf.resolve_right fun hr => ?_
    rw [hgroups r hr] at hk
    cases hk
  | @group _ _ r a _ hk ha _ ih =>
    have hrules : ∀ r ∈ Node.argumentRules, (definition r).kind ≠ none := by decide
    have hgroups : ∀ r ∈ argumentGroups, ∀ f ∈ (definition r).alternatives.map Alternative.form,
        f.isArgument none = true := by decide
    rw [isArgument, List.contains_iff_mem, List.mem_append] at hf
    have hr : r ∈ argumentGroups := hf.resolve_left fun hr => hrules r hr hk
    exact ih (hgroups r hr a.form (List.mem_map_of_mem ha)) hns
  | seq _ _ ihf ihg =>
    rw [isArgument, Bool.and_eq_true] at hf
    rw [List.forall_mem_append] at hns ⊢
    exact ⟨ihf hf.1 hns.1, ihg hf.2 hns.2⟩
  | left _ ih =>
    rw [isArgument, Bool.and_eq_true] at hf
    exact ih hf.1 hns
  | right _ ih =>
    rw [isArgument, Bool.and_eq_true] at hf
    exact ih hf.2 hns
  | again _ _ ihf ihg =>
    rw [List.forall_mem_append] at hns ⊢
    exact ⟨ihf hf hns.1, ihg hf hns.2⟩
  | once _ ih | as _ ih | shown _ ih | before _ ih => exact ih hf hns

end Form

namespace Node

/-- **What stands in a list of arguments** is not shown as a hyphenated word. -/
theorem IsPhrase.not_isHyphenated_children {list : Node} (h : list.IsPhrase .argumentList)
    (hlist : list.isIncomplete = false) :
    ∀ p ∈ list.children, ¬ IsHyphenated (Expr.ofNode p).render := by
  intro p hp
  obtain ⟨hp, hnamed⟩ := List.mem_filter.1 hp
  obtain ⟨a, ha, hyields, hcomplete⟩ := h.exists_builds hlist
  cases List.mem_singleton.1 ha
  exact hyields.not_isHyphenated (by decide) hcomplete p hp hnamed

/-- The groups that calls are made of. -/
def callGroups : List Rule :=
  [.unqualifiedCreation, .primaryExpression, .literal, .type, .unannotatedType, .reservedIdentifier,
    .annotationUse]

/-- **The arguments of a call** are a list of arguments. -/
theorem IsPhrase.arguments {call list : Node} {r : Rule} (h : call.IsPhrase r)
    (hcall : call.kind.isCall = true) (hlist : call.child? .arguments = some list) :
    list.IsPhrase .argumentList := by
  have hrules : ∀ r ∈ [Rule.methodInvocation, .objectCreationExpression,
      .explicitConstructorInvocation, .methodReference],
      ∀ f ∈ (definition r).alternatives.map Alternative.form,
        f.keeps .arguments (· == .rule .argumentList) callGroups = true := by
    decide
  have hr := mem_of_isCall (by rw [h.kind, Option.any_some, hcall])
  obtain ⟨a, ha, hyields⟩ := h.parts
  have hrole : list.role = some .arguments := by simpa using List.find?_some hlist
  refine hyields.of_role (P := fun n => n.IsPhrase .argumentList) (by decide) ?_
    (hrules r hr a.form (List.mem_map_of_mem ha)) rfl rfl list (List.mem_of_find?_eq_some hlist) hrole
  intro f kind ns hns hf
  obtain rfl := beq_iff_eq.1 hf
  obtain ⟨-, n, rfl, -, hphrase⟩ := (Form.yields_node rfl).1 hns
  exact List.forall_mem_singleton.2 hphrase

end Node

/-- **A file whose tree follows the grammar**, and whose outline is that of the tree. -/
structure SourceFile.IsGrammatical (f : SourceFile) : Prop where
  read : f.IsRead
  expressions : f.tree.FollowsGrammar
  /-- Calls of other constructors are no expressions, but have arguments. -/
  constructorCalls : ∀ call, f.tree.Holds call → call.kind = .explicitConstructorInvocation →
    call.isIncomplete = false → ∀ list, call.child? .arguments = some list →
      list.kind = .argumentList

namespace SourceFile

theorem isGrammatical_read (s : Source) : (read s).IsGrammatical where
  read := isRead_read s
  expressions := followsGrammar_parse s.content
  constructorCalls call hcall hkind hcomplete list hlist := by
    rcases isPhrase_of_parse s.content call hcall hcomplete with
      ⟨role, k, token, rfl, htoken⟩ | ⟨r, hphrase⟩
    · cases hlist
    · exact (hphrase.arguments (by rw [hkind]; rfl) hlist).kind_eq rfl

theorem IsGrammatical.isPhrase_arguments {f : SourceFile} (h : f.IsGrammatical) {call list : Node}
    (hcall : f.tree.Holds call) (hkind : call.kind.isCall = true)
    (hcomplete : call.isIncomplete = false) (hlist : call.child? .arguments = some list) :
    list.IsPhrase .argumentList := by
  by_cases hexplicit : call.kind = .explicitConstructorInvocation
  · -- the list is taken apart, whatever the call is
    have hlistKind := h.constructorCalls call hcall hexplicit hcomplete list hlist
    have hheld : call.Holds list := .single (List.mem_of_find?_eq_some hlist)
    obtain ⟨r, hphrase⟩ := h.expressions.phrases list (hcall.trans hheld) (hheld.complete hcomplete)
      (hlistKind ▸ rfl)
    exact hphrase.of_argumentList hlistKind
  · have hapart : call.kind.isTakenApart = true := by
      revert hkind hexplicit
      generalize call.kind = k
      intro hkind hexplicit
      cases k <;> first | rfl | exact absurd rfl hexplicit | cases hkind
    obtain ⟨r, hphrase⟩ := h.expressions.phrases call hcall hcomplete hapart
    exact hphrase.arguments hkind hlist

end SourceFile

namespace Index

/-- **What is read as the arguments of a call** has no hyphenated word in it. -/
theorem not_isHyphenated_arguments {ix : Index} (hix : ∀ f ∈ ix.files, f.IsGrammatical)
    {caller target : MethodId} {offset length : Nat} {texts : List String}
    (h : ix.arguments caller target offset length = .ok texts) : ∀ a ∈ texts, ¬ IsHyphenated a := by
  rw [arguments] at h
  cases hlist : ix.argumentList caller target offset length with
  | error e =>
    rw [hlist] at h
    cases h
  | ok list =>
    rw [hlist] at h
    cases h
    obtain ⟨f, hf, call, hcall, hkind, herror, hargs⟩ := holds_of_argumentList hlist
    have hcomplete : call.isIncomplete = false := (Bool.or_eq_false_iff.1 herror).1
    have hheld : call.Holds list := .single (List.mem_of_find?_eq_some hargs)
    have hphrase := (hix f hf).isPhrase_arguments hcall hkind hcomplete hargs
    rw [renderArguments, Expr.ofArguments, List.map_map, List.forall_mem_map]
    exact hphrase.not_isHyphenated_children (hheld.complete hcomplete)

end Index

/-! ## Rows -/

theorem failure?_of_placeholder {r : Row} {e : ExtractionFailure}
    (h : r.arguments = [e.placeholder]) : r.failure? = some e := by
  rw [Row.failure?, h]
  cases e <;> decide

theorem failure?_of_not_isHyphenated {r : Row} (h : ∀ a ∈ r.arguments, ¬ IsHyphenated a) :
    r.failure? = none := by
  unfold Row.failure?
  split
  next only hargs =>
    rw [hargs, List.forall_mem_singleton] at h
    refine List.find?_eq_none.2 fun e _ heq => h ?_
    rw [← beq_iff_eq.1 heq]
    exact isHyphenated_placeholder e
  next => rfl

/-- **What a row tells of a call**, if no argument that was read is a hyphenated word. -/
theorem failure?_of_shownArguments {r : Row} {outcome : Except ExtractionFailure (List String)}
    (hr : r.arguments = Traversal.shownArguments outcome)
    (htexts : ∀ texts, outcome = .ok texts → ∀ a ∈ texts, ¬ IsHyphenated a) :
    (∀ e, r.failure? = some e ↔ outcome = .error e) ∧
      (r.failure? = none → outcome = .ok r.arguments) := by
  cases outcome with
  | error e =>
    rw [failure?_of_placeholder hr]
    simp
  | ok texts =>
    have hargs : r.arguments = texts := hr
    rw [failure?_of_not_isHyphenated (hargs ▸ htexts texts rfl), hargs]
    simp

namespace Index

variable {ix : Index} {target : MethodId} {report : Report}

/-- A search that is interrupted answers nothing that would end the whole search. -/
theorem ofInterrupted_codebase (m : MethodId) :
    Script.ofInterrupted (ix.codebase.interrupted m) = (.cancelled : CallOrigins.Outcome Report) := by
  show Script.ofInterrupted (ix.references (fun _ => true) m) = _
  unfold references
  split <;> rfl

/-- **A finished search reports complete findings**, whenever cancellation may be requested. -/
theorem exists_complete_of_finished {moment : CancelMoment} (sticky : moment.Sticky)
    (h : (ix.codebase.search moment target).outcome = .finished report) :
    ∃ f : Findings, report = f.reported ∧ f.Complete ix.codebase target := by
  have hnever : (ix.codebase.search .never target).outcome = .finished report := by
    rcases (Script.run_cancelled_or_never sticky ofInterrupted_codebase
      (Search.script_watched ix.codebase.callers.length target) {}).1 with hcancelled | hsame
    · cases h.symm.trans hcancelled
    · exact hsame.symm.trans h
  have present : ix.codebase.isPresent target = true := by
    by_contra habsent
    rw [Codebase.search_of_not_present (by simpa using habsent)] at hnever
    cases hnever
  have harmless := List.findSome?_eq_none_iff.2 fun m
    (_ : m ∈ ix.codebase.breadthFirst target) => ix.fatal?_codebase m
  obtain ⟨f, hcomplete, heval⟩ := Search.eval_script_of_none present harmless
  rw [Codebase.search_never_outcome, heval] at hnever
  cases hnever
  exact ⟨f, rfl, hcomplete⟩

/-- **A failure is told from arguments.** The search for a method of the index ends with a report,
and so may one that can be cancelled. The rows of a report are those of the call sites in turn, and
each call site has one. In each of its rows a failure is told exactly if the arguments of the call
site could not be read for this reason, and if none is told, the arguments are those that were
read. -/
def TellsFailures (ix : Index) : Prop :=
  ∀ target,
    (target ∈ ix.identifiers → ∃ report,
      (ix.codebase.search .never target).outcome = .finished report) ∧
    ∀ (moment : CancelMoment) (report : Report), moment.Sticky →
      (ix.codebase.search moment target).outcome = .finished report →
      ∃ rowsOf : MethodId × Reference → List Row,
        report.rows = (ix.codebase.callSites target).flatMap rowsOf ∧
        ∀ site ∈ ix.codebase.callSites target, rowsOf site ≠ [] ∧
          ∀ r ∈ rowsOf site, r.directCaller = site.1 ∧
            (∀ e, r.failure? = some e ↔
              ix.arguments site.1 target site.2.offset site.2.length = .error e) ∧
            (r.failure? = none →
              ix.arguments site.1 target site.2.offset site.2.length = .ok r.arguments)

theorem tellsFailures_ofFiles {files : List SourceFile} (h : ∀ f ∈ files, f.IsGrammatical) :
    (ofFiles files).TellsFailures := by
  intro target
  constructor
  · intro htarget
    obtain ⟨f, houtcome, -⟩ := exists_report (fun f hf => (h f hf).read) htarget
    exact ⟨f.reported, houtcome⟩
  · intro moment report sticky hfinished
    obtain ⟨f, rfl, hcomplete⟩ := exists_complete_of_finished sticky hfinished
    refine ⟨_, hcomplete.rows_eq, fun site _ => ⟨?_, ?_⟩⟩
    · by_cases hnone : f.graph.origins site.1 = [] <;> simp [hnone]
    · refine List.forall_mem_map.2 fun origin _ => ⟨rfl, ?_⟩
      have hfiles : ∀ f ∈ (ofFiles files).files, f.IsGrammatical := by
        rw [files_ofFiles]
        exact fun f hf => h f (List.mem_toArray.1 hf)
      exact failure?_of_shownArguments rfl fun texts htexts =>
        not_isHyphenated_arguments hfiles htexts

/-- **Every index tells failures from arguments**, be it one of sources or of files whose trees
follow the grammar. -/
theorem failure?_of_finished :
    (∀ sources, (ofSources sources).TellsFailures) ∧
      ∀ files : List SourceFile, (∀ f ∈ files, f.IsGrammatical) → (ofFiles files).TellsFailures := by
  refine ⟨fun sources => tellsFailures_ofFiles ?_, fun files => tellsFailures_ofFiles⟩
  exact List.forall_mem_map.2 fun source _ => SourceFile.isGrammatical_read source

/-! ## A reference to a constructor -/

theorem isPhrase_noParameters (start : Nat) : (noParameters start).IsPhrase .formalParameters := by
  refine ⟨rfl, rfl, _, .head _, Form.yields_cons (Form.yields_mark (by decide)) ?_⟩
  refine @Form.Yields.seq _ _ _ _ _ [] _ (.right ?_) (Form.yields_mark (by decide))
  exact @Form.Yields.seq _ _ _ _ _ [] [] (.right .nothing) (.right .nothing)

/-- The reference in `heirTree`. -/
def heirNode : Node :=
  .branch (some .value) .methodReference [
    token none .identifier " " "Foo" 85,
    sign "" "::" 88,
    sign "" "new" 90]

theorem isPhrase_heirNode : heirNode.IsPhrase .methodReference := by
  refine ⟨rfl, rfl, _, .head _, Form.yields_cons (.right (.left ?_)) (Form.yields_cons ?_ ?_)⟩
  · exact .group rfl (.head _) <| .right <| .right <| .right <| .left <|
      Form.yields_name (by decide) (by decide)
  · exact Form.yields_mark (by decide)
  · refine @Form.Yields.seq _ _ _ _ _ [] _ (.right .nothing) (.left ?_)
    exact @Form.yields_leaf _ _ _ (.word "new") _ _ _ rfl (by decide)

theorem isGrammatical_heirFiles : ∀ f ∈ heirFiles, f.IsGrammatical := by
  have hphrases : ∀ f ∈ heirFiles, ∀ m, f.tree.Holds m → m.kind.isTakenApart = true →
      ∃ r, m.IsPhrase r := by
    simp only [heirFiles, fileOf, barTree, heirTree, braced, noParameters, sign, token,
      Node.forall_holds_branch, Node.forall_holds_leaf, List.cons_append, List.nil_append,
      List.forall_mem_cons, List.not_mem_nil, false_imp_iff, implies_true, and_true]
    repeat' apply And.intro
    all_goals first
      | (intro hkind; cases hkind; done)
      | exact fun _ => ⟨_, isPhrase_noParameters _⟩
      | exact fun _ => ⟨_, isPhrase_heirNode⟩
  have hkinds : ∀ f ∈ heirFiles, ∀ m, f.tree.Holds m →
      m.kind ≠ .argumentList ∧ m.kind ≠ .explicitConstructorInvocation := by
    decide +kernel
  exact fun f hf => ⟨isRead_heirFiles f hf, ⟨fun m hm _ => hphrases f hf m hm,
    fun m hm hkind => absurd hkind (hkinds f hf m hm).1⟩,
    fun call hcall hkind => absurd hkind (hkinds f hf call hcall).2⟩

/-- The one reference to a method makes a call site. -/
theorem mem_callSites_of_references {m c : MethodId} {r : Reference} (present : ix.isPresent m = true)
    (hrs : ix.references (fun _ => false) m = .ok [r]) (hexact : r.accuracy = .exact)
    (helement : r.element = some c) : (c, r) ∈ ix.codebase.callSites m := by
  have hsites : ix.codebase.sites [r] = [(c, r)] := by
    have hcaller : ix.codebase.callerAt? r = some c := by
      rw [Codebase.callerAt?, hexact]
      show ix.enclosing r = some c
      rw [enclosing, helement]
    simp [Codebase.sites, hcaller]
  rw [Codebase.callSites_eq_sites present hrs (by simp [hsites]), hsites]
  exact List.mem_singleton_self _

/-- A reference to a constructor has no arguments to be read, and its row says so. -/
theorem heirFiles_row :
    (∀ f ∈ heirFiles, f.IsGrammatical) ∧
    ∃ report, ((ofFiles heirFiles).codebase.search .never ⟨"Foo#Foo()"⟩).outcome =
        .finished report ∧
      ∃ r ∈ report.rows, r.directCaller = ⟨"Foo#f()"⟩ ∧
        r.failure? = some .argumentsUnavailable := by
  have hreferences : (ofFiles heirFiles).references (fun _ => false) ⟨"Foo#Foo()"⟩ =
      .ok [heirReference] := by
    have hsites : (searchNames ⟨"Foo#Foo()"⟩).flatMap (ofFiles heirFiles).sitesNamed = [⟨2, 0⟩] := by
      decide +kernel
    exact references_of_site (by decide +kernel) hsites (by decide +kernel)
  have hsite := mem_callSites_of_references (by decide +kernel) hreferences rfl
    (show heirReference.element = some ⟨"Foo#f()"⟩ from rfl)
  obtain ⟨hreport, hrows⟩ := failure?_of_finished.2 heirFiles isGrammatical_heirFiles ⟨"Foo#Foo()"⟩
  obtain ⟨report, hfinished⟩ := hreport (by decide +kernel)
  obtain ⟨rowsOf, hall, htold⟩ := hrows .never report ⟨fun _ _ h => h, fun _ h => h⟩ hfinished
  obtain ⟨hsome, htold⟩ := htold _ hsite
  obtain ⟨r, hr⟩ := List.exists_mem_of_ne_nil _ hsome
  refine ⟨isGrammatical_heirFiles, report, hfinished, r, ?_, (htold r hr).1,
    ((htold r hr).2.1 _).2 (by decide +kernel)⟩
  rw [hall]
  exact List.mem_flatMap.2 ⟨_, hsite, hr⟩

end Index
end CallOrigins.Java
