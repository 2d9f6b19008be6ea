import CallOrigins.Proofs.Java.Weights

/-!
# Shortening

What is shown of one phrase, given what is shown of its parts. A phrase **shortens** if a part of it
is left out silently (`Node.shortens`), and it **elides** if `...` is shown in its place
(`Node.elides`).

**The law** (`Node.IsAccounted`, one lemma for each rule): a phrase that does not elide either does
not shorten and shows its parts, one after another, or it shortens and weighs less than they do.
-/

namespace CallOrigins.Java

open Grammar Text

namespace Node

/-! ## Shortened and elided nodes -/

/-- **A node shortens**: a part of it is not shown, and nothing says so. -/
def shortens (n : Node) : Bool :=
  match n.kind with
  | .methodInvocation =>
    n.parts.any fun p => p.role = some .typeArguments || (p.role = none && p.kind = .superWord)
  | .fieldAccess => n.parts.any fun p => p.role = none && p.kind = .superWord
  | .objectCreationExpression =>
    n.children.any fun p => p.role ≠ some .type && p.role ≠ some .arguments && p.kind ≠ .classBody
  | .arrayCreationExpression => n.children.any fun p => p.role = none
  | .dimensionsExpr => 1 < n.children.length
  | .dimensions => !n.children.isEmpty
  | .argumentList | .arrayInitializer | .formalParameters | .inferredParameters =>
    n.parts.dropLast.getLast?.any fun p => p.kind = .symbol && p.text = ","
  | .castExpression => 1 < (n.childrenAs .type).length
  | .instanceofExpression => n.parts.any fun p => p.role = none && p.text = "final"
  | _ => false

/-- **A node elides** a part of itself, and `...` is shown instead. -/
def elides (n : Node) : Bool :=
  match n.kind with
  | .arrayInitializer => Expr.shownElements < n.children.length
  | .lambdaExpression => (n.child? .body).any fun b => b.kind = .block && 1 < b.children.length
  | .objectCreationExpression => n.parts.any fun p => p.kind = .classBody
  | _ => false

/-- All the parts of a node are shown. -/
def IsShownWhole (n : Node) : Prop :=
  n.inReport = n.parts.flatMap inReport

/-- Less is shown of a node than there is, if no more is shown of its parts. -/
def IsShownShort (n : Node) : Prop :=
  (∀ p ∈ n.parts, weight p.inReport ≤ weight p.inSource) → weight n.inReport < weight n.inSource

/-- What is shown of a node is told by whether it shortens. -/
def IsAccounted (n : Node) : Prop :=
  n.shortens = false ∧ n.IsShownWhole ∨ n.shortens = true ∧ n.IsShownShort

theorem weight_flatMap_le {ns : List Node} (h : ∀ p ∈ ns, weight p.inReport ≤ weight p.inSource) :
    weight (ns.flatMap inReport) ≤ weight (ns.flatMap inSource) := by
  induction ns with
  | nil => exact Nat.le_refl _
  | cons n ns ih =>
    rw [List.forall_mem_cons] at h
    simpa using Nat.add_le_add h.1 (ih h.2)

section

variable {role : Option Role} {k : Kind} {parts : List Node}

/-- No more is shown than some of the parts, which weigh less than all of them. -/
theorem isShownShort_of_kept {kept : List Node} (hkept : ∀ p ∈ kept, p ∈ parts)
    (hreport : weight (branch role k parts).inReport ≤ weight (kept.flatMap inReport))
    (hweight : weight (kept.flatMap inSource) < weight (parts.flatMap inSource)) :
    (branch role k parts).IsShownShort := by
  intro h
  rw [inSource_branch]
  calc weight (branch role k parts).inReport
    _ ≤ weight (kept.flatMap inReport) := hreport
    _ ≤ weight (kept.flatMap inSource) := weight_flatMap_le fun p hp => h p (hkept p hp)
    _ < weight (parts.flatMap inSource) := hweight

/-- Nodes that are left out: none, or some that weigh and by which it is told. -/
def AreLost (tells : Node → Bool) (ns : List Node) : Prop :=
  ns = [] ∨ 0 < weight (ns.flatMap inSource) ∧ ns.any tells = true

theorem AreLost.append {tells : Node → Bool} {ns ms : List Node} (hns : AreLost tells ns)
    (hms : AreLost tells ms) : AreLost tells (ns ++ ms) := by
  rcases hns with rfl | ⟨hweight, htells⟩
  · exact hms
  · refine .inr ⟨?_, by rw [List.any_append, htells, Bool.true_or]⟩
    rw [List.flatMap_append, weight_append]
    exact Nat.add_pos_left hweight _

/-- Some parts are shown, and the others are left out. -/
theorem isAccounted_of_kept {tells : Node → Bool} {kept lost : List Node} (hlost : AreLost tells lost)
    (hall : lost = [] → kept = parts) (hkept : ∀ p ∈ kept, p ∈ parts)
    (hweight : weight (parts.flatMap inSource) =
      weight (kept.flatMap inSource) + weight (lost.flatMap inSource))
    (hreport : (branch role k parts).inReport = kept.flatMap inReport)
    (hshortens : (branch role k parts).shortens = lost.any tells) :
    (branch role k parts).IsAccounted := by
  rcases hlost with rfl | ⟨hpos, htells⟩
  · obtain rfl := hall rfl
    exact .inl ⟨hshortens, hreport⟩
  · refine .inr ⟨hshortens.trans htells, isShownShort_of_kept hkept (by rw [hreport]) ?_⟩
    omega

/-- Nodes in the middle are left out. -/
theorem isAccounted_of_lost {tells : Node → Bool} {front lost back : List Node}
    (hlost : AreLost tells lost)
    (hreport : (branch role k (front ++ lost ++ back)).inReport = (front ++ back).flatMap inReport)
    (hshortens : (branch role k (front ++ lost ++ back)).shortens = lost.any tells) :
    (branch role k (front ++ lost ++ back)).IsAccounted := by
  refine isAccounted_of_kept hlost ?_ ?_ ?_ hreport hshortens
  · rintro rfl
    rw [List.append_nil]
  · intro p hp
    rcases List.mem_append.1 hp with hp | hp <;> simp [hp]
  · simp only [List.flatMap_append, weight_append]
    omega

end

/-! ## Calls and members -/

theorem IsPhrase.kind_eq {n : Node} {r : Rule} {k : Kind} (h : n.IsPhrase r)
    (hk : (definition r).kind = some k) : n.kind = k :=
  (Option.some.inj (hk.symm.trans h.kind)).symm

theorem IsPhrase.weight_pos {n : Node} {r : Rule} (h : n.IsPhrase r) (hn : n.isIncomplete = false)
    (hr : r ∈ heavyRules) : 0 < weight n.inSource := by
  obtain ⟨a, ha, hbuilds⟩ := h.exists_builds hn
  rw [h.branch, inSource_branch]
  exact hbuilds.1.weight_pos (Form.isHeavy_of_mem_heavyRules hr ha) hbuilds.2

theorem weight_pos_of_token {n : Node} {role : Option Role} {t : Terminal} (h : n.IsToken role t)
    (ht : t.text.toList.any isHeavy = true) : 0 < weight n.inSource := by
  rw [h.inSource_eq, weight_compactChars, weight_pos_iff]
  exact List.any_eq_true.1 ht

theorem isNamed_mark {n : Node} {role : Option Role} {m : String} (h : n.IsToken role (.mark m)) :
    n.isNamed = false := by
  simp [isNamed, h.kind_eq, Terminal.kind]

theorem isOf_identifier (role : Option Role) (token : Token) :
    (leaf role .identifier token).IsOf Kind.isVerbatim role :=
  ⟨rfl, rfl⟩

theorem inReport_argumentList {n : Node} (h : n.IsPhrase .argumentList) :
    n.inReport = '(' :: listed n.children ++ [')'] := by
  rw [inReport, h.kind_eq rfl]

section

variable {role : Option Role} {parts : List Node} {ps : List Piece}

/-- Between the object and the name of a call, only the point is shown. -/
theorem isAccounted_call {object dot name args : Node} {lost : List Node}
    (hobject : object.IsOf Kind.isItem (some .object)) (hdot : dot.IsToken none (.mark "."))
    (hname : name.IsOf Kind.isVerbatim (some .name)) (hargs : args.role = some .arguments)
    (hphrase : args.IsPhrase .argumentList)
    (hroles : ∀ p ∈ lost, p.role = none ∨ p.role = some .typeArguments)
    (hlost : AreLost (fun p => p.role = some .typeArguments || (p.role = none && p.kind = .superWord))
      lost) :
    (branch role .methodInvocation ([object, dot] ++ lost ++ [name, args])).IsAccounted := by
  have hnone : ∀ r : Role, r ≠ .typeArguments → partAs lost r = none := by
    refine fun r hr => partAs_eq_none fun p hp hrole => ?_
    rcases hroles p hp with h | h
    · simp [h] at hrole
    · exact hr (Option.some.inj (hrole.symm.trans h))
  apply isAccounted_of_lost hlost
  · rw [inReport_eq_printed (.inl rfl), printed_methodInvocation]
    simp [partAs_append, partAs_cons, hnone, hobject.role, hdot.role_eq, hname.role, hargs,
      hobject.inReport_eq, hdot.inReport_eq, hname.inReport_eq_written,
      inReport_argumentList hphrase, Terminal.text, compactChars_cons, isBlank]
  · simp [shortens, hobject.role, hdot.role_eq, hdot.kind_eq, hname.role, hargs, Terminal.kind]

theorem isAccounted_methodInvocation (hps : ps ∈ layouts .methodInvocation)
    (hfits : Piece.FitAll ps parts) : (branch role .methodInvocation parts).IsAccounted := by
  rcases List.mem_cons.1 hps with rfl | hps
  · obtain ⟨_, _, rfl, ⟨token, rfl⟩, _, _, rfl, ⟨args, ⟨hargs, hphrase, -⟩, rfl⟩, rfl⟩ := hfits
    have hname := isOf_identifier (some .name) token
    refine .inl ⟨by simp [shortens, hname.role, hargs], ?_⟩
    rw [IsShownWhole, inReport_eq_printed (.inl rfl), printed_methodInvocation]
    simp [partAs_cons, hname.role, hargs, hname.inReport_eq_written, inReport_argumentList hphrase]
  · cases List.mem_singleton.1 hps
    obtain ⟨_, _, rfl, ⟨object, hobject, rfl⟩, _, _, rfl, ⟨dot, hdot, rfl⟩, owner, _, rfl, howner,
      typeArgs, _, rfl, htypeArgs, _, _, rfl, ⟨token, rfl⟩, _, _, rfl,
      ⟨args, ⟨hargs, hphrase, -⟩, rfl⟩, rfl⟩ := hfits
    have hname := isOf_identifier (some .name) token
    have howner : (∀ p ∈ owner, p.role = none) ∧ AreLost (fun p =>
        p.role = some .typeArguments || (p.role = none && p.kind = .superWord)) owner := by
      rcases howner with rfl | howner
      · exact ⟨by simp, .inl rfl⟩
      · obtain ⟨ps, hps, hfits⟩ := howner.exists_layout
        cases List.mem_singleton.1 hps
        obtain ⟨_, _, rfl, ⟨word, hword, rfl⟩, _, _, rfl, ⟨point, hpoint, rfl⟩, rfl⟩ := hfits
        refine ⟨by simp [hword.role_eq, hpoint.role_eq], .inr ⟨?_, ?_⟩⟩
        · exact (weight_pos_of_token hword rfl).trans_le (by simp)
        · simp [hword.role_eq, hword.kind_eq, Terminal.kind]
    have htypeArgs : (∀ p ∈ typeArgs, p.role = some .typeArguments) ∧ AreLost (fun p =>
        p.role = some .typeArguments || (p.role = none && p.kind = .superWord)) typeArgs := by
      rcases htypeArgs with rfl | htypeArgs
      · exact ⟨by simp, .inl rfl⟩
      · obtain ⟨n, ⟨hrole, hphrase, hn⟩, rfl⟩ := (Form.builds_node rfl).1 htypeArgs
        refine ⟨by simp [hrole], .inr ⟨?_, by simp [hrole]⟩⟩
        simpa using hphrase.weight_pos hn (by decide)
    have hroles : ∀ p ∈ owner ++ typeArgs, p.role = none ∨ p.role = some .typeArguments := by
      intro p hp
      exact (List.mem_append.1 hp).imp (howner.1 p) (htypeArgs.1 p)
    simpa using isAccounted_call hobject hdot hname hargs hphrase hroles
      (howner.2.append htypeArgs.2)

theorem isAccounted_fieldAccess (hps : ps ∈ layouts .fieldAccess) (hfits : Piece.FitAll ps parts) :
    (branch role .fieldAccess parts).IsAccounted := by
  cases List.mem_singleton.1 hps
  obtain ⟨_, _, rfl, ⟨object, hobject, rfl⟩, owner, _, rfl, howner, _, _, rfl, ⟨dot, hdot, rfl⟩,
    _, _, rfl, ⟨field, hfield, rfl⟩, rfl⟩ := hfits
  have howner : (∀ p ∈ owner, p.role = none) ∧
      AreLost (fun p => p.role = none && p.kind = .superWord) owner := by
    rcases howner with rfl | howner
    · exact ⟨by simp, .inl rfl⟩
    · obtain ⟨ps, hps, hfits⟩ := howner.exists_layout
      cases List.mem_singleton.1 hps
      obtain ⟨_, _, rfl, ⟨point, hpoint, rfl⟩, _, _, rfl, ⟨word, hword, rfl⟩, rfl⟩ := hfits
      refine ⟨by simp [hword.role_eq, hpoint.role_eq], .inr ⟨?_, ?_⟩⟩
      · exact (weight_pos_of_token hpoint rfl).trans_le (by simp)
      · simp [hword.role_eq, hword.kind_eq, Terminal.kind]
  have hnone : ∀ r : Role, partAs owner r = none :=
    fun r => partAs_eq_none fun p hp => by simp [howner.1 p hp]
  rw [← List.append_assoc]
  apply isAccounted_of_lost howner.2
  · rw [inReport_eq_printed (.inl rfl), printed_fieldAccess]
    simp [partAs_append, partAs_cons, hnone, hobject.role, hdot.role_eq, hfield.role,
      hobject.inReport_eq, hdot.inReport_eq, hfield.inReport_eq_written, Terminal.text,
      compactChars_cons, isBlank]
  · simp [shortens, hobject.role, hdot.kind_eq, hfield.role, Terminal.kind]

/-! ## Operators -/

theorem isAccounted_arrayAccess (hps : ps ∈ layouts .arrayAccess) (hfits : Piece.FitAll ps parts) :
    (branch role .arrayAccess parts).IsAccounted := by
  cases List.mem_singleton.1 hps
  obtain ⟨_, _, rfl, ⟨array, harray, rfl⟩, _, _, rfl, ⟨opening, hopening, rfl⟩, _, _, rfl,
    ⟨index, hindex, rfl⟩, _, _, rfl, ⟨closing, hclosing, rfl⟩, rfl⟩ := hfits
  refine .inl ⟨rfl, ?_⟩
  rw [IsShownWhole, inReport_eq_printed (.inl rfl), printed_arrayAccess]
  simp [partAs_cons, harray.role, hindex.role, hopening.role_eq, harray.inReport_eq,
    hindex.inReport_eq, hopening.inReport_eq, hclosing.inReport_eq, Terminal.text,
    compactChars_cons, isBlank]

theorem isAccounted_parenthesized (hps : ps ∈ layouts .parenthesizedExpression)
    (hfits : Piece.FitAll ps parts) : (branch role .parenthesizedExpression parts).IsAccounted := by
  cases List.mem_singleton.1 hps
  obtain ⟨_, _, rfl, ⟨opening, hopening, rfl⟩, _, _, rfl, ⟨value, hvalue, rfl⟩, _, _, rfl,
    ⟨closing, hclosing, rfl⟩, rfl⟩ := hfits
  refine .inl ⟨rfl, ?_⟩
  rw [IsShownWhole, inReport_eq_printed (.inl rfl), printed_parenthesizedExpression]
  simp [isNamed_mark hopening, hvalue.isNamed, hvalue.inReport_eq, hopening.inReport_eq,
    hclosing.inReport_eq, Terminal.text, compactChars_cons, isBlank]

theorem isAccounted_ternary (hps : ps ∈ layouts .ternaryExpression)
    (hfits : Piece.FitAll ps parts) : (branch role .ternaryExpression parts).IsAccounted := by
  cases List.mem_singleton.1 hps
  obtain ⟨_, _, rfl, ⟨condition, hcondition, rfl⟩, _, _, rfl, ⟨question, hquestion, rfl⟩, _, _, rfl,
    ⟨consequence, hconsequence, rfl⟩, _, _, rfl, ⟨colon, hcolon, rfl⟩, _, _, rfl,
    ⟨alternative, halternative, rfl⟩, rfl⟩ := hfits
  refine .inl ⟨rfl, ?_⟩
  rw [IsShownWhole, inReport_eq_printed (.inl rfl), printed_ternaryExpression]
  simp [partAs_cons, hcondition.role, hconsequence.role, halternative.role, hquestion.role_eq,
    hcolon.role_eq, hcondition.inReport_eq, hconsequence.inReport_eq, halternative.inReport_eq,
    hquestion.inReport_eq, hcolon.inReport_eq, Terminal.text, compactChars_cons, isBlank]

/-- An operator between two operands. -/
theorem isAccounted_operation {k : Kind} (hk : k = .assignmentExpression ∨ k = .binaryExpression)
    {left operator right : Node} {t : Terminal} (hleft : left.IsOf Kind.isItem (some .left))
    (hoperator : operator.IsToken (some .operator) t)
    (hright : right.IsOf Kind.isItem (some .right)) :
    (branch role k [left, operator, right]).IsAccounted := by
  refine .inl ⟨by rcases hk with rfl | rfl <;> rfl, ?_⟩
  have hitem : (branch role k [left, operator, right]).kind.isItem = true := by
    rcases hk with rfl | rfl <;> rfl
  rw [IsShownWhole, inReport_eq_printed (.inl hitem), printed_operation role _ hk]
  simp [partAs_cons, hleft.role, hright.role, hoperator.role_eq, hleft.inReport_eq,
    hright.inReport_eq, hoperator.inReport_eq, hoperator.written_eq]

theorem isAccounted_assignment (hps : ps ∈ layouts .assignmentExpression)
    (hfits : Piece.FitAll ps parts) : (branch role .assignmentExpression parts).IsAccounted := by
  cases List.mem_singleton.1 hps
  obtain ⟨_, _, rfl, ⟨left, hleft, rfl⟩, _, _, rfl, ⟨m, operator, hoperator, rfl⟩, _, _, rfl,
    ⟨right, hright, rfl⟩, rfl⟩ := hfits
  exact isAccounted_operation (.inl rfl) hleft hoperator hright

theorem isAccounted_binary (hps : ps ∈ layouts .binaryExpression)
    (hfits : Piece.FitAll ps parts) : (branch role .binaryExpression parts).IsAccounted := by
  obtain ⟨a, ha, hps⟩ := List.mem_flatMap.1 hps
  obtain ⟨⟨operator, level⟩, -, rfl⟩ := List.mem_map.1 ha
  cases List.mem_singleton.1 hps
  obtain ⟨_, _, rfl, ⟨left, hleft, rfl⟩, _, _, rfl, ⟨operator, hoperator, rfl⟩, _, _, rfl,
    ⟨right, hright, rfl⟩, rfl⟩ := hfits
  exact isAccounted_operation (.inr rfl) hleft hoperator hright

/-- A sign and its operand. -/
theorem exists_unary (hps : ps ∈ layouts .unaryExpression) (hfits : Piece.FitAll ps parts) :
    ∃ (m : String) (operator operand : Node), m ∈ ["+", "-", "!", "~"] ∧
      operator.IsToken (some .operator) (.mark m) ∧ operand.IsOf Kind.isItem (some .operand) ∧
      parts = [operator, operand] := by
  have hlayout : ∃ m ∈ ["+", "-", "!", "~"],
      ps = [.token (some .operator) (.mark m), .item (some .operand) Kind.isItem] := by
    rcases List.mem_cons.1 hps with rfl | hps
    · exact ⟨"+", by simp, rfl⟩
    rcases List.mem_cons.1 hps with rfl | hps
    · exact ⟨"-", by simp, rfl⟩
    rcases List.mem_cons.1 hps with rfl | hps
    · exact ⟨"!", by simp, rfl⟩
    cases List.mem_singleton.1 hps
    exact ⟨"~", by simp, rfl⟩
  obtain ⟨m, hm, rfl⟩ := hlayout
  obtain ⟨_, _, rfl, ⟨operator, hoperator, rfl⟩, _, _, rfl, ⟨operand, hoperand, rfl⟩, rfl⟩ := hfits
  exact ⟨m, operator, operand, hm, hoperator, hoperand, rfl⟩

theorem isAccounted_unary (hps : ps ∈ layouts .unaryExpression) (hfits : Piece.FitAll ps parts) :
    (branch role .unaryExpression parts).IsAccounted := by
  obtain ⟨m, operator, operand, -, hoperator, hoperand, rfl⟩ := exists_unary hps hfits
  refine .inl ⟨rfl, ?_⟩
  rw [IsShownWhole, inReport_eq_printed (.inl rfl), printed_unaryExpression]
  simp [partAs_cons, hoperand.role, hoperator.role_eq, hoperand.inReport_eq,
    hoperator.inReport_eq, hoperator.written_eq]

/-- An operand and what increments or decrements it, behind it or before it. -/
theorem exists_update (hps : ps ∈ layouts .updateExpression) (hfits : Piece.FitAll ps parts) :
    ∃ (m : String) (op operand : Node), (m = "++" ∨ m = "--") ∧ op.IsToken none (.mark m) ∧
      operand.IsOf Kind.isItem none ∧ (parts = [operand, op] ∨ parts = [op, operand]) := by
  have hlayout : ∃ m, (m = "++" ∨ m = "--") ∧
      (ps = [.item none Kind.isItem, .token none (.mark m)] ∨
        ps = [.token none (.mark m), .item none Kind.isItem]) := by
    rcases List.mem_cons.1 hps with rfl | hps
    · exact ⟨"++", .inl rfl, .inl rfl⟩
    rcases List.mem_cons.1 hps with rfl | hps
    · exact ⟨"--", .inr rfl, .inl rfl⟩
    rcases List.mem_cons.1 hps with rfl | hps
    · exact ⟨"++", .inl rfl, .inr rfl⟩
    cases List.mem_singleton.1 hps
    exact ⟨"--", .inr rfl, .inr rfl⟩
  obtain ⟨m, hm, rfl | rfl⟩ := hlayout
  · obtain ⟨_, _, rfl, ⟨operand, hoperand, rfl⟩, _, _, rfl, ⟨op, hop, rfl⟩, rfl⟩ := hfits
    exact ⟨m, op, operand, hm, hop, hoperand, .inl rfl⟩
  · obtain ⟨_, _, rfl, ⟨op, hop, rfl⟩, _, _, rfl, ⟨operand, hoperand, rfl⟩, rfl⟩ := hfits
    exact ⟨m, op, operand, hm, hop, hoperand, .inr rfl⟩

theorem isAccounted_update (hps : ps ∈ layouts .updateExpression) (hfits : Piece.FitAll ps parts) :
    (branch role .updateExpression parts).IsAccounted := by
  refine .inl ⟨rfl, ?_⟩
  rw [IsShownWhole, inReport_eq_printed (.inl rfl)]
  obtain ⟨m, op, operand, hm, hop, hoperand, rfl | rfl⟩ := exists_update hps hfits
  · have hprinted : (branch role .updateExpression [operand, op]).printed = _ :=
      printed_updateExpression_after role hoperand.kind_ne_symbol hoperand.isNamed
    simpa [hoperand.inReport_eq, hop.inReport_eq, hop.written_eq] using hprinted
  · have hprinted := printed_updateExpression_before role hop.kind_eq
      (by rw [hop.text_eq]; exact hm) hoperand.isNamed
    simpa [hoperand.inReport_eq, hop.inReport_eq, hop.written_eq] using hprinted

/-- Only the word `final` is left out of a test. -/
theorem isAccounted_test {left word : Node} {final tested : List Node}
    (hleft : left.IsOf Kind.isItem (some .left)) (hword : word.IsToken none (.word "instanceof"))
    (hfinal : (Piece.option none (.word "final")).Fits final)
    (htested : ((partAs tested .right).or (partAs tested .pattern)).elim [] written ++
      (partAs tested .name).elim [] written = tested.flatMap inReport)
    (hroles : ∀ p ∈ tested, p.role ≠ none) :
    (branch role .instanceofExpression ([left, word] ++ final ++ tested)).IsAccounted := by
  have hfinal : (∀ p ∈ final, p.role = none) ∧
      AreLost (fun p => p.role = none && p.text = "final") final := by
    rcases hfinal with rfl | hfinal
    · exact ⟨by simp, .inl rfl⟩
    · obtain ⟨word, hword, rfl⟩ := hfinal.token (by simp) rfl
      refine ⟨by simp [hword.role_eq], .inr ⟨?_, ?_⟩⟩
      · simpa using weight_pos_of_token hword rfl
      · simp [hword.role_eq, hword.text_eq, Terminal.text]
  have hnone : ∀ r : Role, partAs final r = none :=
    fun r => partAs_eq_none fun p hp => by simp [hfinal.1 p hp]
  apply isAccounted_of_lost hfinal.2
  · rw [inReport_eq_printed (.inl rfl), printed_instanceofExpression, List.append_assoc]
    simp [partAs_append, partAs_cons, hnone, hleft.role, hword.role_eq, htested,
      hleft.inReport_eq, hword.inReport_eq, Terminal.text, compactChars_cons, isBlank]
  · have hkept : tested.any (fun p => p.role = none && p.text = "final") = false :=
      List.any_eq_false.2 fun p hp => by simp [hroles p hp]
    simp only [shortens, kind_branch, parts_branch, List.any_append, hkept]
    simp [hleft.role, hword.text_eq, Terminal.text]

theorem isAccounted_instanceof (hps : ps ∈ layouts .instanceofExpression)
    (hfits : Piece.FitAll ps parts) : (branch role .instanceofExpression parts).IsAccounted := by
  rcases List.mem_cons.1 hps with rfl | hps
  · obtain ⟨_, _, rfl, ⟨left, hleft, rfl⟩, _, _, rfl, ⟨word, hword, rfl⟩, final, _, rfl, hfinal, _, _,
      rfl, ⟨right, hright, rfl⟩, name, _, rfl, hname, rfl⟩ := hfits
    have hname : name = [] ∨ ∃ n : Node, n.IsOf Kind.isVerbatim (some .name) ∧ name = [n] := by
      refine hname.imp id fun h => ?_
      obtain ⟨token, rfl⟩ := (Form.builds_as.1 h).name rfl
      exact ⟨_, isOf_identifier _ token, rfl⟩
    have haccounted := @isAccounted_test role left word final ([right] ++ name) hleft hword hfinal
    rcases hname with rfl | ⟨n, hn, rfl⟩
    · simpa [partAs_cons, hright.role, hright.inReport_eq_written] using haccounted
    · simpa [partAs_cons, hright.role, hright.inReport_eq_written, hn.role,
        hn.inReport_eq_written] using haccounted
  · cases List.mem_singleton.1 hps
    obtain ⟨_, _, rfl, ⟨left, hleft, rfl⟩, _, _, rfl, ⟨word, hword, rfl⟩, final, _, rfl, hfinal, _, _,
      rfl, ⟨pattern, hpattern, rfl⟩, rfl⟩ := hfits
    have haccounted := @isAccounted_test role left word final [pattern] hleft hword hfinal
    simpa [partAs_cons, hpattern.role, hpattern.inReport_eq_written] using haccounted

/-- Of the types of a cast, only the first one is shown. -/
theorem isAccounted_conversion {opening type closing value : Node} {items tail : List Node}
    (hopening : opening.IsToken none (.mark "(")) (htype : type.IsOf Kind.isVerbatim (some .type))
    (htail : IsTail "&" Kind.isVerbatim (some .type) items tail)
    (hclosing : closing.IsToken none (.mark ")")) (hvalue : value.IsOf Kind.isItem (some .value)) :
    (branch role .castExpression ([opening, type] ++ tail ++ [closing, value])).IsAccounted := by
  have hnone : partAs tail .value = none := by
    refine partAs_eq_none ?_
    induction htail with
    | nil => simp
    | cons separates item _ ih => simpa [separates.role_eq, item.role] using ih
  have hlost : AreLost (fun p => p.role = some .type) tail := by
    cases htail with
    | nil => exact .inl rfl
    | cons separates item _ =>
      refine .inr ⟨(weight_pos_of_token separates rfl).trans_le (by simp), by simp [item.role]⟩
  apply isAccounted_of_lost hlost
  · rw [inReport_eq_printed (.inl rfl), printed_castExpression]
    simp [partAs_append, partAs_cons, hnone, hopening.role_eq, htype.role, hclosing.role_eq,
      hvalue.role, hopening.inReport_eq, htype.inReport_eq_written, hclosing.inReport_eq,
      hvalue.inReport_eq, Terminal.text, compactChars_cons, isBlank]
  · cases htail with
    | nil => simp [shortens, childrenAs, hopening.role_eq, htype.role, hclosing.role_eq, hvalue.role]
    | cons separates item _ =>
      simp [shortens, childrenAs, hopening.role_eq, htype.role, hclosing.role_eq, hvalue.role,
        separates.role_eq, item.role]

theorem isAccounted_castExpression (hps : ps ∈ layouts .castExpression)
    (hfits : Piece.FitAll ps parts) : (branch role .castExpression parts).IsAccounted := by
  rcases List.mem_cons.1 hps with rfl | hps
  · obtain ⟨_, _, rfl, ⟨opening, hopening, rfl⟩, _, _, rfl, ⟨type, htype, rfl⟩, _, _, rfl,
      ⟨closing, hclosing, rfl⟩, _, _, rfl, ⟨value, hvalue, rfl⟩, rfl⟩ := hfits
    exact isAccounted_conversion hopening htype .nil hclosing hvalue
  · cases List.mem_singleton.1 hps
    obtain ⟨_, _, rfl, ⟨opening, hopening, rfl⟩, _, _, rfl, ⟨type, htype, rfl⟩, tail, _, rfl, htail,
      _, _, rfl, ⟨closing, hclosing, rfl⟩, _, _, rfl, ⟨value, hvalue, rfl⟩, rfl⟩ := hfits
    obtain ⟨items, htail⟩ := Piece.tail_of_many htail fun ns h => (Form.builds_as.1 h).verbatim rfl
    simpa using isAccounted_conversion hopening htype htail hclosing hvalue

/-! ## Functions -/

/-- A lambda expression with a short body. -/
theorem isShownWhole_lambda {params arrow body : Node} (hparams : params.role = some .parameters)
    (hshown : params.inReport = if params.kind = .identifier then params.written
      else '(' :: [','].intercalate (params.children.map written) ++ [')'])
    (harrow : arrow.IsToken none (.mark "->")) (hbody : body.IsOf Kind.isItem (some .body))
    (helides : (branch role .lambdaExpression [params, arrow, body]).elides = false) :
    (branch role .lambdaExpression [params, arrow, body]).IsShownWhole := by
  have hpartParams : partAs [params, arrow, body] .parameters = some params := by
    simp [partAs_cons, hparams]
  have hpartBody : partAs [params, arrow, body] .body = some body := by
    simp [partAs_cons, hparams, harrow.role_eq, hbody.role]
  have hblock : body.kind = .block → body.children.length ≤ 1 := by
    intro hk
    have hchild : (branch role .lambdaExpression [params, arrow, body]).child? .body = some body :=
      hpartBody
    simpa [elides, hchild, hk] using helides
  have hinner : body.inReport = if body.kind = .block then body.written else body.printed := by
    rw [hbody.inReport_eq]
    split
    next hk => exact printed_eq_written (by rw [hk]; rfl)
    next => rfl
  rw [IsShownWhole, inReport_eq_printed (.inl rfl),
    printed_lambdaExpression role _ hpartParams hpartBody hblock]
  simp [hshown, hinner, harrow.inReport_eq, Terminal.text, compactChars_cons, isBlank]

theorem isAccounted_lambda (hps : ps ∈ layouts .lambdaExpression) (hfits : Piece.FitAll ps parts)
    (helides : (branch role .lambdaExpression parts).elides = false) :
    (branch role .lambdaExpression parts).IsAccounted := by
  refine .inl ⟨rfl, ?_⟩
  have hname : ∀ token, (leaf (some .parameters) .identifier token).inReport =
      (leaf (some .parameters) .identifier token).written :=
    fun token => (isOf_identifier _ token).inReport_eq_written
  have hlist : ∀ {n : Node}, n.kind = .formalParameters ∨ n.kind = .inferredParameters →
      n.inReport = if n.kind = .identifier then n.written
        else '(' :: [','].intercalate (n.children.map written) ++ [')'] := by
    rintro n (hk | hk) <;> rw [inReport, hk] <;> rfl
  have hlayout : ∃ params arrow body : Node, params.role = some .parameters ∧
      params.inReport = (if params.kind = .identifier then params.written
        else '(' :: [','].intercalate (params.children.map written) ++ [')']) ∧
      arrow.IsToken none (.mark "->") ∧ body.IsOf Kind.isItem (some .body) ∧
      parts = [params, arrow, body] := by
    rcases List.mem_cons.1 hps with rfl | hps
    · obtain ⟨_, _, rfl, ⟨token, rfl⟩, _, _, rfl, ⟨arrow, harrow, rfl⟩, _, _, rfl,
        ⟨body, hbody, rfl⟩, rfl⟩ := hfits
      exact ⟨_, arrow, body, rfl, hname token, harrow, hbody, rfl⟩
    rcases List.mem_cons.1 hps with rfl | hps
    · obtain ⟨_, _, rfl, ⟨params, ⟨hrole, hphrase, -⟩, rfl⟩, _, _, rfl, ⟨arrow, harrow, rfl⟩, _, _,
        rfl, ⟨body, hbody, rfl⟩, rfl⟩ := hfits
      exact ⟨params, arrow, body, hrole, hlist (.inl (hphrase.kind_eq rfl)), harrow, hbody, rfl⟩
    rcases List.mem_cons.1 hps with rfl | hps
    · obtain ⟨_, _, rfl, ⟨params, ⟨hrole, hphrase, -⟩, rfl⟩, _, _, rfl, ⟨arrow, harrow, rfl⟩, _, _,
        rfl, ⟨body, hbody, rfl⟩, rfl⟩ := hfits
      exact ⟨params, arrow, body, hrole, hlist (.inr (hphrase.kind_eq rfl)), harrow, hbody, rfl⟩
    cases List.mem_singleton.1 hps
    obtain ⟨_, _, rfl, ⟨token, rfl⟩, _, _, rfl, ⟨arrow, harrow, rfl⟩, _, _, rfl,
      ⟨body, hbody, rfl⟩, rfl⟩ := hfits
    exact ⟨_, arrow, body, rfl, hname token, harrow, hbody, rfl⟩
  obtain ⟨params, arrow, body, hparams, hshown, harrow, hbody, rfl⟩ := hlayout
  exact isShownWhole_lambda hparams hshown harrow hbody helides

/-- A method reference that ends with a word. -/
theorem isShownWhole_reference {qualifier colons last : Node} {typeArgs : List Node}
    (hqualifier : qualifier.IsOf Kind.isItem none) (hcolons : colons.IsToken none (.mark "::"))
    (htypeArgs : (Piece.option none (.rule .typeArguments)).Fits typeArgs)
    (hlast : last.inReport = last.written) (hkind : last.kind ≠ .typeArguments) :
    (branch role .methodReference ([qualifier, colons] ++ typeArgs ++ [last])).IsShownWhole := by
  have hshown : qualifier.inReport =
      if qualifier.kind.isType then qualifier.written else qualifier.printed := by
    rw [hqualifier.inReport_eq]
    split
    next htype =>
      refine printed_eq_written ?_
      cases hk : qualifier.kind <;> rw [hk] at htype <;> first | rfl | cases htype
    next => rfl
  have hsymbol : colons.isNamed = false := isNamed_mark hcolons
  have hother : qualifier.kind ≠ .typeArguments := by
    intro hk
    have hitem := hqualifier.kind
    rw [hk] at hitem
    cases hitem
  rw [IsShownWhole, inReport_eq_printed (.inl rfl), printed_methodReference]
  rcases htypeArgs with rfl | htypeArgs
  · simp [List.find?_filter, hqualifier.isNamed, hsymbol, hother, hkind, hshown, hlast,
      hcolons.inReport_eq, Terminal.text, compactChars_cons, isBlank]
  · obtain ⟨n, ⟨-, hphrase, -⟩, rfl⟩ := (Form.builds_node rfl).1 htypeArgs
    have hn : n.kind = .typeArguments := hphrase.kind_eq rfl
    have hnamed : n.isNamed = true := by simp [isNamed, hn]
    have hwritten : n.inReport = n.written := by
      rw [inReport_eq_printed (.inr (by rw [hn]; rfl)), printed_eq_written (by rw [hn]; rfl)]
    simp [hqualifier.isNamed, hsymbol, hother, hn, hnamed, hwritten, hshown, hlast,
      hcolons.inReport_eq, Terminal.text, compactChars_cons, isBlank]

theorem isAccounted_methodReference (hps : ps ∈ layouts .methodReference)
    (hfits : Piece.FitAll ps parts) : (branch role .methodReference parts).IsAccounted := by
  refine .inl ⟨rfl, ?_⟩
  rcases List.mem_cons.1 hps with rfl | hps
  · obtain ⟨_, _, rfl, ⟨qualifier, hqualifier, rfl⟩, _, _, rfl, ⟨colons, hcolons, rfl⟩, typeArgs, _,
      rfl, htypeArgs, _, _, rfl, ⟨word, hword, rfl⟩, rfl⟩ := hfits
    have hkind : word.kind ≠ .typeArguments := by simp [hword.kind_eq, Terminal.kind]
    simpa using isShownWhole_reference hqualifier hcolons htypeArgs
      (hword.inReport_eq.trans hword.written_eq.symm) hkind
  · cases List.mem_singleton.1 hps
    obtain ⟨_, _, rfl, ⟨qualifier, hqualifier, rfl⟩, _, _, rfl, ⟨colons, hcolons, rfl⟩, typeArgs, _,
      rfl, htypeArgs, _, _, rfl, ⟨token, rfl⟩, rfl⟩ := hfits
    have hname := isOf_identifier none token
    simpa using isShownWhole_reference hqualifier hcolons htypeArgs hname.inReport_eq_written
      (by simp [kind])

end
end Node
end CallOrigins.Java
