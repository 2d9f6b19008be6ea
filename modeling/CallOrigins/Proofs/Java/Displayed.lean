import CallOrigins.Proofs.Java.Layouts
import CallOrigins.Proofs.Java.Rendering

/-!
# What is shown of a node

The text of an expression, blanks aside, in terms of the nodes that it is made from. For each kind
of expression one lemma says which of its parts are shown and what is put between them
(`printed_methodInvocation` and so on); lists and dimensions, which have no expression of their own,
are shown with the one that they belong to (`Node.inReport`).

**The law** (`printed_eq_written`): what is not taken apart is shown as it is written.
-/

namespace CallOrigins.Java

open Grammar Text

namespace Node

/-! ## Texts without blanks -/

/-- The text of a node, without blanks. -/
def written (n : Node) : List Char :=
  compactChars n.text.toList

/-- The tokens of a tree, without blanks. -/
def inSource (n : Node) : List Char :=
  n.tokens.flatMap fun t => compactChars t.text.toList

/-- The text of a node's expression, without blanks. -/
def printed (n : Node) : List Char :=
  compactChars (Expr.ofNode n).render.toList

/-- The texts of expressions with commas between, without blanks. -/
def listed (ns : List Node) : List Char :=
  [','].intercalate (ns.map printed)

/-- **What is shown of a node**, without blanks. Lists and dimensions are shown with the expression
that they belong to. -/
def inReport (n : Node) : List Char :=
  match n.kind with
  | .argumentList => '(' :: listed n.children ++ [')']
  | .formalParameters | .inferredParameters =>
    '(' :: [','].intercalate (n.children.map written) ++ [')']
  | .dimensionsExpr => '[' :: n.children.head?.elim [] printed ++ [']']
  | .dimensions => (List.replicate (n.text.toList.count '[') ['[', ']']).flatten
  | _ => n.printed

@[simp] theorem kind_branch (role : Option Role) (k : Kind) (parts : List Node) :
    (branch role k parts).kind = k := rfl

@[simp] theorem parts_branch (role : Option Role) (k : Kind) (parts : List Node) :
    (branch role k parts).parts = parts := rfl

@[simp] theorem written_leaf (r : Option Role) (k : Kind) (t : Token) :
    (leaf r k t).written = compactChars t.text.toList := by
  simp [written, text, textOf, tokens_leaf]

@[simp] theorem inSource_leaf (r : Option Role) (k : Kind) (t : Token) :
    (leaf r k t).inSource = compactChars t.text.toList := by
  simp [inSource, tokens_leaf]

@[simp] theorem inSource_branch (r : Option Role) (k : Kind) (parts : List Node) :
    (branch r k parts).inSource = parts.flatMap inSource := by
  rw [inSource, tokens_branch, List.flatMap_assoc]
  rfl

/-! ## What expressions take from their parts -/

section

variable (role : Option Role) (parts : List Node) (r : Role)

/-- The first part in a role. -/
def partAs : Option Node :=
  parts.find? fun p => p.role = some r

@[simp] theorem partAs_nil : partAs [] r = none := rfl

theorem partAs_cons (n : Node) :
    partAs (n :: parts) r = if n.role = some r then some n else partAs parts r := by
  rw [partAs, List.find?_cons]
  split <;> simp_all [partAs]

theorem partAs_append (front back : List Node) :
    partAs (front ++ back) r = (partAs front r).or (partAs back r) :=
  List.find?_append

theorem partAs_eq_none {ns : List Node} {r : Role} (h : ∀ p ∈ ns, p.role ≠ some r) :
    partAs ns r = none :=
  List.find?_eq_none.2 fun p hp hrole => h p hp (of_decide_eq_true hrole)

theorem child?_map :
    Lifted.child? (parts.map Lifted.ofNode) r = (partAs parts r).map Lifted.ofNode := by
  rw [Lifted.child?, partAs, List.find?_map]
  simp only [Function.comp_def, Lifted.node_ofNode]

theorem items_ofNode (n : Node) : (Lifted.ofNode n).items = n.children.map Expr.ofNode := by
  cases n with
  | leaf r k t => rfl
  | branch r k parts =>
    show (Lifted.named (Lifted.ofAll parts)).map Lifted.expr = (parts.filter isNamed).map Expr.ofNode
    rw [Lifted.ofAll_eq, Lifted.named, List.filter_map, List.map_map]
    simp [Function.comp_def, Lifted.node_ofNode, Expr.ofNode]

@[simp] theorem compactChars_commaList (ns : List Node) :
    compactChars (Expr.commaList (Expr.renderAll (ns.map Expr.ofNode))).toList = listed ns := by
  rw [Expr.commaList, compactChars_intercalate, Expr.renderAll_eq, List.map_map, List.map_map]
  rfl

@[simp] theorem compactChars_collapsedText (n : Node) :
    compactChars (Lifted.collapsedText n).toList = n.written :=
  compactChars_collapse _

@[simp] theorem compactChars_exprAs :
    compactChars (Lifted.exprAs (parts.map Lifted.ofNode) r).render.toList =
      (partAs parts r).elim [] printed := by
  rw [Lifted.exprAs, child?_map]
  cases partAs parts r <;> rfl

@[simp] theorem compactChars_textAs :
    compactChars (Lifted.textAs (parts.map Lifted.ofNode) r).toList =
      (partAs parts r).elim [] written := by
  rw [Lifted.textAs, child?_map]
  cases partAs parts r with
  | none => rfl
  | some p => simp [Lifted.node_ofNode, written]

@[simp] theorem compactChars_collapsedAs :
    compactChars (Lifted.collapsedAs (parts.map Lifted.ofNode) r).toList =
      (partAs parts r).elim [] written := by
  rw [Lifted.collapsedAs, child?_map]
  cases partAs parts r with
  | none => rfl
  | some p => simp [Lifted.node_ofNode]

@[simp] theorem compactChars_arguments :
    compactChars (Expr.commaList
      (Expr.renderAll (Lifted.arguments (parts.map Lifted.ofNode)))).toList =
        (partAs parts .arguments).elim [] fun p => listed p.children := by
  rw [Lifted.arguments, child?_map]
  cases partAs parts .arguments with
  | none => rfl
  | some p => simp [items_ofNode]

@[simp] theorem compactChars_firstNamed :
    compactChars (Lifted.firstNamed (parts.map Lifted.ofNode)).render.toList =
      (parts.find? isNamed).elim [] printed := by
  have hfirst : (Lifted.named (parts.map Lifted.ofNode)).head? =
      (parts.find? isNamed).map Lifted.ofNode := by
    rw [Lifted.named, List.head?_filter, List.find?_map]
    simp only [Function.comp_def, Lifted.node_ofNode]
  rw [Lifted.firstNamed, hfirst]
  cases parts.find? isNamed <;> rfl

theorem compactChars_initializerText {ns : List Node} (h : ns.length ≤ Expr.shownElements) :
    compactChars (Expr.initializerText (Expr.renderAll (ns.map Expr.ofNode))).toList =
      '\x7b' :: listed ns ++ ['\x7d'] := by
  have hlength : (Expr.renderAll (ns.map Expr.ofNode)).length = ns.length := by
    simp [Expr.renderAll_eq]
  rw [Expr.initializerText, List.take_of_length_le (by omega), if_neg (by omega)]
  simp [compactChars_cons, isBlank]

theorem compactChars_renderDimensions (ds : List (Option Expr)) :
    compactChars (Expr.renderDimensions ds).toList =
      ds.flatMap fun d => '[' :: d.elim [] (fun e => compactChars e.render.toList) ++ [']'] := by
  induction ds with
  | nil => rfl
  | cons d ds ih => cases d <;> simp [Expr.renderDimensions, ih, compactChars_cons, isBlank]

theorem ofNode_eq (n : Node) : Expr.ofNode n = Lifted.compose n (n.parts.map Lifted.ofNode) := by
  cases n with
  | leaf => rfl
  | branch r k parts => rw [Expr.ofNode, Lifted.ofNode, Lifted.ofAll_eq, parts_branch]

theorem printed_branch (k : Kind) : (branch role k parts).printed =
    compactChars (Lifted.compose (branch role k parts) (parts.map Lifted.ofNode)).render.toList := by
  rw [printed, ofNode_eq, parts_branch]

theorem printed_methodInvocation : (branch role .methodInvocation parts).printed =
    (partAs parts .object).elim [] (fun p => p.printed ++ ['.']) ++
      (partAs parts .name).elim [] written ++
      '(' :: (partAs parts .arguments).elim [] (fun p => listed p.children) ++ [')'] := by
  rw [printed_branch, Lifted.compose, kind, child?_map]
  cases partAs parts .object <;>
    simp [Expr.render, Expr.renderReceiver, compactChars_cons, isBlank, printed, Expr.ofNode]

theorem printed_objectCreation (h : parts.any (fun p => p.kind = .classBody) = false) :
    (branch role .objectCreationExpression parts).printed =
      "new".toList ++ (partAs parts .type).elim [] written ++
        '(' :: (partAs parts .arguments).elim [] (fun p => listed p.children) ++ [')'] := by
  have hbody : (parts.map Lifted.ofNode).any (fun p => p.node.kind = .classBody) = false := by
    rw [← h, List.any_map]
    simp [Function.comp_def, Lifted.node_ofNode]
  rw [printed_branch, Lifted.compose, kind]
  dsimp only
  rw [hbody]
  simp [Expr.render, compactChars_cons, isBlank]

theorem inReport_dimension {p : Node} (h : p.kind = .dimensionsExpr ∨ p.kind = .dimensions) :
    ((Lifted.dimensionsOf (Lifted.ofNode p)).flatMap fun d =>
      '[' :: d.elim [] (fun e => compactChars e.render.toList) ++ [']']) = p.inReport := by
  rw [Lifted.dimensionsOf, Lifted.node_ofNode, inReport]
  rcases h with hk | hk
  · rw [hk, if_pos rfl, items_ofNode, List.head?_map, List.flatMap_singleton]
    cases p.children.head? <;> rfl
  · rw [hk, if_neg (by simp), List.flatMap_replicate]
    rfl

theorem compactChars_dimensions {ps : List Node}
    (h : ∀ p ∈ ps, p.kind = .dimensionsExpr ∨ p.kind = .dimensions) :
    compactChars (Expr.renderDimensions
      ((ps.map Lifted.ofNode).flatMap Lifted.dimensionsOf)).toList = ps.flatMap inReport := by
  rw [compactChars_renderDimensions, List.flatMap_assoc, List.flatMap_map]
  exact List.flatMap_congr fun p hp => inReport_dimension (h p hp)

theorem printed_arrayCreation
    (hdimensions : ∀ p ∈ parts, p.role = some .dimensions →
      p.kind = .dimensionsExpr ∨ p.kind = .dimensions)
    (hvalue : ∀ p ∈ partAs parts .value, p.children.length ≤ Expr.shownElements) :
    (branch role .arrayCreationExpression parts).printed =
      "new".toList ++ (partAs parts .type).elim [] written ++
        (parts.filter fun p => p.role = some .dimensions).flatMap inReport ++
        (partAs parts .value).elim [] (fun p => '\x7b' :: listed p.children ++ ['\x7d']) := by
  have hfilter : (parts.map Lifted.ofNode).filter (fun p => p.node.role = some .dimensions) =
      (parts.filter fun p => p.role = some .dimensions).map Lifted.ofNode := by
    simp [List.filter_map, Function.comp_def, Lifted.node_ofNode]
  have hreports := compactChars_dimensions fun p hp =>
    hdimensions p (List.mem_of_mem_filter hp) (of_decide_eq_true (List.mem_filter.1 hp).2)
  rw [printed_branch, Lifted.compose, kind]
  dsimp only
  rw [hfilter, child?_map]
  cases hpart : partAs parts .value with
  | none => simp [Expr.render, Expr.renderInitializer, compactChars_cons, isBlank, hreports]
  | some p =>
    simp [Expr.render, Expr.renderInitializer, compactChars_cons, isBlank, hreports, items_ofNode,
      compactChars_initializerText (hvalue p hpart)]

theorem printed_arrayInitializer
    (h : (parts.filter isNamed).length ≤ Expr.shownElements) :
    (branch role .arrayInitializer parts).printed =
      '\x7b' :: listed (parts.filter isNamed) ++ ['\x7d'] := by
  have hitems : (Lifted.named (parts.map Lifted.ofNode)).map Lifted.expr =
      (parts.filter isNamed).map Expr.ofNode := by
    rw [← Lifted.ofAll_eq]
    exact items_ofNode (branch role .arrayInitializer parts)
  rw [printed_branch, Lifted.compose, kind]
  dsimp only
  rw [hitems, Expr.render, compactChars_initializerText h]

theorem printed_fieldAccess : (branch role .fieldAccess parts).printed =
    (partAs parts .object).elim [] printed ++ '.' :: (partAs parts .field).elim [] written := by
  rw [printed_branch, Lifted.compose, kind]
  simp [Expr.render, compactChars_cons, isBlank]

theorem printed_arrayAccess : (branch role .arrayAccess parts).printed =
    (partAs parts .array).elim [] printed ++ '[' :: (partAs parts .index).elim [] printed ++
      [']'] := by
  rw [printed_branch, Lifted.compose, kind]
  simp [Expr.render, compactChars_cons, isBlank]

theorem printed_castExpression : (branch role .castExpression parts).printed =
    '(' :: (partAs parts .type).elim [] written ++
      ')' :: (partAs parts .value).elim [] printed := by
  rw [printed_branch, Lifted.compose, kind]
  simp [Expr.render, compactChars_cons, isBlank]

theorem printed_parenthesizedExpression : (branch role .parenthesizedExpression parts).printed =
    '(' :: (parts.find? isNamed).elim [] printed ++ [')'] := by
  rw [printed_branch, Lifted.compose, kind]
  simp [Expr.render, compactChars_cons, isBlank]

theorem printed_ternaryExpression : (branch role .ternaryExpression parts).printed =
    (partAs parts .condition).elim [] printed ++
      '?' :: (partAs parts .consequence).elim [] printed ++
      ':' :: (partAs parts .alternative).elim [] printed := by
  rw [printed_branch, Lifted.compose, kind]
  simp [Expr.render, compactChars_cons, isBlank]

/-- An operator between two operands. -/
theorem printed_operation {k : Kind} (hk : k = .assignmentExpression ∨ k = .binaryExpression) :
    (branch role k parts).printed = (partAs parts .left).elim [] printed ++
      (partAs parts .operator).elim [] written ++ (partAs parts .right).elim [] printed := by
  rw [printed_branch, Lifted.compose, kind]
  rcases hk with rfl | rfl <;> simp [Expr.render, compactChars_cons, isBlank]

theorem printed_unaryExpression : (branch role .unaryExpression parts).printed =
    (partAs parts .operator).elim [] written ++ (partAs parts .operand).elim [] printed := by
  rw [printed_branch, Lifted.compose, kind]
  simp [Expr.render]

theorem printed_lambdaExpression {ps body : Node} (hps : partAs parts .parameters = some ps)
    (hbody : partAs parts .body = some body)
    (h : body.kind = .block → body.children.length ≤ 1) :
    (branch role .lambdaExpression parts).printed =
      (if ps.kind = .identifier then ps.written
        else '(' :: [','].intercalate (ps.children.map written) ++ [')']) ++
      "->".toList ++ (if body.kind = .block then body.written else body.printed) := by
  have hparams : compactChars (Lifted.lambdaParameters (parts.map Lifted.ofNode)).toList =
      if ps.kind = .identifier then ps.written
        else '(' :: [','].intercalate (ps.children.map written) ++ [')'] := by
    rw [Lifted.lambdaParameters, child?_map, hps]
    simp only [Option.map_some, Lifted.node_ofNode]
    split
    · rfl
    · have hlist : compactChars (Expr.commaList (ps.children.map Lifted.collapsedText)).toList =
          [','].intercalate (ps.children.map written) := by
        rw [Expr.commaList, compactChars_intercalate, List.map_map]
        simp [Function.comp_def, compactChars_cons, isBlank]
      simp [compactChars_cons, isBlank, hlist]
  have hshown : compactChars (Expr.renderBody (Lifted.lambdaBody (parts.map Lifted.ofNode))).toList =
      if body.kind = .block then body.written else body.printed := by
    rw [Lifted.lambdaBody, child?_map, hbody]
    simp only [Option.map_some, Lifted.node_ofNode]
    split
    next hk => rw [if_neg (by have := h hk; omega), Expr.renderBody, compactChars_collapsedText]
    next => rfl
  rw [printed_branch, Lifted.compose, kind]
  simp [Expr.render, compactChars_cons, isBlank, hparams, hshown]

theorem printed_methodReference : (branch role .methodReference parts).printed =
    (parts.find? isNamed).elim [] (fun q => if q.kind.isType then q.written else q.printed) ++
      "::".toList ++
      ((parts.filter isNamed).find? fun p => p.kind = .typeArguments).elim [] written ++
      parts.getLast?.elim [] written := by
  have hnamed : Lifted.named (parts.map Lifted.ofNode) =
      (parts.filter isNamed).map Lifted.ofNode := by
    simp [Lifted.named, List.filter_map, Function.comp_def, Lifted.node_ofNode]
  have hqualifier : compactChars (Lifted.qualifier (parts.map Lifted.ofNode)).toList =
      (parts.find? isNamed).elim []
        fun q => if q.kind.isType then q.written else q.printed := by
    rw [Lifted.qualifier, hnamed, List.head?_map, List.head?_filter]
    cases parts.find? isNamed with
    | none => rfl
    | some q =>
      simp only [Option.map_some, Lifted.node_ofNode, Option.elim_some]
      split
      · exact compactChars_collapsedText q
      · rfl
  have harguments : compactChars (Lifted.typeArguments (parts.map Lifted.ofNode)).toList =
      ((parts.filter isNamed).find? fun p => p.kind = .typeArguments).elim [] written := by
    rw [Lifted.typeArguments, hnamed, List.find?_map]
    simp only [Function.comp_def, Lifted.node_ofNode]
    cases (parts.filter isNamed).find? fun p => p.kind = .typeArguments with
    | none => rfl
    | some p => simp [Lifted.node_ofNode]
  have hlast : compactChars (Lifted.lastText (parts.map Lifted.ofNode)).toList =
      parts.getLast?.elim [] written := by
    rw [Lifted.lastText, List.getLast?_map]
    cases parts.getLast? with
    | none => rfl
    | some p => simp [Lifted.node_ofNode, written]
  rw [printed_branch, Lifted.compose, kind]
  simp [Expr.render, compactChars_cons, isBlank, hqualifier, harguments, hlast]

theorem printed_instanceofExpression : (branch role .instanceofExpression parts).printed =
    (partAs parts .left).elim [] printed ++ "instanceof".toList ++
      ((partAs parts .right).or (partAs parts .pattern)).elim [] written ++
      (partAs parts .name).elim [] written := by
  rw [printed_branch, Lifted.compose, kind]
  dsimp only
  rw [Lifted.testedType, child?_map, child?_map]
  cases partAs parts .right <;> cases partAs parts .name <;>
    simp [Expr.render, compactChars_cons, isBlank, Lifted.node_ofNode, written]

theorem printed_updateExpression_before {op operand : Node} (hkind : op.kind = .symbol)
    (htext : op.text = "++" ∨ op.text = "--") (hoperand : operand.isNamed = true) :
    (branch role .updateExpression [op, operand]).printed = op.written ++ operand.printed := by
  have hop : op.isNamed = false := by simp [isNamed, hkind]
  have hfirst := compactChars_firstNamed [op, operand]
  rw [printed_branch, Lifted.compose, kind]
  dsimp only
  simp only [List.map_cons, List.map_nil, List.find?_cons, hop, hoperand, Option.elim_some] at hfirst
  simp [Lifted.update, Lifted.node_ofNode, hkind, htext, Expr.render, hfirst, written]

theorem printed_updateExpression_after {op operand : Node} (hkind : operand.kind ≠ .symbol)
    (hoperand : operand.isNamed = true) :
    (branch role .updateExpression [operand, op]).printed = operand.printed ++ op.written := by
  have hfirst := compactChars_firstNamed [operand, op]
  rw [printed_branch, Lifted.compose, kind]
  dsimp only
  simp only [List.map_cons, List.map_nil, List.find?_cons, hoperand, Option.elim_some] at hfirst
  simp [Lifted.update, Lifted.lastText, Lifted.node_ofNode, hkind, Expr.render, hfirst, written]

end

/-! ## What is shown as it is written -/

theorem printed_eq_written {n : Node} (h : n.kind.isTakenApart = false) : n.printed = n.written := by
  have hcompose : ∀ parts, compactChars (Lifted.compose n parts).render.toList = n.written := by
    intro parts
    unfold Lifted.compose
    split
    iterate 5 exact rfl
    case h_6 | h_23 => exact compactChars_collapsedText n
    all_goals
      rename_i hk
      rw [hk] at h
      exact absurd h (by decide)
  cases n with
  | leaf r k t => exact hcompose []
  | branch r k parts => exact hcompose (Lifted.ofAll parts)

theorem inReport_eq_printed {n : Node} (h : n.kind.isItem = true ∨ n.kind.isTakenApart = false) :
    n.inReport = n.printed := by
  unfold inReport
  split
  case h_6 => rfl
  all_goals
    rename_i hk
    rw [hk] at h
    exact absurd h (by decide)

section

variable {n : Node} {role : Option Role}

theorem IsOf.inReport_eq (h : n.IsOf Kind.isItem role) : n.inReport = n.printed :=
  inReport_eq_printed (.inl h.kind)

theorem IsOf.inReport_eq_written (h : n.IsOf Kind.isVerbatim role) : n.inReport = n.written := by
  have hkind := (Bool.and_eq_true_iff.1 h.kind).2
  rw [h.item.inReport_eq, printed_eq_written (by simpa using hkind)]

theorem IsOf.kind_ne_symbol (h : n.IsOf Kind.isItem role) : n.kind ≠ .symbol := by
  intro hk
  have hkind := h.kind
  rw [hk] at hkind
  cases hkind

namespace IsToken

variable {t : Terminal} (h : n.IsToken role t)

include h

theorem role_eq : n.role = role := by
  obtain ⟨token, rfl, -⟩ := h
  rfl

theorem kind_eq : n.kind = t.kind := by
  obtain ⟨token, rfl, -⟩ := h
  rfl

theorem text_eq : n.text = t.text := by
  obtain ⟨token, rfl, htext⟩ := h
  simp [text, textOf, tokens_leaf, htext]

theorem inSource_eq : n.inSource = compactChars t.text.toList := by
  obtain ⟨token, rfl, htext⟩ := h
  rw [inSource_leaf, htext]

theorem written_eq : n.written = compactChars t.text.toList := by
  rw [written, h.text_eq]

theorem inReport_eq : n.inReport = compactChars t.text.toList := by
  have hkind : n.kind.isTakenApart = false := h.kind_eq ▸ t.isTakenApart_kind
  rw [inReport_eq_printed (.inr hkind), printed_eq_written hkind, h.written_eq]

end IsToken
end

end Node
end CallOrigins.Java
