import CallOrigins.Proofs.Java.Spelling

/-!
# Arguments are shown in one line

The text of an expression is put together from texts of the source. Types, parameters and whatever
has no form of its own are collapsed; names and operators are single words, by the spelling of the
tree. Literals are the only texts that are shown as they stand and that can hold blanks.

**The law** (`exists_literal_of_renderArguments`): an argument is shown in one line, unless a literal
in it goes over several lines. Its proof folds the tree as the lifting does: one lemma for each thing
that is looked up among the parts, and from these that of the composed expression
(`Lifted.inLine_compose`).
-/

namespace CallOrigins.Java

open Text

/-- Literals are shown as they stand in the source. -/
def Kind.isLiteral : Kind → Bool
  | .literal | .stringLiteral => true
  | _ => false

/-! ## Texts of expressions -/

namespace Expr

/-- The text of an expression is in one line. -/
def InLine (e : Expr) : Prop :=
  OneLine e.render

theorem inLine_other_empty : InLine (.other "") := by
  show OneLine ""
  simp

theorem renderAll_eq (es : List Expr) : renderAll es = es.map render := by
  induction es with
  | nil => rfl
  | cons e es ih => rw [renderAll, ih, List.map_cons]

theorem oneLine_commaList {texts : List String} (h : ∀ s ∈ texts, OneLine s) :
    OneLine (commaList texts) :=
  only_intercalate (by decide) h

theorem oneLine_renderAll {es : List Expr} (h : ∀ e ∈ es, e.InLine) :
    ∀ s ∈ renderAll es, OneLine s := by
  rw [renderAll_eq]
  exact List.forall_mem_map.2 h

theorem oneLine_initializerText {texts : List String} (h : ∀ s ∈ texts, OneLine s) :
    OneLine (initializerText texts) := by
  have hshown : OneLine (commaList (texts.take shownElements)) :=
    oneLine_commaList fun s hs => h s (List.mem_of_mem_take hs)
  have hrest : OneLine (if shownElements < texts.length then ", ..." else "") := by
    split <;> decide
  simp only [initializerText, only_append]
  exact ⟨⟨⟨by decide, hshown⟩, hrest⟩, by decide⟩

theorem oneLine_renderReceiver {receiver : Option Expr} (h : ∀ e ∈ receiver, e.InLine) :
    OneLine (renderReceiver receiver) := by
  cases receiver with
  | none => exact only_empty _
  | some e =>
    refine only_append.2 ⟨h e rfl, ?_⟩
    decide

theorem oneLine_renderDimensions {ds : List (Option Expr)} (h : ∀ d ∈ ds, ∀ e ∈ d, e.InLine) :
    OneLine (renderDimensions ds) := by
  induction ds with
  | nil => exact only_empty _
  | cons d ds ih =>
    obtain ⟨hd, hds⟩ := List.forall_mem_cons.1 h
    cases d with
    | none =>
      simp only [renderDimensions, only_append]
      exact ⟨by decide, ih hds⟩
    | some e =>
      simp only [renderDimensions, only_append]
      exact ⟨⟨⟨by decide, hd e rfl⟩, by decide⟩, ih hds⟩

theorem oneLine_renderInitializer {initializer : Option (List Expr)}
    (h : ∀ es ∈ initializer, ∀ e ∈ es, e.InLine) : OneLine (renderInitializer initializer) := by
  cases initializer with
  | none => exact only_empty _
  | some es =>
    refine only_append.2 ⟨by decide, ?_⟩
    exact oneLine_initializerText (oneLine_renderAll (h es rfl))

theorem inLine_call {receiver : Option Expr} {called : String} {args : List Expr}
    (hreceiver : ∀ e ∈ receiver, e.InLine) (hcalled : OneLine called) (hargs : ∀ e ∈ args, e.InLine) :
    (call receiver called args).InLine := by
  have hfront := oneLine_renderReceiver hreceiver
  have hlist := oneLine_commaList (oneLine_renderAll hargs)
  simp only [InLine, render, only_append]
  exact ⟨⟨⟨⟨hfront, hcalled⟩, by decide⟩, hlist⟩, by decide⟩

theorem inLine_creation {type : String} {args : List Expr} {hasBody : Bool} (htype : OneLine type)
    (hargs : ∀ e ∈ args, e.InLine) : (creation type args hasBody).InLine := by
  have hlist := oneLine_commaList (oneLine_renderAll hargs)
  have hbody : OneLine (if hasBody then " \x7b ... \x7d" else "") := by
    split <;> decide
  simp only [InLine, render, only_append]
  exact ⟨⟨⟨⟨⟨by decide, htype⟩, by decide⟩, hlist⟩, by decide⟩, hbody⟩

theorem inLine_newArray {element : String} {dimensions : List (Option Expr)}
    {initializer : Option (List Expr)} (helement : OneLine element)
    (hdimensions : ∀ d ∈ dimensions, ∀ e ∈ d, e.InLine)
    (hinitializer : ∀ es ∈ initializer, ∀ e ∈ es, e.InLine) :
    (newArray element dimensions initializer).InLine := by
  simp only [InLine, render, only_append]
  exact ⟨⟨⟨by decide, helement⟩, oneLine_renderDimensions hdimensions⟩,
    oneLine_renderInitializer hinitializer⟩

theorem inLine_arrayInit {items : List Expr} (h : ∀ e ∈ items, e.InLine) : (arrayInit items).InLine :=
  oneLine_initializerText (oneLine_renderAll h)

/-- Expressions with an operator between. -/
theorem inLine_binary {left right : Expr} {op : String} (hleft : left.InLine) (hop : OneLine op)
    (hright : right.InLine) : (binary left op right).InLine := by
  simp only [InLine, render, only_append]
  exact ⟨⟨⟨⟨hleft, by decide⟩, hop⟩, by decide⟩, hright⟩

end Expr

/-! ## What is looked up among the parts -/

namespace Lifted

/-- A node that is spelled, with its expression and those of its named children in one line. -/
structure InLine (p : Lifted) : Prop where
  spelled : p.node.IsSpelled
  expr : p.expr.InLine
  items : ∀ e ∈ p.items, e.InLine

theorem oneLine_collapsedText (n : Node) : OneLine (collapsedText n) :=
  oneLine_collapse _

variable {parts : List Lifted} {r : Role}

theorem mem_of_child? {p : Lifted} (h : child? parts r = some p) :
    p ∈ parts ∧ p.node.role = some r := by
  have hrole := List.find?_some h
  exact ⟨List.mem_of_find?_eq_some h, of_decide_eq_true hrole⟩

/-- What is taken of the part in a role, with a default. -/
theorem getD_child? {α : Type} {P : α → Prop} {f : Lifted → α} {default : α} (hdefault : P default)
    (h : ∀ p ∈ parts, p.node.role = some r → P (f p)) : P (((child? parts r).map f).getD default) := by
  cases hchild : child? parts r with
  | none => exact hdefault
  | some p =>
    obtain ⟨hp, hrole⟩ := mem_of_child? hchild
    exact h p hp hrole

theorem oneLine_collapsedAs : OneLine (collapsedAs parts r) := by
  apply getD_child?
  · simp
  · exact fun p _ _ => oneLine_collapsedText p.node

theorem oneLine_textAs (h : ∀ p ∈ parts, p.node.role = some r → Solid p.node.text) :
    OneLine (textAs parts r) := by
  apply getD_child?
  · simp
  · exact fun p hp hrole => (h p hp hrole).oneLine

theorem oneLine_lastText (h : ∀ p, parts.getLast? = some p → Solid p.node.text) :
    OneLine (lastText parts) := by
  rw [lastText]
  cases hlast : parts.getLast? with
  | none => simp
  | some p => exact (h p hlast).oneLine

theorem oneLine_typeArguments : OneLine (typeArguments parts) := by
  rw [typeArguments]
  cases (named parts).find? (fun p => p.node.kind = .typeArguments) with
  | none => simp
  | some p => exact oneLine_collapsedText p.node

theorem oneLine_testedType (h : ∀ p ∈ parts, p.node.role = some .name → Solid p.node.text) :
    OneLine (testedType parts) := by
  unfold testedType
  cases hname : child? parts .name with
  | none =>
    cases child? parts .right with
    | none => exact oneLine_collapsedAs
    | some p => exact oneLine_collapsedText p.node
  | some name =>
    obtain ⟨hmem, hrole⟩ := mem_of_child? hname
    have hvariable : OneLine name.node.text := (h name hmem hrole).oneLine
    simp only [only_append]
    refine ⟨⟨?_, by decide⟩, hvariable⟩
    cases child? parts .right with
    | none => exact oneLine_collapsedAs
    | some p => exact oneLine_collapsedText p.node

section

variable (h : ∀ p ∈ parts, p.InLine)

include h

theorem inLine_exprAs : (exprAs parts r).InLine := by
  apply getD_child?
  · exact Expr.inLine_other_empty
  · exact fun p hp _ => (h p hp).expr

theorem inLine_arguments : ∀ e ∈ arguments parts, e.InLine := by
  refine getD_child? (P := fun es : List Expr => ∀ e ∈ es, e.InLine) ?_ ?_
  · simp
  · exact fun p hp _ => (h p hp).items

theorem inLine_named : ∀ e ∈ (named parts).map Lifted.expr, e.InLine := by
  intro e he
  obtain ⟨p, hp, rfl⟩ := List.mem_map.1 he
  exact (h p (List.mem_of_mem_filter hp)).expr

theorem inLine_firstNamed : (firstNamed parts).InLine := by
  rw [firstNamed, ← List.head?_map]
  cases hfirst : ((named parts).map Lifted.expr).head? with
  | none => exact Expr.inLine_other_empty
  | some e => exact inLine_named h e (List.mem_of_head? hfirst)

theorem inLine_dimensions :
    ∀ d ∈ (parts.filter (fun p => p.node.role = some .dimensions)).flatMap dimensionsOf,
      ∀ e ∈ d, e.InLine := by
  intro d hd e he
  obtain ⟨p, hp, hd⟩ := List.mem_flatMap.1 hd
  by_cases hkind : p.node.kind = .dimensionsExpr
  · rw [dimensionsOf, if_pos hkind] at hd
    rw [List.mem_singleton.1 hd] at he
    exact (h p (List.mem_of_mem_filter hp)).items e (List.mem_of_head? he)
  · rw [dimensionsOf, if_neg hkind] at hd
    rw [List.eq_of_mem_replicate hd] at he
    cases he

theorem inLine_initializer : ∀ es ∈ (child? parts .value).map Lifted.items, ∀ e ∈ es, e.InLine := by
  intro es hes
  obtain ⟨p, hp, rfl⟩ := Option.map_eq_some_iff.1 hes
  exact (h p (mem_of_child? hp).1).items

theorem inLine_receiver : ∀ e ∈ (child? parts .object).map Lifted.expr, e.InLine := by
  intro e he
  obtain ⟨p, hp, rfl⟩ := Option.map_eq_some_iff.1 he
  exact (h p (mem_of_child? hp).1).expr

theorem oneLine_lambdaParameters : OneLine (lambdaParameters parts) := by
  unfold lambdaParameters
  split
  · decide
  next ps hps =>
    split
    next hkind => exact ((h ps (mem_of_child? hps).1).spelled.word (.inl hkind)).oneLine
    · have hlist : OneLine (Expr.commaList (ps.node.children.map collapsedText)) :=
        Expr.oneLine_commaList (List.forall_mem_map.2 fun n _ => oneLine_collapsedText n)
      simp only [only_append]
      exact ⟨⟨by decide, hlist⟩, by decide⟩

theorem oneLine_lambdaBody : OneLine (Expr.renderBody (lambdaBody parts)) := by
  unfold lambdaBody
  split
  · decide
  next b hb =>
    split
    · split
      · decide
      · exact oneLine_collapsedText _
    · exact (h b (mem_of_child? hb).1).expr

theorem oneLine_qualifier : OneLine (qualifier parts) := by
  unfold qualifier
  split
  · simp
  next q hq =>
    split
    · exact oneLine_collapsedText _
    · exact (h q (List.mem_of_mem_filter (List.mem_of_head? hq))).expr

/-- The mark of an increment or decrement stands first or last. -/
theorem inLine_update
    (hmark : (∃ p, parts.head? = some p ∧ p.node.kind = .symbol ∧
        (p.node.text = "++" ∨ p.node.text = "--")) ∨
      ∀ p, parts.getLast? = some p → Solid p.node.text) : (update parts).InLine := by
  have hoperand := inLine_firstNamed h
  have hpostfixed (hlast : ∀ p, parts.getLast? = some p → Solid p.node.text) :
      (Expr.postfixed (firstNamed parts) (lastText parts)).InLine :=
    only_append.2 ⟨hoperand, oneLine_lastText hlast⟩
  unfold update
  split
  next first hfirst =>
    split
    next hsymbol =>
      refine only_append.2 ⟨?_, hoperand⟩
      simp only [Bool.and_eq_true, decide_eq_true_eq, Bool.or_eq_true, beq_iff_eq] at hsymbol
      rcases hsymbol.2 with htext | htext <;> rw [htext] <;> decide
    next hsymbol =>
      refine hpostfixed (hmark.resolve_left ?_)
      rintro ⟨p, hp, hkind, htext⟩
      cases hfirst.symm.trans hp
      apply hsymbol
      simpa [hkind] using htext
  next hnone =>
    refine hpostfixed (hmark.resolve_left ?_)
    rintro ⟨p, hp, -⟩
    cases hnone.symm.trans hp

end

/-- **The expression of a node is in one line**, if those of its parts are. -/
theorem inLine_compose {n : Node} (hparts : parts.map Lifted.node = n.parts) (hn : n.IsSpelled)
    (hliteral : n.kind.isLiteral = true → OneLine n.text) (h : ∀ p ∈ parts, p.InLine) :
    (compose n parts).InLine := by
  have hrole : ∀ role ∈ n.kind.spelledRoles, ∀ p ∈ parts, p.node.role = some role →
      Solid p.node.text := by
    intro role hrole p hp
    exact hn.part role hrole p.node (hparts ▸ List.mem_map_of_mem hp)
  have hlast : ∀ p, parts.getLast? = some p → n.parts.getLast? = some p.node := by
    intro p hp
    rw [← hparts, List.getLast?_map, hp]
    rfl
  have hexpr : ∀ r, (exprAs parts r).InLine := fun r => inLine_exprAs h
  unfold compose
  split
  next hk => exact hliteral (by rw [hk]; rfl)
  next hk => exact hliteral (by rw [hk]; rfl)
  next hk => exact (hn.word (.inl hk)).oneLine
  next hk => exact (hn.word (.inr (.inl hk))).oneLine
  next hk => exact (hn.word (.inr (.inr hk))).oneLine
  next => exact oneLine_collapsedText n
  next hk =>
    have hname := oneLine_textAs (hrole .name (by rw [hk]; exact .head _))
    exact Expr.inLine_call (inLine_receiver h) hname (inLine_arguments h)
  next => exact Expr.inLine_creation oneLine_collapsedAs (inLine_arguments h)
  next =>
    exact Expr.inLine_newArray oneLine_collapsedAs (inLine_dimensions h) (inLine_initializer h)
  next => exact Expr.inLine_arrayInit (inLine_named h)
  next hk =>
    have hfield := oneLine_textAs (hrole .field (by rw [hk]; exact .head _))
    exact only_append.2 ⟨only_append.2 ⟨hexpr .object, by decide⟩, hfield⟩
  next =>
    simp only [Expr.InLine, Expr.render, only_append]
    exact ⟨⟨⟨hexpr .array, by decide⟩, hexpr .index⟩, by decide⟩
  next =>
    simp only [Expr.InLine, Expr.render, only_append]
    exact ⟨⟨⟨by decide, oneLine_collapsedAs⟩, by decide⟩, hexpr .value⟩
  next =>
    simp only [Expr.InLine, Expr.render, only_append]
    exact ⟨⟨by decide, inLine_firstNamed h⟩, by decide⟩
  next =>
    simp only [Expr.InLine, Expr.render, only_append]
    exact ⟨⟨oneLine_lambdaParameters h, by decide⟩, oneLine_lambdaBody h⟩
  next hk =>
    have hname := oneLine_lastText fun p hp => hn.reference hk p.node (hlast p hp)
    simp only [Expr.InLine, Expr.render, only_append]
    exact ⟨⟨⟨oneLine_qualifier h, by decide⟩, oneLine_typeArguments⟩, hname⟩
  next hk =>
    have htype := oneLine_testedType (hrole .name (by rw [hk]; exact .head _))
    simp only [Expr.InLine, Expr.render, only_append]
    exact ⟨⟨hexpr .left, by decide⟩, htype⟩
  next =>
    simp only [Expr.InLine, Expr.render, only_append]
    exact ⟨⟨⟨⟨hexpr .condition, by decide⟩, hexpr .consequence⟩, by decide⟩, hexpr .alternative⟩
  next hk =>
    have hoperator := oneLine_textAs (hrole .operator (by rw [hk]; exact .head _))
    exact Expr.inLine_binary (hexpr .left) hoperator (hexpr .right)
  next hk =>
    have hoperator := oneLine_textAs (hrole .operator (by rw [hk]; exact .head _))
    exact only_append.2 ⟨hoperator, hexpr .operand⟩
  next hk =>
    refine inLine_update h ((hn.update hk).imp ?_ fun hsolid p hp => hsolid p.node (hlast p hp))
    rintro ⟨first, hfirst, hmark⟩
    rw [← hparts, List.head?_map] at hfirst
    obtain ⟨p, hp, rfl⟩ := Option.map_eq_some_iff.1 hfirst
    exact ⟨p, hp, hmark⟩
  next hk =>
    have hoperator := oneLine_textAs (hrole .operator (by rw [hk]; exact .head _))
    exact Expr.inLine_binary (hexpr .left) hoperator (hexpr .right)
  next => exact oneLine_collapsedText n

/-! ## Trees -/

theorem node_ofNode (n : Node) : (ofNode n).node = n := by
  cases n <;> rfl

theorem ofAll_eq (ns : List Node) : ofAll ns = ns.map ofNode := by
  induction ns with
  | nil => rfl
  | cons n ns ih => rw [ofAll, ih, List.map_cons]


mutual
theorem inLine_ofNode (n : Node) (h : ∀ m, n.Holds m → m.IsSpelled)
    (hliterals : ∀ m, n.Holds m → m.kind.isLiteral = true → OneLine m.text) : (ofNode n).InLine := by
  match n with
  | .leaf r k t =>
    exact ⟨h _ .refl, inLine_compose rfl (h _ .refl) (hliterals _ .refl) (by simp), by simp [ofNode]⟩
  | .branch r k cs =>
    have hparts : ∀ p ∈ ofAll cs, p.InLine := by
      apply inLine_ofAll cs
      · exact fun c hc m hm => h m (.head hc hm)
      · exact fun c hc m hm => hliterals m (.head hc hm)
    have hnodes : (ofAll cs).map Lifted.node = (Node.branch r k cs).parts := by
      rw [ofAll_eq, List.map_map]
      exact List.map_id'' node_ofNode cs
    exact ⟨h _ .refl, inLine_compose hnodes (h _ .refl) (hliterals _ .refl) hparts,
      inLine_named hparts⟩
theorem inLine_ofAll (ns : List Node) (h : ∀ n ∈ ns, ∀ m, n.Holds m → m.IsSpelled)
    (hliterals : ∀ n ∈ ns, ∀ m, n.Holds m → m.kind.isLiteral = true → OneLine m.text) :
    ∀ p ∈ ofAll ns, p.InLine := by
  match ns with
  | [] => simp [ofAll]
  | n :: ns =>
    rw [List.forall_mem_cons] at h hliterals
    exact List.forall_mem_cons.2
      ⟨inLine_ofNode n h.1 hliterals.1, inLine_ofAll ns h.2 hliterals.2⟩
end

end Lifted

/-- **Arguments are shown in one line, but for their literals**: if the text of an argument goes over
several lines, so does a literal in the list of arguments. -/
theorem exists_literal_of_renderArguments {list : Node} (h : ∀ m, list.Holds m → m.IsSpelled)
    {text : String} (htext : text ∈ renderArguments list) (hlines : ¬ OneLine text) :
    ∃ m, list.Holds m ∧ m.kind.isLiteral = true ∧ ¬ OneLine m.text := by
  by_contra hnone
  obtain ⟨e, he, rfl⟩ := List.mem_map.1 htext
  obtain ⟨argument, hargument, rfl⟩ := List.mem_map.1 he
  have hbelow : ∀ m, argument.Holds m → list.Holds m := fun m =>
    .head (List.mem_of_mem_filter hargument)
  refine hlines (Lifted.inLine_ofNode argument (fun m hm => h m (hbelow m hm)) ?_).expr
  intro m hm hkind
  by_contra hm'
  exact hnone ⟨m, hbelow m hm, hkind, hm'⟩

end CallOrigins.Java
