import CallOrigins.Proofs.Java.ShortenedLists

/-!
# Omissions

The text of an argument announces by `...` what it elides. What it leaves out silently is what its
phrases shorten: `Shortening` and `ShortenedLists` say so of one phrase and its parts, and here this
is carried through the whole expression (`IsPlain.isTold`), by recursion on the tree. The tree of
every source follows the grammar, as that asks (`followsGrammar_parse`).

**The law** (`compact_renderArguments_iff`): an argument without errors, comments and elided parts
is shown in full, blanks aside, exactly if nothing that is displayed of it shortens. That nothing
shortens cannot be left out: the type arguments of a call disappear (`typedCall_shortened`).
-/

namespace CallOrigins.Java

open Grammar Text

namespace Node

/-! ## Expressions as a whole -/

/-- Between the tokens of a tree there are only blanks, so no comments. -/
def IsUncommented (n : Node) : Prop :=
  ∀ t ∈ n.tokens.tail, IsBlank t.gap

instance (n : Node) : Decidable n.IsUncommented :=
  List.decidableBAll (fun t : Token => IsBlank t.gap) n.tokens.tail

/-- **The parts that are displayed** of a node: its own ones if it is taken apart, and so on. -/
def Displays : Node → Node → Prop :=
  Relation.ReflTransGen fun n p => n.kind.isTakenApart = true ∧ p ∈ n.parts

theorem Displays.holds {n m : Node} (h : n.Displays m) : n.Holds m :=
  (Relation.ReflTransGen.mono fun _ _ hp => hp.2) n m h

/-- A tree with nothing missing and no comments in it, and with phrases where it is taken apart. -/
structure IsPlain (n : Node) : Prop where
  phrases : ∀ m, n.Holds m → m.kind.isTakenApart = true → ∃ r, m.IsPhrase r
  complete : n.isIncomplete = false
  uncommented : n.IsUncommented

theorem written_eq_inSource {n : Node} (h : n.IsUncommented) : n.written = n.inSource := by
  rw [written, text, inSource]
  rw [IsUncommented] at h
  cases hts : n.tokens with
  | nil => rfl
  | cons t ts =>
    rw [hts, List.tail_cons] at h
    have hjoin : compactChars (String.join (ts.map fun u => u.gap ++ u.text)).toList =
        ts.flatMap fun u => compactChars u.text.toList := by
      clear hts
      induction ts with
      | nil => rfl
      | cons u ts ih =>
        rw [List.forall_mem_cons] at h
        simp only [List.map_cons, String.join_cons, String.toList_append, compactChars_append,
          compactChars_eq_nil h.1, List.nil_append, List.flatMap_cons, ih h.2]
    rw [textOf, String.toList_append, compactChars_append, hjoin, List.flatMap_cons]

theorem IsUncommented.part {n p : Node} (h : n.IsUncommented) (hp : p ∈ n.parts) :
    p.IsUncommented := by
  intro t ht
  refine h t ?_
  cases n with
  | leaf => cases hp
  | branch r k parts =>
    obtain ⟨front, back, hparts⟩ := List.append_of_mem hp
    rw [tokens_branch, show parts = front ++ p :: back from hparts, List.flatMap_append,
      List.flatMap_cons]
    cases front.flatMap tokens with
    | nil =>
      cases hts : p.tokens with
      | nil => simp [hts] at ht
      | cons u us =>
        rw [hts] at ht
        exact List.mem_append_left _ ht
    | cons u us => exact List.mem_append_right _ (List.mem_append_left _ (List.mem_of_mem_tail ht))

theorem IsPlain.part {n p : Node} (h : n.IsPlain) (hp : p ∈ n.parts) : p.IsPlain where
  phrases m hm := h.phrases m (.head hp hm)
  complete := Holds.complete (.single hp) h.complete
  uncommented := h.uncommented.part hp

/-- **What is shown of a tree**: all of it, or less if something that is displayed shortens. -/
def IsTold (n : Node) : Prop :=
  (∀ m, n.Displays m → m.shortens = false) ∧ n.inReport = n.inSource ∨
    (∃ m, n.Displays m ∧ m.shortens = true) ∧ weight n.inReport < weight n.inSource

theorem IsTold.weight_le {n : Node} (h : n.IsTold) : weight n.inReport ≤ weight n.inSource := by
  rcases h with ⟨-, h⟩ | ⟨-, h⟩
  · rw [h]
  · exact h.le

/-- Nodes side by side: all of them are shown, or less than all. -/
theorem shown_or_weight_lt {ns : List Node} (h : ∀ n ∈ ns, n.IsTold) :
    (∀ n ∈ ns, (∀ m, n.Displays m → m.shortens = false) ∧ n.inReport = n.inSource) ∨
      (∃ n ∈ ns, ∃ m, n.Displays m ∧ m.shortens = true) ∧
        weight (ns.flatMap inReport) < weight (ns.flatMap inSource) := by
  induction ns with
  | nil => exact .inl fun _ hn => absurd hn List.not_mem_nil
  | cons n ns ih =>
    rw [List.forall_mem_cons] at h
    simp only [List.flatMap_cons, weight_append]
    rcases h.1 with hshown | ⟨hm, hlt⟩
    · rcases ih h.2 with hrest | ⟨⟨p, hp, hm⟩, hlt⟩
      · exact .inl (List.forall_mem_cons.2 ⟨hshown, hrest⟩)
      · refine .inr ⟨⟨p, .tail _ hp, hm⟩, ?_⟩
        rw [hshown.2]
        omega
    · have hrest := weight_flatMap_le fun p hp => (h.2 p hp).weight_le
      exact .inr ⟨⟨n, .head _, hm⟩, by omega⟩

theorem isTold_of_isAccounted {n : Node} (hkind : n.kind.isTakenApart = true)
    (hsource : n.inSource = n.parts.flatMap inSource) (h : n.IsAccounted)
    (hparts : ∀ p ∈ n.parts, p.IsTold) : n.IsTold := by
  rcases h with ⟨hshortens, hwhole⟩ | ⟨hshortens, hshort⟩
  · rcases shown_or_weight_lt hparts with hall | ⟨⟨p, hp, m, hm, hless⟩, hlt⟩
    · refine .inl ⟨fun m hm => ?_, ?_⟩
      · rcases Relation.ReflTransGen.cases_head hm with rfl | ⟨p, ⟨-, hp⟩, hpm⟩
        · exact hshortens
        · exact (hall p hp).1 m hpm
      · rw [hwhole, hsource]
        exact List.flatMap_congr fun p hp => (hall p hp).2
    · refine .inr ⟨⟨m, .head ⟨hkind, hp⟩ hm, hless⟩, ?_⟩
      rwa [hwhole, hsource]
  · exact .inr ⟨⟨n, .refl, hshortens⟩, hshort fun p hp => (hparts p hp).weight_le⟩

theorem shortens_eq_false {n : Node} (h : n.kind.isTakenApart = false) : n.shortens = false := by
  unfold shortens
  split
  case h_13 => rfl
  all_goals
    rename_i hk
    rw [hk] at h
    cases h

mutual
/-- **The law for trees.** -/
theorem IsPlain.isTold (n : Node) (h : n.IsPlain) (helides : ∀ m, n.Displays m → m.elides = false) :
    n.IsTold := by
  by_cases hkind : n.kind.isTakenApart = true
  · obtain ⟨r, hphrase⟩ := h.phrases n .refl hkind
    have hparts : ∀ p ∈ n.parts, p.IsTold := by
      cases n with
      | leaf => exact fun _ hp => absurd hp List.not_mem_nil
      | branch role k parts =>
        exact isTold_of_isPlain parts (fun p hp => h.part hp)
          fun p hp m hm => helides m (.head ⟨hkind, hp⟩ hm)
    have hsource : n.inSource = n.parts.flatMap inSource := by
      rw [hphrase.branch, inSource_branch]
      rfl
    refine isTold_of_isAccounted hkind hsource ?_ hparts
    exact hphrase.isAccounted h.complete hkind (written_eq_inSource h.uncommented)
      (helides n .refl) fun p hp => helides p (.single ⟨hkind, hp⟩)
  · rw [Bool.not_eq_true] at hkind
    refine .inl ⟨fun m hm => ?_, ?_⟩
    · rcases Relation.ReflTransGen.cases_head hm with rfl | ⟨p, ⟨happart, -⟩, -⟩
      · exact shortens_eq_false hkind
      · rw [hkind] at happart
        cases happart
    · rw [inReport_eq_printed (.inr hkind), printed_eq_written hkind,
        written_eq_inSource h.uncommented]
theorem isTold_of_isPlain (ns : List Node) (h : ∀ n ∈ ns, n.IsPlain)
    (helides : ∀ n ∈ ns, ∀ m, n.Displays m → m.elides = false) : ∀ n ∈ ns, n.IsTold := by
  cases ns with
  | nil => exact fun _ hn => absurd hn List.not_mem_nil
  | cons n ns =>
    rw [List.forall_mem_cons] at *
    exact ⟨IsPlain.isTold n h.1 helides.1, isTold_of_isPlain ns h.2 helides.2⟩
end

/-! ## Arguments -/

/-- **A tree that follows the grammar** where its expressions are taken apart. -/
structure FollowsGrammar (n : Node) : Prop where
  phrases : ∀ m, n.Holds m → m.isIncomplete = false → m.kind.isTakenApart = true →
    ∃ r, m.IsPhrase r
  arguments : ∀ m, n.Holds m → m.kind = .argumentList →
    ∀ p ∈ m.children, p.isIncomplete = false → p.kind.isItem = true

/-- Lists of arguments are all of one rule. -/
theorem IsPhrase.of_argumentList {n : Node} {r : Rule} (h : n.IsPhrase r)
    (hkind : n.kind = .argumentList) : n.IsPhrase .argumentList := by
  have hrules : ∀ r ∈ takenApartRules, (definition r).kind = some .argumentList →
      r = .argumentList := by decide
  cases hrules r (h.mem_takenApartRules (hkind ▸ rfl)) (hkind ▸ h.kind)
  exact h

theorem IsPhrase.isItem_children {n : Node} (h : n.IsPhrase .argumentList) :
    ∀ p ∈ n.children, p.isIncomplete = false → p.kind.isItem = true := by
  intro p hp hcomplete
  obtain ⟨hp, hnamed⟩ := List.mem_filter.1 hp
  obtain ⟨a, ha, hyields⟩ := h.parts
  cases List.mem_singleton.1 ha
  have hkind : (p.kind = .symbol || p.kind.isItem) = true :=
    @Form.Yields.forall_kind (fun k => k = .symbol || k.isItem) itemGroups _ _ _ _ _ (by decide)
      hyields rfl p hp hcomplete
  have hsymbol : p.kind ≠ .symbol := by
    intro hk
    simp [isNamed, hk] at hnamed
  simpa [hsymbol] using hkind

end Node

theorem Derivation.ShowsToken.isTakenApart {k : Kind} {t : Token} (h : ShowsToken k t) :
    k.isTakenApart = false := by
  rcases h.cases with rfl | ⟨rfl | rfl, -⟩ | rfl | ⟨u, -, rfl, -⟩
  case inr.inr.inr => exact u.isTakenApart_kind
  all_goals rfl

/-- **The tree of a source follows the grammar.** -/
theorem followsGrammar_parse (source : String) : (parse source).FollowsGrammar where
  phrases m hm hcomplete hkind := by
    rcases isPhrase_of_parse source m hm hcomplete with ⟨role, k, token, rfl, htoken⟩ | hphrase
    · exact absurd hkind (by simp [Node.kind, htoken.isTakenApart])
    · exact hphrase
  arguments := by
    apply forall_holds_parse
    · intro d hd n hn m hm hkind
      rcases hd.isPhrase hn hm with ⟨role, k, token, rfl, htoken⟩ | ⟨r, hphrase⟩
      · exact fun p hp => absurd hp List.not_mem_nil
      · exact (hphrase.of_argumentList hkind).isItem_children
    · intro h
      cases h
    · intro h
      cases h
    · intro r k parts h hkind p hp hcomplete
      obtain ⟨hp, hnamed⟩ := List.mem_filter.1 hp
      rcases List.mem_append.1 hp with hp | hp
      · exact h hkind p (List.mem_filter.2 ⟨hp, hnamed⟩) hcomplete
      · cases List.mem_singleton.1 hp
        cases hcomplete

namespace Node

/-- **Of an argument without errors and comments, nothing is left out silently exactly if nothing
shortens** among what is displayed of it, and otherwise less is shown than there is. Array
initializers with more than three elements, lambda expressions with several statements and anonymous
classes, which elide, are excepted. -/
theorem compact_renderArguments_iff {root list argument : Node} {i : Nat}
    (hroot : root.FollowsGrammar) (hlist : root.Holds list) (hkind : list.kind = .argumentList)
    (hargument : list.children[i]? = some argument) (herror : argument.hasError = false)
    (huncommented : argument.IsUncommented)
    (helides : ∀ m, argument.Displays m → m.elides = false) :
    ∃ text, (renderArguments list)[i]? = some text ∧
      (compact text = compact argument.text ↔
        ∀ m, argument.Displays m → m.shortens = false) := by
  have hmem : argument ∈ list.children := List.mem_of_getElem? hargument
  have hcomplete : argument.isIncomplete = false := (Bool.or_eq_false_iff.1 herror).1
  have hplain : argument.IsPlain := by
    refine ⟨fun m hm hapart => ?_, hcomplete, huncommented⟩
    have hheld : root.Holds m := hlist.trans (.head (List.mem_of_mem_filter hmem) hm)
    exact hroot.phrases m hheld (hm.complete hcomplete) hapart
  refine ⟨(Expr.ofNode argument).render, ?_, ?_⟩
  · simp [renderArguments, Expr.ofArguments, hargument]
  have hshown : argument.inReport = argument.printed :=
    inReport_eq_printed (.inl (hroot.arguments list hlist hkind argument hmem hcomplete))
  have hequal : compact (Expr.ofNode argument).render = compact argument.text ↔
      argument.inReport = argument.inSource := by
    rw [hshown, ← written_eq_inSource huncommented, compact, compact, String.ofList_inj]
    rfl
  rw [hequal]
  rcases hplain.isTold argument helides with ⟨hall, hreport⟩ | ⟨⟨m, hm, hshortens⟩, hless⟩
  · exact iff_of_true hreport hall
  · refine iff_of_false (fun hreport => ?_) fun hall => ?_
    · rw [hreport] at hless
      exact absurd hless (Nat.lt_irrefl _)
    · rw [hall m hm] at hshortens
      cases hshortens

end Node

/-! ## An element of an array and a call with type arguments -/

open Index (token sign noArguments)

section

variable {given role : Option Role} {kind : Option Kind} {f g : Form} {n : Node} {ns : List Node}

theorem Form.yields_cons (hn : f.Yields given role kind [n]) (hns : g.Yields given role kind ns) :
    (seq f g).Yields given role kind (n :: ns) :=
  .seq hn hns

theorem Form.yields_leaf {t : Terminal} {gap text : String} {start : Nat} (ht : t.Allows text)
    (htext : text.isEmpty = false) :
    (Form.token t).Yields given role kind [Index.token role (kind.getD t.kind) gap text start] := by
  have hshown : t.shownAs kind text = kind.getD t.kind := by simp [Terminal.shownAs, htext]
  rw [← hshown]
  exact @Yields.token given role kind t ⟨gap, text, start, false⟩ ht

theorem Form.yields_name {gap text : String} {start : Nat}
    (ht : text.toList.all Scanner.continuesWord = true) (htext : text.isEmpty = false) :
    plainName.Yields given role kind [Index.token role (kind.getD .identifier) gap text start] :=
  yields_leaf (t := .name) ⟨by simpa using htext, List.all_eq_true.1 ht⟩ htext

theorem Form.yields_mark {gap text : String} {start : Nat} (htext : text.isEmpty = false) :
    (mark text).Yields given role none [Index.token role .symbol gap text start] :=
  yields_leaf (t := .mark text) (.inl rfl) htext

theorem Form.yields_primaryExpression (h : (rule .primaryExpression).Yields role role none ns) :
    (rule .expression).Yields given role none ns :=
  .group rfl (.head _) (.right <| .right <| .right <| .right <| .right <| .right <| .left h)

end

namespace Node

/-- An element of an array. -/
def elementOfArray : Node :=
  .branch none .arrayAccess [
    token (some .array) .identifier "" "xs" 1,
    sign "" "[" 3,
    token (some .index) .identifier "" "i" 4,
    sign "" "]" 5]

/-- A call with type arguments. -/
def typedCall : Node :=
  .branch none .methodInvocation [
    token (some .object) .thisWord " " "this" 8,
    sign "" "." 12,
    .branch (some .typeArguments) .typeArguments [
      sign "" "<" 13,
      token none .typeIdentifier "" "String" 14,
      sign "" ">" 20],
    token (some .name) .identifier "" "bar" 21,
    noArguments 24]

/-- Both, as arguments. -/
def elementAndCall : Node :=
  .branch (some .arguments) .argumentList [
    sign "" "(" 0,
    elementOfArray,
    sign "" "," 6,
    typedCall,
    sign "" ")" 26]

theorem IsPhrase.yields {n : Node} {r : Rule} (h : n.IsPhrase r) {given : Option Role} :
    (Form.rule r).Yields given n.role none [n] := by
  obtain ⟨a, ha, hyields⟩ := h.parts
  rw [h.branch]
  exact .node h.kind ha hyields

theorem isPhrase_elementOfArray : elementOfArray.IsPhrase .arrayAccess := by
  refine ⟨rfl, rfl, _, .head _, ?_⟩
  refine Form.yields_cons (.as ?_) (Form.yields_cons ?_ (Form.yields_cons (.as ?_) ?_))
  · exact .group rfl (.head _) <| .right <| .right <| .right <| .left <|
      Form.yields_name (by decide) (by decide)
  · exact Form.yields_mark (by decide)
  · exact Form.yields_primaryExpression <| .group rfl (.head _) <| .right <| .right <| .right <|
      .left <| Form.yields_name (by decide) (by decide)
  · exact Form.yields_mark (by decide)

theorem yields_typeArguments : (Form.rule .typeArguments).Yields none (some .typeArguments) none [
    .branch (some .typeArguments) .typeArguments [
      sign "" "<" 13,
      token none .typeIdentifier "" "String" 14,
      sign "" ">" 20]] := by
  refine .node rfl (.head _) (Form.yields_cons ?_ (Form.yields_cons (.left ?_) ?_))
  · exact Form.yields_mark (by decide)
  · refine Form.yields_cons (.left (.group rfl (.head _) (.left ?_))) (.right .nothing)
    refine .group rfl (.head _) <| .left <| .right <| .right <| .right <| .right <| .left <|
      .shown ?_
    exact Form.yields_name (by decide) (by decide)
  · exact Form.yields_mark (by decide)

theorem isPhrase_noArguments (start : Nat) : (noArguments start).IsPhrase .argumentList := by
  refine ⟨rfl, rfl, _, .head _, Form.yields_cons (Form.yields_mark (by decide)) ?_⟩
  exact @Form.Yields.seq _ _ _ _ _ [] _ (.right .nothing) (Form.yields_mark (by decide))

theorem isPhrase_typedCall : typedCall.IsPhrase .methodInvocation := by
  refine ⟨rfl, rfl, _, .head _, ?_⟩
  refine @Form.Yields.seq _ _ _ _ _ (typedCall.parts.take 4) _ (.right ?_) ?_
  · refine Form.yields_cons (.as (.left ?_)) (Form.yields_cons ?_ ?_)
    · exact .group rfl (.head _) <| .right <| .right <| .left <|
        @Form.yields_leaf _ _ _ (.word "this") _ _ _ rfl (by decide)
    · exact Form.yields_mark (by decide)
    · refine @Form.Yields.seq _ _ _ _ _ [] _ (.right .nothing) ?_
      refine Form.yields_cons (.as (.left yields_typeArguments)) (.as (.left ?_))
      exact Form.yields_name (by decide) (by decide)
  · exact .as (isPhrase_noArguments 24).yields

theorem isPhrase_elementAndCall : elementAndCall.IsPhrase .argumentList := by
  have helement : (Form.rule .primaryExpression).Yields none none none [elementOfArray] :=
    .group rfl (.head _) <| .right <| .right <| .right <| .right <| .right <| .right <| .right <|
      .right <| .left isPhrase_elementOfArray.yields
  have hcall : (Form.rule .primaryExpression).Yields none none none [typedCall] :=
    .group rfl (.head _) <| .right <| .right <| .right <| .right <| .right <| .right <| .right <|
      .right <| .right <| .left isPhrase_typedCall.yields
  refine ⟨rfl, rfl, _, .head _, Form.yields_cons (Form.yields_mark (by decide)) ?_⟩
  refine @Form.Yields.seq _ _ _ _ _ [elementOfArray, sign "" "," 6, typedCall] _
    (.left ?_) (Form.yields_mark (by decide))
  refine Form.yields_cons (Form.yields_primaryExpression helement) (.left (.once ?_))
  exact Form.yields_cons (Form.yields_mark (by decide)) (Form.yields_primaryExpression hcall)

theorem followsGrammar_elementAndCall : elementAndCall.FollowsGrammar := by
  have hholds : ∀ m, elementAndCall.Holds m → m.kind.isTakenApart = false ∨ m = elementAndCall ∨
      m = elementOfArray ∨ m = typedCall ∨ m = noArguments 24 := by
    simp only [elementAndCall, elementOfArray, typedCall, noArguments, sign, token, forall_holds_branch,
      forall_holds_leaf, List.forall_mem_cons, kind, Kind.isTakenApart, List.not_mem_nil,
      false_imp_iff, implies_true, true_or, or_true, and_true]
  constructor
  · intro m hm hcomplete hkind
    rcases hholds m hm with happart | rfl | rfl | rfl | rfl
    · rw [hkind] at happart
      cases happart
    · exact ⟨_, isPhrase_elementAndCall⟩
    · exact ⟨_, isPhrase_elementOfArray⟩
    · exact ⟨_, isPhrase_typedCall⟩
    · exact ⟨_, isPhrase_noArguments 24⟩
  · intro m hm hkind
    rcases hholds m hm with happart | rfl | rfl | rfl | rfl
    · rw [hkind] at happart
      cases happart
    · exact isPhrase_elementAndCall.isItem_children
    · cases hkind
    · cases hkind
    · exact (isPhrase_noArguments 24).isItem_children

theorem elementOfArray_shown :
    elementAndCall.FollowsGrammar ∧ elementAndCall.children[0]? = some elementOfArray ∧
    elementOfArray.hasError = false ∧ elementOfArray.IsUncommented ∧
    (∀ m, elementOfArray.Holds m → m.elides = false ∧ m.shortens = false) ∧
    ∃ text, (renderArguments elementAndCall)[0]? = some text ∧
      compact text = compact elementOfArray.text := by
  have herror : elementOfArray.hasError = false := by decide
  have huncommented : elementOfArray.IsUncommented := by decide
  have hholds : ∀ m, elementOfArray.Holds m → m.elides = false ∧ m.shortens = false := by
    decide +kernel
  refine ⟨followsGrammar_elementAndCall, rfl, herror, huncommented, hholds, ?_⟩
  obtain ⟨text, htext, hiff⟩ := compact_renderArguments_iff followsGrammar_elementAndCall .refl rfl
    (show elementAndCall.children[0]? = some elementOfArray from rfl) herror huncommented
    fun m hm => (hholds m hm.holds).1
  exact ⟨text, htext, hiff.2 fun m hm => (hholds m hm.holds).2⟩

/-- **The type arguments of a call are left out**, and nothing says so. -/
theorem typedCall_shortened :
    elementAndCall.FollowsGrammar ∧ elementAndCall.children[1]? = some typedCall ∧
    typedCall.hasError = false ∧ typedCall.IsUncommented ∧
    (∀ m, typedCall.Holds m → m.elides = false) ∧
    typedCall.text = "this.<String>bar()" ∧
    (renderArguments elementAndCall)[1]? = some "this.bar()" := by
  exact ⟨followsGrammar_elementAndCall, rfl, by decide, by decide, by decide +kernel, by decide,
    by decide⟩

end Node

end CallOrigins.Java
