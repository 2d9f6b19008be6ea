import CallOrigins.Proofs.Java.Phrases

/-!
# Layouts of expressions

A phrase is taken apart by position, so what can stand at each position has to be known. The layouts
of a rule (`Grammar.layouts`) are computed from its form: each is a list of pieces, a piece being a
token, a name, one node of certain kinds in a role, something optional or something repeated.

**The law** (`Node.IsPhrase.exists_layout`): the parts of a phrase with nothing missing fit one of
the layouts of its rule, piece by piece.
-/

namespace CallOrigins.Java

open Grammar Text

/-! ## Complete nodes -/

/-- What is in a complete node is complete. -/
theorem Node.Holds.complete {n m : Node} (h : n.Holds m) (hn : n.isIncomplete = false) :
    m.isIncomplete = false := by
  by_contra hm
  rw [isIncomplete_of_holds h (by simpa using hm)] at hn
  cases hn

/-- A token that is not missing has a text, and is shown as its kind. -/
theorem Terminal.shownAs_of_complete {t : Terminal} {role : Option Role} {kind : Option Kind}
    {token : Token} (h : (Node.leaf role (t.shownAs kind token.text) token).isIncomplete = false) :
    token.text ≠ "" ∧ t.shownAs kind token.text = kind.getD t.kind := by
  have htext : token.text ≠ "" := by
    intro htext
    rw [htext, shownAs] at h
    cases h
  exact ⟨htext, by simp [shownAs, htext]⟩

/-- The form yields these nodes, and nothing is missing in them. -/
def Form.Builds (f : Form) (role : Option Role) (ns : List Node) : Prop :=
  f.Yields none role none ns ∧ ∀ n ∈ ns, n.isIncomplete = false

/-- The text of a keyword or a mark. -/
def Terminal.text : Terminal → String
  | word w | mark w => w
  | _ => ""

/-- The node is a keyword or a mark. -/
def Node.IsToken (n : Node) (role : Option Role) (t : Terminal) : Prop :=
  ∃ token : Token, n = .leaf role t.kind token ∧ token.text = t.text

namespace Form

variable {role : Option Role} {f g : Form} {ns : List Node}

theorem builds_seq : (seq f g).Builds role ns ↔
    ∃ front, f.Builds role front ∧ ∃ back, g.Builds role back ∧ ns = front ++ back := by
  constructor
  · rintro ⟨hyields, hcomplete⟩
    obtain ⟨front, hfront, back, hback, rfl⟩ := yields_seq.1 hyields
    rw [List.forall_mem_append] at hcomplete
    exact ⟨front, ⟨hfront, hcomplete.1⟩, back, ⟨hback, hcomplete.2⟩, rfl⟩
  · rintro ⟨front, ⟨hfront, hcomplete⟩, back, ⟨hback, hcomplete'⟩, rfl⟩
    exact ⟨.seq hfront hback, List.forall_mem_append.2 ⟨hcomplete, hcomplete'⟩⟩

theorem builds_alt : (alt f g).Builds role ns ↔ f.Builds role ns ∨ g.Builds role ns := by
  rw [Builds, yields_alt, or_and_right, Builds, Builds]

theorem builds_as {r : Role} : (as r f).Builds role ns ↔ f.Builds (some r) ns := by
  rw [Builds, yields_as, Builds, Option.none_or]

theorem builds_before {t : Terminal} : (before t f).Builds role ns ↔ f.Builds role ns := by
  rw [Builds, yields_before, Builds]

theorem builds_nothing : nothing.Builds role ns ↔ ns = [] := by
  rw [Builds, yields_nothing, and_iff_left_of_imp]
  rintro rfl
  exact fun _ h => absurd h List.not_mem_nil

theorem builds_opt : f.opt.Builds role ns ↔ f.Builds role ns ∨ ns = [] := by
  rw [opt, builds_alt, builds_nothing]

theorem builds_token {t : Terminal} (ht : t.kind ≠ .error ∧ t.kind ≠ .missing) :
    (token t).Builds role ns ↔
      ∃ token : Token, t.Allows token.text ∧ token.text ≠ "" ∧ ns = [.leaf role t.kind token] := by
  rw [Builds, yields_token]
  constructor
  · rintro ⟨⟨token, hallows, rfl⟩, hcomplete⟩
    obtain ⟨htext, hshown⟩ := Terminal.shownAs_of_complete (hcomplete _ (.head _))
    exact ⟨token, hallows, htext, by rw [hshown, Option.getD_none]⟩
  · rintro ⟨token, hallows, htext, rfl⟩
    refine ⟨⟨token, hallows, by simp [Terminal.shownAs, htext]⟩, List.forall_mem_singleton.2 ?_⟩
    simp [Node.isIncomplete, ht]

theorem builds_node {r : Rule} (hr : (definition r).kind.isSome = true) :
    (rule r).Builds role ns ↔
      ∃ n : Node, (n.role = role ∧ n.IsPhrase r ∧ n.isIncomplete = false) ∧ ns = [n] := by
  rw [Builds, yields_node hr]
  constructor
  · rintro ⟨⟨-, n, rfl, hrole, hphrase⟩, hcomplete⟩
    exact ⟨n, ⟨hrole, hphrase, hcomplete n (.head _)⟩, rfl⟩
  · rintro ⟨n, ⟨hrole, hphrase, hcomplete⟩, rfl⟩
    exact ⟨⟨rfl, n, rfl, hrole, hphrase⟩, List.forall_mem_singleton.2 hcomplete⟩

/-- A repetition is put together of what its content yields. -/
theorem Yields.exists_chunks {given : Option Role} {kind : Option Kind}
    (h : (Form.repeated f).Yields given role kind ns) : ∃ chunks : List (List Node),
      chunks ≠ [] ∧ ns = chunks.flatten ∧ ∀ chunk ∈ chunks, f.Yields role role none chunk := by
  generalize hg : Form.repeated f = g at h
  induction h with
  | @once _ _ _ ns nodes =>
    cases hg
    exact ⟨[ns], by simp, by simp, List.forall_mem_singleton.2 nodes⟩
  | @again _ _ _ front back _ hback ih =>
    cases hg
    obtain ⟨chunks, -, rfl, hchunks⟩ := ih rfl
    refine ⟨chunks ++ [back], by simp, by simp, List.forall_mem_append.2 ⟨hchunks, ?_⟩⟩
    exact List.forall_mem_singleton.2 hback
  | _ => cases hg

end Form

/-! ## Single nodes -/

/-- Nodes that an expression is composed from its parts for; those of other kinds are shown as they
are written. -/
def Kind.isTakenApart : Kind → Bool
  | .methodInvocation | .objectCreationExpression | .arrayCreationExpression | .arrayInitializer
  | .fieldAccess | .arrayAccess | .castExpression | .parenthesizedExpression | .lambdaExpression
  | .methodReference | .instanceofExpression | .ternaryExpression | .assignmentExpression
  | .unaryExpression | .updateExpression | .binaryExpression | .argumentList | .dimensionsExpr
  | .dimensions | .formalParameters | .inferredParameters => true
  | _ => false

/-- Kinds of nodes that stand for one thing: an operand, a type, a name or an annotation. The others
are symbols, lists and what is between brackets. -/
def Kind.isItem : Kind → Bool
  | .symbol | .missing | .error | .argumentList | .typeArguments | .dimensionsExpr | .dimensions
  | .formalParameters | .inferredParameters | .classBody => false
  | _ => true

/-- Kinds of things that are shown as they are written. -/
def Kind.isVerbatim (k : Kind) : Bool :=
  k.isItem && !k.isTakenApart

/-- Groups that stand for one thing each. -/
def itemGroups : List Rule :=
  [.expression, .primaryExpression, .literal, .type, .unannotatedType, .reservedIdentifier,
    .annotationUse]

/-- Groups that stand for one thing each, shown as it is written. -/
def verbatimGroups : List Rule :=
  [.literal, .type, .unannotatedType, .reservedIdentifier, .annotationUse]

theorem Terminal.isTakenApart_kind (t : Terminal) : t.kind.isTakenApart = false := by
  cases t with
  | word text =>
    unfold Terminal.kind
    dsimp only
    split <;> rfl
  | _ => rfl

namespace Form

/-- One node. The groups are taken to stand for one node each. -/
def isSingle (groups : List Rule) : Form → Bool
  | token _ => true
  | rule r => (definition r).kind.isSome || groups.contains r
  | alt f g => f.isSingle groups && g.isSingle groups
  | shown _ f | before _ f => f.isSingle groups
  | _ => false

/-- Only nodes of certain kinds, where they are shown as a kind. The groups are taken to stand for
such nodes. -/
def showsOnly (kinds : Kind → Bool) (groups : List Rule) (kind : Option Kind) : Form → Bool
  | nothing => true
  | token t => kinds (kind.getD t.kind)
  | rule r =>
    match (definition r).kind with
    | some k => kinds k
    | none => groups.contains r
  | seq f g | alt f g => f.showsOnly kinds groups kind && g.showsOnly kinds groups kind
  | repeated f | as _ f | before _ f => f.showsOnly kinds groups kind
  | shown k f => f.showsOnly kinds groups (some k)

/-- One thing. -/
def isItem (f : Form) : Bool :=
  f.isSingle itemGroups && f.showsOnly Kind.isItem itemGroups none

/-- One thing that is shown as it is written. -/
def isVerbatim (f : Form) : Bool :=
  f.isSingle verbatimGroups && f.showsOnly Kind.isVerbatim verbatimGroups none

section

variable {kinds : Kind → Bool} {groups : List Rule} {f : Form} {given role : Option Role}
  {kind : Option Kind} {ns : List Node}

/-- **A form for one node yields one node.** -/
theorem Yields.single
    (hgroups : ∀ r ∈ groups, ∀ f ∈ (definition r).alternatives.map Alternative.form,
      f.isSingle groups = true)
    (h : f.Yields given role kind ns) (hf : f.isSingle groups = true) :
    ∃ n, ns = [n] ∧ n.role = role := by
  induction h with
  | token => exact ⟨_, rfl, rfl⟩
  | node => exact ⟨_, rfl, rfl⟩
  | @group _ _ r a _ hk ha _ ih =>
    rw [isSingle, hk, Option.isSome_none, Bool.false_or, List.contains_iff_mem] at hf
    exact ih (hgroups r hf _ (List.mem_map_of_mem ha))
  | left _ ih =>
    rw [isSingle, Bool.and_eq_true] at hf
    exact ih hf.1
  | right _ ih =>
    rw [isSingle, Bool.and_eq_true] at hf
    exact ih hf.2
  | shown _ ih => exact ih hf
  | before _ ih => exact ih hf
  | _ => cases hf

/-- **The nodes that a form yields are of its kinds**, if nothing is missing in them. -/
theorem Yields.forall_kind
    (hgroups : ∀ r ∈ groups, ∀ f ∈ (definition r).alternatives.map Alternative.form,
      f.showsOnly kinds groups none = true)
    (h : f.Yields given role kind ns) (hf : f.showsOnly kinds groups kind = true) :
    ∀ n ∈ ns, n.isIncomplete = false → kinds n.kind = true := by
  induction h with
  | nothing => exact fun _ hn => absurd hn List.not_mem_nil
  | token =>
    refine List.forall_mem_singleton.2 fun hcomplete => ?_
    rw [Node.kind, (Terminal.shownAs_of_complete hcomplete).2]
    exact hf
  | node hk =>
    rw [showsOnly, hk] at hf
    exact List.forall_mem_singleton.2 fun _ => hf
  | @group _ _ r a _ hk ha _ ih =>
    rw [showsOnly, hk, List.contains_iff_mem] at hf
    exact ih (hgroups r hf _ (List.mem_map_of_mem ha))
  | seq _ _ ihf ihg =>
    rw [showsOnly, Bool.and_eq_true] at hf
    exact List.forall_mem_append.2 ⟨ihf hf.1, ihg hf.2⟩
  | left _ ih =>
    rw [showsOnly, Bool.and_eq_true] at hf
    exact ih hf.1
  | right _ ih =>
    rw [showsOnly, Bool.and_eq_true] at hf
    exact ih hf.2
  | again _ _ ihf ihg => exact List.forall_mem_append.2 ⟨ihf hf, ihg hf⟩
  | once _ ih | as _ ih | shown _ ih | before _ ih => exact ih hf

end

end Form

/-- The node is of one of certain kinds, in a role. -/
structure Node.IsOf (n : Node) (kinds : Kind → Bool) (role : Option Role) : Prop where
  role : n.role = role
  kind : kinds n.kind = true

theorem Node.IsOf.item {n : Node} {role : Option Role} (h : n.IsOf Kind.isVerbatim role) :
    n.IsOf Kind.isItem role :=
  ⟨h.role, (Bool.and_eq_true_iff.1 h.kind).1⟩

theorem Node.IsOf.isNamed {n : Node} {role : Option Role} (h : n.IsOf Kind.isItem role) :
    n.isNamed = true := by
  have hkind := h.kind
  unfold Node.isNamed
  cases hk : n.kind <;> first | rfl | (rw [hk] at hkind; cases hkind)

namespace Form

variable {role : Option Role} {f : Form} {ns : List Node}

theorem Builds.single {kinds : Kind → Bool} {groups : List Rule}
    (hgroups : ∀ r ∈ groups, ∀ f ∈ (definition r).alternatives.map Alternative.form,
      f.isSingle groups = true ∧ f.showsOnly kinds groups none = true)
    (h : f.Builds role ns) (hf : (f.isSingle groups && f.showsOnly kinds groups none) = true) :
    ∃ n : Node, n.IsOf kinds role ∧ ns = [n] := by
  rw [Bool.and_eq_true] at hf
  obtain ⟨n, rfl, hrole⟩ := h.1.single (fun r hr f hf => (hgroups r hr f hf).1) hf.1
  have hkind := h.1.forall_kind (fun r hr f hf => (hgroups r hr f hf).2) hf.2
  exact ⟨n, ⟨hrole, hkind n (.head _) (h.2 n (.head _))⟩, rfl⟩

theorem Builds.item (h : f.Builds role ns) (hf : f.isItem = true) :
    ∃ n : Node, n.IsOf Kind.isItem role ∧ ns = [n] :=
  h.single (by decide) hf

theorem Builds.verbatim (h : f.Builds role ns) (hf : f.isVerbatim = true) :
    ∃ n : Node, n.IsOf Kind.isVerbatim role ∧ ns = [n] :=
  h.single (by decide) hf

end Form

/-! ## Layouts -/

/-- A piece of a phrase, in a role: a keyword or a mark, one of several marks, a name, one thing of
certain kinds, a node of a rule, a form once or not at all, or any number of times. Other forms are
not taken apart. -/
inductive Piece where
  | token (role : Option Role) (t : Terminal)
  | symbol (role : Option Role)
  | name (role : Option Role)
  | item (role : Option Role) (kinds : Kind → Bool)
  | node (role : Option Role) (r : Rule)
  | option (role : Option Role) (f : Form)
  | many (role : Option Role) (f : Form)
  | other (role : Option Role) (f : Form)

namespace Piece

/-- The nodes are those of a piece. -/
def Fits : Piece → List Node → Prop
  | token role t, ns => ∃ n : Node, n.IsToken role t ∧ ns = [n]
  | symbol role, ns => ∃ m, ∃ n : Node, n.IsToken role (.mark m) ∧ ns = [n]
  | name role, ns => ∃ token : Token, ns = [.leaf role .identifier token]
  | item role kinds, ns => ∃ n : Node, n.IsOf kinds role ∧ ns = [n]
  | node role r, ns =>
    ∃ n : Node, (n.role = role ∧ n.IsPhrase r ∧ n.isIncomplete = false) ∧ ns = [n]
  | option role f, ns => ns = [] ∨ f.Builds role ns
  | many role f, ns => ∃ chunks : List (List Node),
      (∀ chunk ∈ chunks, f.Yields role role none chunk ∧ ∀ n ∈ chunk, n.isIncomplete = false) ∧
        ns = chunks.flatten
  | other role f, ns => f.Builds role ns

/-- The nodes are those of some pieces, one after the other. -/
def FitAll : List Piece → List Node → Prop
  | [], ns => ns = []
  | p :: ps, ns => ∃ front back, ns = front ++ back ∧ p.Fits front ∧ FitAll ps back

theorem fitAll_append {ps qs : List Piece} {front back : List Node} (hfront : FitAll ps front)
    (hback : FitAll qs back) : FitAll (ps ++ qs) (front ++ back) := by
  induction ps generalizing front with
  | nil =>
    cases hfront
    exact hback
  | cons p ps ih =>
    obtain ⟨first, rest, rfl, hfirst, hrest⟩ := hfront
    exact ⟨first, rest ++ back, List.append_assoc .., hfirst, ih hrest⟩

theorem fitAll_single {p : Piece} {ns : List Node} (h : p.Fits ns) : ∃ ps ∈ [[p]], FitAll ps ns :=
  ⟨[p], .head _, ns, [], (List.append_nil ns).symm, h, rfl⟩

end Piece

namespace Form

/-- A name, or a keyword that counts as one. -/
def isName : Form → Bool
  | token t => t == .name
  | rule r => r == .reservedIdentifier
  | alt f g => f.isName && g.isName
  | _ => false

/-- Nothing but marks. -/
def isMarks : Form → Bool
  | token (.mark _) => true
  | alt f g => f.isMarks && g.isMarks
  | _ => false

/-- **All the ways to lay out a form in pieces.** -/
def layouts (role : Option Role) : Form → List (List Piece)
  | nothing => [[]]
  | token t =>
    if t = .name then [[.name role]]
    else if t.isSpelled then [[.token role t]] else [[.other role (token t)]]
  | rule r =>
    if r = .reservedIdentifier then [[.name role]]
    else if (rule r).isVerbatim then [[.item role Kind.isVerbatim]]
    else if (definition r).kind.isSome then [[.node role r]]
    else if (rule r).isItem then [[.item role Kind.isItem]]
    else [[.other role (rule r)]]
  | seq f g => (f.layouts role).flatMap fun front => (g.layouts role).map fun back => front ++ back
  | alt (repeated f) nothing => [[.many role f]]
  | alt f nothing => [[.option role f]]
  | alt f g =>
    if (alt f g).isName then [[.name role]]
    else if (alt f g).isMarks then [[.symbol role]]
    else if (alt f g).isVerbatim then [[.item role Kind.isVerbatim]]
    else if (alt f g).isItem then [[.item role Kind.isItem]]
    else f.layouts role ++ g.layouts role
  | repeated f => [[.many role f]]
  | as r f => f.layouts (some r)
  | before _ f => f.layouts role
  | shown k f => [[.other role (shown k f)]]

variable {role : Option Role} {f g : Form} {ns : List Node}

/-- Nothing but keywords. -/
def isKeywords : Form → Bool
  | token (.word w) => Terminal.words.contains w
  | alt f g => f.isKeywords && g.isKeywords
  | _ => false

theorem Yields.keyword {given : Option Role} {k : Kind} (h : f.Yields given role (some k) ns)
    (hf : f.isKeywords = true) : ∃ token : Token, ns = [.leaf role k token] := by
  have hwords : ∀ w ∈ Terminal.words, w.isEmpty = false := by decide
  induction f with
  | token t =>
    obtain ⟨token, hallows, rfl⟩ := yields_token.1 h
    cases t with
    | word w =>
      have hw : w ∈ Terminal.words := List.contains_iff_mem.1 hf
      obtain rfl : token.text = w := hallows
      exact ⟨token, by simp [Terminal.shownAs, hwords _ hw]⟩
    | _ => cases hf
  | alt f g ihf ihg =>
    rw [isKeywords, Bool.and_eq_true] at hf
    rcases yields_alt.1 h with h | h
    · exact ihf h hf.1
    · exact ihg h hf.2
  | _ => cases hf

theorem Builds.name (h : f.Builds role ns) (hf : f.isName = true) : (Piece.name role).Fits ns := by
  induction f with
  | token t =>
    obtain rfl := beq_iff_eq.1 hf
    obtain ⟨token, -, -, rfl⟩ := (builds_token (by decide)).1 h
    exact ⟨token, rfl⟩
  | rule r =>
    obtain rfl := beq_iff_eq.1 hf
    obtain ⟨-, a, ha, hyields⟩ := (yields_group rfl).1 h.1
    simp only [definition, reservedIdentifier, List.mem_cons, List.not_mem_nil, or_false] at ha
    rcases ha with rfl | rfl
    · exact (yields_shown.1 hyields).keyword (by decide)
    · exact (yields_shown.1 hyields).keyword (by decide)
  | alt f g ihf ihg =>
    rw [isName, Bool.and_eq_true] at hf
    rcases builds_alt.1 h with h | h
    · exact ihf h hf.1
    · exact ihg h hf.2
  | _ => cases hf

theorem Builds.token {t : Terminal} (h : (Form.token t).Builds role ns) (hname : t ≠ .name)
    (ht : t.isSpelled = true) : (Piece.token role t).Fits ns := by
  cases t with
  | name => exact absurd rfl hname
  | word w =>
    have hkind : (Terminal.word w).kind ≠ .error ∧ (Terminal.word w).kind ≠ .missing := by
      unfold Terminal.kind
      dsimp only
      constructor <;> split <;> simp
    obtain ⟨token, hallows, -, rfl⟩ := (builds_token hkind).1 h
    exact ⟨_, ⟨token, rfl, hallows⟩, rfl⟩
  | mark m =>
    obtain ⟨token, hallows, htext, rfl⟩ := (builds_token (by simp [Terminal.kind])).1 h
    exact ⟨_, ⟨token, rfl, hallows.resolve_right fun h => htext h.1⟩, rfl⟩
  | _ => cases ht

theorem Builds.symbol (h : f.Builds role ns) (hf : f.isMarks = true) :
    (Piece.symbol role).Fits ns := by
  induction f with
  | token t =>
    cases t with
    | mark m => exact ⟨m, h.token (by simp) rfl⟩
    | _ => cases hf
  | alt f g ihf ihg =>
    rw [isMarks, Bool.and_eq_true] at hf
    rcases builds_alt.1 h with h | h
    · exact ihf h hf.1
    · exact ihg h hf.2
  | _ => cases hf

theorem Builds.repeated (h : (Form.repeated f).Builds role ns) : (Piece.many role f).Fits ns := by
  obtain ⟨chunks, -, rfl, hchunks⟩ := h.1.exists_chunks
  refine ⟨chunks, fun chunk hchunk => ⟨hchunks chunk hchunk, fun n hn => ?_⟩, rfl⟩
  exact h.2 n (List.mem_flatten_of_mem hchunk hn)

theorem Builds.many (h : f.many.Builds role ns) : (Piece.many role f).Fits ns := by
  rcases builds_opt.1 h with h | rfl
  · exact h.repeated
  · exact ⟨[], by simp, rfl⟩

/-- **What is complete is laid out in one of these ways.** -/
theorem Builds.exists_layout (h : f.Builds role ns) :
    ∃ ps ∈ f.layouts role, Piece.FitAll ps ns := by
  fun_induction f.layouts role generalizing ns with
  | case1 => exact ⟨[], .head _, builds_nothing.1 h⟩
  | case2 => exact Piece.fitAll_single (h.name rfl)
  | case3 role t hname ht => exact Piece.fitAll_single (h.token hname ht)
  | case4 | case9 | case21 => exact Piece.fitAll_single h
  | case5 => exact Piece.fitAll_single (h.name rfl)
  | case6 role r _ hitem => exact Piece.fitAll_single (h.verbatim hitem)
  | case7 role r _ _ hr => exact Piece.fitAll_single ((builds_node hr).1 h)
  | case8 role r _ _ _ hitem => exact Piece.fitAll_single (h.item hitem)
  | case10 role f g ihg ihf =>
    obtain ⟨front, hfront, back, hback, rfl⟩ := builds_seq.1 h
    obtain ⟨ps, hps, hfits⟩ := ihf hfront
    obtain ⟨qs, hqs, hfits'⟩ := ihg hback
    exact ⟨ps ++ qs, List.mem_flatMap.2 ⟨ps, hps, List.mem_map_of_mem hqs⟩,
      Piece.fitAll_append hfits hfits'⟩
  | case11 role f => exact Piece.fitAll_single (Builds.many h)
  | case12 role f => exact Piece.fitAll_single (builds_opt.1 h).symm
  | case13 role f g _ _ hname => exact Piece.fitAll_single (h.name hname)
  | case14 role f g _ _ _ hmarks => exact Piece.fitAll_single (h.symbol hmarks)
  | case15 role f g _ _ _ _ hitem => exact Piece.fitAll_single (h.verbatim hitem)
  | case16 role f g _ _ _ _ _ hitem => exact Piece.fitAll_single (h.item hitem)
  | case17 role f g _ _ _ _ _ _ ihf ihg =>
    rcases builds_alt.1 h with h | h
    · obtain ⟨ps, hps, hfits⟩ := ihf h
      exact ⟨ps, List.mem_append_left _ hps, hfits⟩
    · obtain ⟨ps, hps, hfits⟩ := ihg h
      exact ⟨ps, List.mem_append_right _ hps, hfits⟩
  | case18 role f => exact Piece.fitAll_single h.repeated
  | case19 role r f ih => exact ih (builds_as.1 h)
  | case20 role t f ih => exact ih (builds_before.1 h)

end Form

/-- The layouts of a rule. -/
def Grammar.layouts (r : Rule) : List (List Piece) :=
  (definition r).alternatives.flatMap fun a => a.form.layouts none

theorem Node.IsPhrase.exists_builds {n : Node} {r : Rule} (h : n.IsPhrase r)
    (hn : n.isIncomplete = false) :
    ∃ a ∈ (definition r).alternatives, a.form.Builds none n.parts := by
  obtain ⟨a, ha, hyields⟩ := h.parts
  exact ⟨a, ha, hyields, fun p hp => Node.Holds.complete (.single hp) hn⟩

/-- **A complete phrase has the layout of its rule.** -/
theorem Node.IsPhrase.exists_layout {n : Node} {r : Rule} (h : n.IsPhrase r)
    (hn : n.isIncomplete = false) : ∃ ps ∈ Grammar.layouts r, Piece.FitAll ps n.parts := by
  obtain ⟨a, ha, hbuilds⟩ := h.exists_builds hn
  obtain ⟨ps, hps, hfits⟩ := hbuilds.exists_layout
  exact ⟨ps, List.mem_flatMap.2 ⟨a, ha, hps⟩, hfits⟩

/-! ## Repetitions -/

/-- **Things of certain kinds, each behind a separator.** -/
inductive Node.IsTail (separator : String) (kinds : Kind → Bool) (role : Option Role) :
    List Node → List Node → Prop where
  | nil : IsTail separator kinds role [] []
  | cons {items ns : List Node} {mark n : Node} (separates : mark.IsToken none (.mark separator))
    (item : n.IsOf kinds role) (rest : IsTail separator kinds role items ns) :
    IsTail separator kinds role (n :: items) (mark :: n :: ns)

/-- **Empty brackets**, each of them with annotations in front. -/
inductive Node.IsBrackets : List Node → Prop where
  | nil : IsBrackets []
  | cons {items ns : List Node} {opening closing : Node}
    (annotations : (Piece.many none (.rule .annotationUse)).Fits items)
    (opens : opening.IsToken none (.mark "[")) (closes : closing.IsToken none (.mark "]"))
    (rest : IsBrackets ns) : IsBrackets (items ++ opening :: closing :: ns)

namespace Piece

variable {role : Option Role} {f : Form} {ns : List Node}

theorem forall_of_many (h : (many role f).Fits ns) {P : Node → Prop}
    (hP : ∀ chunk, f.Yields role role none chunk → (∀ n ∈ chunk, n.isIncomplete = false) →
      ∀ n ∈ chunk, P n) : ∀ n ∈ ns, P n := by
  obtain ⟨chunks, hchunks, rfl⟩ := h
  intro n hn
  obtain ⟨chunk, hchunk, hn⟩ := List.mem_flatten.1 hn
  exact hP chunk (hchunks chunk hchunk).1 (hchunks chunk hchunk).2 n hn

theorem nodes_of_many {r : Rule} (h : (many role (.rule r)).Fits ns)
    (hr : (definition r).kind.isSome = true) :
    ∀ n ∈ ns, n.role = role ∧ n.IsPhrase r ∧ n.isIncomplete = false := by
  refine forall_of_many h fun chunk hyields hcomplete => ?_
  obtain ⟨-, n, rfl, hrole, hphrase⟩ := (Form.yields_node hr).1 hyields
  exact List.forall_mem_singleton.2 ⟨hrole, hphrase, hcomplete n (.head _)⟩

theorem tail_of_many {separator : String} {kinds : Kind → Bool}
    (h : (many none (.seq (.mark separator) f)).Fits ns)
    (hf : ∀ ns, f.Builds none ns → ∃ n : Node, n.IsOf kinds role ∧ ns = [n]) :
    ∃ items, Node.IsTail separator kinds role items ns := by
  obtain ⟨chunks, hchunks, rfl⟩ := h
  induction chunks with
  | nil => exact ⟨[], .nil⟩
  | cons chunk chunks ih =>
    rw [List.forall_mem_cons] at hchunks
    obtain ⟨items, hitems⟩ := ih hchunks.2
    have hchunk : (Form.seq (.mark separator) f).Builds none chunk := hchunks.1
    obtain ⟨_, hmark, _, hitem, rfl⟩ := Form.builds_seq.1 hchunk
    obtain ⟨mark, hseparator, rfl⟩ := hmark.token (by simp) rfl
    obtain ⟨n, hn, rfl⟩ := hf _ hitem
    exact ⟨n :: items, .cons hseparator hn hitems⟩

theorem brackets_of_many
    (h : (many none (.all [.many (.rule .annotationUse), .mark "[", .mark "]"])).Fits ns) :
    Node.IsBrackets ns := by
  obtain ⟨chunks, hchunks, rfl⟩ := h
  induction chunks with
  | nil => exact .nil
  | cons chunk chunks ih =>
    rw [List.forall_mem_cons] at hchunks
    have hchunk : (Form.all [.many (.rule .annotationUse), .mark "[", .mark "]"]).Builds none
      chunk := hchunks.1
    obtain ⟨ps, hps, hfits⟩ := hchunk.exists_layout
    cases List.mem_singleton.1 hps
    obtain ⟨items, _, rfl, hitems, _, _, rfl, ⟨opening, hopening, rfl⟩, _, _, rfl,
      ⟨closing, hclosing, rfl⟩, rfl⟩ := hfits
    have hrest := ih hchunks.2
    simpa using Node.IsBrackets.cons hitems hopening hclosing hrest

end Piece
end CallOrigins.Java
