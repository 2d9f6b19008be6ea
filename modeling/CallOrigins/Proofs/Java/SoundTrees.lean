import CallOrigins.Proofs.Java.Located
import CallOrigins.Proofs.Java.Readings
import CallOrigins.Proofs.Java.Spelling

/-!
# The trees of sources are sound

Every text is read into a tree in which the tokens stand one after the other, and in which calls are
written as calls (`SourceFile.isSound_read`), with faults in the text or without. So the law on
reported calls holds of all files that are read. Names and operators in it are single words
(`SourceFile.isSpelled_read`).

What a call is written like is read off the form of its rule. A method that is called has a single
token for its name: a name, or one of the keywords that count as names. The other calls have a
keyword or a mark of their own, which is never supplied where it is missing. All but method
references have a list of arguments, and in a method reference nothing stands in that role, because
what it refers to is shown by groups that give no roles to their parts (`plainGroups`).
-/

namespace CallOrigins.Java

open Grammar CallOrigins.Java.Derivation

variable {r : Rule} {steps : List Step} {cs : List Derivation}

/-! ## Groups without roles -/

/-- Groups of which no part has a role. -/
def plainGroups : List Rule :=
  [.literal, .primaryExpression, .type, .unannotatedType, .reservedIdentifier]

/-- Tokens, nodes and plain groups, none of them in a role. -/
def Form.isPlain : Form → Bool
  | token _ => true
  | rule r => (definition r).kind.isSome || plainGroups.contains r
  | alt f g => f.isPlain && g.isPlain
  | shown _ f => f.isPlain
  | _ => false

/-- A token, a node or a plain group. -/
def Symbol.IsPlain : Symbol → Prop
  | .terminal _ => True
  | .rule n => ∃ r : Rule, n = r.index ∧ ((definition r).kind.isSome = true ∨ r ∈ plainGroups)

theorem Form.each_of_isPlain {f : Form} (h : f.isPlain = true) :
    f.Each fun s => s.role = none ∧ s.symbol.IsPlain := by
  induction f with
  | token => exact ⟨rfl, trivial⟩
  | rule r =>
    simp only [isPlain, Bool.or_eq_true, List.contains_iff_mem] at h
    exact ⟨rfl, r, rfl, h⟩
  | alt f g ihf ihg =>
    rw [isPlain, Bool.and_eq_true] at h
    exact ⟨ihf h.1, ihg h.2⟩
  | shown k f ih => exact (ih h).mono fun _ h => h
  | _ => cases h

theorem each_of_mem_plainGroups (hr : r ∈ plainGroups) :
    r.Each fun s => s.role = none ∧ s.symbol.IsPlain := by
  have h : ∀ r ∈ plainGroups, (definition r).alternatives.all (fun a => a.form.isPlain) = true := by
    decide
  exact fun a ha => Form.each_of_isPlain (List.all_eq_true.1 (h r hr) a ha)

/-- **No part of a plain group has a role.** -/
theorem Derivation.IsDerivation.role_eq_none {d : Derivation} (hd : d.IsDerivation)
    (hplain : d.symbol.IsPlain) {kind : Option Kind} (hkind : d.symbol.ShownAs kind) :
    ∀ n ∈ d.viewOnto none kind [], n.role = none := by
  refine hd.forall_shown (P := fun n => n.role = none) (G := Symbol.IsPlain) (fun _ h => h) ?_ hplain
    hkind
  rintro q hq hnone ⟨r, hr, hplain⟩ s hs
  have hmem := hq.mem_of_rule hr
  rw [productionsOf_index] at hmem
  obtain ⟨⟨a, ha, hsteps⟩, hdefined⟩ := mem_namedProductions hmem
  have hgroup : r ∈ plainGroups := by
    rw [← hdefined, hnone] at hplain
    exact hplain.resolve_left (by simp)
  exact .inr ((each_of_mem_plainGroups hgroup a ha).of_mem hsteps s hs)

/-! ## Calls -/

/-- The rules of calls. -/
theorem mem_of_isCall (h : (definition r).kind.any Kind.isCall = true) :
    r ∈ [.methodInvocation, .objectCreationExpression, .explicitConstructorInvocation,
      .methodReference] := by
  revert h
  cases r <;> decide

/-- A name or keyword, or a mark that is never missing. -/
def Step.IsWritten (s : Step) : Prop :=
  ∃ t ∈ Terminal.all, s.symbol = .terminal t.index ∧ ¬ t.Allows ""

theorem Step.isWritten_word {s : Step} {w : String} (hw : w ∈ Terminal.words) (hne : w ≠ "")
    (hs : s.symbol = .terminal (Terminal.word w).index) : s.IsWritten := by
  exact ⟨.word w, Terminal.word_mem_all hw, hs, fun h => hne h.symm⟩

/-- The keywords that count as names are never missing. -/
theorem isWritten_reservedIdentifier : Rule.reservedIdentifier.Each Step.IsWritten := by
  intro a ha
  simp only [definition, reservedIdentifier, List.mem_cons, List.not_mem_nil, or_false] at ha
  rcases ha with rfl | rfl
  · exact ⟨Step.isWritten_word (w := "open") (by decide) (by decide) rfl,
      Step.isWritten_word (w := "module") (by decide) (by decide) rfl,
      Step.isWritten_word (w := "record") (by decide) (by decide) rfl,
      Step.isWritten_word (w := "with") (by decide) (by decide) rfl,
      Step.isWritten_word (w := "sealed") (by decide) (by decide) rfl⟩
  · exact Step.isWritten_word (w := "yield") (by decide) (by decide) rfl

namespace Derivation.IsPhrase

/-- A keyword or mark of a phrase is shown with its text. -/
theorem exists_leaf (h : IsPhrase r steps cs) (hr : r.Has Step.IsWritten) :
    ∃ role k t, .leaf role k t ∈ partsOf none steps cs ∧ t.text ≠ "" := by
  obtain ⟨s, hs, t, ht, hsymbol, hempty⟩ := h.exists_of_has hr
  obtain ⟨c, hc, hcs, hparts⟩ := h.exists_part hs
  obtain ⟨token, -, hview, hreads⟩ := hc.view_token (hcs.trans hsymbol) (none.or s.role) s.kind
  refine ⟨_, _, token, hparts none _ (hview.symm ▸ List.mem_singleton.2 rfl), fun htext => ?_⟩
  exact hempty (htext ▸ hreads.allows ht)

/-- The parts of a group are parts of the phrase around it. -/
theorem exists_group (h : IsPhrase r steps cs) {g : Rule} (hg : (definition g).kind = none)
    (hr : r.Has fun s => s.symbol = .rule g.index ∧ s.role = none ∧ s.kind = none) :
    ∃ steps' cs', IsPhrase g steps' cs' ∧
      ∀ n ∈ partsOf none steps' cs', n ∈ partsOf none steps cs := by
  obtain ⟨s, hs, hsymbol, hrole, hkind⟩ := h.exists_of_has hr
  obtain ⟨c, hc, hcs, hparts⟩ := h.exists_part hs
  obtain ⟨steps', cs', hphrase, hview⟩ := hc.view_group (hcs.trans hsymbol) hg none
  refine ⟨steps', cs', hphrase, fun n hn => hparts none n ?_⟩
  rw [hrole, hkind]
  exact hview ▸ hn

/-- A list of arguments is shown in its role. -/
theorem exists_arguments (h : IsPhrase r steps cs)
    (hr : r.Has fun s =>
      s.symbol = .rule Rule.argumentList.index ∧ s.role = some .arguments ∧ s.kind = none) :
    ∃ n ∈ partsOf none steps cs, n.role = some .arguments := by
  obtain ⟨s, hs, hsymbol, hrole, hkind⟩ := h.exists_of_has hr
  obtain ⟨c, hc, hcs, hparts⟩ := h.exists_part hs
  obtain ⟨steps', cs', -, hview⟩ := hc.view_node (hcs.trans hsymbol) rfl (some .arguments)
  have hmem : Node.branch (some .arguments) .argumentList (partsOf none steps' cs') ∈
      c.viewOnto (none.or s.role) s.kind [] := by
    rw [hrole, hkind]
    exact hview.symm ▸ List.mem_singleton.2 rfl
  exact ⟨_, hparts none _ hmem, rfl⟩

end Derivation.IsPhrase

/-- The name of a method that is called is the only part in its role. -/
theorem each_methodInvocation : Rule.methodInvocation.Each fun s =>
    (s.role = some .name ∧ s.kind = none ∧
      (s.symbol = .terminal Terminal.name.index ∨ s.symbol = .rule Rule.reservedIdentifier.index)) ∨
    (∃ role, s.role = some role ∧ role ≠ .name) ∨
    (s.role = none ∧ ∃ n, s.symbol = .terminal n) := by
  simp [Rule.Each, definition, methodInvocation, Definition.node, Form.Each, Form.all, Form.name,
    Form.opt, memberOwner, Form.mark, Form.word, Form.plainName]

theorem each_methodReference : Rule.methodReference.Each fun s =>
    s.role = none ∧ s.kind = none ∧ s.symbol.IsPlain := by
  intro a ha
  cases List.mem_singleton.1 ha
  refine ⟨⟨?_, ?_, ?_⟩, ?_, ⟨?_, trivial⟩, ?_, ?_⟩
  · exact ⟨rfl, rfl, .type, rfl, .inr (by decide)⟩
  · exact ⟨rfl, rfl, .primaryExpression, rfl, .inr (by decide)⟩
  · exact ⟨rfl, rfl, trivial⟩
  · exact ⟨rfl, rfl, trivial⟩
  · exact ⟨rfl, rfl, .typeArguments, rfl, .inl rfl⟩
  · exact ⟨rfl, rfl, trivial⟩
  · exact ⟨rfl, rfl, trivial⟩

/-- **The name of a method that is called** is a single token, and it is never missing. -/
theorem leaf_of_role_name (h : IsPhrase .methodInvocation steps cs) {n : Node}
    (hn : n ∈ partsOf none steps cs) (hrole : n.role = some .name) :
    ∃ role k t, n = .leaf role k t ∧ t.text ≠ "" := by
  have htoken : ∀ {c : Derivation} {s : Step} {role : Option Role} {kind : Option Kind},
      c.IsDerivation → c.symbol = s.symbol → s.IsWritten → n ∈ c.viewOnto role kind [] →
        ∃ role k t, n = .leaf role k t ∧ t.text ≠ "" := by
    rintro c s role kind hc hsymbol ⟨terminal, hterminal, hs, hempty⟩ hn
    obtain ⟨t, -, hview, hreads⟩ := hc.view_token (hsymbol.trans hs) role kind
    rw [hview] at hn
    exact ⟨_, _, t, List.mem_singleton.1 hn, fun htext => hempty (htext ▸ hreads.allows hterminal)⟩
  obtain ⟨s, hs, c, hc, hcs, hn⟩ := h.exists_step hn
  rcases h.each each_methodInvocation s hs with
    ⟨-, hkind, hsymbol | hsymbol⟩ | ⟨role, hs, hne⟩ | ⟨hs, m, hsymbol⟩
  · exact htoken hc hcs ⟨.name, by decide, hsymbol, fun hempty => hempty.1 rfl⟩ hn
  · obtain ⟨steps', cs', hphrase, hview⟩ :=
      hc.view_group (hcs.trans hsymbol) rfl (none.or s.role)
    rw [hkind, hview] at hn
    obtain ⟨s', hs', c', hc', hcs', hn⟩ := hphrase.exists_step hn
    exact htoken hc' hcs' (hphrase.each isWritten_reservedIdentifier s' hs') hn
  · rw [hs] at hn
    have hother := role_of_mem_viewOnto role s.kind c n hn
    exact absurd (Option.some.inj (hother.symm.trans hrole)) hne
  · obtain ⟨t, -, hview, -⟩ := hc.view_token (hcs.trans hsymbol) (none.or s.role) s.kind
    rw [hview, hs] at hn
    cases List.mem_singleton.1 hn
    cases hrole

/-- **A method reference has no list of arguments.** -/
theorem role_of_methodReference (h : IsPhrase .methodReference steps cs) {n : Node}
    (hn : n ∈ partsOf none steps cs) : n.role = none := by
  obtain ⟨s, hs, c, hc, hcs, hn⟩ := h.exists_step hn
  obtain ⟨hrole, hkind, hplain⟩ := h.each each_methodReference s hs
  rw [hrole, hkind] at hn
  exact hc.role_eq_none (hcs ▸ hplain) (.inl rfl) n hn

/-- **The word `new` at the end of a method reference** is a keyword. -/
theorem text_ne_new (h : IsPhrase .methodReference steps cs) {last : Node}
    (hlast : (partsOf none steps cs).getLast? = some last) (hkind : last.kind = .identifier) :
    last.text ≠ "new" := by
  obtain ⟨t, ht, token, htoken, rfl, -⟩ := h.last_methodReference hlast
  rcases List.mem_pair.1 ht with rfl | rfl
  · have hword : Terminal.word "new" ∈ Terminal.all := by decide
    rw [Node.kind, leafKind, Option.getD_none, terminalKinds_index hword] at hkind
    split at hkind <;> cases hkind
  · rw [Node.text_leaf]
    exact h.named rfl token htoken

/-! ## Calls are written as calls -/

theorem Step.isWritten_mark {s : Step} {m : String} (hm : m ∈ Terminal.marks) (hne : m ≠ "")
    (hclosing : .mark m ∉ Reading.closing) (hs : s.symbol = .terminal (Terminal.mark m).index) :
    s.IsWritten := by
  refine ⟨.mark m, List.mem_append_right _ (List.mem_map_of_mem hm), hs, ?_⟩
  rintro (h | ⟨-, h⟩)
  · exact hne h.symm
  · exact hclosing h

theorem has_arguments
    (hr : r ∈ [.methodInvocation, .unqualifiedCreation, .explicitConstructorInvocation]) :
    r.Has fun s =>
      s.symbol = .rule Rule.argumentList.index ∧ s.role = some .arguments ∧ s.kind = none := by
  simp only [List.mem_cons, List.not_mem_nil, or_false] at hr
  rcases hr with rfl | rfl | rfl
  · intro a ha
    cases List.mem_singleton.1 ha
    exact .inr ⟨rfl, rfl, rfl⟩
  · intro a ha
    cases List.mem_singleton.1 ha
    exact .inr (.inr (.inr (.inl ⟨rfl, rfl, rfl⟩)))
  · intro a ha
    cases List.mem_singleton.1 ha
    exact .inr (.inl ⟨rfl, rfl, rfl⟩)

theorem has_isWritten
    (hr : r ∈ [.unqualifiedCreation, .explicitConstructorInvocation, .methodReference]) :
    r.Has Step.IsWritten := by
  simp only [List.mem_cons, List.not_mem_nil, or_false] at hr
  rcases hr with rfl | rfl | rfl
  · intro a ha
    cases List.mem_singleton.1 ha
    exact .inl (Step.isWritten_word (w := "new") (by decide) (by decide) rfl)
  · intro a ha
    cases List.mem_singleton.1 ha
    have hthis : ∀ s : Step, s.symbol = .terminal (Terminal.word "this").index → s.IsWritten :=
      fun s => Step.isWritten_word (by decide) (by decide)
    have hsuper : ∀ s : Step, s.symbol = .terminal (Terminal.word "super").index → s.IsWritten :=
      fun s => Step.isWritten_word (by decide) (by decide)
    exact .inl ⟨.inr ⟨hthis _ rfl, hsuper _ rfl⟩, .inr (.inr (.inr (hsuper _ rfl)))⟩
  · intro a ha
    cases List.mem_singleton.1 ha
    exact .inr (.inl (Step.isWritten_mark (m := "::") (by decide) (by decide) (by decide) rfl))

theorem has_unqualifiedCreation : Rule.objectCreationExpression.Has fun s =>
    s.symbol = .rule Rule.unqualifiedCreation.index ∧ s.role = none ∧ s.kind = none := by
  intro a ha
  cases List.mem_singleton.1 ha
  exact ⟨⟨rfl, rfl, rfl⟩, .inr (.inr ⟨rfl, rfl, rfl⟩)⟩

theorem Node.child?_eq_none {role : Option Role} {k : Kind} {parts : List Node} {r : Role} :
    (branch role k parts).child? r = none ↔ ∀ n ∈ parts, n.role ≠ some r := by
  simp only [child?, Node.parts, List.find?_eq_none, decide_eq_true_eq, ne_eq]

/-- A call with a keyword and a list of arguments. -/
theorem isWrittenCall_of_arguments {role : Option Role} {k : Kind} {parts : List Node}
    (hmethod : k ≠ .methodInvocation) (hreference : k ≠ .methodReference)
    (hleaf : ∃ role k t, .leaf role k t ∈ parts ∧ t.text ≠ "")
    (harguments : ∃ n ∈ parts, n.role = some .arguments) :
    (Node.branch role k parts).IsWrittenCall where
  name := fun h => absurd h hmethod
  word := fun _ => hleaf
  arguments := by
    obtain ⟨n, hn, hrole⟩ := harguments
    rw [Node.child?_eq_none]
    exact ⟨fun h => absurd hrole (h n hn), fun h => absurd h hreference⟩
  new := fun h => absurd h hreference

/-- **A call is written as a call.** -/
theorem Derivation.IsPhrase.isWrittenCall (h : IsPhrase r steps cs) {k : Kind}
    (hk : (definition r).kind = some k) (hcall : k.isCall = true) (role : Option Role) :
    (Node.branch role k (partsOf none steps cs)).IsWrittenCall := by
  have hr : r ∈ _ := mem_of_isCall (by rw [hk]; exact hcall)
  simp only [List.mem_cons, List.not_mem_nil, or_false] at hr
  rcases hr with rfl | rfl | rfl | rfl <;> cases Option.some.inj hk
  · refine ⟨fun _ name hname => ?_, fun hne => absurd rfl hne, ?_, fun hkind => by cases hkind⟩
    · have hrole := List.find?_some hname
      obtain ⟨role, k, t, hleaf, -⟩ :=
        leaf_of_role_name h (List.mem_of_find?_eq_some hname) (of_decide_eq_true hrole)
      exact ⟨role, k, t, hleaf⟩
    · obtain ⟨n, hn, hrole⟩ := h.exists_arguments (has_arguments (by decide))
      rw [Node.child?_eq_none]
      exact ⟨fun h => absurd hrole (h n hn), fun h => by cases h⟩
  · obtain ⟨steps', cs', hgroup, hparts⟩ := h.exists_group rfl has_unqualifiedCreation
    obtain ⟨role', k, t, hleaf, htext⟩ := hgroup.exists_leaf (has_isWritten (by decide))
    obtain ⟨n, hn, hrole⟩ := hgroup.exists_arguments (has_arguments (by decide))
    exact isWrittenCall_of_arguments (by decide) (by decide) ⟨role', k, t, hparts _ hleaf, htext⟩
      ⟨n, hparts n hn, hrole⟩
  · exact isWrittenCall_of_arguments (by decide) (by decide)
      (h.exists_leaf (has_isWritten (by decide))) (h.exists_arguments (has_arguments (by decide)))
  · refine ⟨fun hkind => (by cases hkind), fun _ => ?_, ?_, ?_⟩
    · exact h.exists_leaf (has_isWritten (by decide))
    · rw [Node.child?_eq_none]
      refine ⟨fun _ => rfl, fun _ n hn => ?_⟩
      rw [role_of_methodReference h hn]
      simp
    · exact fun _ last hlast hkind => text_ne_new h hlast hkind

/-- A fault at the end changes nothing. -/
theorem Node.IsWrittenCall.append_error {role : Option Role} {k : Kind} {parts : List Node}
    (h : (Node.branch role k parts).IsWrittenCall) :
    (Node.branch role k (parts ++ [.branch none .error []])).IsWrittenCall := by
  have hchild : ∀ r, (Node.branch role k (parts ++ [.branch none .error []])).child? r =
      (Node.branch role k parts).child? r := by
    intro r
    simp [child?, Node.parts, List.find?_append, Node.role]
  refine ⟨fun hkind name hname => h.name hkind name (hchild .name ▸ hname), fun hkind => ?_, ?_, ?_⟩
  · obtain ⟨r, k, t, hleaf, htext⟩ := h.word hkind
    exact ⟨r, k, t, List.mem_append_left _ hleaf, htext⟩
  · rw [hchild]
    exact h.arguments
  · intro _ last hlast hkind
    rw [Node.parts, List.getLast?_append] at hlast
    cases hlast
    cases hkind

/-! ## Sources -/

/-- A token that is neither a call nor a body, or a node that is written as a call if it is one. -/
def Node.IsSound : Node → Prop
  | .leaf _ k _ => k.isCall = false ∧ k.isBoundary = false
  | .branch r k parts => k.isCall = true → (Node.branch r k parts).IsWrittenCall

theorem Derivation.IsDerivation.isSound_of_view {d : Derivation} (hd : d.IsDerivation) {n m : Node}
    (hn : n ∈ d.view) (hm : n.Holds m) : m.IsSound := by
  rcases shown_of_holds hd (.inl rfl) hn hm with
    ⟨r, k, t, rfl, htoken⟩ | ⟨role, r, k, steps, cs, rfl, hk, hphrase⟩
  · exact htoken.isCall
  · exact fun hcall => hphrase.isWrittenCall hk hcall role

/-- A tree whose tokens stand one after the other in a text of some size, with sound nodes that are
spelled. -/
structure Node.IsSoundTree (size : Nat) (n : Node) : Prop where
  ordered : InOrder n.tokens
  inside : ∀ t ∈ n.tokens, t.stop ≤ size
  nodes : ∀ m, n.Holds m → m.IsSound
  spelled : ∀ m, n.Holds m → m.IsSpelled

namespace Node.IsSoundTree

variable {size : Nat} {role : Option Role} {k : Kind} {parts : List Node}

theorem program : IsSoundTree size (.branch none .program []) := by
  have hself : ∀ m, (Node.branch none .program []).Holds m → m = .branch none .program [] := by
    intro m hm
    rcases hm.cases_head with rfl | ⟨c, hc, -⟩
    · rfl
    · exact absurd hc List.not_mem_nil
  refine ⟨List.Pairwise.nil, fun _ h => absurd h List.not_mem_nil, fun m hm => ?_, fun m hm => ?_⟩
  · rw [hself m hm]
    exact fun hcall => absurd hcall (by decide)
  · rw [hself m hm]
    exact .of_kind (.inl rfl)

/-- A node below a tree with a fault at its end is the tree itself, was below it before, or is the
fault. -/
theorem holds_append_error {m : Node}
    (h : (Node.branch role k (parts ++ [.branch none .error []])).Holds m) :
    m = .branch role k (parts ++ [.branch none .error []]) ∨ (Node.branch role k parts).Holds m ∨
      m = .branch none .error [] := by
  rcases h.cases_head with rfl | ⟨c, hc, hm⟩
  · exact .inl rfl
  · rcases List.mem_append.1 hc with hc | hc
    · exact .inr (.inl (.head hc hm))
    · cases List.mem_singleton.1 hc
      rcases hm.cases_head with rfl | ⟨c, hc, -⟩
      · exact .inr (.inr rfl)
      · exact absurd hc List.not_mem_nil

theorem append_error (h : IsSoundTree size (.branch role k parts)) :
    IsSoundTree size (.branch role k (parts ++ [.branch none .error []])) := by
  have htokens := tokens_append_error role k parts
  refine ⟨htokens ▸ h.ordered, htokens ▸ h.inside, fun m hm => ?_, fun m hm => ?_⟩
  · rcases holds_append_error hm with rfl | hm | rfl
    · exact fun hcall => (h.nodes _ .refl hcall).append_error
    · exact h.nodes m hm
    · exact fun hcall => absurd hcall (by decide)
  · rcases holds_append_error hm with rfl | hm | rfl
    · exact (h.spelled _ .refl).append_error
    · exact h.spelled m hm
    · exact .of_kind (.inr rfl)

theorem append_faults (h : IsSoundTree size (.branch role k parts)) (rs : List Reading) :
    IsSoundTree size (.branch role k (parts ++ faults rs parts)) := by
  unfold faults
  dsimp only
  split
  · exact h.append_error
  · rwa [List.append_nil]

theorem of_view {d : Derivation} (hd : d.IsDerivation) (ordered : InOrder d.tokens)
    (inside : ∀ t ∈ d.tokens, t.stop ≤ size) {n : Node} (hn : n ∈ d.view) : IsSoundTree size n := by
  have hsub : n.tokens.Sublist d.tokens :=
    (List.sublist_flatten_of_mem (List.mem_map_of_mem hn)).trans
      (tokens_viewOnto_sublist none none d)
  exact ⟨ordered.sublist hsub, fun t ht => inside t (hsub.subset ht),
    fun m hm => hd.isSound_of_view hn hm, fun m hm => hd.isSpelled_of_view hn hm⟩

end Node.IsSoundTree

/-- **The tree of a source is sound**, faults or not. -/
theorem isSoundTree_parse (source : String) : (parse source).IsSoundTree source.utf8ByteSize := by
  unfold parse
  dsimp only
  split
  · exact .program
  · generalize hreadings : Reading.repaired _ _ _ = readings
    split
    next r k parts hview =>
      obtain ⟨d, hd, hparts⟩ := Option.map_eq_some_iff.1 hview
      subst hreadings
      obtain ⟨hderivation, ordered, inside⟩ := isDerivation_of_best? hd
      rw [byteCount, String.ofList_toList] at inside
      refine Node.IsSoundTree.append_faults (.of_view hderivation ordered inside ?_) _
      rw [hparts]
      exact .head _
    next => exact Node.IsSoundTree.append_error .program

/-- What is shown of the nodes of a file by their texts has no blanks in it. -/
def SourceFile.IsSpelled (f : SourceFile) : Prop :=
  ∀ n, f.tree.Holds n → n.IsSpelled

/-- **Files that are read are spelled.** -/
theorem SourceFile.isSpelled_read (s : Source) : (SourceFile.read s).IsSpelled :=
  (isSoundTree_parse s.content).spelled

end CallOrigins.Java
