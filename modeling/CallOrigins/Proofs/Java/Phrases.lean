import CallOrigins.Proofs.Java.Enclosing

/-!
# The grammar of trees

A form says how a text is read, and also what is shown of it: which nodes stand side by side, with
which kinds and in which roles. `Form.Yields` says this of the form itself, without productions and
derivations. A token is a leaf, a rule with nodes of its own is one node, and all else is shown in
place.

**The law** (`isPhrase_of_parse`): what is complete in the tree of a source is a phrase of the
grammar. So what holds of the shape of expressions can be read off their forms.
-/

namespace CallOrigins.Java

open Grammar Text

/-! ## What a form yields -/

/-- What a token of a terminal is in a tree, where it may be shown as another kind. -/
def Terminal.shownAs (t : Terminal) (kind : Option Kind) (text : String) : Kind :=
  if text.isEmpty then .missing else kind.getD t.kind

/-- **The nodes that a form yields.** `given` is the role of the whole group that the form belongs
to, and `role` that of what the form shows; where none is given to the group, the form gives its
own. -/
inductive Form.Yields :
    Form → (given role : Option Role) → (kind : Option Kind) → List Node → Prop where
  | nothing {given role : Option Role} {kind : Option Kind} : Yields .nothing given role kind []
  | token {given role : Option Role} {kind : Option Kind} {t : Terminal} {token : Token}
    (allows : t.Allows token.text) :
    Yields (.token t) given role kind [.leaf role (t.shownAs kind token.text) token]
  | node {given role : Option Role} {r : Rule} {a : Alternative} {k : Kind} {parts : List Node}
    (kind : (definition r).kind = some k) (alternative : a ∈ (definition r).alternatives)
    (nodes : Yields a.form none none none parts) :
    Yields (.rule r) given role none [.branch role k parts]
  | group {given role : Option Role} {r : Rule} {a : Alternative} {ns : List Node}
    (kind : (definition r).kind = none) (alternative : a ∈ (definition r).alternatives)
    (nodes : Yields a.form role role none ns) : Yields (.rule r) given role none ns
  | seq {given role : Option Role} {kind : Option Kind} {f g : Form} {ns ms : List Node}
    (front : Yields f given role kind ns) (back : Yields g given role kind ms) :
    Yields (.seq f g) given role kind (ns ++ ms)
  | left {given role : Option Role} {kind : Option Kind} {f g : Form} {ns : List Node}
    (nodes : Yields f given role kind ns) : Yields (.alt f g) given role kind ns
  | right {given role : Option Role} {kind : Option Kind} {f g : Form} {ns : List Node}
    (nodes : Yields g given role kind ns) : Yields (.alt f g) given role kind ns
  | once {given role : Option Role} {f : Form} {ns : List Node}
    (nodes : Yields f role role none ns) : Yields (.repeated f) given role none ns
  | again {given role : Option Role} {f : Form} {ns ms : List Node}
    (front : Yields (.repeated f) role role none ns) (back : Yields f role role none ms) :
    Yields (.repeated f) given role none (ns ++ ms)
  | as {given role : Option Role} {kind : Option Kind} {r : Role} {f : Form} {ns : List Node}
    (nodes : Yields f given (given.or (some r)) kind ns) : Yields (.as r f) given role kind ns
  | shown {given role : Option Role} {kind : Option Kind} {k : Kind} {f : Form} {ns : List Node}
    (nodes : Yields f given role (some k) ns) : Yields (.shown k f) given role kind ns
  | before {given role : Option Role} {kind : Option Kind} {t : Terminal} {f : Form}
    {ns : List Node} (nodes : Yields f given role kind ns) : Yields (.before t f) given role kind ns

/-- A node of a rule, with parts that one of its alternatives yields. -/
structure Node.IsPhrase (n : Node) (r : Rule) : Prop where
  kind : (definition r).kind = some n.kind
  branch : n = .branch n.role n.kind n.parts
  parts : ∃ a ∈ (definition r).alternatives, a.form.Yields none none none n.parts

namespace Form

variable {given role : Option Role} {kind : Option Kind} {f g : Form} {ns : List Node}

/-! ## Forms taken apart -/

theorem yields_nothing : nothing.Yields given role kind ns ↔ ns = [] := by
  constructor
  · intro h
    cases h
    rfl
  · rintro rfl
    exact .nothing

theorem yields_token {t : Terminal} : (token t).Yields given role kind ns ↔
    ∃ token : Token, t.Allows token.text ∧
      ns = [.leaf role (t.shownAs kind token.text) token] := by
  constructor
  · intro h
    cases h with
    | token allows => exact ⟨_, allows, rfl⟩
  · rintro ⟨token, allows, rfl⟩
    exact .token allows

theorem yields_seq : (seq f g).Yields given role kind ns ↔
    ∃ front, f.Yields given role kind front ∧
      ∃ back, g.Yields given role kind back ∧ ns = front ++ back := by
  constructor
  · intro h
    cases h with
    | seq front back => exact ⟨_, front, _, back, rfl⟩
  · rintro ⟨front, hfront, back, hback, rfl⟩
    exact .seq hfront hback

theorem yields_alt : (alt f g).Yields given role kind ns ↔
    f.Yields given role kind ns ∨ g.Yields given role kind ns := by
  constructor
  · intro h
    cases h with
    | left h => exact .inl h
    | right h => exact .inr h
  · rintro (h | h)
    · exact .left h
    · exact .right h

theorem yields_as {r : Role} :
    (as r f).Yields given role kind ns ↔ f.Yields given (given.or (some r)) kind ns := by
  constructor
  · intro h
    cases h with
    | as h => exact h
  · exact .as

theorem yields_shown {k : Kind} :
    (shown k f).Yields given role kind ns ↔ f.Yields given role (some k) ns := by
  constructor
  · intro h
    cases h with
    | shown h => exact h
  · exact .shown

theorem yields_before {t : Terminal} :
    (before t f).Yields given role kind ns ↔ f.Yields given role kind ns := by
  constructor
  · intro h
    cases h with
    | before h => exact h
  · exact .before

theorem yields_node {r : Rule} (hr : (definition r).kind.isSome = true) :
    (rule r).Yields given role kind ns ↔
      kind = none ∧ ∃ n : Node, ns = [n] ∧ n.role = role ∧ n.IsPhrase r := by
  constructor
  · intro h
    cases h with
    | node hk ha nodes => exact ⟨rfl, _, rfl, rfl, hk, rfl, _, ha, nodes⟩
    | group hk =>
      rw [hk] at hr
      cases hr
  · rintro ⟨rfl, n, rfl, rfl, hk, hbranch, a, ha, nodes⟩
    rw [hbranch]
    exact .node hk ha nodes

theorem yields_group {r : Rule} (hr : (definition r).kind = none) :
    (rule r).Yields given role kind ns ↔
      kind = none ∧ ∃ a ∈ (definition r).alternatives, a.form.Yields role role none ns := by
  constructor
  · intro h
    cases h with
    | node hk =>
      rw [hr] at hk
      cases hk
    | group _ ha nodes => exact ⟨rfl, _, ha, nodes⟩
  · rintro ⟨rfl, a, ha, nodes⟩
    exact .group hr ha nodes

/-! ## Terminals and repetitions of the grammar -/

/-- The terminals of a form. -/
def terminals : Form → List Terminal
  | nothing | rule _ => []
  | token t => [t]
  | seq f g | alt f g => f.terminals ++ g.terminals
  | repeated f | as _ f | shown _ f | before _ f => f.terminals

theorem terminals_subset_of_mem_repetitions (h : g ∈ f.repetitions) : g.terminals ⊆ f.terminals := by
  induction f with
  | nothing | token | rule => exact absurd h List.not_mem_nil
  | seq f₁ f₂ ih₁ ih₂ | alt f₁ f₂ ih₁ ih₂ =>
    rcases List.mem_append.1 h with h | h
    · exact List.Subset.trans (ih₁ h) (List.subset_append_left ..)
    · exact List.Subset.trans (ih₂ h) (List.subset_append_right ..)
  | repeated f ih =>
    rcases List.mem_append.1 h with h | h
    · exact ih h
    · cases List.mem_singleton.1 h
      exact List.Subset.refl _
  | as _ f ih | shown _ f ih | before _ f ih => exact ih h

/-- A form whose terminals and repetitions have numbers. -/
structure IsNumbered (f : Form) : Prop where
  terminals : ∀ t ∈ f.terminals, t ∈ Terminal.all
  repetitions : ∀ g ∈ f.repetitions, g ∈ Grammar.repetitions

theorem IsNumbered.of_append {h : Form} (hh : h.IsNumbered)
    (hterminals : h.terminals = f.terminals ++ g.terminals)
    (hrepetitions : h.repetitions = f.repetitions ++ g.repetitions) :
    f.IsNumbered ∧ g.IsNumbered := by
  have ht := hh.terminals
  have hr := hh.repetitions
  rw [hterminals, List.forall_mem_append] at ht
  rw [hrepetitions, List.forall_mem_append] at hr
  exact ⟨⟨ht.1, hr.1⟩, ⟨ht.2, hr.2⟩⟩

end Form

namespace Grammar

theorem isNumbered_definition {r : Rule} {a : Alternative} (ha : a ∈ (definition r).alternatives) :
    a.form.IsNumbered where
  terminals := by
    have h : rules.all (fun r => (definition r).alternatives.all fun a =>
        a.form.terminals.all fun t => Terminal.all.contains t) = true := by
      decide +kernel
    have hr := List.all_eq_true.1 h r (List.mem_of_getElem? (getElem?_rules r))
    have hform := List.all_eq_true.1 (List.all_eq_true.1 hr a ha)
    exact fun t ht => List.contains_iff_mem.1 (hform t ht)
  repetitions := fun _ => mem_repetitions ha

theorem isNumbered_of_mem_repetitions {f : Form} (hf : f ∈ repetitions) : f.IsNumbered where
  terminals := by
    obtain ⟨a, ha, hmem⟩ := List.mem_flatMap.1 (List.mem_eraseDups.1 hf)
    obtain ⟨r, -, ha⟩ := List.mem_flatMap.1 ha
    exact fun t ht =>
      (isNumbered_definition ha).terminals t (Form.terminals_subset_of_mem_repetitions hmem ht)
  repetitions := fun _ => mem_repetitions_of_mem hf

end Grammar

/-! ## What derivations show -/

/-- The nodes that a symbol yields: those of the terminal, the rule or the repetition that it is the
number of. -/
def Symbol.Yields (role : Option Role) (kind : Option Kind) (ns : List Node) : Symbol → Prop
  | .terminal n => ∀ t, Terminal.all[n]? = some t → (Form.token t).Yields role role kind ns
  | .rule n =>
    (∀ r : Rule, n = r.index → (Form.rule r).Yields role role kind ns) ∧
    ∀ i f, n = Rule.count + i → repetitions[i]? = some f →
      (Form.repeated f).Yields role role kind ns

namespace Derivation

/-- What is shown of a derivation is what its symbol yields. -/
def ShowsSymbol (d : Derivation) : Prop :=
  ∀ role kind, d.symbol.ShownAs kind → d.symbol.Yields role kind (d.viewOnto role kind [])

theorem partsOf_append {whole : Option Role} {front back : List Step}
    {csFront csBack : List Derivation} (hlength : front.length = csFront.length) :
    partsOf whole (front ++ back) (csFront ++ csBack) =
      partsOf whole front csFront ++ partsOf whole back csBack := by
  rw [partsOf, List.zip_append hlength, List.flatMap_append, partsOf, partsOf]

/-- A step in a role and with a kind, where it has none of its own. -/
def stepAs (role : Option Role) (kind : Option Kind) (s : Step) : Step :=
  { s with role := s.role.or role, kind := s.kind.or kind }

/-- What stands for a single symbol. -/
theorem ShowsSymbol.single (given own : Option Role) {kind : Option Kind} {symbol : Symbol}
    {cs : List Derivation} (hsymbols : cs.map Derivation.symbol = [symbol])
    (hshown : symbol.ShownAs kind) (hcs : ∀ c ∈ cs, c.ShowsSymbol) :
    symbol.Yields (given.or own) kind
      (partsOf given [stepAs own kind ⟨symbol, none, none, 0⟩] cs) := by
  obtain ⟨c, rfl, rfl⟩ := List.map_eq_singleton_iff.1 hsymbols
  have hparts : partsOf given [stepAs own kind ⟨c.symbol, none, none, 0⟩] [c] =
      c.viewOnto (given.or own) kind [] := by
    simp [partsOf, stepAs]
  rw [hparts]
  exact hcs c (.head _) _ _ hshown

end Derivation

namespace Form

open CallOrigins.Java.Derivation

variable {given given' role own : Option Role} {kind : Option Kind} {ns : List Node}

/-- Only forms in a group look at the role of the group. -/
theorem Yields.token_given {t : Terminal} (h : (Form.token t).Yields given role kind ns) :
    (Form.token t).Yields given' role kind ns := by
  cases h with
  | token allows => exact .token allows

theorem Yields.rule_given {r : Rule} (h : (rule r).Yields given role kind ns) :
    (rule r).Yields given' role kind ns := by
  cases h with
  | node hk ha nodes => exact .node hk ha nodes
  | group hk ha nodes => exact .group hk ha nodes

theorem Yields.repeated_given {f : Form} (h : (repeated f).Yields given role kind ns) :
    (repeated f).Yields given' role kind ns := by
  cases h with
  | once nodes => exact .once nodes
  | again front back => exact .again front back

/-- **What the steps of a form show is what the form yields.** -/
theorem yields_of_sequences {f : Form} (hf : f.IsNumbered) {steps : List Step}
    (hsteps : steps ∈ sequences f) {cs : List Derivation}
    (hsymbols : cs.map Derivation.symbol = steps.map Step.symbol)
    (hshown : ∀ s ∈ steps, s.symbol.ShownAs (s.kind.or kind)) (hcs : ∀ c ∈ cs, c.ShowsSymbol) :
    f.Yields given (given.or own) kind (partsOf given (steps.map (stepAs own kind)) cs) := by
  induction f generalizing own kind steps cs with
  | nothing =>
    cases List.mem_singleton.1 hsteps
    exact .nothing
  | token t =>
    cases List.mem_singleton.1 hsteps
    have hyields := ShowsSymbol.single given own hsymbols (hshown _ (.head _)) hcs
    exact (hyields t (List.getElem?_idxOf (hf.terminals t (.head _)))).token_given
  | rule r =>
    cases List.mem_singleton.1 hsteps
    have hyields := ShowsSymbol.single given own hsymbols (hshown _ (.head _)) hcs
    exact (hyields.1 r rfl).rule_given
  | repeated f =>
    cases List.mem_singleton.1 hsteps
    have hyields := ShowsSymbol.single given own hsymbols (hshown _ (.head _)) hcs
    have hmem : f ∈ Grammar.repetitions := hf.repetitions f (by simp [repetitions])
    exact (hyields.2 _ f rfl (List.getElem?_idxOf hmem)).repeated_given
  | seq f g ihf ihg =>
    obtain ⟨front, hfront, back, hback, rfl⟩ := mem_sequences_seq.1 hsteps
    rw [List.map_append, List.map_eq_append_iff] at hsymbols
    obtain ⟨csFront, csBack, rfl, hsymbolsFront, hsymbolsBack⟩ := hsymbols
    rw [List.forall_mem_append] at hshown hcs
    have hlength : (front.map (stepAs own kind)).length = csFront.length := by
      have := congrArg List.length hsymbolsFront
      simpa using this.symm
    rw [List.map_append, partsOf_append hlength]
    obtain ⟨hfirst, hsecond⟩ := hf.of_append rfl rfl
    exact .seq (ihf hfirst hfront hsymbolsFront hshown.1 hcs.1)
      (ihg hsecond hback hsymbolsBack hshown.2 hcs.2)
  | alt f g ihf ihg =>
    obtain ⟨hfirst, hsecond⟩ := hf.of_append rfl rfl
    rcases List.mem_append.1 hsteps with hsteps | hsteps
    · exact .left (ihf hfirst hsteps hsymbols hshown hcs)
    · exact .right (ihg hsecond hsteps hsymbols hshown hcs)
  | as r f ih =>
    obtain ⟨inner, hinner, rfl⟩ := List.mem_map.1 hsteps
    rw [List.map_map] at hsymbols
    have hyields := @ih (some r) kind ⟨hf.terminals, hf.repetitions⟩ inner hinner cs hsymbols
      (List.forall_mem_map.1 hshown) hcs
    have hparts : partsOf given (inner.map (stepAs (some r) kind)) cs =
        partsOf given ((inner.map fun s => { s with role := s.role.or (some r) }).map
          (stepAs own kind)) cs :=
      partsOf_congr cs (by simp [stepAs])
    exact .as (hparts ▸ hyields)
  | shown k f ih =>
    obtain ⟨inner, hinner, rfl⟩ := List.mem_map.1 hsteps
    rw [List.map_map] at hsymbols
    have hyields := @ih own (some k) ⟨hf.terminals, hf.repetitions⟩ inner hinner cs hsymbols
      (by simpa [Option.or_assoc] using List.forall_mem_map.1 hshown) hcs
    have hparts : partsOf given (inner.map (stepAs own (some k))) cs =
        partsOf given ((inner.map fun s => { s with kind := s.kind.or (some k) }).map
          (stepAs own kind)) cs :=
      partsOf_congr cs (by simp [stepAs])
    exact .shown (hparts ▸ hyields)
  | before t f ih =>
    obtain ⟨inner, hinner, rfl⟩ := List.mem_map.1 hsteps
    rw [List.map_map] at hsymbols
    have hyields := @ih own kind ⟨hf.terminals, hf.repetitions⟩ inner hinner cs hsymbols
      (List.forall_mem_map.1 hshown) hcs
    have hparts : partsOf given (inner.map (stepAs own kind)) cs =
        partsOf given ((inner.map fun s =>
          { s with before := s.before.join (.single t.index) }).map (stepAs own kind)) cs :=
      partsOf_congr cs (by simp [stepAs])
    exact .before (hparts ▸ hyields)

end Form

namespace Derivation

theorem leafKind_eq {n : Nat} {t : Terminal} (ht : Terminal.all[n]? = some t) (kind : Option Kind)
    (token : Token) : leafKind kind n token = t.shownAs kind token.text := by
  rw [leafKind, Terminal.shownAs, terminalKinds, Array.getD_eq_getD_getElem?,
    List.getElem?_toArray, List.getElem?_map, ht]
  rfl

theorem stepAs_none : stepAs none none = id := by
  funext s
  simp [stepAs]

/-- The parts of a production of a form. -/
theorem yields_partsOf {f : Form} (hf : f.IsNumbered) {steps : List Step}
    (hsteps : steps ∈ sequences f) (hnames : ∀ s ∈ steps, s.ShowsName) {cs : List Derivation}
    (hsymbols : cs.map symbol = steps.map Step.symbol) (hcs : ∀ c ∈ cs, c.ShowsSymbol)
    (whole : Option Role) : f.Yields whole whole none (partsOf whole steps cs) := by
  have hyields : f.Yields whole (whole.or none) none
      (partsOf whole (steps.map (stepAs none none)) cs) :=
    Form.yields_of_sequences hf hsteps hsymbols
      (fun s hs => Option.or_none.symm ▸ hnames s hs) hcs
  rwa [Option.or_none, stepAs_none, List.map_id] at hyields

theorem IsDerivation.showsSymbol {d : Derivation} (hd : d.IsDerivation) : d.ShowsSymbol := by
  induction hd with
  | @leaf n token reads =>
    intro role kind _ t ht
    rw [viewOnto, leafKind_eq ht]
    exact .token (reads t ht)
  | @branch p _ cs ended read rule trace symbols named parts ih =>
    intro role kind hkind
    obtain rfl : kind = none := hkind.kind_eq_none
    have hd : IsDerivation (.branch p cs) := .branch ended read rule trace symbols named parts
    obtain ⟨q, hq, hrule, hqkind, hsymbols, hshown⟩ := hd.exists_read
    have hnames := hq.showsName
    show Symbol.Yields role none _ (.rule p.rule)
    rcases hq.cases with rfl | ⟨r, hr, hdefined, a, ha, hsteps⟩ | ⟨n, f, hn, hf, hnone, hsteps⟩
    · -- reading starts with no rule and no repetition
      refine ⟨fun r hr => ?_, fun i f hi hf => ?_⟩
      · have hlt := index_lt_count r
        have hcount : Rule.count + repetitions.length = r.index := hrule.trans hr
        omega
      · have hlt := (List.getElem?_eq_some_iff.1 hf).1
        have hcount : Rule.count + repetitions.length = Rule.count + i := hrule.trans hi
        omega
    · refine ⟨fun r' hr' => ?_, fun i f hi hf => ?_⟩
      · obtain rfl : r = r' := index_injective ((hr.symm.trans hrule).trans hr')
        have hparts := yields_partsOf (isNumbered_definition ha) hsteps hnames hsymbols ih
        cases hk : (definition r).kind with
        | none =>
          have hp : p.kind = none := hqkind.symm.trans (hdefined.trans hk)
          rw [viewOnto_branch_none role none hp, hshown]
          exact .group hk ha (hparts role)
        | some k =>
          have hp : p.kind = some k := hqkind.symm.trans (hdefined.trans hk)
          rw [viewOnto_branch_some role none hp, hshown]
          exact .node hk ha (hparts none)
      · have hlt := index_lt_count r
        omega
    · refine ⟨fun r hr => ?_, fun i f' hi hf' => ?_⟩
      · have hlt := index_lt_count r
        omega
      · obtain rfl : n = i := by omega
        obtain rfl : f = f' := Option.some.inj (hf.symm.trans hf')
        have hp : p.kind = none := hqkind.symm.trans hnone
        rw [viewOnto_branch_none role none hp, hshown]
        have hnumbered := isNumbered_of_mem_repetitions (List.mem_of_getElem? hf)
        rcases hsteps with hsteps | ⟨steps, hsteps, heq⟩
        · exact .once (yields_partsOf hnumbered hsteps hnames hsymbols ih role)
        · rw [heq] at hnames hsymbols ⊢
          rw [List.map_cons, List.map_eq_cons_iff] at hsymbols
          obtain ⟨c, rest, rfl, hc, hrest⟩ := hsymbols
          rw [List.forall_mem_cons] at hnames ih
          have hparts := @partsOf_append role [⟨.rule (Rule.count + n), none, none, 0⟩] steps [c]
            rest rfl
          rw [List.singleton_append, List.singleton_append] at hparts
          rw [hparts]
          refine .again ?_ (yields_partsOf hnumbered hsteps hnames.2 hrest ih.2 role)
          have hfront := ih.1 role none (.inl rfl)
          rw [hc] at hfront
          have hview : partsOf role [⟨.rule (Rule.count + n), none, none, 0⟩] [c] =
              c.viewOnto role none [] := by
            simp [partsOf]
          rw [hview]
          exact hfront.2 n f rfl hf

/-- What a derivation shows is a token or a phrase of the grammar. -/
theorem IsDerivation.isPhrase {d : Derivation} (hd : d.IsDerivation) {n m : Node} (hn : n ∈ d.view)
    (hm : n.Holds m) :
    (∃ role k token, m = .leaf role k token ∧ ShowsToken k token) ∨ ∃ r, m.IsPhrase r := by
  rcases shown_of_holds hd (.inl rfl) hn hm with
    ⟨role, k, t, rfl, htoken⟩ | ⟨role, r, k, steps, cs, rfl, hk, hphrase⟩
  · exact .inl ⟨role, k, t, rfl, htoken⟩
  · obtain ⟨a, ha, hsteps⟩ := hphrase.composed
    refine .inr ⟨r, hk, rfl, a, ha, ?_⟩
    exact yields_partsOf (isNumbered_definition ha) hsteps (hphrase.each (each_showsName r))
      hphrase.symbols (fun c hc => (hphrase.parts c hc).showsSymbol) none

end Derivation

/-! ## Trees of sources -/

theorem Node.anyIncomplete_eq (ns : List Node) : anyIncomplete ns = ns.any isIncomplete := by
  induction ns with
  | nil => rfl
  | cons n ns ih => rw [anyIncomplete, ih, List.any_cons]

theorem Node.isIncomplete_of_holds {root n : Node} (h : root.Holds n) (hn : n.isIncomplete = true) :
    root.isIncomplete = true := by
  induction h using Relation.ReflTransGen.head_induction_on with
  | refl => exact hn
  | @head around part hpart _ ih =>
    cases around with
    | leaf => exact absurd hpart List.not_mem_nil
    | branch r k cs =>
      have hany : cs.any isIncomplete = true := List.any_eq_true.2 ⟨part, hpart, ih⟩
      rw [isIncomplete, anyIncomplete_eq, hany, Bool.or_true]

/-- **What is complete in the tree of a source** is a token or a phrase of the grammar. -/
theorem isPhrase_of_parse (source : String) : ∀ m, (parse source).Holds m →
    m.isIncomplete = false →
      (∃ role k token, m = .leaf role k token ∧ Derivation.ShowsToken k token) ∨
      ∃ r, m.IsPhrase r := by
  apply forall_holds_parse
  · exact fun d hd n hn m hm _ => hd.isPhrase hn hm
  · exact fun _ => .inr ⟨.program, rfl, rfl, _, .head _, .right .nothing⟩
  · intro h
    cases h
  · intro r k parts _ h
    have hfault : (Node.branch r k (parts ++ [.branch none .error []])).isIncomplete = true :=
      Node.isIncomplete_of_holds (.single (List.mem_append_right _ (.head _))) rfl
    rw [hfault] at h
    cases h

end CallOrigins.Java
