import CallOrigins.Proofs.Java.Views
import Mathlib.Tactic.MkIffOfInductiveProp

/-!
# What a node shows by its text alone

The names of methods, fields and types, and operators, are shown by the text of a node as it stands in
the source. **The law** (`Derivation.IsDerivation.isSpelled_of_view`): each of them is a single token,
and this token is a name, a keyword or a mark, so there are no blanks in the text.

Which parts of a node these are is told by their roles (`Kind.spelledRoles`), and that they are
single tokens by the form of the rule (`Form.spells`). The name of a method that is declared stands
two groups below the declaration; the roles of its parts are those that the groups give them
(`spellingGroups`). Two kinds of nodes have such a part in no role: a method reference ends with one,
and an increment or decrement begins or ends with one.
-/

namespace CallOrigins.Java

open Grammar Text

/-! ## Roles in forms -/

/-- Groups through which parts of a node are given their roles. -/
def spellingGroups : List Rule :=
  [.methodHeader, .methodDeclarator, .annotationUse]

namespace Form

/-- No part is given the role. -/
def avoids (role : Role) : Form → Bool
  | nothing | token _ | rule _ | repeated _ => true
  | seq f g | alt f g => f.avoids role && g.avoids role
  | as r f => r != role && f.avoids role
  | shown _ f | before _ f => f.avoids role

/-- A name, a keyword or a mark. -/
def isWord : Form → Bool
  | token t => t.isSpelled && Terminal.all.contains t
  | rule r => r == .reservedIdentifier
  | alt f g => f.isWord && g.isWord
  | _ => false

/-- What stands in the role is a name, a keyword or a mark. -/
def spells (role : Role) : Form → Bool
  | nothing | token _ => true
  | rule r => (definition r).kind.isSome || spellingGroups.contains r
  | seq f g | alt f g => f.spells role && g.spells role
  | repeated f | before _ f => f.spells role
  | as r f => if r = role then f.isWord else f.avoids role
  | shown _ f => f.isSpelled

end Form

/-- A name, a keyword or a mark, or one of the keywords that count as names. -/
def Symbol.IsWord (symbol : Symbol) : Prop :=
  symbol.IsSpelled ∨ symbol = .rule Rule.reservedIdentifier.index

/-- A token, a node, a group through which roles are given, or a repetition in which what stands in
the role is a word. -/
def Symbol.Spells (role : Role) : Symbol → Prop
  | .terminal _ => True
  | .rule n =>
    (∃ r : Rule, n = r.index ∧ ((definition r).kind.isSome = true ∨ r ∈ spellingGroups)) ∨
    ∃ i f, n = Rule.count + i ∧ repetitions[i]? = some f ∧ f.spells role = true

/-- The step is in another role, or is a word in the role, or stands for parts of which those in the
role are words. -/
def Step.Spells (role : Role) (s : Step) : Prop :=
  (∃ r, s.role = some r ∧ r ≠ role) ∨ (s.role = some role ∧ s.kind = none ∧ s.symbol.IsWord) ∨
    (s.role = none ∧ s.symbol.Spells role)

namespace Form

variable {role : Role} {f g : Form}

theorem each_of_avoids (h : f.avoids role = true) : f.Each fun s => s.role ≠ some role := by
  induction f with
  | nothing => trivial
  | token | rule | repeated => exact (Option.some_ne_none role).symm
  | seq f g ihf ihg | alt f g ihf ihg =>
    rw [avoids, Bool.and_eq_true] at h
    exact ⟨ihf h.1, ihg h.2⟩
  | as r f ih =>
    rw [avoids, Bool.and_eq_true, bne_iff_ne] at h
    refine (ih h.2).mono fun s hs => ?_
    cases hrole : s.role with
    | none => simpa using h.1
    | some inner => simpa [hrole] using hs
  | shown _ f ih | before _ f ih => exact (ih h).mono fun _ hs => hs

theorem each_of_isWord (h : f.isWord = true) :
    f.Each fun s => s.role = none ∧ s.kind = none ∧ s.symbol.IsWord := by
  induction f with
  | token t =>
    rw [isWord, Bool.and_eq_true, List.contains_iff_mem] at h
    exact ⟨rfl, rfl, .inl ⟨t, h.2, h.1, rfl⟩⟩
  | rule r => exact ⟨rfl, rfl, .inr (congrArg (fun r => Symbol.rule r.index) (beq_iff_eq.1 h))⟩
  | alt f g ihf ihg =>
    rw [isWord, Bool.and_eq_true] at h
    exact ⟨ihf h.1, ihg h.2⟩
  | _ => cases h

theorem each_shown {k : Kind} (h : f.isSpelled = true) :
    (shown k f).Each fun s => s.symbol.IsSpelled :=
  (each_of_isSpelled h).mono fun _ hs => hs.1

theorem role_of_isSpelled (h : f.isSpelled = true) :
    f.Each fun s => s.role = none ∧ ∃ n, s.symbol = .terminal n := by
  induction f with
  | token t => exact ⟨rfl, _, rfl⟩
  | alt f g ihf ihg =>
    rw [isSpelled, Bool.and_eq_true] at h
    exact ⟨ihf h.1, ihg h.2⟩
  | _ => cases h

theorem each_of_spells (h : f.spells role = true)
    (hrepetitions : ∀ g ∈ f.repetitions, g ∈ Grammar.repetitions) : f.Each (Step.Spells role) := by
  induction f with
  | nothing => trivial
  | token => exact .inr (.inr ⟨rfl, trivial⟩)
  | rule r =>
    rw [spells, Bool.or_eq_true, List.contains_iff_mem] at h
    exact .inr (.inr ⟨rfl, .inl ⟨r, rfl, h⟩⟩)
  | seq f g ihf ihg | alt f g ihf ihg =>
    rw [spells, Bool.and_eq_true] at h
    obtain ⟨hf, hg⟩ := List.forall_mem_append.1 hrepetitions
    exact ⟨ihf h.1 hf, ihg h.2 hg⟩
  | repeated f =>
    have hmem : f ∈ Grammar.repetitions := hrepetitions f (by simp [repetitions])
    exact .inr (.inr ⟨rfl, .inr ⟨_, f, rfl, List.getElem?_idxOf hmem, h⟩⟩)
  | as r f =>
    rw [spells] at h
    split at h
    next hr =>
      refine (each_of_isWord h).mono fun s hs => .inr (.inl ⟨?_, hs.2⟩)
      rw [hs.1, hr]
      rfl
    next hr =>
      refine (each_of_avoids h).mono fun s hs => .inl ?_
      cases hrole : s.role with
      | none => exact ⟨r, by simp, hr⟩
      | some inner => exact ⟨inner, by simp, fun heq => hs (hrole.trans (congrArg some heq))⟩
  | shown k f =>
    refine (role_of_isSpelled h).mono fun s hs => .inr (.inr ⟨hs.1, ?_⟩)
    obtain ⟨n, hn⟩ := hs.2
    show s.symbol.Spells role
    rw [hn]
    trivial
  | before _ f ih => exact (ih h hrepetitions).mono fun _ hs => hs

theorem mem_repetitions_trans {F : Form} (hf : f ∈ F.repetitions) (hg : g ∈ f.repetitions) :
    g ∈ F.repetitions := by
  induction F with
  | nothing | token | rule => exact absurd hf List.not_mem_nil
  | seq F G ihF ihG | alt F G ihF ihG =>
    rw [repetitions, List.mem_append] at hf ⊢
    exact hf.imp ihF ihG
  | repeated F ih =>
    rw [repetitions, List.mem_append, List.mem_singleton] at hf ⊢
    rcases hf with hf | rfl
    · exact .inl (ih hf)
    · exact .inl hg
  | as _ F ih | shown _ F ih | before _ F ih => exact ih hf

end Form

namespace Grammar

theorem mem_repetitions {r : Rule} {a : Alternative} (ha : a ∈ (definition r).alternatives)
    {f : Form} (hf : f ∈ a.form.repetitions) : f ∈ repetitions := by
  refine List.mem_eraseDups.2 (List.mem_flatMap.2 ⟨a, List.mem_flatMap.2 ⟨r, ?_, ha⟩, hf⟩)
  exact List.mem_of_getElem? (getElem?_rules r)

theorem mem_repetitions_of_mem {f g : Form} (hf : f ∈ repetitions) (hg : g ∈ f.repetitions) :
    g ∈ repetitions := by
  obtain ⟨a, ha, hf⟩ := List.mem_flatMap.1 (List.mem_eraseDups.1 hf)
  obtain ⟨r, -, ha⟩ := List.mem_flatMap.1 ha
  exact mem_repetitions ha (Form.mem_repetitions_trans hf hg)

end Grammar

/-- The roles in which nodes of a kind show a name or an operator. -/
def Kind.spelledRoles : Kind → List Role
  | .methodInvocation | .instanceofExpression | .classDeclaration | .interfaceDeclaration
  | .enumDeclaration | .recordDeclaration | .methodDeclaration => [.name]
  | .fieldAccess => [.field]
  | .assignmentExpression | .unaryExpression | .binaryExpression => [.operator]
  | _ => []

/-- In the roles of its kind, a rule has nothing but words. -/
theorem spells_definition {r : Rule} {k : Kind} (hk : (definition r).kind = some k) {role : Role}
    (hrole : role ∈ k.spelledRoles) : r.Each (Step.Spells role) := by
  have h : ((definition r).kind.elim [] Kind.spelledRoles).all (fun role =>
      (definition r).alternatives.all fun a => a.form.spells role) = true := by
    cases r <;> rfl
  rw [hk, Option.elim_some, List.all_eq_true] at h
  intro a ha
  exact Form.each_of_spells (List.all_eq_true.1 (h role hrole) a ha) fun g hg => mem_repetitions ha hg

theorem spells_spellingGroups {r : Rule} (hr : r ∈ spellingGroups) {role : Role}
    (hrole : role ∈ [.name, .field, .operator]) : r.Each (Step.Spells role) := by
  have h : ∀ r ∈ spellingGroups, ∀ role ∈ [Role.name, .field, .operator],
      (definition r).alternatives.all (fun a => a.form.spells role) = true := by
    decide
  intro a ha
  exact Form.each_of_spells (List.all_eq_true.1 (h r hr role hrole) a ha) fun g hg =>
    mem_repetitions ha hg

/-- Going through groups and repetitions does not lead out of what is spelled. -/
theorem Grammar.IsProduction.spells {q : Production} (hq : IsProduction q) (hkind : q.kind = none)
    {role : Role} (hrole : role ∈ [.name, .field, .operator])
    (h : (Symbol.rule q.rule).Spells role) : ∀ s ∈ q.steps, s.Spells role := by
  rcases hq.cases with rfl | ⟨r, hr, hdefined, a, ha, hsteps⟩ | ⟨n, f, hn, hf, -, hsteps⟩
  · rcases h with ⟨r, hr, -⟩ | ⟨i, f, hi, hf, -⟩
    · exact absurd (index_lt_count r) (by rw [← hr]; exact Nat.not_lt.2 (Nat.le_add_right _ _))
    · have := (List.getElem?_eq_some_iff.1 hf).1
      exact absurd hi (by show Rule.count + repetitions.length ≠ _; omega)
  · rcases h with ⟨r', hr', hgroup⟩ | ⟨i, f, hi, -, -⟩
    · obtain rfl : r = r' := index_injective (hr.symm.trans hr')
      have hmem : r ∈ spellingGroups := by
        rw [← hdefined, hkind] at hgroup
        exact hgroup.resolve_left (by simp)
      exact (spells_spellingGroups hmem hrole a ha).of_mem hsteps
    · have := index_lt_count r
      omega
  · rcases h with ⟨r, hr, -⟩ | ⟨i, f', hi, hf', hspells⟩
    · have := index_lt_count r
      omega
    · obtain rfl : n = i := by omega
      obtain rfl : f = f' := Option.some.inj (hf.symm.trans hf')
      have hform := Form.each_of_spells hspells fun g hg =>
        mem_repetitions_of_mem (List.mem_of_getElem? hf) hg
      rcases hsteps with hsteps | ⟨steps, hsteps, heq⟩
      · exact hform.of_mem hsteps
      · rw [heq]
        refine List.forall_mem_cons.2 ⟨.inr (.inr ⟨rfl, .inr ⟨n, f, rfl, hf, hspells⟩⟩), ?_⟩
        exact hform.of_mem hsteps

/-! ## Parts of phrases -/

namespace Derivation

variable {r : Rule} {steps : List Step} {cs : List Derivation}

theorem terminalKinds_index {t : Terminal} (ht : t ∈ Terminal.all) :
    terminalKinds.getD t.index .symbol = t.kind := by
  rw [terminalKinds, Array.getD_eq_getD_getElem?, List.getElem?_toArray, List.getElem?_map,
    Terminal.index, List.getElem?_idxOf ht]
  rfl

/-- The keywords that count as names. -/
theorem each_reservedIdentifier : Rule.reservedIdentifier.Each fun s => s.symbol.IsSpelled := by
  intro a ha
  simp only [definition, reservedIdentifier, List.mem_cons, List.not_mem_nil, or_false] at ha
  rcases ha with rfl | rfl
  · exact Form.each_shown rfl
  · exact Form.each_shown rfl

/-- What is read for a token that is spelled is shown with a solid text. -/
theorem IsDerivation.solid_of_isSpelled {d : Derivation} (hd : d.IsDerivation)
    (h : d.symbol.IsSpelled) {role : Option Role} {kind : Option Kind} :
    ∀ n ∈ d.viewOnto role kind [], Solid n.text := by
  obtain ⟨t, ht, hspelled, hsymbol⟩ := h
  obtain ⟨token, -, hview, hreads⟩ := hd.view_token hsymbol role kind
  rw [hview, List.forall_mem_singleton, Node.text_leaf]
  exact (hreads.allows ht).solid ht hspelled

theorem IsDerivation.solid_of_isWord {d : Derivation} (hd : d.IsDerivation)
    (h : d.symbol.IsWord) (role : Option Role) : ∀ n ∈ d.viewOnto role none [], Solid n.text := by
  rcases h with h | h
  · exact hd.solid_of_isSpelled h
  · obtain ⟨steps, cs, hphrase, hview⟩ := hd.view_group h rfl role
    rw [hview]
    intro n hn
    obtain ⟨s, hs, c, hc, hcs, hn⟩ := hphrase.exists_step hn
    exact hc.solid_of_isSpelled (hcs ▸ hphrase.each each_reservedIdentifier s hs) n hn

/-- A step in another role, or one that is a word, shows nothing but words in the role. -/
theorem shows_of_spells {role : Role} {s : Step} (h : s.Spells role) :
    Step.Shows (fun n => n.role = some role → Solid n.text) s ∨
      s.role = none ∧ s.symbol.Spells role := by
  rcases h with ⟨r, hr, hne⟩ | ⟨hrole, hkind, hword⟩ | hnone
  · refine .inl fun c _ _ n hn hrole => ?_
    rw [hr] at hn
    have hother := role_of_mem_viewOnto r s.kind c n hn
    exact absurd (Option.some.inj (hother.symm.trans hrole)) hne
  · refine .inl fun c hc hcs n hn _ => ?_
    rw [hkind] at hn
    exact hc.solid_of_isWord (hcs ▸ hword) s.role n hn
  · exact .inr hnone

/-- **What stands in a role that spells** has a solid text. -/
theorem IsPhrase.solid_of_role (h : IsPhrase r steps cs) {k : Kind}
    (hk : (definition r).kind = some k) {role : Role} (hrole : role ∈ k.spelledRoles) {n : Node}
    (hn : n ∈ partsOf none steps cs) (hnrole : n.role = some role) : Solid n.text := by
  have hroles : ∀ k : Kind, ∀ role ∈ k.spelledRoles, role ∈ [.name, .field, .operator] := by
    intro k
    cases k <;> decide
  obtain ⟨s, hs, c, hc, hcs, hn⟩ := h.exists_step hn
  rcases shows_of_spells (h.each (spells_definition hk hrole) s hs) with hshows | ⟨hnone, hspells⟩
  · exact hshows c hc hcs n hn hnrole
  · rw [Option.or, hnone] at hn
    refine hc.forall_shown (P := fun n => n.role = some role → Solid n.text)
      (G := Symbol.Spells role) ?_ ?_ (hcs ▸ hspells) (hcs ▸ h.each (each_showsName r) s hs) n hn
      hnrole
    · intro n hnone hsome
      rw [hnone] at hsome
      cases hsome
    · intro q hq hkind hG s hs
      exact shows_of_spells (hq.spells hkind (hroles k role hrole) hG s hs)

/-- The last part of a method reference is a token: the keyword `new`, or a name. -/
theorem IsPhrase.last_methodReference (h : IsPhrase .methodReference steps cs) {last : Node}
    (hlast : (partsOf none steps cs).getLast? = some last) :
    ∃ t ∈ [Terminal.word "new", .name], ∃ token, cs.getLast? = some (.leaf t.index token) ∧
      last = .leaf none (leafKind none t.index token) token ∧ Terminal.Reads t.index token.text := by
  obtain ⟨a, ha, hsteps⟩ := h.composed
  obtain ⟨fronts, -, hmem⟩ := exists_referenceFronts ha
  obtain ⟨front, -, hsteps⟩ := (hmem steps).1 hsteps
  have hshown : ∀ {t : Terminal}, steps = front ++ [⟨.terminal t.index, none, none, 0⟩] →
      ∃ token, cs.getLast? = some (.leaf t.index token) ∧
        last = .leaf none (leafKind none t.index token) token ∧
          Terminal.Reads t.index token.text := by
    rintro t rfl
    obtain ⟨c, hc, hsymbol, before, hparts⟩ := h.exists_last
    obtain ⟨token, rfl, hview, hreads⟩ :=
      (h.parts c (List.mem_of_getLast? hc)).view_token hsymbol none none
    rw [hparts, hview, List.getLast?_concat] at hlast
    exact ⟨token, hc, (Option.some.inj hlast).symm, hreads⟩
  rcases hsteps with hsteps | hsteps
  · exact ⟨_, .head _, hshown hsteps⟩
  · exact ⟨_, .tail _ (.head _), hshown hsteps⟩

/-- The mark of an increment or decrement. -/
def updateStep (m : String) : Step :=
  ⟨.terminal (Terminal.mark m).index, none, none, 0⟩

theorem steps_of_updateExpression {a : Alternative}
    (ha : a ∈ (definition .updateExpression).alternatives) (hsteps : steps ∈ sequences a.form) :
    ∃ m ∈ ["++", "--"], ∃ operand, steps = [operand] ++ [updateStep m] ∨
      steps = [updateStep m] ++ [operand] := by
  cases List.mem_singleton.1 ha
  simp only [Form.oneOf, Form.mark, sequences, List.flatMap_cons, List.flatMap_nil, List.map_cons,
    List.map_nil, List.cons_append, List.nil_append, List.append_nil, List.mem_cons,
    List.not_mem_nil, or_false] at hsteps
  rcases hsteps with rfl | rfl | rfl | rfl
  · exact ⟨"++", .head _, _, .inl rfl⟩
  · exact ⟨"--", .tail _ (.head _), _, .inl rfl⟩
  · exact ⟨"++", .head _, _, .inr rfl⟩
  · exact ⟨"--", .tail _ (.head _), _, .inr rfl⟩

/-- The mark of an increment or decrement is shown as it is. -/
theorem IsDerivation.view_updateStep {d : Derivation} (hd : d.IsDerivation) {m : String}
    (hm : m ∈ ["++", "--"]) (hsymbol : d.symbol = (updateStep m).symbol) :
    ∃ t, d.viewOnto none none [] = [.leaf none .symbol t] ∧ t.text = m := by
  have hmarks : ∀ m ∈ ["++", "--"], Terminal.mark m ∈ Terminal.all ∧
      Terminal.mark m ∉ Reading.closing ∧ m.isEmpty = false := by
    decide
  obtain ⟨hall, hclosing, hempty⟩ := hmarks m hm
  obtain ⟨t, -, hview, hreads⟩ := hd.view_token hsymbol none none
  have htext : t.text = m := (hreads.allows hall).resolve_right fun h => hclosing h.2
  refine ⟨t, ?_, htext⟩
  rw [hview, leafKind, htext, hempty, Option.getD_none, terminalKinds_index hall]
  rfl

/-- **An increment or decrement begins or ends with its mark.** -/
theorem IsPhrase.mark_updateExpression (h : IsPhrase .updateExpression steps cs) :
    (∃ first, (partsOf none steps cs).head? = some first ∧ first.kind = .symbol ∧
      (first.text = "++" ∨ first.text = "--")) ∨
    ∀ last, (partsOf none steps cs).getLast? = some last → Solid last.text := by
  obtain ⟨a, ha, hsteps⟩ := h.composed
  obtain ⟨m, hm, operand, hsteps⟩ := steps_of_updateExpression ha hsteps
  have hsolid : ∀ m ∈ ["++", "--"], Solid m := by decide
  rcases hsteps with rfl | rfl
  · right
    obtain ⟨c, hc, hsymbol, before, hparts⟩ := h.exists_last
    obtain ⟨t, hview, rfl⟩ := (h.parts c (List.mem_of_getLast? hc)).view_updateStep hm hsymbol
    intro last hlast
    have hview' : c.viewOnto (updateStep t.text).role (updateStep t.text).kind [] = _ := hview
    rw [hparts, hview', List.getLast?_concat] at hlast
    cases hlast
    rw [Node.text_leaf]
    exact hsolid _ hm
  · left
    cases cs with
    | nil => cases h.symbols
    | cons c cs =>
      have hsymbol : c.symbol = (updateStep m).symbol := (List.cons.inj h.symbols).1
      obtain ⟨t, hview, rfl⟩ := (h.parts c (.head _)).view_updateStep hm hsymbol
      refine ⟨.leaf none .symbol t, ?_, rfl, ?_⟩
      · rw [partsOf, List.singleton_append, List.zip_cons_cons, List.flatMap_cons]
        show (c.viewOnto none none [] ++ _).head? = _
        rw [hview]
        rfl
      · rw [Node.text_leaf]
        simpa using hm

end Derivation

/-! ## Nodes -/

/-- **What is shown of a node by its text alone** has no blanks in it. -/
@[mk_iff]
structure Node.IsSpelled (n : Node) : Prop where
  word : n.kind = .identifier ∨ n.kind = .thisWord ∨ n.kind = .superWord → Solid n.text
  part : ∀ role ∈ n.kind.spelledRoles, ∀ c ∈ n.parts, c.role = some role → Solid c.text
  reference : n.kind = .methodReference → ∀ last ∈ n.parts.getLast?, Solid last.text
  update : n.kind = .updateExpression →
    (∃ first ∈ n.parts.head?, first.kind = .symbol ∧ (first.text = "++" ∨ first.text = "--")) ∨
    ∀ last ∈ n.parts.getLast?, Solid last.text

instance (n : Node) : Decidable n.IsSpelled :=
  decidable_of_iff' _ (Node.isSpelled_iff n)

namespace Node.IsSpelled

theorem of_kind {n : Node} (h : n.kind = .program ∨ n.kind = .error) : n.IsSpelled := by
  constructor <;> rcases h with h | h <;> simp [h, Kind.spelledRoles]

theorem last_error {parts : List Node} :
    ∀ last, (parts ++ [branch none .error []]).getLast? = some last → Solid last.text := by
  intro last hlast
  rw [List.getLast?_concat] at hlast
  cases hlast
  exact only_empty _

/-- A fault at the end changes nothing. -/
theorem append_error {role : Option Role} {k : Kind} {parts : List Node}
    (h : (Node.branch role k parts).IsSpelled) :
    (Node.branch role k (parts ++ [.branch none .error []])).IsSpelled where
  word hk := by
    rw [text, tokens_append_error]
    exact h.word hk
  part r hr c hc hrole := by
    rcases List.mem_append.1 hc with hc | hc
    · exact h.part r hr c hc hrole
    · cases List.mem_singleton.1 hc
      cases hrole
  reference _ := last_error
  update _ := .inr last_error

end Node.IsSpelled

/-- Nodes of the kinds that are shown by their texts are tokens. -/
theorem Grammar.kind_ne_word (r : Rule) :
    (definition r).kind ≠ some .identifier ∧ (definition r).kind ≠ some .thisWord ∧
      (definition r).kind ≠ some .superWord := by
  cases r <;> decide

/-- These two kinds of nodes are each those of one rule. -/
theorem eq_of_kind_eq {r r' : Rule} (hr' : r' ∈ [.methodReference, .updateExpression])
    (h : (definition r).kind = (definition r').kind) : r = r' := by
  have hunique : [Rule.methodReference, .updateExpression].all (fun r' =>
      (definition r).kind != (definition r').kind || r == r') = true := by
    cases r <;> rfl
  simpa [h] using List.all_eq_true.1 hunique r' hr'

/-- **In the tree of a derivation, names and operators have solid texts.** -/
theorem Derivation.IsDerivation.isSpelled_of_view {d : Derivation} (hd : d.IsDerivation) {n m : Node}
    (hn : n ∈ d.view) (hm : n.Holds m) : m.IsSpelled := by
  rcases shown_of_holds hd (.inl rfl) hn hm with
    ⟨r, k, t, rfl, htoken⟩ | ⟨role, r, k, steps, cs, rfl, hk, hphrase⟩
  · have hlast : ∀ last, (Node.leaf r k t).parts.getLast? = some last → Solid last.text := by
      intro last hlast
      cases hlast
    refine ⟨fun hword => ?_, fun _ _ c hc => absurd hc List.not_mem_nil, fun _ => hlast,
      fun _ => .inr hlast⟩
    · rw [Node.text_leaf]
      refine htoken.solid ?_
      rcases hword with h | h | h
      · exact .inl h
      · exact .inr (.inr (.inl h))
      · exact .inr (.inr (.inr h))
  · refine ⟨fun hword => ?_, fun s hs c hc hrole => hphrase.solid_of_role hk hs hc hrole, ?_, ?_⟩
    · obtain ⟨hidentifier, hthis, hsuper⟩ := kind_ne_word r
      rcases hword with rfl | rfl | rfl
      · exact absurd hk hidentifier
      · exact absurd hk hthis
      · exact absurd hk hsuper
    · rintro rfl last hlast
      obtain rfl : r = .methodReference := eq_of_kind_eq (.head _) hk
      obtain ⟨t, ht, token, -, rfl, hreads⟩ := hphrase.last_methodReference hlast
      rw [Node.text_leaf]
      have hspelled : ∀ t ∈ [Terminal.word "new", .name], t ∈ Terminal.all ∧ t.isSpelled = true := by
        decide
      obtain ⟨hall, hspelled⟩ := hspelled t ht
      exact (hreads.allows hall).solid hall hspelled
    · rintro rfl
      obtain rfl : r = .updateExpression := eq_of_kind_eq (.tail _ (.head _)) hk
      exact hphrase.mark_updateExpression

end CallOrigins.Java
