import CallOrigins.Proofs.Java.Stacks

/-!
# What a tree shows of a derivation

The nodes of a tree are the phrases of the rules that have nodes of their own
(`Derivation.shown_of_holds`), and its tokens are among those that were read, in the same order. The
phrases of a rule without nodes are shown in place by their parts.

Which parts a node has depends on the form of its rule. `Form.Each` and `Form.Has` carry what is
said of the steps of all phrases of a form over to the form itself.
-/

namespace CallOrigins.Java

open Grammar Text

/-! ## Steps of a form -/

namespace Form

/-- All steps of the phrases have a property. -/
def Each : Form → (Step → Prop) → Prop
  | nothing, _ => True
  | token t, P => P ⟨.terminal t.index, none, none, 0⟩
  | rule r, P => P ⟨.rule r.index, none, none, 0⟩
  | seq f g, P | alt f g, P => f.Each P ∧ g.Each P
  | repeated f, P => P ⟨.rule (Rule.count + Grammar.repetitions.idxOf f), none, none, 0⟩
  | as r f, P => f.Each fun s => P { s with role := s.role.or (some r) }
  | shown k f, P => f.Each fun s => P { s with kind := s.kind.or (some k) }
  | before t f, P => f.Each fun s => P { s with before := s.before.join (.single t.index) }

/-- Each phrase has a step with a property. -/
def Has : Form → (Step → Prop) → Prop
  | nothing, _ => False
  | token t, P => P ⟨.terminal t.index, none, none, 0⟩
  | rule r, P => P ⟨.rule r.index, none, none, 0⟩
  | seq f g, P => f.Has P ∨ g.Has P
  | alt f g, P => f.Has P ∧ g.Has P
  | repeated f, P => P ⟨.rule (Rule.count + Grammar.repetitions.idxOf f), none, none, 0⟩
  | as r f, P => f.Has fun s => P { s with role := s.role.or (some r) }
  | shown k f, P => f.Has fun s => P { s with kind := s.kind.or (some k) }
  | before t f, P => f.Has fun s => P { s with before := s.before.join (.single t.index) }

theorem Each.of_mem {f : Form} {P : Step → Prop} (h : f.Each P) {steps : List Step}
    (hsteps : steps ∈ sequences f) : ∀ s ∈ steps, P s := by
  induction f generalizing P steps with
  | nothing =>
    cases List.mem_singleton.1 hsteps
    exact fun _ hs => absurd hs List.not_mem_nil
  | token | rule | repeated =>
    cases List.mem_singleton.1 hsteps
    exact fun s hs => List.mem_singleton.1 hs ▸ h
  | seq f g ihf ihg =>
    obtain ⟨front, hfront, hmap⟩ := List.mem_flatMap.1 hsteps
    obtain ⟨back, hback, rfl⟩ := List.mem_map.1 hmap
    exact List.forall_mem_append.2 ⟨ihf h.1 hfront, ihg h.2 hback⟩
  | alt f g ihf ihg =>
    rcases List.mem_append.1 hsteps with hsteps | hsteps
    · exact ihf h.1 hsteps
    · exact ihg h.2 hsteps
  | as _ f ih | shown _ f ih | before _ f ih =>
    obtain ⟨inner, hinner, rfl⟩ := List.mem_map.1 hsteps
    exact List.forall_mem_map.2 (ih h hinner)

theorem Has.exists_of_mem {f : Form} {P : Step → Prop} (h : f.Has P) {steps : List Step}
    (hsteps : steps ∈ sequences f) : ∃ s ∈ steps, P s := by
  induction f generalizing P steps with
  | nothing => exact absurd h id
  | token | rule | repeated =>
    cases List.mem_singleton.1 hsteps
    exact ⟨_, .head _, h⟩
  | seq f g ihf ihg =>
    obtain ⟨front, hfront, hmap⟩ := List.mem_flatMap.1 hsteps
    obtain ⟨back, hback, rfl⟩ := List.mem_map.1 hmap
    rcases h with h | h
    · obtain ⟨s, hs, hP⟩ := ihf h hfront
      exact ⟨s, List.mem_append_left _ hs, hP⟩
    · obtain ⟨s, hs, hP⟩ := ihg h hback
      exact ⟨s, List.mem_append_right _ hs, hP⟩
  | alt f g ihf ihg =>
    rcases List.mem_append.1 hsteps with hsteps | hsteps
    · exact ihf h.1 hsteps
    · exact ihg h.2 hsteps
  | as _ f ih | shown _ f ih | before _ f ih =>
    obtain ⟨inner, hinner, rfl⟩ := List.mem_map.1 hsteps
    obtain ⟨s, hs, hP⟩ := ih h hinner
    exact ⟨_, List.mem_map_of_mem hs, hP⟩

/-- Only names, keywords and marks, with no kind but their own. -/
def isSpelled : Form → Bool
  | token t => t.isSpelled && Terminal.all.contains t
  | alt f g => f.isSpelled && g.isSpelled
  | _ => false

/-- Only such tokens are shown as another kind than their own, namely as names. -/
def showsNames : Form → Bool
  | nothing | token _ | rule _ => true
  | seq f g | alt f g => f.showsNames && g.showsNames
  | repeated f | as _ f | before _ f => f.showsNames
  | shown k f => (k == .identifier || k == .typeIdentifier) && f.isSpelled

end Form

/-- A name, a keyword or a mark. -/
def Symbol.IsSpelled (symbol : Symbol) : Prop :=
  ∃ t ∈ Terminal.all, t.isSpelled = true ∧ symbol = .terminal t.index

/-- A symbol is shown as what it is, or is a token that is shown as a name. -/
def Symbol.ShownAs (symbol : Symbol) (kind : Option Kind) : Prop :=
  kind = none ∨ symbol.IsSpelled ∧ (kind = some .identifier ∨ kind = some .typeIdentifier)

theorem Symbol.ShownAs.kind_eq_none {n : Nat} {kind : Option Kind}
    (h : (Symbol.rule n).ShownAs kind) : kind = none := by
  rcases h with rfl | ⟨⟨t, -, -, hsymbol⟩, -⟩
  · rfl
  · cases hsymbol

/-- The step has the kind of its symbol, or is a token that is shown as a name. -/
def Step.ShowsName (s : Step) : Prop :=
  s.symbol.ShownAs s.kind

/-- All steps of the phrases of a rule have a property. -/
def Rule.Each (r : Rule) (P : Step → Prop) : Prop :=
  ∀ a ∈ (definition r).alternatives, a.form.Each P

/-- Each phrase of a rule has a step with a property. -/
def Rule.Has (r : Rule) (P : Step → Prop) : Prop :=
  ∀ a ∈ (definition r).alternatives, a.form.Has P

theorem Form.each_of_isSpelled {f : Form} (h : f.isSpelled = true) :
    f.Each fun s => s.symbol.IsSpelled ∧ s.kind = none := by
  induction f with
  | token t =>
    rw [isSpelled, Bool.and_eq_true, List.contains_iff_mem] at h
    exact ⟨⟨t, h.2, h.1, rfl⟩, rfl⟩
  | alt f g ihf ihg =>
    rw [isSpelled, Bool.and_eq_true] at h
    exact ⟨ihf h.1, ihg h.2⟩
  | _ => cases h

theorem Form.Each.mono {f : Form} {P Q : Step → Prop} (h : f.Each P) (hPQ : ∀ s, P s → Q s) :
    f.Each Q := by
  induction f generalizing P Q with
  | nothing => trivial
  | token | rule | repeated => exact hPQ _ h
  | seq f g ihf ihg | alt f g ihf ihg => exact ⟨ihf h.1 hPQ, ihg h.2 hPQ⟩
  | as _ f ih | shown _ f ih | before _ f ih => exact ih h fun s => hPQ _

theorem Form.each_of_showsNames {f : Form} (h : f.showsNames = true) : f.Each Step.ShowsName := by
  induction f with
  | nothing => trivial
  | token | rule | repeated => exact .inl rfl
  | seq f g ihf ihg | alt f g ihf ihg =>
    rw [showsNames, Bool.and_eq_true] at h
    exact ⟨ihf h.1, ihg h.2⟩
  | as _ f ih | before _ f ih => exact (ih h).mono fun _ h => h
  | shown k f ih =>
    simp only [showsNames, Bool.and_eq_true, Bool.or_eq_true, beq_iff_eq] at h
    refine (each_of_isSpelled h.2).mono fun s hs => .inr ⟨hs.1, ?_⟩
    change s.kind.or (some k) = _ ∨ s.kind.or (some k) = _
    rw [hs.2]
    exact h.1.imp (congrArg some) (congrArg some)

theorem Form.repetitions_of_isSpelled {f : Form} (h : f.isSpelled = true) : f.repetitions = [] := by
  induction f with
  | token => rfl
  | alt f g ihf ihg =>
    rw [isSpelled, Bool.and_eq_true] at h
    rw [Form.repetitions, ihf h.1, ihg h.2]
    rfl
  | _ => cases h

theorem Form.showsNames_of_mem_repetitions {f g : Form} (h : f.showsNames = true)
    (hg : g ∈ f.repetitions) : g.showsNames = true := by
  induction f with
  | nothing | token | rule => exact absurd hg List.not_mem_nil
  | seq f g ihf ihg | alt f g ihf ihg =>
    rw [showsNames, Bool.and_eq_true] at h
    rcases List.mem_append.1 hg with hg | hg
    · exact ihf h.1 hg
    · exact ihg h.2 hg
  | repeated f ih =>
    rcases List.mem_append.1 hg with hg | hg
    · exact ih h hg
    · cases List.mem_singleton.1 hg
      exact h
  | as _ f ih | before _ f ih => exact ih h hg
  | shown k f =>
    rw [showsNames, Bool.and_eq_true] at h
    rw [Form.repetitions, repetitions_of_isSpelled h.2] at hg
    exact absurd hg List.not_mem_nil

namespace Grammar

theorem showsNames_definition (r : Rule) :
    ∀ a ∈ (definition r).alternatives, a.form.showsNames = true := by
  have h : (definition r).alternatives.all (fun a => a.form.showsNames) = true := by
    cases r <;> rfl
  exact List.all_eq_true.1 h

theorem each_showsName (r : Rule) : r.Each Step.ShowsName :=
  fun a ha => Form.each_of_showsNames (showsNames_definition r a ha)

theorem showsNames_of_mem_repetitions {f : Form} (h : f ∈ repetitions) : f.showsNames = true := by
  obtain ⟨a, ha, hf⟩ := List.mem_flatMap.1 (List.mem_eraseDups.1 h)
  obtain ⟨r, -, ha⟩ := List.mem_flatMap.1 ha
  exact Form.showsNames_of_mem_repetitions (showsNames_definition r a ha) hf

/-- **In every production only tokens are shown as another kind than their own.** -/
theorem IsProduction.showsName {p : Production} (hp : IsProduction p) :
    ∀ s ∈ p.steps, s.ShowsName := by
  rcases hp.cases with rfl | ⟨r, -, -, a, ha, hsteps⟩ | ⟨n, f, -, hf, -, hsteps⟩
  · exact List.forall_mem_singleton.2 (.inl rfl)
  · exact (each_showsName r a ha).of_mem hsteps
  · have hform := Form.each_of_showsNames (showsNames_of_mem_repetitions (List.mem_of_getElem? hf))
    rcases hsteps with hsteps | ⟨steps, hsteps, heq⟩
    · exact hform.of_mem hsteps
    · rw [heq]
      exact List.forall_mem_cons.2 ⟨.inl rfl, hform.of_mem hsteps⟩

end Grammar

/-! ## The nodes of a derivation -/

namespace Derivation

/-- The nodes of the parts of a phrase. -/
def partsOf (whole : Option Role) (steps : List Step) (cs : List Derivation) : List Node :=
  (steps.zip cs).flatMap fun part => part.2.viewOnto (whole.or part.1.role) part.1.kind []

mutual
theorem viewOnto_append (role : Option Role) (kind : Option Kind) (d : Derivation)
    (after : List Node) : d.viewOnto role kind after = d.viewOnto role kind [] ++ after := by
  match d with
  | .leaf n t => rfl
  | .branch p cs =>
    rw [viewOnto, viewOnto]
    cases kind.or p.kind with
    | some k => rfl
    | none => exact viewAllOnto_append role p.steps cs after
theorem viewAllOnto_append (whole : Option Role) (steps : List Step) (ds : List Derivation)
    (after : List Node) :
    viewAllOnto whole steps ds after = viewAllOnto whole steps ds [] ++ after := by
  match steps, ds with
  | [], [] => rfl
  | [], _ :: _ => rfl
  | _ :: _, [] => rfl
  | s :: ss, d :: ds =>
    rw [viewAllOnto, viewAllOnto, viewOnto_append (whole.or s.role) s.kind d,
      viewAllOnto_append whole ss ds after,
      viewOnto_append (whole.or s.role) s.kind d (viewAllOnto whole ss ds []), List.append_assoc]
end

theorem viewAllOnto_eq (whole : Option Role) (steps : List Step) (cs : List Derivation) :
    viewAllOnto whole steps cs [] = partsOf whole steps cs := by
  induction steps generalizing cs with
  | nil => cases cs <;> rfl
  | cons s steps ih =>
    cases cs with
    | nil => rfl
    | cons c cs =>
      rw [viewAllOnto, viewOnto_append, ih, partsOf, partsOf, List.zip_cons_cons, List.flatMap_cons]

theorem viewOnto_branch_some (role : Option Role) (kind : Option Kind) {p : Production} {k : Kind}
    (h : kind.or p.kind = some k) (cs : List Derivation) :
    (branch p cs).viewOnto role kind [] = [.branch role k (partsOf none p.steps cs)] := by
  rw [viewOnto, h, ← viewAllOnto_eq]

theorem viewOnto_branch_none (role : Option Role) (kind : Option Kind) {p : Production}
    (h : kind.or p.kind = none) (cs : List Derivation) :
    (branch p cs).viewOnto role kind [] = partsOf role p.steps cs := by
  rw [viewOnto, h, ← viewAllOnto_eq]

/-- Only how the steps are shown counts. -/
theorem partsOf_congr {whole : Option Role} {steps steps' : List Step} (cs : List Derivation)
    (h : steps.map (fun s => (s.role, s.kind)) = steps'.map fun s => (s.role, s.kind)) :
    partsOf whole steps cs = partsOf whole steps' cs := by
  induction steps generalizing steps' cs with
  | nil => rw [List.map_eq_nil_iff.1 h.symm]
  | cons s steps ih =>
    cases steps' with
    | nil => cases h
    | cons s' steps' =>
      simp only [List.map_cons, List.cons.injEq, Prod.mk.injEq] at h
      cases cs with
      | nil => rfl
      | cons c cs =>
        simp only [partsOf, List.zip_cons_cons, List.flatMap_cons] at ih ⊢
        rw [h.1.1, h.1.2, ih cs h.2]

/-! ## Tokens of the nodes -/

mutual
theorem tokens_viewOnto_sublist (role : Option Role) (kind : Option Kind) (d : Derivation) :
    ((d.viewOnto role kind []).flatMap Node.tokens).Sublist d.tokens := by
  match d with
  | .leaf n t => exact List.Sublist.refl _
  | .branch p cs =>
    cases hkind : kind.or p.kind with
    | some k =>
      rw [viewOnto_branch_some role kind hkind, tokens_branch, List.flatMap_singleton,
        Node.tokens_branch]
      exact tokens_partsOf_sublist none p.steps cs
    | none =>
      rw [viewOnto_branch_none role kind hkind, tokens_branch]
      exact tokens_partsOf_sublist role p.steps cs
theorem tokens_partsOf_sublist (whole : Option Role) (steps : List Step) (cs : List Derivation) :
    ((partsOf whole steps cs).flatMap Node.tokens).Sublist (cs.flatMap tokens) := by
  match steps, cs with
  | [], _ => exact List.nil_sublist _
  | _ :: _, [] => exact List.nil_sublist _
  | s :: ss, c :: cs =>
    rw [partsOf, List.zip_cons_cons, List.flatMap_cons, List.flatMap_append, List.flatMap_cons]
    exact (tokens_viewOnto_sublist (whole.or s.role) s.kind c).append
      (tokens_partsOf_sublist whole ss cs)
end

/-! ## Roles -/

mutual
/-- A role that is given to a whole is the role of all that is shown of it. -/
theorem role_of_mem_viewOnto (role : Role) (kind : Option Kind) (d : Derivation) :
    ∀ n ∈ d.viewOnto (some role) kind [], n.role = some role := by
  match d with
  | .leaf m t => exact List.forall_mem_singleton.2 rfl
  | .branch p cs =>
    cases hkind : kind.or p.kind with
    | some k =>
      rw [viewOnto_branch_some _ _ hkind]
      exact List.forall_mem_singleton.2 rfl
    | none =>
      rw [viewOnto_branch_none _ _ hkind]
      exact role_of_mem_partsOf role p.steps cs
theorem role_of_mem_partsOf (role : Role) (steps : List Step) (cs : List Derivation) :
    ∀ n ∈ partsOf (some role) steps cs, n.role = some role := by
  match steps, cs with
  | [], [] => exact fun _ h => absurd h List.not_mem_nil
  | [], _ :: _ => exact fun _ h => absurd h List.not_mem_nil
  | _ :: _, [] => exact fun _ h => absurd h List.not_mem_nil
  | s :: ss, c :: cs =>
    rw [partsOf, List.zip_cons_cons, List.flatMap_cons, List.forall_mem_append]
    exact ⟨role_of_mem_viewOnto role s.kind c, role_of_mem_partsOf role ss cs⟩
end

/-! ## What the nodes are -/

/-- A phrase of a rule: the steps of one of its alternatives, each with what was read for it. -/
structure IsPhrase (r : Rule) (steps : List Step) (cs : List Derivation) : Prop where
  composed : ∃ a ∈ (definition r).alternatives, steps ∈ sequences a.form
  symbols : cs.map symbol = steps.map Step.symbol
  named : r = .methodReference →
    ∀ t, cs.getLast? = some (.leaf Terminal.name.index t) → t.text ≠ "new"
  parts : ∀ c ∈ cs, IsDerivation c

/-- A token is shown with a kind: that of its terminal, or that of a name. -/
def ShowsToken (k : Kind) (t : Token) : Prop :=
  ∃ n kind, k = leafKind kind n t ∧ (Symbol.terminal n).ShownAs kind ∧ Terminal.Reads n t.text

/-- The kinds with which a token can be shown: it is missing, a name, nothing but a symbol, or what
its terminal is. -/
theorem ShowsToken.cases {k : Kind} {t : Token} (h : ShowsToken k t) :
    k = .missing ∨ (k = .identifier ∨ k = .typeIdentifier) ∧ Solid t.text ∨ k = .symbol ∨
      ∃ u ∈ Terminal.all, k = u.kind ∧ u.Allows t.text := by
  obtain ⟨n, kind, rfl, hkind, hreads⟩ := h
  unfold leafKind
  split
  · exact .inl rfl
  · rcases hkind with rfl | ⟨⟨u, hu, hspelled, hsymbol⟩, hname⟩
    · rw [Option.getD_none, terminalKinds, Array.getD_eq_getD_getElem?, List.getElem?_toArray,
        List.getElem?_map]
      cases hn : Terminal.all[n]? with
      | none => exact .inr (.inr (.inl rfl))
      | some u => exact .inr (.inr (.inr ⟨u, List.mem_of_getElem? hn, rfl, hreads u hn⟩))
    · cases hsymbol
      refine .inr (.inl ⟨?_, (hreads.allows hu).solid hu hspelled⟩)
      rcases hname with rfl | rfl
      · exact .inl rfl
      · exact .inr rfl

theorem ShowsToken.isCall {k : Kind} {t : Token} (h : ShowsToken k t) :
    k.isCall = false ∧ k.isBoundary = false := by
  rcases h.cases with rfl | ⟨rfl | rfl, -⟩ | rfl | ⟨u, -, rfl, -⟩
  case inr.inr.inr =>
    cases u with
    | word text => constructor <;> (unfold Terminal.kind; dsimp only; split) <;> rfl
    | _ => exact ⟨rfl, rfl⟩
  all_goals exact ⟨rfl, rfl⟩

/-- **Names, and the words `this` and `super`, are shown with a solid text.** -/
theorem ShowsToken.solid {k : Kind} {t : Token} (h : ShowsToken k t)
    (hk : k = .identifier ∨ k = .typeIdentifier ∨ k = .thisWord ∨ k = .superWord) :
    Solid t.text := by
  rcases h.cases with rfl | ⟨-, hsolid⟩ | rfl | ⟨u, hu, rfl, hallows⟩
  · simp at hk
  · exact hsolid
  · simp at hk
  · refine hallows.solid hu ?_
    cases u with
    | name | word | mark => rfl
    | _ => simp [Terminal.kind] at hk

/-- The step with which a part was read. -/
theorem mem_partsOf {whole : Option Role} {steps : List Step} {cs : List Derivation} {n : Node}
    (h : n ∈ partsOf whole steps cs) :
    ∃ s c, (s, c) ∈ steps.zip cs ∧ n ∈ c.viewOnto (whole.or s.role) s.kind [] := by
  obtain ⟨⟨s, c⟩, hmem, hn⟩ := List.mem_flatMap.1 h
  exact ⟨s, c, hmem, hn⟩

theorem symbol_of_mem_zip {steps : List Step} {cs : List Derivation}
    (h : cs.map symbol = steps.map Step.symbol) {s : Step} {c : Derivation}
    (hmem : (s, c) ∈ steps.zip cs) : c.symbol = s.symbol := by
  induction steps generalizing cs with
  | nil => exact absurd hmem List.not_mem_nil
  | cons s' steps ih =>
    cases cs with
    | nil => cases h
    | cons c' cs =>
      simp only [List.map_cons, List.cons.injEq] at h
      rcases List.mem_cons.1 hmem with heq | hmem
      · cases heq
        exact h.1
      · exact ih h.2 hmem

theorem partsOf_concat {whole : Option Role} {steps : List Step} {cs : List Derivation}
    (hlength : steps.length = cs.length) (s : Step) (c : Derivation) :
    partsOf whole (steps ++ [s]) (cs ++ [c]) =
      partsOf whole steps cs ++ c.viewOnto (whole.or s.role) s.kind [] := by
  rw [partsOf, List.zip_append hlength, List.flatMap_append]
  simp [partsOf]

namespace IsPhrase

variable {r : Rule} {steps : List Step} {cs : List Derivation}

theorem each (h : IsPhrase r steps cs) {P : Step → Prop} (hP : r.Each P) : ∀ s ∈ steps, P s := by
  obtain ⟨a, ha, hsteps⟩ := h.composed
  exact (hP a ha).of_mem hsteps

theorem exists_of_has (h : IsPhrase r steps cs) {P : Step → Prop} (hP : r.Has P) :
    ∃ s ∈ steps, P s := by
  obtain ⟨a, ha, hsteps⟩ := h.composed
  exact (hP a ha).exists_of_mem hsteps

theorem length_eq (h : IsPhrase r steps cs) : steps.length = cs.length := by
  have := congrArg List.length h.symbols
  simpa using this.symm

/-- Each step was read. -/
theorem exists_part (h : IsPhrase r steps cs) {s : Step} (hs : s ∈ steps) :
    ∃ c : Derivation, c.IsDerivation ∧ c.symbol = s.symbol ∧
      ∀ whole, ∀ n ∈ c.viewOnto (whole.or s.role) s.kind [], n ∈ partsOf whole steps cs := by
  have hlength := h.length_eq
  obtain ⟨i, hi, rfl⟩ := List.getElem_of_mem hs
  have hmem : (steps[i], cs[i]) ∈ steps.zip cs := by
    rw [List.mem_iff_getElem]
    exact ⟨i, by rw [List.length_zip]; omega, by simp⟩
  exact ⟨cs[i], h.parts _ (List.getElem_mem _), symbol_of_mem_zip h.symbols hmem,
    fun whole n hn => List.mem_flatMap.2 ⟨_, hmem, hn⟩⟩

/-- Each part was read for a step. -/
theorem exists_step (h : IsPhrase r steps cs) {whole : Option Role} {n : Node}
    (hn : n ∈ partsOf whole steps cs) :
    ∃ s ∈ steps, ∃ c : Derivation, c.IsDerivation ∧ c.symbol = s.symbol ∧
      n ∈ c.viewOnto (whole.or s.role) s.kind [] := by
  obtain ⟨s, c, hmem, hn⟩ := mem_partsOf hn
  obtain ⟨hs, hc⟩ := List.of_mem_zip hmem
  exact ⟨s, hs, c, h.parts c hc, symbol_of_mem_zip h.symbols hmem, hn⟩

/-- The last step was read last. -/
theorem exists_last {front : List Step} {s : Step} (h : IsPhrase r (front ++ [s]) cs) :
    ∃ c, cs.getLast? = some c ∧ c.symbol = s.symbol ∧ ∃ before,
      partsOf none (front ++ [s]) cs = before ++ c.viewOnto s.role s.kind [] := by
  have hsymbols := h.symbols
  rw [List.map_append, List.map_eq_append_iff] at hsymbols
  obtain ⟨csFront, csLast, rfl, -, hback⟩ := hsymbols
  obtain ⟨c, rfl, hc⟩ := List.map_eq_singleton_iff.1 hback
  have hlength : front.length = csFront.length := by
    have := h.length_eq
    simpa using this
  exact ⟨c, List.getLast?_concat .., hc, _, partsOf_concat hlength s c⟩

end IsPhrase

/-- What is read for a terminal is a token, shown as a leaf. -/
theorem IsDerivation.view_token {d : Derivation} (hd : d.IsDerivation) {n : Nat}
    (hn : d.symbol = .terminal n) (role : Option Role) (kind : Option Kind) :
    ∃ t, d = .leaf n t ∧ d.viewOnto role kind [] = [.leaf role (leafKind kind n t) t] ∧
      Terminal.Reads n t.text := by
  cases hd with
  | leaf reads =>
    cases hn
    exact ⟨_, rfl, rfl, reads⟩
  | branch => cases hn

/-- The parts of a phrase are shown as those of the production by which they were read. -/
theorem IsDerivation.exists_read {p : Production} {cs : List Derivation}
    (h : IsDerivation (.branch p cs)) :
    ∃ q, IsProduction q ∧ q.rule = p.rule ∧ q.kind = p.kind ∧
      cs.map symbol = q.steps.map Step.symbol ∧
        ∀ whole, partsOf whole p.steps cs = partsOf whole q.steps cs := by
  cases h with
  | @branch _ q _ ended read rule trace symbols named parts =>
    have hlength := Composition.length_eq_of_trace_eq trace (Nat.le_refl _)
    have hshown := Composition.shown_eq_of_trace_eq trace
    rw [List.take_length, hlength, List.take_length] at hshown
    exact ⟨q, read, rule, read.kind_eq ended rule, symbols, fun _ => partsOf_congr cs hshown⟩

theorem IsDerivation.exists_isPhrase {p : Production} {cs : List Derivation}
    (h : IsDerivation (.branch p cs)) {r : Rule} (hr : p.rule = r.index) :
    ∃ steps, IsPhrase r steps cs ∧ p.kind = (definition r).kind ∧
      ∀ whole, partsOf whole p.steps cs = partsOf whole steps cs := by
  obtain ⟨q, hq, hrule, hkind, symbols, hparts⟩ := h.exists_read
  have hmem := hq.mem_of_rule (hrule.trans hr)
  rw [productionsOf_index] at hmem
  obtain ⟨composed, hdefined⟩ := mem_namedProductions hmem
  refine ⟨q.steps, ?_, hkind.symm.trans hdefined, hparts⟩
  cases h with
  | branch _ _ _ _ _ named parts =>
    exact ⟨composed, symbols, fun hreference => named (hreference ▸ hr), parts⟩

/-- A phrase of a rule with nodes of its own is shown as a node. -/
theorem IsDerivation.view_node {d : Derivation} (hd : d.IsDerivation) {r : Rule}
    (hr : d.symbol = .rule r.index) {k : Kind} (hk : (definition r).kind = some k)
    (role : Option Role) :
    ∃ steps cs, IsPhrase r steps cs ∧
      d.viewOnto role none [] = [.branch role k (partsOf none steps cs)] := by
  cases d with
  | leaf => cases hr
  | branch p cs =>
    obtain ⟨steps, hphrase, hkind, hparts⟩ := hd.exists_isPhrase (Symbol.rule.inj hr)
    exact ⟨steps, cs, hphrase, by rw [viewOnto_branch_some role none (hkind.trans hk), hparts]⟩

/-- A phrase of a rule without nodes is shown by its parts. -/
theorem IsDerivation.view_group {d : Derivation} (hd : d.IsDerivation) {r : Rule}
    (hr : d.symbol = .rule r.index) (hk : (definition r).kind = none) (role : Option Role) :
    ∃ steps cs, IsPhrase r steps cs ∧ d.viewOnto role none [] = partsOf role steps cs := by
  cases d with
  | leaf => cases hr
  | branch p cs =>
    obtain ⟨steps, hphrase, hkind, hparts⟩ := hd.exists_isPhrase (Symbol.rule.inj hr)
    exact ⟨steps, cs, hphrase, by rw [viewOnto_branch_none role none (hkind.trans hk), hparts]⟩

/-- A production with nodes of its own is one of a named rule. -/
theorem exists_rule_of_kind {p : Production} (hp : IsProduction p) {k : Kind}
    (hk : p.kind = some k) : ∃ r : Rule, p.rule = r.index ∧ (definition r).kind = some k := by
  rcases hp.cases with rfl | ⟨r, hr, hkind, -⟩ | ⟨n, f, -, -, hkind, -⟩
  · cases hk
  · exact ⟨r, hr, hkind ▸ hk⟩
  · rw [hkind] at hk
    cases hk

/-- **Every node of the tree of a derivation** shows a token, or a phrase of a rule with nodes of its
own. -/
theorem shown_of_holds {d : Derivation} (hd : d.IsDerivation) {role : Option Role}
    {kind : Option Kind} (hkind : d.symbol.ShownAs kind)
    {n m : Node} (hn : n ∈ d.viewOnto role kind []) (hm : n.Holds m) :
    (∃ role k t, m = .leaf role k t ∧ ShowsToken k t) ∨
      ∃ role r k steps cs, m = .branch role k (partsOf none steps cs) ∧
        (definition r).kind = some k ∧ IsPhrase r steps cs := by
  induction hd generalizing role kind n with
  | @leaf terminal t reads =>
    cases List.mem_singleton.1 hn
    rcases hm.cases_head with rfl | ⟨c, hc, -⟩
    · exact .inl ⟨_, _, _, rfl, terminal, kind, rfl, hkind, reads⟩
    · exact absurd hc List.not_mem_nil
  | @branch p q cs ended read rule trace symbols named parts ih =>
    have hd : IsDerivation (.branch p cs) := .branch ended read rule trace symbols named parts
    obtain rfl : kind = none := hkind.kind_eq_none
    have hparts : ∀ {whole : Option Role} {n : Node}, n ∈ partsOf whole p.steps cs → n.Holds m →
        (∃ role k t, m = .leaf role k t ∧ ShowsToken k t) ∨
          ∃ role r k steps cs, m = .branch role k (partsOf none steps cs) ∧
            (definition r).kind = some k ∧ IsPhrase r steps cs := by
      intro whole n hn hm
      obtain ⟨q, hq, -, -, symbols, hshown⟩ := hd.exists_read
      rw [hshown] at hn
      obtain ⟨s, c, hmem, hn⟩ := mem_partsOf hn
      refine ih c (List.of_mem_zip hmem).2 ?_ hn hm
      rw [symbol_of_mem_zip symbols hmem]
      exact hq.showsName s (List.of_mem_zip hmem).1
    cases hp : p.kind with
    | none =>
      rw [viewOnto_branch_none role none hp] at hn
      exact hparts hn hm
    | some k =>
      rw [viewOnto_branch_some role none hp] at hn
      cases List.mem_singleton.1 hn
      rcases hm.cases_head with rfl | ⟨c, hc, hm⟩
      · obtain ⟨r, hr, hk⟩ := exists_rule_of_kind ended hp
        obtain ⟨steps, hphrase, -, hshown⟩ := hd.exists_isPhrase hr
        exact .inr ⟨role, r, k, steps, cs, by rw [hshown], hk, hphrase⟩
      · exact hparts hc hm

/-! ## Through groups -/

/-- All that is shown of what is read for a step has a property. -/
def Step.Shows (P : Node → Prop) (s : Step) : Prop :=
  ∀ c : Derivation, c.IsDerivation → c.symbol = s.symbol → ∀ n ∈ c.viewOnto s.role s.kind [], P n

/-- **What is shown of a group**, whatever groups it goes through: a property of all nodes without a
role holds of everything that is shown, if the steps of the groups keep to it. -/
theorem IsDerivation.forall_shown {P : Node → Prop} {G : Symbol → Prop}
    (hnone : ∀ n : Node, n.role = none → P n)
    (hgroup : ∀ q, IsProduction q → q.kind = none → G (.rule q.rule) →
      ∀ s ∈ q.steps, Step.Shows P s ∨ s.role = none ∧ G s.symbol)
    {d : Derivation} (hd : d.IsDerivation) (hG : G d.symbol) {kind : Option Kind}
    (hkind : d.symbol.ShownAs kind) : ∀ n ∈ d.viewOnto none kind [], P n := by
  induction hd generalizing kind with
  | leaf => exact List.forall_mem_singleton.2 (hnone _ rfl)
  | @branch p _ cs ended read rule trace symbols named parts ih =>
    have hd : IsDerivation (.branch p cs) := .branch ended read rule trace symbols named parts
    obtain rfl : kind = none := hkind.kind_eq_none
    cases hp : p.kind with
    | some k =>
      rw [viewOnto_branch_some none none hp]
      exact List.forall_mem_singleton.2 (hnone _ rfl)
    | none =>
      obtain ⟨q, hq, hrule, hqkind, hsymbols, hshown⟩ := hd.exists_read
      rw [viewOnto_branch_none none none hp, hshown]
      intro n hn
      obtain ⟨s, c, hmem, hn⟩ := mem_partsOf hn
      obtain ⟨hs, hc⟩ := List.of_mem_zip hmem
      have heq := symbol_of_mem_zip hsymbols hmem
      rcases hgroup q hq (hqkind.trans hp) (hrule ▸ hG) s hs with hshows | ⟨hrole, hsymbol⟩
      · exact hshows c (parts c hc) heq n hn
      · rw [hrole] at hn
        exact ih c hc (heq ▸ hsymbol) (heq ▸ hq.showsName s hs) n hn

end Derivation
end CallOrigins.Java
