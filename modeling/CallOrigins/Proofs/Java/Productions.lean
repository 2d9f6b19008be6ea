import CallOrigins.Java.Grammar.State

/-!
# Productions

What there is to know of the productions of a rule without computing any of them. All of them have
the rule's number and kind (`rule_of_mem_productionsOf`), and the composition of each is one of the
sequences of a form (`mem_namedProductions`).

An item knows the parts of its production that are to come, but of those that were read it knows
only how they are shown in a tree: two compositions *agree* if they differ in nothing else. The
places that a production carries number the classes of compositions that agree
(`place_eq_iff_trace_eq`).

A method reference ends in a name or in the keyword `new`, and wherever it can end in a name it can
end in the keyword (`exists_new_of_name`).
-/

namespace CallOrigins.Java

/-! ## Compositions that agree -/

namespace Composition

/-- What counts of a composition when `n` parts were read: how these are shown, and the rest. -/
def trace (n : Nat) (c : Composition) :
    Int × Bias × Nat × List Step × List (Option Role × Option Kind) :=
  (c.level, c.bias, c.weight, c.steps.drop n, (c.steps.take n).map fun s => (s.role, s.kind))

theorem agree_iff {n : Nat} {c d : Composition} : c.agree n d = true ↔ c.trace n = d.trace n := by
  simp only [agree, trace, Bool.and_eq_true, beq_iff_eq, Prod.mk.injEq, and_assoc]

variable {n : Nat} {c d : Composition}

theorem drop_eq_of_trace_eq (h : c.trace n = d.trace n) : c.steps.drop n = d.steps.drop n := by
  simp only [trace, Prod.mk.injEq] at h
  exact h.2.2.2.1

theorem shown_eq_of_trace_eq (h : c.trace n = d.trace n) :
    (c.steps.take n).map (fun s => (s.role, s.kind)) =
      (d.steps.take n).map (fun s => (s.role, s.kind)) := by
  simp only [trace, Prod.mk.injEq] at h
  exact h.2.2.2.2

/-- Compositions that agree go on agreeing. -/
theorem trace_succ (h : c.trace n = d.trace n) : c.trace (n + 1) = d.trace (n + 1) := by
  have hdrop := drop_eq_of_trace_eq h
  have hshown := shown_eq_of_trace_eq h
  have hnext : c.steps[n]? = d.steps[n]? := by
    rw [← List.head?_drop, ← List.head?_drop, hdrop]
  simp only [trace, Prod.mk.injEq] at h ⊢
  refine ⟨h.1, h.2.1, h.2.2.1, ?_, ?_⟩
  · rw [← List.drop_drop, ← List.drop_drop, hdrop]
  · rw [List.take_add_one, List.take_add_one, List.map_append, List.map_append, hshown, hnext]

theorem length_eq_of_trace_eq (h : c.trace n = d.trace n) (hn : n ≤ c.steps.length) :
    c.steps.length = d.steps.length := by
  have hdrop := congrArg List.length (drop_eq_of_trace_eq h)
  have hshown := congrArg List.length (shown_eq_of_trace_eq h)
  simp only [List.length_drop, List.length_map, List.length_take] at hdrop hshown
  omega

end Composition

namespace Grammar

/-! ## The productions of a rule -/

theorem mem_productionsFor {rule : Nat} {kind : Option Kind} {cs : List Composition}
    {p : Production} (h : p ∈ productionsFor rule kind cs) :
    p.toComposition ∈ cs.filter (fun c => !c.steps.isEmpty) ∧ p.rule = rule ∧ p.kind = kind ∧
      p.places = (List.range (p.steps.length + 1)).map fun n =>
        (cs.filter fun c => !c.steps.isEmpty).findIdx (p.agree n) := by
  obtain ⟨c, hc, rfl⟩ := List.mem_map.1 h
  exact ⟨hc, rfl, rfl, rfl⟩

/-- **The place of a production says which compositions agree with it.** -/
theorem place_eq_iff_trace_eq {rule : Nat} {kind : Option Kind} {cs : List Composition}
    {p q : Production} (hp : p ∈ productionsFor rule kind cs)
    (hq : q ∈ productionsFor rule kind cs) {n : Nat} (hpn : n ≤ p.steps.length)
    (hqn : n ≤ q.steps.length) :
    p.places.getD n 0 = q.places.getD n 0 ↔ p.trace n = q.trace n := by
  obtain ⟨hmem, -, -, hplaces⟩ := mem_productionsFor hp
  obtain ⟨hmem', -, -, hplaces'⟩ := mem_productionsFor hq
  have hget : ∀ {c : Composition} {m : Nat}, m ≤ c.steps.length →
      ((List.range (c.steps.length + 1)).map fun n =>
        (cs.filter fun c => !c.steps.isEmpty).findIdx (c.agree n)).getD m 0 =
          (cs.filter fun c => !c.steps.isEmpty).findIdx (c.agree m) := by
    intro c m hm
    rw [List.getD_eq_getElem?_getD, List.getElem?_map, List.getElem?_range (Nat.lt_succ_of_le hm)]
    rfl
  rw [hplaces, hplaces', hget hpn, hget hqn]
  constructor
  · intro heq
    -- the first composition that agrees with the one agrees with the other
    have hlt : (cs.filter fun c => !c.steps.isEmpty).findIdx (p.agree n) <
        (cs.filter fun c => !c.steps.isEmpty).length :=
      List.findIdx_lt_length_of_exists ⟨_, hmem, Composition.agree_iff.2 rfl⟩
    have hfirst := List.findIdx_getElem (w := hlt)
    have hlt' := heq ▸ hlt
    have hfirst' := List.findIdx_getElem (w := hlt')
    simp only [heq] at hfirst
    exact (Composition.agree_iff.1 hfirst).trans (Composition.agree_iff.1 hfirst').symm
  · intro heq
    have hsame : p.agree n = q.agree n := by
      funext c
      rw [Bool.eq_iff_iff, Composition.agree_iff, Composition.agree_iff, heq]
    rw [hsame]

theorem length_rules : rules.length = Rule.count := by
  rw [rules, List.length_map, List.length_range]

theorem size_productions : productions.size = ruleCount := by
  rw [productions, List.size_toArray, List.length_append, List.length_map, List.length_map,
    List.length_zipIdx, length_rules, ruleCount]

theorem index_ofNat {n : Nat} (h : n < Rule.count) : (Rule.ofNat n).index = n := by
  revert n
  decide +kernel

theorem index_lt_count (r : Rule) : r.index < Rule.count := by
  cases r <;> decide

theorem index_injective {r r' : Rule} (h : r.index = r'.index) : r = r' := by
  rw [← Rule.ofNat_ctorIdx r, ← Rule.ofNat_ctorIdx r']
  exact congrArg Rule.ofNat h

theorem getElem?_rules (r : Rule) : rules[r.index]? = some r := by
  rw [rules, List.getElem?_map, List.getElem?_range (index_lt_count r), Option.map_some]
  cases r <;> rfl

theorem productionsOf_index (r : Rule) : productionsOf r.index = namedProductions r := by
  have hlt : r.index < (rules.map namedProductions).length := by
    rw [List.length_map, length_rules]
    exact index_lt_count r
  rw [productionsOf, productions, Array.getD_eq_getD_getElem?, List.getElem?_toArray,
    List.getElem?_append_left hlt, List.getElem?_map, getElem?_rules]
  rfl

theorem productionsOf_repetition {n : Nat} {f : Form} (h : repetitions[n]? = some f) :
    productionsOf (Rule.count + n) = repeatedProductions f n := by
  rw [productionsOf, productions, Array.getD_eq_getD_getElem?, List.getElem?_toArray,
    List.getElem?_append_right (by rw [List.length_map, length_rules]; omega), List.length_map,
    length_rules, Nat.add_sub_cancel_left, List.getElem?_map, List.getElem?_zipIdx, h,
    Option.map_some, Option.map_some, Nat.zero_add]
  rfl

/-- A rule with productions is a named rule or a repetition. -/
theorem rule_cases {n : Nat} (h : productionsOf n ≠ []) :
    (∃ r : Rule, n = r.index) ∨ ∃ m f, n = Rule.count + m ∧ repetitions[m]? = some f := by
  have hlt : n < ruleCount := by
    refine Nat.lt_of_not_le fun hle => h ?_
    rw [productionsOf, Array.getD_eq_getD_getElem?, Array.getElem?_eq_none (size_productions ▸ hle)]
    rfl
  by_cases hn : n < Rule.count
  · exact .inl ⟨Rule.ofNat n, (index_ofNat hn).symm⟩
  · refine .inr ⟨n - Rule.count, _, by omega, List.getElem?_eq_getElem ?_⟩
    rw [ruleCount] at hlt
    omega

/-- The productions of a rule are made from its compositions. -/
theorem exists_productionsFor {n : Nat} (h : productionsOf n ≠ []) :
    ∃ kind cs, productionsOf n = productionsFor n kind cs := by
  rcases rule_cases h with ⟨r, rfl⟩ | ⟨m, f, rfl, hf⟩
  · exact ⟨_, _, productionsOf_index r⟩
  · exact ⟨_, _, productionsOf_repetition hf⟩

theorem rule_of_mem_productionsOf {n : Nat} {p : Production} (h : p ∈ productionsOf n) :
    p.rule = n ∧ n < ruleCount := by
  obtain ⟨kind, cs, hcs⟩ := exists_productionsFor (List.ne_nil_of_mem h)
  refine ⟨(mem_productionsFor (hcs ▸ h)).2.1, Nat.lt_of_not_le fun hle => ?_⟩
  rw [productionsOf, Array.getD_eq_getD_getElem?,
    Array.getElem?_eq_none (size_productions ▸ hle)] at h
  exact absurd h List.not_mem_nil

theorem mem_namedProductions {r : Rule} {p : Production} (h : p ∈ namedProductions r) :
    (∃ a ∈ (definition r).alternatives, p.steps ∈ sequences a.form) ∧
      p.kind = (definition r).kind := by
  obtain ⟨hmem, -, hkind, -⟩ := mem_productionsFor h
  obtain ⟨a, ha, hc⟩ := List.mem_flatMap.1 (List.mem_filter.1 hmem).1
  obtain ⟨steps, hsteps, hp⟩ := List.mem_map.1 hc
  refine ⟨⟨a, ha, ?_⟩, hkind⟩
  rw [← hp]
  exact List.mem_eraseDups.1 hsteps

theorem exists_mem_productionsOf {r : Rule} {a : Alternative} (ha : a ∈ (definition r).alternatives)
    {steps : List Step} (hsteps : steps ∈ sequences a.form) (hne : steps ≠ []) :
    ∃ p ∈ productionsOf r.index, p.steps = steps := by
  rw [productionsOf_index]
  have hmem : (⟨steps, a.level, a.bias, a.weight⟩ : Composition) ∈
      ((definition r).alternatives.flatMap fun a =>
        (sequences a.form).eraseDups.map fun steps => ⟨steps, a.level, a.bias, a.weight⟩).filter
          fun c => !c.steps.isEmpty := by
    refine List.mem_filter.2 ⟨List.mem_flatMap.2 ⟨a, ha, ?_⟩, by simpa using hne⟩
    exact List.mem_map_of_mem (List.mem_eraseDups.2 hsteps)
  exact ⟨_, List.mem_map_of_mem hmem, rfl⟩

theorem mem_repeatedProductions {f : Form} {n : Nat} {p : Production}
    (h : p ∈ repeatedProductions f n) :
    p.steps ∈ sequences f ∨ ∃ steps ∈ sequences f,
      p.steps = ⟨.rule (Rule.count + n), none, none, 0⟩ :: steps := by
  obtain ⟨hmem, -⟩ := mem_productionsFor h
  obtain ⟨steps, hsteps, hp⟩ := List.mem_map.1 (List.mem_filter.1 hmem).1
  rw [← hp]
  rcases List.mem_append.1 hsteps with hsteps | hsteps
  · exact .inl (List.mem_eraseDups.1 hsteps)
  · obtain ⟨inner, hinner, rfl⟩ := List.mem_map.1 hsteps
    exact .inr ⟨inner, List.mem_eraseDups.1 hinner, rfl⟩

/-! ## All productions -/

/-- The production with which reading starts: a whole source. -/
def start : Production :=
  ⟨⟨[⟨.rule Rule.program.index, none, none, 0⟩], 0, .neither, 0⟩, ruleCount, none, [0, 0]⟩

/-- A production of the grammar. -/
def IsProduction (p : Production) : Prop :=
  p = start ∨ p ∈ productionsOf p.rule

namespace IsProduction

theorem eq_start {p : Production} (hp : IsProduction p) (h : p.rule = ruleCount) : p = start := by
  rcases hp with rfl | hp
  · rfl
  · exact absurd (rule_of_mem_productionsOf hp).2 (by omega)

theorem mem_of_rule {p : Production} (hp : IsProduction p) {r : Rule} (hr : p.rule = r.index) :
    p ∈ productionsOf r.index := by
  rcases hp with rfl | hp
  · have hindex : Rule.count + repetitions.length = r.index := hr
    have := index_lt_count r
    omega
  · exact hr ▸ hp

/-- **What a production is of**: the start, a named rule, or a repetition, which is its content or
goes on with it. -/
theorem cases {p : Production} (hp : IsProduction p) :
    p = start ∨
    (∃ r : Rule, p.rule = r.index ∧ p.kind = (definition r).kind ∧
      ∃ a ∈ (definition r).alternatives, p.steps ∈ sequences a.form) ∨
    ∃ n f, p.rule = Rule.count + n ∧ repetitions[n]? = some f ∧ p.kind = none ∧
      (p.steps ∈ sequences f ∨ ∃ steps ∈ sequences f,
        p.steps = ⟨.rule (Rule.count + n), none, none, 0⟩ :: steps) := by
  rcases hp with rfl | hp
  · exact .inl rfl
  · rcases rule_cases (List.ne_nil_of_mem hp) with ⟨r, hr⟩ | ⟨n, f, hn, hf⟩
    · rw [hr, productionsOf_index] at hp
      obtain ⟨hsteps, hkind⟩ := mem_namedProductions hp
      exact .inr (.inl ⟨r, hr, hkind, hsteps⟩)
    · rw [hn, productionsOf_repetition hf] at hp
      exact .inr (.inr ⟨n, f, hn, hf, (mem_productionsFor hp).2.2.1, mem_repeatedProductions hp⟩)

variable {p q : Production} (hp : IsProduction p) (hq : IsProduction q) (hrule : p.rule = q.rule)

include hp hq hrule

/-- Productions of one rule are one and the same, or they are made from the same compositions. -/
theorem eq_or_productionsFor :
    p = q ∨ ∃ kind cs, p ∈ productionsFor p.rule kind cs ∧ q ∈ productionsFor p.rule kind cs := by
  rcases hp with rfl | hp <;> rcases hq with rfl | hq
  · exact .inl rfl
  · have hlt := (rule_of_mem_productionsOf hq).2
    rw [← hrule] at hlt
    exact absurd hlt (Nat.lt_irrefl _)
  · have hlt := (rule_of_mem_productionsOf hp).2
    rw [hrule] at hlt
    exact absurd hlt (Nat.lt_irrefl _)
  · obtain ⟨kind, cs, hcs⟩ := exists_productionsFor (List.ne_nil_of_mem hp)
    exact .inr ⟨kind, cs, hcs ▸ hp, hcs ▸ hrule ▸ hq⟩

theorem place_eq_iff {n : Nat} (hpn : n ≤ p.steps.length) (hqn : n ≤ q.steps.length) :
    p.places.getD n 0 = q.places.getD n 0 ↔ p.trace n = q.trace n := by
  rcases eq_or_productionsFor hp hq hrule with rfl | ⟨kind, cs, hp, hq⟩
  · exact ⟨fun _ => rfl, fun _ => rfl⟩
  · exact place_eq_iff_trace_eq hp hq hpn hqn

theorem kind_eq : p.kind = q.kind := by
  rcases eq_or_productionsFor hp hq hrule with rfl | ⟨kind, cs, hp, hq⟩
  · rfl
  · exact (mem_productionsFor hp).2.2.1.trans (mem_productionsFor hq).2.2.1.symm

end IsProduction

/-! ## Method references -/

/-- The keyword at the end of a method reference. -/
def newStep : Step :=
  ⟨.terminal (Terminal.word "new").index, none, none, 0⟩

/-- The name at the end of a method reference. -/
def nameStep : Step :=
  ⟨.terminal Terminal.name.index, none, none, 0⟩

/-- How a method reference begins: all of it but its last part. -/
def IsReferenceFront (front : List Step) : Prop :=
  ∃ owner more, front = owner :: ⟨.terminal (Terminal.mark "::").index, none, none, 0⟩ :: more ∧
    (more = [] ∨ more = [⟨.rule Rule.typeArguments.index, none, none, 0⟩])

theorem mem_sequences_seq {f g : Form} {steps : List Step} :
    steps ∈ sequences (.seq f g) ↔
      ∃ front ∈ sequences f, ∃ back ∈ sequences g, steps = front ++ back := by
  simp only [sequences, List.mem_flatMap, List.mem_map, eq_comm]

/-- The forms of a method reference: those that can begin one, each followed by the keyword or by a
name. -/
theorem exists_referenceFronts {a : Alternative}
    (ha : a ∈ (definition .methodReference).alternatives) :
    ∃ fronts : List (List Step), (∀ front ∈ fronts, IsReferenceFront front) ∧
      ∀ steps, steps ∈ sequences a.form ↔
        ∃ front ∈ fronts, steps = front ++ [newStep] ∨ steps = front ++ [nameStep] := by
  cases List.mem_singleton.1 ha
  refine ⟨sequences (.seq (.oneOf [.rule .type, .rule .primaryExpression, .word "super"])
    (.seq (.mark "::") (.opt (.rule .typeArguments)))), fun front hfront => ?_, fun steps => ?_⟩
  · obtain ⟨owner, howner, _, hrest, rfl⟩ := mem_sequences_seq.1 hfront
    obtain ⟨separator, hseparator, more, hmore, rfl⟩ := mem_sequences_seq.1 hrest
    have hone : ∃ step, owner = [step] := by
      simp only [Form.oneOf, Form.word, sequences, List.cons_append, List.nil_append, List.mem_cons,
        List.not_mem_nil, or_false] at howner
      rcases howner with rfl | rfl | rfl <;> exact ⟨_, rfl⟩
    obtain ⟨step, rfl⟩ := hone
    cases List.mem_singleton.1 hseparator
    refine ⟨step, more, rfl, ?_⟩
    rcases List.mem_cons.1 hmore with rfl | hmore
    · exact .inr rfl
    · exact .inl (List.mem_singleton.1 hmore)
  · have hlast : ∀ last, last ∈ sequences (.alt (.word "new") .plainName) ↔
        last = [newStep] ∨ last = [nameStep] := by
      intro last
      change last ∈ [[newStep], [nameStep]] ↔ _
      simp
    simp only [Form.all, mem_sequences_seq, hlast]
    constructor
    · rintro ⟨x, hx, _, ⟨y, hy, _, ⟨z, hz, w, hw, rfl⟩, rfl⟩, rfl⟩
      refine ⟨x ++ (y ++ z), ⟨x, hx, _, ⟨y, hy, z, hz, rfl⟩, rfl⟩, ?_⟩
      simpa using hw
    · rintro ⟨_, ⟨x, hx, _, ⟨y, hy, z, hz, rfl⟩, rfl⟩, hsteps⟩
      have hw : ∃ w, (w = [newStep] ∨ w = [nameStep]) ∧ steps = (x ++ (y ++ z)) ++ w := by
        rcases hsteps with h | h
        · exact ⟨_, .inl rfl, h⟩
        · exact ⟨_, .inr rfl, h⟩
      obtain ⟨w, hw, rfl⟩ := hw
      exact ⟨x, hx, _, ⟨y, hy, _, ⟨z, hz, w, hw, rfl⟩, rfl⟩, by simp⟩

/-- **The productions of a method reference** end in the keyword or in a name. -/
theorem steps_of_methodReference {p : Production}
    (hp : p ∈ productionsOf Rule.methodReference.index) :
    ∃ front, IsReferenceFront front ∧
      (p.steps = front ++ [newStep] ∨ p.steps = front ++ [nameStep]) := by
  rw [productionsOf_index] at hp
  obtain ⟨⟨a, ha, hsteps⟩, -⟩ := mem_namedProductions hp
  obtain ⟨fronts, hfronts, hmem⟩ := exists_referenceFronts ha
  obtain ⟨front, hfront, hsteps⟩ := (hmem p.steps).1 hsteps
  exact ⟨front, hfronts front hfront, hsteps⟩

/-- A name can stand only where the keyword can. -/
theorem exists_new_of_name {p : Production} (hp : p ∈ productionsOf Rule.methodReference.index)
    {front : List Step} (hsteps : p.steps = front ++ [nameStep]) :
    ∃ p' ∈ productionsOf Rule.methodReference.index, p'.steps = front ++ [newStep] := by
  rw [productionsOf_index] at hp
  obtain ⟨⟨a, ha, hmem⟩, -⟩ := mem_namedProductions hp
  obtain ⟨fronts, -, hfronts⟩ := exists_referenceFronts ha
  obtain ⟨front', hfront', heq⟩ := (hfronts p.steps).1 hmem
  rw [hsteps] at heq
  have hfront : front = front' := by
    rcases heq with heq | heq <;> exact (List.append_inj' heq rfl).1
  exact exists_mem_productionsOf ha ((hfronts _).2 ⟨front', hfront', .inl (hfront ▸ rfl)⟩) (by simp)

/-- Type arguments end in a bracket. -/
theorem steps_of_typeArguments {p : Production} (hp : p ∈ productionsOf Rule.typeArguments.index) :
    ∃ front n, p.steps = front ++ [⟨.terminal n, none, none, 0⟩] := by
  rw [productionsOf_index] at hp
  obtain ⟨⟨a, ha, hmem⟩, -⟩ := mem_namedProductions hp
  cases List.mem_singleton.1 ha
  obtain ⟨x, -, _, hrest, hsteps⟩ := mem_sequences_seq.1 hmem
  obtain ⟨y, -, z, hz, rfl⟩ := mem_sequences_seq.1 hrest
  cases List.mem_singleton.1 hz
  exact ⟨x ++ y, _, by rw [hsteps, List.append_assoc]⟩

end Grammar
end CallOrigins.Java
