import CallOrigins.Proofs.Java.Places
import CallOrigins.Proofs.Java.Scanning
import CallOrigins.Proofs.Java.States

/-!
# Stacks

What stands on the stack of a reading. Every entry is a derivation by the grammar
(`Derivation.IsDerivation`), and the items of a state are matched by the entries on top: what an
item says was read was read. Both survive a token and the end of a phrase (`Stack.Way.shift`,
`Stack.Way.reduce?`), and a state whose items are the same is matched just as well
(`Stack.Way.of_covers`).

An item does not know the symbols that it has advanced over, so the production by which a phrase
ends need not be the one by which its parts were read, but it agrees with that one.
-/

namespace CallOrigins.Java

open Grammar

/-! ## Derivations -/

namespace Derivation

/-- What is derived. -/
def symbol : Derivation → Symbol
  | leaf n _ => .terminal n
  | branch p _ => .rule p.rule

mutual
/-- The tokens that were read. -/
def tokens : Derivation → List Token
  | leaf _ t => [t]
  | branch _ cs => tokensOfAll cs
/-- The tokens that were read for derivations side by side. -/
def tokensOfAll : List Derivation → List Token
  | [] => []
  | d :: ds => d.tokens ++ tokensOfAll ds
end

theorem tokensOfAll_eq (ds : List Derivation) : tokensOfAll ds = ds.flatMap tokens := by
  induction ds with
  | nil => rfl
  | cons d ds ih => rw [tokensOfAll, ih, List.flatMap_cons]

theorem tokens_branch (p : Production) (cs : List Derivation) :
    (branch p cs).tokens = cs.flatMap tokens := by
  rw [tokens, tokensOfAll_eq]

/-- **A derivation by the grammar.** The parts are those of a production that agrees with the one
by which the phrase ended, and no method reference has the keyword `new` for a name. -/
inductive IsDerivation : Derivation → Prop where
  | leaf {n : Nat} {t : Token} (reads : Terminal.Reads n t.text) : IsDerivation (.leaf n t)
  | branch {p q : Production} {cs : List Derivation} (ended : IsProduction p)
    (read : IsProduction q) (rule : q.rule = p.rule)
    (trace : p.trace p.steps.length = q.trace p.steps.length)
    (symbols : cs.map symbol = q.steps.map Step.symbol)
    (named : p.rule = Rule.methodReference.index →
      ∀ t, cs.getLast? = some (.leaf Terminal.name.index t) → t.text ≠ "new")
    (parts : ∀ c ∈ cs, IsDerivation c) : IsDerivation (.branch p cs)

end Derivation

namespace Stack

/-! ## Items and entries -/

/-- The tokens on a stack, from the bottom up. -/
def tokens (s : Stack) : List Token :=
  s.reverse.flatMap fun e => e.derivation.tokens

theorem tokens_cons (e : Entry) (s : Stack) :
    tokens (e :: s) = tokens s ++ e.derivation.tokens := by
  simp [tokens]

/-- **What the items of a state say was read** are the entries on top of the stack, what follows a
phrase may follow the items of its rule, and the state is the one after the topmost entry. -/
structure Matches (st : State) (s : Stack) : Prop where
  read : ∀ i ∈ st, ∃ q, IsProduction q ∧ q.rule = i.production.rule ∧
    i.production.trace i.done = q.trace i.done ∧
    (s.take i.done).reverse.map (fun e => e.derivation.symbol) =
      (q.steps.take i.done).map Step.symbol
  informed : ∀ i ∈ st, i.production ≠ start → ∀ k ∈ base (s.drop (i.done - 1)),
    ∀ step next more, k.rest = step :: next :: more → step.symbol = .rule i.production.rule →
      st.Offers { i with ahead := first next.symbol }
  top : ∀ e ∈ s.head?, st.like (e.below.follow e.derivation.symbol) = true

/-- The word `new` counts as a name only where no method reference can end with a name. -/
def NewIsNoName (e : Entry) : Prop :=
  ∀ t, e.derivation = .leaf Terminal.name.index t → t.text = "new" →
    ∀ i ∈ e.below, i.production.rule = Rule.methodReference.index → i.rest ≠ [nameStep]

/-- A stack of derivations, each on a state that is matched by what is below. -/
inductive IsBuilt : Stack → Prop where
  | nil : IsBuilt []
  | cons {e : Entry} {s : Stack} (begun : State.IsBegun e.below) (match_below : Matches e.below s)
    (derivation : e.derivation.IsDerivation) (new : NewIsNoName e) (built : IsBuilt s) :
    IsBuilt (e :: s)

variable {st st' : State} {s t : Stack} {e : Entry} {offset : Nat}

theorem IsBuilt.isDerivation (h : IsBuilt s) (he : e ∈ s) : e.derivation.IsDerivation := by
  induction h with
  | nil => exact absurd he List.not_mem_nil
  | cons _ _ derivation _ _ ih =>
    rcases List.mem_cons.1 he with rfl | he
    · exact derivation
    · exact ih he

theorem IsBuilt.of_append {front : Stack} (h : IsBuilt (front ++ s)) : IsBuilt s := by
  induction front with
  | nil => exact h
  | cons e front ih =>
    cases h with
    | cons _ _ _ _ built => exact ih built

theorem Matches.read_follow (h : Matches st s) (begun : State.IsBegun st) {k : Item}
    (hk : k ∈ st.follow e.derivation.symbol) :
    ∃ q, IsProduction q ∧ q.rule = k.production.rule ∧ k.production.trace k.done = q.trace k.done ∧
      ((e :: s).take k.done).reverse.map (fun e => e.derivation.symbol) =
        (q.steps.take k.done).map Step.symbol := by
  cases State.follows_of_mem_follow hk with
  | @advanced i step more mem rest symbol core =>
    obtain ⟨q, hq, hrule, htrace, hsymbols⟩ := h.read i mem
    simp only [Item.core, Item.advance, Prod.mk.injEq] at core
    obtain ⟨hproduction, hdone, -⟩ := core
    refine ⟨q, hq, hproduction ▸ hrule, ?_, ?_⟩
    · rw [hproduction, hdone]
      exact Composition.trace_succ htrace
    · have hnext : q.steps[i.done]? = some step := by
        rw [← List.head?_drop, ← Composition.drop_eq_of_trace_eq htrace,
          ← (begun.items i mem).rest_eq, rest]
        rfl
      rw [hdone, List.take_succ_cons, List.reverse_cons, List.map_append, hsymbols,
        List.take_add_one, hnext, List.map_append]
      simp [symbol]
  | @begins i n c mem expects corner core =>
    simp only [Item.core, Prod.mk.injEq] at core
    obtain ⟨hproduction, hdone, -⟩ := core
    obtain ⟨-, -, hmem, step, more, hsteps, hsymbol⟩ := mem_corners.1 corner
    refine ⟨c.production, .inr hmem, by rw [hproduction], by rw [hproduction], ?_⟩
    rw [hdone, hsteps]
    simp [hsymbol]

theorem Matches.informed_follow (h : Matches st s) (begun : State.IsBegun st)
    (hbelow : e.below = st) {x : Symbol} {k : Item} (hk : k ∈ st.follow x)
    (hstart : k.production ≠ start) {j : Item} (hj : j ∈ base ((e :: s).drop (k.done - 1)))
    {step next : Step} {more : List Step}
    (hrest : j.rest = step :: next :: more) (hsymbol : step.symbol = .rule k.production.rule) :
    (st.follow x).Offers { k with ahead := first next.symbol } := by
  cases State.follows_of_mem_follow hk with
  | @advanced i step' more' mem rest symbol core =>
    have hsame := Item.same_of_core_eq core
    simp only [Item.core, Item.advance, Prod.mk.injEq] at core
    obtain ⟨hproduction, hdone, -⟩ := core
    have hpos : 0 < i.done :=
      (begun.items i mem).started.resolve_right fun h => hstart (hproduction.trans h)
    -- the phrase of the item begins where it began before
    have hbase : (e :: s).drop (k.done - 1) = s.drop (i.done - 1) := by
      rw [hdone, Nat.add_sub_cancel, ← Nat.succ_pred_eq_of_pos hpos, List.drop_succ_cons]
      rfl
    rw [hbase] at hj
    obtain ⟨i', hi', hsame', hwithin⟩ :=
      h.informed i mem (hproduction ▸ hstart) j hj step next more hrest (hproduction ▸ hsymbol)
    have hi'i : i'.same i = true := hsame'
    have hrest' := ((begun.items i' hi').rest_eq_of_same (begun.items i mem) hi'i).trans rest
    have hadvance := (begun.items i' hi').same_advance (begun.items i mem) hi'i hrest'
    refine (State.offers_advance hi' hrest' symbol).of_same ?_ hwithin
    exact Item.same_trans hadvance (Item.same_symm hsame)
  | @begins i n c mem expects corner core =>
    simp only [Item.core, Prod.mk.injEq] at core
    obtain ⟨hproduction, hdone, htail⟩ := core
    obtain ⟨-, -, hmem, hbegins⟩ := mem_corners.1 corner
    have hjst : j ∈ st := by
      rw [hdone, Nat.sub_self, List.drop_zero, base, hbelow] at hj
      exact hj
    -- the item itself expects a phrase of the rule, and this is a corner of that phrase
    obtain ⟨a, ha, houter⟩ := exists_outer c.production.rule
    have hcorner : (⟨c.production, a⟩ : Corner) ∈ corners c.production.rule x :=
      mem_corners.2 ⟨(rule_of_mem_productionsOf hmem).2, ha, hmem, hbegins⟩
    obtain ⟨ahead, hoffers, hwithin⟩ :=
      State.offers_corner hjst hrest (hproduction ▸ hsymbol) hcorner
    refine hoffers.of_same (Item.same_of_core_eq ?_) (hwithin houter next more rfl)
    rw [Item.core, Item.core, hproduction, hdone, htail]

/-- **One more entry** matches the state after its symbol. -/
theorem Matches.follow (h : Matches st s) (begun : State.IsBegun st) (hbelow : e.below = st)
    {x : Symbol} (hx : e.derivation.symbol = x) : Matches (st.follow x) (e :: s) := by
  subst hx
  refine ⟨fun k hk => h.read_follow begun hk, fun k hk hstart j hj step next more hrest hsymbol =>
    h.informed_follow begun hbelow hk hstart hj hrest hsymbol, ?_⟩
  intro e' he'
  cases he'
  rw [hbelow]
  exact State.like_refl _

theorem Matches.of_covers (h : Matches st s) (begun : State.IsBegun st) (begun' : State.IsBegun st')
    (hcovers : State.Covers st' st) : Matches st' s := by
  refine ⟨fun i hi => ?_, fun i hi hstart k hk step next more hrest hsymbol => ?_, fun e he => ?_⟩
  · obtain ⟨j, hj, hsame⟩ := State.exists_same_of_like hi hcovers.like
    obtain ⟨q, hq, hrule, htrace, hsymbols⟩ := h.read j hj
    have hagree := (begun'.items i hi).trace_eq (begun.items j hj) hsame
    obtain ⟨hdone, hrule', -⟩ := Item.same_iff.1 hsame
    rw [← hdone] at htrace hsymbols
    exact ⟨q, hq, hrule.trans hrule'.symm, hagree.trans htrace, hsymbols⟩
  · obtain ⟨j, hj, hsame⟩ := State.exists_same_of_like hi hcovers.like
    obtain ⟨hdone, hrule, -⟩ := Item.same_iff.1 hsame
    have hstart' : j.production ≠ start := by
      intro heq
      refine hstart ((begun'.items i hi).production.eq_start ?_)
      rw [hrule, heq]
      rfl
    rw [hdone] at hk
    rw [hrule] at hsymbol
    exact (hcovers.offers _ (h.informed j hj hstart' k hk step next more hrest hsymbol)).of_same
      (Item.same_symm hsame) (.refl _)
  · exact State.like_trans hcovers.like (h.top e he)

/-! ## Ways to read a source -/

/-- **One way to read the source up to an offset.** -/
structure Way (st : State) (offset : Nat) (s : Stack) : Prop where
  begun : State.IsBegun st
  match_top : Matches st s
  built : IsBuilt s
  ordered : InOrder (tokens s)
  inside : ∀ t ∈ tokens s, t.stop ≤ offset

theorem Way.of_covers (h : Way st offset s) (begun : State.IsBegun st')
    (hcovers : State.Covers st' st) : Way st' offset s :=
  ⟨begun, h.match_top.of_covers h.begun begun hcovers, h.built, h.ordered, h.inside⟩

theorem Way.mono (h : Way st offset s) {offset' : Nat} (hle : offset ≤ offset') :
    Way st offset' s :=
  ⟨h.begun, h.match_top, h.built, h.ordered, fun t ht => Nat.le_trans (h.inside t ht) hle⟩

/-- A token that comes after all others. -/
theorem Way.shift (h : Way st offset s) {n : Nat} {token : Token}
    (reads : Terminal.Reads n token.text) (hstart : offset ≤ token.start) (hbelow : e.below = st)
    (hleaf : e.derivation = .leaf n token) (hnew : NewIsNoName e) :
    Way (st.follow (.terminal n)) token.stop (e :: s) := by
  have hsymbol : e.derivation.symbol = .terminal n := by rw [hleaf]; rfl
  have htokens : tokens (e :: s) = tokens s ++ [token] := by
    rw [tokens_cons, hleaf]
    rfl
  refine ⟨h.begun.follow _, h.match_top.follow h.begun hbelow hsymbol, ?_, ?_, ?_⟩
  · exact .cons (hbelow ▸ h.begun) (hbelow ▸ h.match_top) (hleaf ▸ .leaf reads) hnew h.built
  · rw [htokens, InOrder, List.pairwise_append]
    refine ⟨h.ordered, List.pairwise_singleton .., fun t ht u hu => ?_⟩
    cases List.mem_singleton.1 hu
    exact Nat.le_trans (h.inside t ht) hstart
  · rw [htokens]
    intro t ht
    rcases List.mem_append.1 ht with ht | ht
    · exact Nat.le_trans (h.inside t ht) (Nat.le_trans hstart token.start_le_stop)
    · cases List.mem_singleton.1 ht
      exact Nat.le_refl _

/-- A method reference that is through does not end with the word `new` as a name. -/
theorem Way.text_ne_new (h : Way st offset (e :: s)) {i : Item} (hi : i ∈ st) (hrest : i.rest = [])
    (hreference : i.production.rule = Rule.methodReference.index) {token : Token}
    (hleaf : e.derivation = .leaf Terminal.name.index token) : token.text ≠ "new" := by
  intro htext
  obtain ⟨j, hj, hsame⟩ := State.exists_same_of_like hi (h.match_top.top e rfl)
  cases h.built with
  | cons begun _ _ new _ =>
    have hjbegun := (begun.follow e.derivation.symbol).items j hj
    have hjrest : j.rest = [] :=
      ((h.begun.items i hi).rest_eq_of_same hjbegun hsame).symm.trans hrest
    have hjrule := (Item.same_iff.1 hsame).2.1.symm.trans hreference
    -- the item had only the name to come, on the state below the name
    cases State.follows_of_mem_follow hj with
    | @advanced k step more mem rest symbol core =>
      simp only [Item.core, Item.advance, Prod.mk.injEq] at core
      obtain ⟨hproduction, -, hmore⟩ := core
      have hkbegun := begun.items k mem
      have hkrule := hproduction ▸ hjrule
      refine new token hleaf htext k mem hkrule ?_
      have hkrest : k.production.steps.drop k.done = [step] := by
        rw [← hkbegun.rest_eq, rest, ← hmore, hjrest]
      rw [hleaf] at symbol
      obtain ⟨front, -, hsteps⟩ := steps_of_methodReference (hkbegun.production.mem_of_rule hkrule)
      have hlast : step = newStep ∨ step = nameStep := by
        have hgetLast := congrArg List.getLast? hkrest
        rw [List.getLast?_drop] at hgetLast
        split at hgetLast
        · cases hgetLast
        · rcases hsteps with hsteps | hsteps
          · rw [hsteps, List.getLast?_concat] at hgetLast
            exact .inl (Option.some.inj hgetLast).symm
          · rw [hsteps, List.getLast?_concat] at hgetLast
            exact .inr (Option.some.inj hgetLast).symm
      rcases hlast with rfl | rfl
      · exact absurd (Symbol.terminal.inj symbol) (Terminal.index_ne_name (by simp))
      · rw [rest, ← hmore, hjrest]
    | @begins k n c mem expects corner core =>
      simp only [Item.core, Prod.mk.injEq] at core
      obtain ⟨hproduction, -, htail⟩ := core
      obtain ⟨-, -, hmem, -⟩ := mem_corners.1 corner
      obtain ⟨front, ⟨owner, more, rfl, -⟩, hsteps⟩ :=
        steps_of_methodReference ((hproduction ▸ hjrule) ▸ hmem)
      rw [hjrest] at htail
      rcases hsteps with hsteps | hsteps <;> rw [hsteps] at htail <;> cases htail

theorem Way.done_eq (h : Way st offset s) {i : Item} (hi : i ∈ st) (hrest : i.rest = []) :
    i.done = i.production.steps.length := by
  have hbegun := h.begun.items i hi
  have hnil : i.production.steps.drop i.done = [] := hbegun.rest_eq.symm.trans hrest
  have := hbegun.done_le
  rw [List.drop_eq_nil_iff] at hnil
  omega

theorem Way.done_le_length (h : Way st offset s) {i : Item} (hi : i ∈ st) : i.done ≤ s.length := by
  obtain ⟨q, -, -, htrace, hsymbols⟩ := h.match_top.read i hi
  have hdone := (h.begun.items i hi).done_le
  have hlength := congrArg List.length hsymbols
  have hsame := Composition.length_eq_of_trace_eq htrace hdone
  simp only [List.length_map, List.length_reverse, List.length_take] at hlength
  omega

/-- The phrase of an item that is through is a derivation. -/
theorem Way.isDerivation_branch (h : Way st offset s) {i : Item} (hi : i ∈ st)
    (hrest : i.rest = []) :
    (Derivation.branch i.production
      ((s.take i.production.steps.length).reverse.map Entry.derivation)).IsDerivation := by
  obtain ⟨q, hq, hrule, htrace, hsymbols⟩ := h.match_top.read i hi
  have hbegun := h.begun.items i hi
  have hdone := h.done_eq hi hrest
  have hlength := Composition.length_eq_of_trace_eq htrace hbegun.done_le
  rw [hdone] at htrace hsymbols
  refine .branch hbegun.production hq hrule htrace ?_ (fun hreference t hlast => ?_) ?_
  · rw [List.map_map]
    rw [hlength, List.take_length] at hsymbols
    rw [hlength]
    exact hsymbols
  · rw [List.getLast?_map, List.getLast?_reverse, List.head?_take] at hlast
    cases s with
    | nil => simp at hlast
    | cons e s =>
      split at hlast
      · cases hlast
      · exact h.text_ne_new hi hrest hreference (Option.some.inj hlast)
  · intro c hc
    obtain ⟨e, he, rfl⟩ := List.mem_map.1 hc
    exact h.built.isDerivation (List.mem_of_mem_take (List.mem_reverse.1 he))

/-- **The end of a phrase.** -/
theorem Way.reduce? (h : Way st offset s) {i : Item} (hi : i ∈ st) (hrest : i.rest = [])
    {after : State} (hreduce : Stack.reduce? i.production s = some (after, t)) :
    Way after offset t ∧ State.IsBegun (base t) ∧
      after = (base t).follow (.rule i.production.rule) ∧ base t = base (s.drop (i.done - 1)) := by
  unfold Stack.reduce? at hreduce
  dsimp only at hreduce
  split at hreduce
  next top bottom htop hbottom =>
    split at hreduce
    next => cases hreduce
    next =>
      cases hreduce
      -- the state below the phrase is matched by what is below the phrase
      obtain ⟨front, hfront⟩ := List.getLast?_eq_some_iff.1 hbottom
      have hsplit : s = front ++ bottom :: s.drop i.production.steps.length := by
        have := List.take_append_drop i.production.steps.length s
        rw [hfront] at this
        simpa using this.symm
      have hbuilt : IsBuilt (bottom :: s.drop i.production.steps.length) :=
        (hsplit ▸ h.built).of_append
      cases hbuilt with
      | cons begun match_below derivation new built =>
        have htokens : ∀ e : Entry, e.derivation = .branch i.production
            ((s.take i.production.steps.length).reverse.map Entry.derivation) →
            tokens (e :: s.drop i.production.steps.length) = tokens s := by
          intro e he
          rw [tokens_cons, he, Derivation.tokens_branch, List.flatMap_map, tokens,
            ← List.flatMap_append, ← List.reverse_append, List.take_append_drop]
          rfl
        refine ⟨⟨begun.follow _, ?_, ?_, ?_, ?_⟩, begun, rfl, ?_⟩
        · refine match_below.follow begun ?_ ?_ <;> rfl
        · have hbranch := h.isDerivation_branch hi hrest
          exact .cons begun match_below hbranch (fun _ h => by cases h) built
        · rw [htokens _ rfl]
          exact h.ordered
        · rw [htokens _ rfl]
          exact h.inside
        · have hfront' : front.length = i.done - 1 := by
            have hlength := congrArg List.length hfront
            rw [List.length_take, ← h.done_eq hi hrest, Nat.min_eq_left (h.done_le_length hi),
              List.length_append, List.length_singleton] at hlength
            omega
          rw [hsplit, ← hfront', List.drop_left]
          rfl
  next => cases hreduce

end Stack

/-! ## The keyword at the end of a method reference -/

namespace State

/-- A method reference has only the keyword `new` to come. -/
def AwaitsNew (s : State) : Prop :=
  ∃ i ∈ s, i.production.rule = Rule.methodReference.index ∧ i.rest = [newStep]

/-- Type arguments are through, and the keyword `new` may follow. -/
def EndsBeforeNew (s : State) : Prop :=
  ∃ i ∈ s, i.production.rule = Rule.typeArguments.index ∧ i.rest = [] ∧
    i.ahead.has (Terminal.word "new").index = true

/-- **No method reference goes on with the keyword `new`**, also when type arguments have ended. -/
structure RefusesNew (s : State) : Prop where
  awaits : ¬ s.AwaitsNew
  ends : ¬ s.EndsBeforeNew

theorem refusesNew_of_not_wants {s : State} (h : ¬ s.Wants (Terminal.word "new").index) :
    s.RefusesNew := by
  constructor
  · rintro ⟨i, hi, -, hrest⟩
    exact h ⟨i, hi, .inr ⟨newStep, [], hrest, TerminalSet.has_single _⟩⟩
  · rintro ⟨i, hi, -, hrest, hahead⟩
    exact h ⟨i, hi, .inl ⟨hrest, hahead⟩⟩

theorem IsBegun.rest_ne_nameStep {s : State} (h : IsBegun s) (hnew : ¬ s.AwaitsNew) {i : Item}
    (hi : i ∈ s) (hrule : i.production.rule = Rule.methodReference.index) :
    i.rest ≠ [nameStep] := by
  intro hrest
  obtain ⟨j, hj, hjrule, hjrest⟩ := h.twins i hi hrule [] hrest
  exact hnew ⟨j, hj, hjrule, hjrest⟩

theorem IsBegun.exists_of_like {s t : State} (hs : IsBegun s) (ht : IsBegun t)
    (h : like s t = true) {j : Item} (hj : j ∈ s) :
    ∃ k ∈ t, k.rest = j.rest ∧ k.production.rule = j.production.rule := by
  obtain ⟨k, hk, hsame⟩ := exists_same_of_like hj h
  exact ⟨k, hk, ((hs.items j hj).rest_eq_of_same (ht.items k hk) hsame).symm,
    (Item.same_iff.1 hsame).2.1.symm⟩

/-- Before the last part of a method reference there is a mark or type arguments. -/
theorem symbol_before_new {p : Production} (hp : p ∈ productionsOf Rule.methodReference.index)
    {n : Nat} {step : Step} (hdrop : p.steps.drop n = [step, newStep]) {rule : Nat}
    (hsymbol : step.symbol = .rule rule) : rule = Rule.typeArguments.index := by
  obtain ⟨front, ⟨owner, more, rfl, hmore⟩, hsteps⟩ := steps_of_methodReference hp
  obtain ⟨last, hsteps⟩ : ∃ last, p.steps = owner :: ⟨.terminal (Terminal.mark "::").index, none,
      none, 0⟩ :: (more ++ [last]) := by
    rcases hsteps with hsteps | hsteps
    · exact ⟨newStep, hsteps⟩
    · exact ⟨nameStep, hsteps⟩
  have hlength := congrArg List.length hdrop
  rw [hsteps] at hdrop hlength
  simp only [List.length_drop, List.length_cons, List.length_append, List.length_nil] at hlength
  rcases hmore with rfl | rfl
  · obtain rfl : n = 1 := by simp only [List.length_nil] at hlength; omega
    cases hdrop
    cases hsymbol
  · obtain rfl : n = 2 := by simp only [List.length_cons, List.length_nil] at hlength; omega
    cases hdrop
    exact (Symbol.rule.inj hsymbol).symm

/-- **Where the keyword is awaited after a phrase**, the phrase is one of type arguments, and the
keyword was to come next. -/
theorem IsBegun.exists_of_awaitsNew_follow {s : State} (h : IsBegun s) {rule : Nat}
    (hnew : (s.follow (.rule rule)).AwaitsNew) :
    rule = Rule.typeArguments.index ∧
      ∃ k ∈ s, ∃ step, k.rest = [step, newStep] ∧ step.symbol = .rule rule := by
  obtain ⟨j, hj, hrule, hrest⟩ := hnew
  cases follows_of_mem_follow hj with
  | @advanced k step more mem rest symbol core =>
    simp only [Item.core, Item.advance, Prod.mk.injEq] at core
    obtain ⟨hproduction, -, hmore⟩ := core
    rw [← hmore, hrest] at rest
    have hbegun := h.items k mem
    refine ⟨symbol_before_new (hbegun.production.mem_of_rule (hproduction ▸ hrule))
      (hbegun.rest_eq.symm.trans rest) symbol, k, mem, step, rest, symbol⟩
  | @begins k n c mem expects corner core =>
    -- a method reference that has only begun has its mark to come
    simp only [Item.core, Prod.mk.injEq] at core
    obtain ⟨hproduction, -, htail⟩ := core
    obtain ⟨-, -, hmem, -⟩ := mem_corners.1 corner
    obtain ⟨front, ⟨owner, more, rfl, -⟩, hsteps⟩ :=
      steps_of_methodReference ((hproduction ▸ hrule) ▸ hmem)
    rw [hrest] at htail
    have hlength := congrArg List.length htail
    rcases hsteps with hsteps | hsteps <;> rw [hsteps] at hlength <;> simp at hlength

/-- **No phrase is the end of type arguments**: they end with a mark. -/
theorem IsBegun.rest_ne_nil_of_mem_follow {s : State} (h : IsBegun s) {rule : Nat} {j : Item}
    (hj : j ∈ s.follow (.rule rule)) (hrule : j.production.rule = Rule.typeArguments.index) :
    j.rest ≠ [] := by
  intro hrest
  obtain ⟨front, n, hsteps⟩ :=
    steps_of_typeArguments (((h.follow _).items j hj).production.mem_of_rule hrule)
  cases follows_of_mem_follow hj with
  | @advanced k step more mem rest symbol core =>
    simp only [Item.core, Item.advance, Prod.mk.injEq] at core
    obtain ⟨hproduction, -, hmore⟩ := core
    rw [← hmore, hrest] at rest
    have hlast := congrArg List.getLast? ((h.items k mem).rest_eq.symm.trans rest)
    rw [← hproduction, List.getLast?_drop, hsteps] at hlast
    split at hlast
    · cases hlast
    · rw [List.getLast?_concat] at hlast
      cases hlast
      cases symbol
  | @begins k m c mem expects corner core =>
    simp only [Item.core, Prod.mk.injEq] at core
    obtain ⟨hproduction, -, htail⟩ := core
    obtain ⟨-, -, -, step, more, hcsteps, hsymbol⟩ := mem_corners.1 corner
    rw [hrest, hcsteps, List.tail_cons] at htail
    rw [hproduction, hcsteps, ← htail] at hsteps
    have hlast := congrArg List.getLast? hsteps
    rw [List.getLast?_concat] at hlast
    cases hlast
    cases hsymbol

end State

namespace Stack

variable {st st' : State} {s t : Stack} {offset : Nat}

/-- **The end of a phrase** brings up no method reference that goes on with the keyword. -/
theorem Way.refusesNew (h : Way st offset s) (hrefuses : State.RefusesNew st) {i : Item}
    (hi : i ∈ st) (hrest : i.rest = []) {after : State}
    (hreduce : Stack.reduce? i.production s = some (after, t)) (begun : State.IsBegun st')
    (hlike : State.like st' after = true) : State.RefusesNew st' := by
  obtain ⟨hway, hbase, rfl, hdrop⟩ := h.reduce? hi hrest hreduce
  constructor
  · rintro ⟨j, hj, hjrule, hjrest⟩
    obtain ⟨j', hj', hrest', hrule'⟩ := begun.exists_of_like hway.begun hlike hj
    obtain ⟨hrule, k, hk, step, hkrest, hsymbol⟩ := hbase.exists_of_awaitsNew_follow
      ⟨j', hj', hrule'.trans hjrule, hrest'.trans hjrest⟩
    have hstart : i.production ≠ start := by
      intro heq
      have hindex : Rule.count + repetitions.length = Rule.typeArguments.index := by
        rw [← hrule, heq]
        rfl
      have := index_lt_count .typeArguments
      omega
    -- the keyword may follow the type arguments that end here, so it was not refused
    obtain ⟨i', hi', hsame, hwithin⟩ :=
      h.match_top.informed i hi hstart k (hdrop ▸ hk) step newStep [] hkrest hsymbol
    have hi'i : i'.same i = true := hsame
    exact hrefuses.ends ⟨i', hi', (Item.same_iff.1 hi'i).2.1.trans hrule,
      ((h.begun.items i' hi').rest_eq_of_same (h.begun.items i hi) hi'i).trans hrest,
      hwithin _ (TerminalSet.has_single _)⟩
  · rintro ⟨j, hj, hjrule, hjrest, -⟩
    obtain ⟨j', hj', hrest', hrule'⟩ := begun.exists_of_like hway.begun hlike hj
    exact hbase.rest_ne_nil_of_mem_follow hj' (hrule'.trans hjrule) (hrest'.trans hjrest)

end Stack
end CallOrigins.Java
