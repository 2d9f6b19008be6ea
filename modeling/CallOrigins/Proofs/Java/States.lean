import CallOrigins.Proofs.Java.Corners

/-!
# States

What the state after a symbol is made of. Every item in it has advanced over the symbol or begins
with it (`Item.Follows`), and all that do are there, with at least what may follow them
(`State.offers_follow`). Two states with the same items, whatever may follow these, are followed by
states with the same items again (`State.like_follow`).

A state is *begun* if its items are, and if it has the method reference with the keyword `new` for
each one with a name (`State.IsBegun`).
-/

namespace CallOrigins.Java

open Grammar

namespace TerminalSet

variable {s t u : TerminalSet}

/-- All terminals of one set are in the other. -/
def Within (s t : TerminalSet) : Prop :=
  ∀ n, s.has n = true → t.has n = true

theorem has_join (s t : TerminalSet) (n : Nat) : (s.join t).has n = (s.has n || t.has n) :=
  Nat.testBit_or s t n

theorem has_single (n : Nat) : (single n).has n = true := by
  rw [has, single, Nat.one_shiftLeft, Nat.testBit_two_pow_self]

namespace Within

theorem refl (s : TerminalSet) : s.Within s :=
  fun _ h => h

theorem trans (h : s.Within t) (h' : t.Within u) : s.Within u :=
  fun n hn => h' n (h n hn)

theorem join_left (s t : TerminalSet) : s.Within (s.join t) := by
  intro n hn
  rw [has_join, hn, Bool.true_or]

theorem join_right (s t : TerminalSet) : t.Within (s.join t) := by
  intro n hn
  rw [has_join, hn, Bool.or_true]

end Within
end TerminalSet

namespace Item

variable {i j k : Item}

/-- What of an item does not depend on what may follow it. -/
def core (i : Item) : Production × Nat × List Step :=
  (i.production, i.done, i.rest)

/-- The item is a production of the grammar, some parts of which were read. -/
structure IsBegun (i : Item) : Prop where
  production : IsProduction i.production
  started : 0 < i.done ∨ i.production = start
  done_le : i.done ≤ i.production.steps.length
  rest_eq : i.rest = i.production.steps.drop i.done

theorem IsBegun.of_core_eq (h : i.IsBegun) (hcore : k.core = i.core) : k.IsBegun := by
  simp only [core, Prod.mk.injEq] at hcore
  obtain ⟨hproduction, hdone, hrest⟩ := hcore
  refine ⟨hproduction ▸ h.production, ?_, ?_, ?_⟩
  · rw [hproduction, hdone]
    exact h.started
  · rw [hproduction, hdone]
    exact h.done_le
  · rw [hproduction, hdone, hrest]
    exact h.rest_eq

theorem same_iff : i.same j = true ↔
    i.done = j.done ∧ i.production.rule = j.production.rule ∧ i.place = j.place := by
  simp only [same, Bool.and_eq_true, beq_iff_eq, and_assoc]

theorem same_refl (i : Item) : i.same i = true :=
  same_iff.2 ⟨rfl, rfl, rfl⟩

theorem same_symm (h : i.same j = true) : j.same i = true := by
  rw [same_iff] at h ⊢
  exact ⟨h.1.symm, h.2.1.symm, h.2.2.symm⟩

theorem same_trans (h : i.same j = true) (h' : j.same k = true) : i.same k = true := by
  rw [same_iff] at h h' ⊢
  exact ⟨h.1.trans h'.1, h.2.1.trans h'.2.1, h.2.2.trans h'.2.2⟩

theorem same_of_core_eq (h : i.core = j.core) : i.same j = true := by
  simp only [core, Prod.mk.injEq] at h
  rw [same_iff, place, place, h.1, h.2.1]
  exact ⟨rfl, rfl, rfl⟩

/-- Items that are the same have the same place among others. -/
theorem same_congr {i' j' : Item} (hi : i.same i' = true) (hj : j.same j' = true) :
    i.same j = i'.same j' ∧ i.precedes j = i'.precedes j' := by
  rw [same_iff] at hi hj
  constructor
  · rw [same, same, hi.1, hi.2.1, hi.2.2, hj.1, hj.2.1, hj.2.2]
  · rw [precedes, precedes, hi.1, hi.2.1, hi.2.2, hj.1, hj.2.1, hj.2.2]

/-- Items that are the same have compositions that agree. -/
theorem IsBegun.trace_eq (hi : i.IsBegun) (hj : j.IsBegun) (h : i.same j = true) :
    i.production.trace i.done = j.production.trace i.done := by
  obtain ⟨hdone, hrule, hplace⟩ := same_iff.1 h
  refine (hi.production.place_eq_iff hj.production hrule hi.done_le (hdone ▸ hj.done_le)).1 ?_
  rw [place, place, ← hdone] at hplace
  exact hplace

theorem IsBegun.rest_eq_of_same (hi : i.IsBegun) (hj : j.IsBegun) (h : i.same j = true) :
    i.rest = j.rest := by
  rw [hi.rest_eq, hj.rest_eq, ← (same_iff.1 h).1]
  exact Composition.drop_eq_of_trace_eq (hi.trace_eq hj h)

/-! ## Advancing -/

/-- The item after one more part. -/
def advance (i : Item) (more : List Step) : Item :=
  ⟨i.production, i.done + 1, more, i.ahead⟩

theorem IsBegun.advance (h : i.IsBegun) {step : Step} {more : List Step}
    (hrest : i.rest = step :: more) : (i.advance more).IsBegun := by
  have hdrop : i.production.steps.drop i.done = step :: more := h.rest_eq.symm.trans hrest
  have hlt : i.done < i.production.steps.length := by
    have := congrArg List.length hdrop
    simp only [List.length_drop, List.length_cons] at this
    omega
  refine ⟨h.production, .inl (Nat.succ_pos _), hlt, ?_⟩
  change more = i.production.steps.drop (i.done + 1)
  rw [← List.drop_drop, hdrop]
  rfl

theorem IsBegun.same_advance (hi : i.IsBegun) (hj : j.IsBegun) (h : i.same j = true) {step : Step}
    {more : List Step} (hrest : i.rest = step :: more) :
    (i.advance more).same (j.advance more) = true := by
  obtain ⟨hdone, hrule, -⟩ := same_iff.1 h
  have hi' := hi.advance hrest
  have hj' := hj.advance ((hi.rest_eq_of_same hj h).symm.trans hrest)
  have htrace := Composition.trace_succ (hi.trace_eq hj h)
  refine same_iff.2 ⟨congrArg (· + 1) hdone, hrule, ?_⟩
  have hplace := (hi.production.place_eq_iff hj.production hrule hi'.done_le
    (by have := hj'.done_le; rw [Item.advance] at this ⊢; dsimp only at this ⊢; omega)).2 htrace
  rw [place, place]
  change i.production.places.getD (i.done + 1) 0 = j.production.places.getD (j.done + 1) 0
  rw [← hdone]
  exact hplace

end Item

/-! ## What follows a symbol -/

/-- The next part is a phrase of a rule. -/
def Item.Expects (i : Item) (n : Nat) : Prop :=
  ∃ step more, i.rest = step :: more ∧ step.symbol = .rule n

/-- An item of the state after a symbol: it has advanced over the symbol, or begins with it. -/
inductive Item.Follows (s : State) (x : Symbol) (k : Item) : Prop where
  | advanced {i : Item} {step : Step} {more : List Step} (mem : i ∈ s)
    (rest : i.rest = step :: more) (symbol : step.symbol = x) (core : k.core = (i.advance more).core)
  | begins {i : Item} {n : Nat} {c : Corner} (mem : i ∈ s) (expects : i.Expects n)
    (corner : c ∈ corners n x) (core : k.core = (c.production, 1, c.production.steps.tail))

theorem Item.Follows.of_core_eq {s : State} {x : Symbol} {j k : Item} (h : k.Follows s x)
    (hcore : j.core = k.core) : j.Follows s x := by
  cases h with
  | advanced mem rest symbol core => exact .advanced mem rest symbol (hcore.trans core)
  | begins mem expects corner core => exact .begins mem expects corner (hcore.trans core)

namespace State

variable {s t : State} {i j k : Item} {x : Symbol}

theorem mem_add (h : k ∈ add i s) : k.core = i.core ∨ ∃ j ∈ s, k.core = j.core := by
  induction s with
  | nil =>
    cases List.mem_singleton.1 h
    exact .inl rfl
  | cons j s ih =>
    rw [add] at h
    split at h
    · rcases List.mem_cons.1 h with rfl | h
      · exact .inr ⟨j, .head _, rfl⟩
      · exact .inr ⟨k, .tail _ h, rfl⟩
    · split at h
      · rcases List.mem_cons.1 h with rfl | h
        · exact .inl rfl
        · exact .inr ⟨k, h, rfl⟩
      · rcases List.mem_cons.1 h with rfl | h
        · exact .inr ⟨k, .head _, rfl⟩
        · rcases ih h with hcore | ⟨j', hj', hcore⟩
          · exact .inl hcore
          · exact .inr ⟨j', .tail _ hj', hcore⟩

theorem follows_of_mem_addFrom {out : State} (hi : i ∈ s) (hout : ∀ j ∈ out, j.Follows s x)
    (h : k ∈ addFrom x out i) : k.Follows s x := by
  unfold addFrom at h
  cases hrest : i.rest with
  | nil =>
    rw [hrest] at h
    exact hout k h
  | cons step more =>
    rw [hrest] at h
    dsimp only at h
    -- the item itself, if the symbol is the next one, and then those that begin with the symbol
    have hfirst : ∀ j ∈ (if step.symbol = x then
        add ⟨i.production, i.done + 1, more, i.ahead⟩ out else out), j.Follows s x := by
      intro j hj
      split at hj
      next hsymbol =>
        rcases mem_add hj with hcore | ⟨j', hj', hcore⟩
        · exact .advanced hi hrest hsymbol hcore
        · exact (hout j' hj').of_core_eq hcore
      next => exact hout j hj
    cases hsymbol : step.symbol with
    | terminal n =>
      simp only [hsymbol] at h hfirst
      exact hfirst k h
    | rule n =>
      simp only [hsymbol] at h hfirst
      refine List.foldlRecOn _ _ (motive := fun out : State => ∀ k ∈ out, k.Follows s x) hfirst
        (fun out hout c hc k hk => ?_) k h
      rcases mem_add hk with hcore | ⟨j, hj, hcore⟩
      · exact .begins hi ⟨step, more, hrest, hsymbol⟩ hc hcore
      · exact (hout j hj).of_core_eq hcore

/-- **Every item of the state after a symbol** has advanced over the symbol or begins with it. -/
theorem follows_of_mem_follow (h : k ∈ s.follow x) : k.Follows s x := by
  exact List.foldlRecOn _ _ (motive := fun out : State => ∀ k ∈ out, k.Follows s x)
    (fun _ h => absurd h List.not_mem_nil)
    (fun out hout i hi k hk => follows_of_mem_addFrom hi hout hk) k h

/-! ## What a state offers -/

/-- The state has the item, with at least what may follow it. -/
def Offers (s : State) (i : Item) : Prop :=
  ∃ j ∈ s, j.same i = true ∧ i.ahead.Within j.ahead

theorem Offers.of_same (h : s.Offers i) (hsame : i.same j = true)
    (hahead : j.ahead.Within i.ahead) : s.Offers j := by
  obtain ⟨k, hk, hki, hwithin⟩ := h
  exact ⟨k, hk, Item.same_trans hki hsame, hahead.trans hwithin⟩

theorem offers_add (i : Item) (s : State) : (add i s).Offers i := by
  induction s with
  | nil => exact ⟨i, .head _, Item.same_refl i, .refl _⟩
  | cons j s ih =>
    rw [add]
    split
    next hsame => exact ⟨_, .head _, Item.same_symm hsame, .join_right _ _⟩
    next =>
      split
      · exact ⟨i, .head _, Item.same_refl i, .refl _⟩
      · obtain ⟨k, hk, h⟩ := ih
        exact ⟨k, .tail _ hk, h⟩

theorem Offers.add (h : s.Offers k) (i : Item) : (add i s).Offers k := by
  obtain ⟨j, hj, hsame, hwithin⟩ := h
  suffices hstays : ∃ j' ∈ State.add i s, j'.same j = true ∧ j.ahead.Within j'.ahead by
    obtain ⟨j', hj', hsame', hwithin'⟩ := hstays
    exact ⟨j', hj', Item.same_trans hsame' hsame, hwithin.trans hwithin'⟩
  induction s with
  | nil => exact absurd hj List.not_mem_nil
  | cons first s ih =>
    rw [State.add]
    split
    · rcases List.mem_cons.1 hj with rfl | hj
      · exact ⟨_, .head _, Item.same_refl _, .join_left _ _⟩
      · exact ⟨j, .tail _ hj, Item.same_refl j, .refl _⟩
    · split
      · exact ⟨j, .tail _ hj, Item.same_refl j, .refl _⟩
      · rcases List.mem_cons.1 hj with rfl | hj
        · exact ⟨j, .head _, Item.same_refl j, .refl _⟩
        · obtain ⟨j', hj', h⟩ := ih hj
          exact ⟨j', .tail _ hj', h⟩

theorem Offers.foldl_add (h : s.Offers k) (f : Corner → Item) (cs : List Corner) :
    Offers (cs.foldl (fun out c => State.add (f c) out) s) k :=
  List.foldlRecOn _ _ (motive := fun out : State => out.Offers k) h fun _ hout c _ => hout.add (f c)

theorem offers_foldl_add (f : Corner → Item) {cs : List Corner} {c : Corner} (hc : c ∈ cs)
    (s : State) : Offers (cs.foldl (fun out c => State.add (f c) out) s) (f c) := by
  induction cs generalizing s with
  | nil => exact absurd hc List.not_mem_nil
  | cons c' cs ih =>
    rcases List.mem_cons.1 hc with rfl | hc
    · exact (offers_add (f c) s).foldl_add f cs
    · exact ih hc _

theorem Offers.addFrom (h : s.Offers k) (i : Item) : (addFrom x s i).Offers k := by
  unfold State.addFrom
  cases i.rest with
  | nil => exact h
  | cons step more =>
    have hfirst : Offers (if step.symbol = x then
        State.add ⟨i.production, i.done + 1, more, i.ahead⟩ s else s) k := by
      split
      · exact h.add _
      · exact h
    dsimp only
    split
    · exact hfirst
    · exact hfirst.foldl_add _ _

theorem offers_follow_of_mem (hi : i ∈ s) (h : ∀ out, (State.addFrom x out i).Offers k) :
    (s.follow x).Offers k := by
  suffices hfold : ∀ out, Offers (s.foldl (State.addFrom x) out) k from hfold []
  induction s with
  | nil => exact absurd hi List.not_mem_nil
  | cons j s ih =>
    intro out
    rw [List.foldl_cons]
    rcases List.mem_cons.1 hi with rfl | hi
    · exact List.foldlRecOn _ _ (motive := fun out : State => out.Offers k) (h out)
        fun _ hout j _ => hout.addFrom j
    · exact ih hi _

/-- **An item that advances over a symbol** is in the state after it. -/
theorem offers_advance (hi : i ∈ s) {step : Step} {more : List Step} (hrest : i.rest = step :: more)
    (hsymbol : step.symbol = x) : (s.follow x).Offers (i.advance more) := by
  refine offers_follow_of_mem hi fun out => ?_
  unfold State.addFrom
  rw [hrest]
  dsimp only
  rw [if_pos hsymbol]
  have hfirst : (State.add ⟨i.production, i.done + 1, more, i.ahead⟩ out).Offers (i.advance more) :=
    offers_add _ _
  split
  · exact hfirst
  · exact hfirst.foldl_add _ _

/-- **A corner of what an item expects** is in the state after its first symbol. If whatever follows
the phrase may follow the corner, then what follows the part of the item may. -/
theorem offers_corner (hi : i ∈ s) {step : Step} {more : List Step} (hrest : i.rest = step :: more)
    {n : Nat} (hsymbol : step.symbol = .rule n) {c : Corner} (hc : c ∈ corners n x) :
    ∃ ahead, (s.follow x).Offers ⟨c.production, 1, c.production.steps.tail, ahead⟩ ∧
      (c.ahead.outer = true →
        ∀ next rest, more = next :: rest → (first next.symbol).Within ahead) := by
  cases more with
  | nil =>
    refine ⟨c.ahead.terminals (i.ahead.join step.before), offers_follow_of_mem hi fun out => ?_,
      fun _ _ _ h => by cases h⟩
    unfold State.addFrom
    simp only [hrest, hsymbol]
    exact offers_foldl_add (fun c => ⟨c.production, 1, c.production.steps.tail,
      c.ahead.terminals (i.ahead.join step.before)⟩) hc _
  | cons next rest =>
    refine ⟨c.ahead.terminals ((first next.symbol).join step.before),
      offers_follow_of_mem hi fun out => ?_, fun houter next' rest' heq => ?_⟩
    · unfold State.addFrom
      simp only [hrest, hsymbol]
      exact offers_foldl_add (fun c => ⟨c.production, 1, c.production.steps.tail,
        c.ahead.terminals ((first next.symbol).join step.before)⟩) hc _
    · cases heq
      rw [Ahead.terminals, if_pos houter]
      exact (TerminalSet.Within.join_left _ _).trans (.join_right _ _)

/-! ## Begun states -/

/-- **A begun state**: its items are begun, and where it has a method reference with a name to come,
it has one with the keyword. -/
structure IsBegun (s : State) : Prop where
  items : ∀ i ∈ s, i.IsBegun
  twins : ∀ i ∈ s, i.production.rule = Rule.methodReference.index → ∀ front,
    i.rest = front ++ [nameStep] →
      ∃ j ∈ s, j.production.rule = Rule.methodReference.index ∧ j.rest = front ++ [newStep]

theorem isBegun_corner {n : Nat} {c : Corner} (hc : c ∈ corners n x) (ahead : TerminalSet) :
    Item.IsBegun ⟨c.production, 1, c.production.steps.tail, ahead⟩ := by
  obtain ⟨-, -, hmem, step, more, hsteps, -⟩ := mem_corners.1 hc
  refine ⟨.inr hmem, .inl Nat.one_pos, ?_, ?_⟩
  · dsimp only
    rw [hsteps, List.length_cons]
    omega
  · exact List.drop_one.symm

theorem isBegun_of_mem_follow (h : IsBegun s) (hk : k ∈ s.follow x) : k.IsBegun := by
  cases follows_of_mem_follow hk with
  | advanced mem rest symbol core => exact ((h.items _ mem).advance rest).of_core_eq core
  | begins mem expects corner core => exact (isBegun_corner corner 0).of_core_eq core

theorem IsBegun.rest_of_offers (h : IsBegun s) (hoffers : (s.follow x).Offers i) (hi : i.IsBegun) :
    ∃ j ∈ s.follow x, j.production.rule = i.production.rule ∧ j.rest = i.rest := by
  obtain ⟨j, hj, hsame, -⟩ := hoffers
  exact ⟨j, hj, (Item.same_iff.1 hsame).2.1,
    (isBegun_of_mem_follow h hj).rest_eq_of_same hi hsame⟩

/-- **The state after a symbol is begun.** -/
theorem IsBegun.follow (h : IsBegun s) (x : Symbol) : IsBegun (s.follow x) := by
  refine ⟨fun k hk => isBegun_of_mem_follow h hk, fun k hk hrule front hrest => ?_⟩
  cases follows_of_mem_follow hk with
  | @advanced i step more mem rest symbol core =>
    simp only [Item.core, Item.advance, Prod.mk.injEq] at core
    obtain ⟨hproduction, -, hmore⟩ := core
    -- the twin of the item before the symbol advances over it too
    have hfront : i.rest = (step :: front) ++ [nameStep] := by rw [rest, ← hmore, hrest]; rfl
    obtain ⟨j, hj, hjrule, hjrest⟩ := h.twins i mem (hproduction ▸ hrule) _ hfront
    obtain ⟨k', hk', hk'rule, hk'rest⟩ := h.rest_of_offers (offers_advance hj hjrest symbol)
      ((h.items j hj).advance hjrest)
    exact ⟨k', hk', hk'rule.trans hjrule, hk'rest⟩
  | @begins i n c mem expects corner core =>
    simp only [Item.core, Prod.mk.injEq] at core
    obtain ⟨hproduction, -, htail⟩ := core
    obtain ⟨hn, hcorner, hmem, step, more, hsteps, hsymbol⟩ := mem_corners.1 corner
    rw [hproduction] at hrule
    have hfront : c.production.steps = (step :: front) ++ [nameStep] := by
      rw [hsteps, List.tail_cons] at htail
      rw [hsteps, List.cons_append, ← hrest, htail]
    obtain ⟨p, hp, hpsteps⟩ := exists_new_of_name (hrule ▸ hmem) hfront
    -- the production with the keyword begins in the same way, so it is a corner of the same rule
    have htwin : (⟨p, c.ahead⟩ : Corner) ∈ corners n x := by
      have hprule := (rule_of_mem_productionsOf hp).1
      refine mem_corners.2 ⟨hn, ?_, ?_, step, front ++ [newStep], hpsteps, hsymbol⟩
      · dsimp only
        rw [hprule, ← hrule]
        exact hcorner
      · dsimp only
        rw [hprule]
        exact hp
    obtain ⟨step', more', hirest, hisymbol⟩ := expects
    obtain ⟨ahead, hoffers, -⟩ := offers_corner mem hirest hisymbol htwin
    obtain ⟨k', hk', hk'rule, hk'rest⟩ := h.rest_of_offers hoffers (isBegun_corner htwin ahead)
    refine ⟨k', hk', hk'rule.trans (rule_of_mem_productionsOf hp).1, hk'rest.trans ?_⟩
    dsimp only
    rw [hpsteps]
    rfl

/-! ## States with the same items -/

theorem like_refl (s : State) : s.like s = true := by
  induction s with
  | nil => rfl
  | cons i s ih => rw [like, Item.same_refl, ih]; rfl

theorem like_cons : like (i :: s) (j :: t) = true ↔ i.same j = true ∧ like s t = true := by
  rw [like, Bool.and_eq_true]

theorem like_trans {u : State} (h : like s t = true) (h' : like t u = true) : like s u = true := by
  induction s generalizing t u with
  | nil =>
    cases t with
    | nil => exact h'
    | cons => cases h
  | cons i s ih =>
    cases t with
    | nil => cases h
    | cons j t =>
      cases u with
      | nil => cases h'
      | cons k u =>
        rw [like_cons] at h h' ⊢
        exact ⟨Item.same_trans h.1 h'.1, ih h.2 h'.2⟩

theorem exists_same_of_like (hi : i ∈ s) (h : like s t = true) :
    ∃ j ∈ t, i.same j = true := by
  induction s generalizing t with
  | nil => exact absurd hi List.not_mem_nil
  | cons i' s ih =>
    cases t with
    | nil => cases h
    | cons j t =>
      rw [like_cons] at h
      rcases List.mem_cons.1 hi with rfl | hi
      · exact ⟨j, .head _, h.1⟩
      · obtain ⟨j', hj', hsame⟩ := ih hi h.2
        exact ⟨j', .tail _ hj', hsame⟩

theorem like_add (hij : i.same j = true) (h : like s t = true) :
    like (add i s) (add j t) = true := by
  induction s generalizing t with
  | nil =>
    cases t with
    | nil => exact like_cons.2 ⟨hij, rfl⟩
    | cons => cases h
  | cons i' s ih =>
    cases t with
    | nil => cases h
    | cons j' t =>
      rw [like_cons] at h
      obtain ⟨hsame, hprecedes⟩ := Item.same_congr hij h.1
      rw [add, add, hsame, hprecedes]
      split
      · exact like_cons.2 ⟨h.1, h.2⟩
      · split
        · exact like_cons.2 ⟨hij, like_cons.2 h⟩
        · exact like_cons.2 ⟨h.1, ih h.2⟩

theorem like_foldl {F G : Corner → Item} {cs : List Corner} {out out' : State}
    (hout : like out out' = true) (h : ∀ c, (F c).same (G c) = true) :
    like (cs.foldl (fun out c => add (F c) out) out) (cs.foldl (fun out c => add (G c) out) out') =
      true := by
  induction cs generalizing out out' with
  | nil => exact hout
  | cons c cs ih => exact ih (like_add (h c) hout)

theorem like_addFrom {out out' : State} (hi : i.IsBegun) (hj : j.IsBegun) (h : i.same j = true)
    (hout : like out out' = true) : like (addFrom x out i) (addFrom x out' j) = true := by
  unfold addFrom
  rw [← hi.rest_eq_of_same hj h]
  cases hrest : i.rest with
  | nil => exact hout
  | cons step more =>
    dsimp only
    have hfirst : like
        (if step.symbol = x then add ⟨i.production, i.done + 1, more, i.ahead⟩ out else out)
        (if step.symbol = x then add ⟨j.production, j.done + 1, more, j.ahead⟩ out' else out') =
          true := by
      split
      · exact like_add (hi.same_advance hj h hrest) hout
      · exact hout
    cases hsymbol : step.symbol with
    | terminal n =>
      simp only [hsymbol] at hfirst ⊢
      exact hfirst
    | rule n =>
      simp only [hsymbol] at hfirst ⊢
      exact like_foldl hfirst fun c => Item.same_iff.2 ⟨rfl, rfl, rfl⟩

/-- **States with the same items are followed by states with the same items.** -/
theorem like_follow (hs : ∀ i ∈ s, i.IsBegun) (ht : ∀ i ∈ t, i.IsBegun) (h : like s t = true)
    (x : Symbol) : like (s.follow x) (t.follow x) = true := by
  suffices hfold : ∀ out out', like out out' = true →
      like (s.foldl (addFrom x) out) (t.foldl (addFrom x) out') = true from hfold [] [] rfl
  induction s generalizing t with
  | nil =>
    cases t with
    | nil => exact fun _ _ hout => hout
    | cons => cases h
  | cons i s ih =>
    cases t with
    | nil => cases h
    | cons j t =>
      intro out out' hout
      rw [like_cons] at h
      simp only [List.forall_mem_cons] at hs ht
      exact ih hs.2 ht.2 h.2 _ _ (like_addFrom hs.1 ht.1 h.1 hout)

/-! ## Joined states -/

theorem like_join (h : like s t = true) : like (s.join t) s = true ∧ like (s.join t) t = true := by
  induction s generalizing t with
  | nil => exact ⟨rfl, h⟩
  | cons i s ih =>
    cases t with
    | nil => cases h
    | cons j t =>
      rw [like_cons] at h
      obtain ⟨hs, ht⟩ := ih h.2
      exact ⟨like_cons.2 ⟨Item.same_refl i, hs⟩, like_cons.2 ⟨h.1, ht⟩⟩

theorem mem_join (h : k ∈ s.join t) : ∃ i ∈ s, k.core = i.core := by
  induction s generalizing t with
  | nil => exact absurd h List.not_mem_nil
  | cons i s ih =>
    cases t with
    | nil => exact absurd h List.not_mem_nil
    | cons j t =>
      rcases List.mem_cons.1 h with rfl | h
      · exact ⟨i, .head _, rfl⟩
      · obtain ⟨i', hi', hcore⟩ := ih h
        exact ⟨i', .tail _ hi', hcore⟩

/-- The state has the same items as another and offers what the other does. -/
structure Covers (s t : State) : Prop where
  like : s.like t = true
  offers : ∀ i, t.Offers i → s.Offers i

theorem exists_of_join (h : like s t = true) :
    (∀ i ∈ s, ∃ k ∈ s.join t, k.core = i.core ∧ i.ahead.Within k.ahead) ∧
      ∀ j ∈ t, ∃ k ∈ s.join t, k.same j = true ∧ j.ahead.Within k.ahead := by
  induction s generalizing t with
  | nil =>
    cases t with
    | nil => simp
    | cons => cases h
  | cons i s ih =>
    cases t with
    | nil => cases h
    | cons j t =>
      rw [like_cons] at h
      obtain ⟨hs, ht⟩ := ih h.2
      refine ⟨fun i' hi' => ?_, fun j' hj' => ?_⟩
      · rcases List.mem_cons.1 hi' with rfl | hi'
        · exact ⟨_, .head _, rfl, .join_left _ _⟩
        · obtain ⟨k, hk, hcore⟩ := hs i' hi'
          exact ⟨k, .tail _ hk, hcore⟩
      · rcases List.mem_cons.1 hj' with rfl | hj'
        · exact ⟨_, .head _, h.1, .join_right _ _⟩
        · obtain ⟨k, hk, hsame⟩ := ht j' hj'
          exact ⟨k, .tail _ hk, hsame⟩

/-- **A joined state** covers both states. -/
theorem covers_join (h : like s t = true) : Covers (s.join t) s ∧ Covers (s.join t) t := by
  obtain ⟨hleft, hright⟩ := like_join h
  obtain ⟨hs, ht⟩ := exists_of_join h
  refine ⟨⟨hleft, ?_⟩, ⟨hright, ?_⟩⟩
  · rintro k ⟨i, hi, hsame, hwithin⟩
    obtain ⟨i', hi', hcore, hwithin'⟩ := hs i hi
    exact ⟨i', hi', Item.same_trans (Item.same_of_core_eq hcore) hsame, hwithin.trans hwithin'⟩
  · rintro k ⟨j, hj, hsame, hwithin⟩
    obtain ⟨k', hk', hsame', hwithin'⟩ := ht j hj
    exact ⟨k', hk', Item.same_trans hsame' hsame, hwithin.trans hwithin'⟩

theorem IsBegun.join (h : IsBegun s) (hlike : like s t = true) : IsBegun (s.join t) := by
  refine ⟨fun k hk => ?_, fun k hk hrule front hrest => ?_⟩
  · obtain ⟨i, hi, hcore⟩ := mem_join hk
    exact (h.items i hi).of_core_eq hcore
  · obtain ⟨i, hi, hcore⟩ := mem_join hk
    simp only [Item.core, Prod.mk.injEq] at hcore
    obtain ⟨j, hj, hjrule, hjrest⟩ :=
      h.twins i hi (hcore.1 ▸ hrule) front (hcore.2.2.symm.trans hrest)
    obtain ⟨k', hk', hcore', -⟩ := (exists_of_join hlike).1 j hj
    simp only [Item.core, Prod.mk.injEq] at hcore'
    exact ⟨k', hk', hcore'.1 ▸ hjrule, hcore'.2.2.trans hjrest⟩

theorem isBegun_initial : IsBegun initial := by
  refine ⟨List.forall_mem_singleton.2 ⟨.inl rfl, .inr rfl, Nat.zero_le _, rfl⟩, ?_⟩
  intro i hi hrule
  cases List.mem_singleton.1 hi
  have hindex : Rule.count + repetitions.length = Rule.methodReference.index := hrule
  have := index_lt_count .methodReference
  omega

/-- A phrase ends only where all its parts were read. -/
theorem exists_of_reduce_mem_moves {terminal : Nat} {p : Production}
    (h : Move.reduce p ∈ s.moves terminal) : ∃ i ∈ s, i.production = p ∧ i.rest = [] := by
  have hends : Move.reduce p ∈ (s.ending terminal).map fun i => Move.reduce i.production := by
    unfold moves at h
    dsimp only at h
    split at h
    · cases h
    · simp at h
    · exact h
    · split at h
      · simp at h
      · split at h
        · exact h
        · split at h
          · exact h
          · split at h
            · simp at h
            · simpa using h
  obtain ⟨i, hi, hp⟩ := List.mem_map.1 hends
  cases hp
  obtain ⟨hcomplete, -⟩ := List.mem_filter.1 hi
  obtain ⟨hmem, hrest⟩ := List.mem_filter.1 hcomplete
  simp only [Bool.and_eq_true, List.isEmpty_iff] at hrest
  exact ⟨i, hmem, rfl, hrest.1⟩

/-! ## Terminals that may come next -/

/-- A terminal may come next: after an item that is through, or as the first of the next part of
one. -/
def Wants (s : State) (terminal : Nat) : Prop :=
  ∃ i ∈ s, (i.rest = [] ∧ i.ahead.has terminal = true) ∨
    ∃ step more, i.rest = step :: more ∧ (first step.symbol).has terminal = true

/-- **Every terminal that may come next is expected.** -/
theorem has_expected_iff {terminal : Nat} : s.expected.has terminal = true ↔ s.Wants terminal := by
  have hfold : s.expected.has terminal = true ↔
      s.Wants terminal ∨ TerminalSet.has 0 terminal = true := by
    refine foldl_iff (P := fun set : TerminalSet => set.has terminal = true) ?_ s 0
    intro set i
    cases i.rest with
    | nil => simp [TerminalSet.has_join, or_comm]
    | cons step more => simp [TerminalSet.has_join, or_comm]
  rw [hfold, TerminalSet.has, Nat.zero_testBit]
  simp

theorem exists_highest {l : State} (h : l ≠ []) :
    ∃ i ∈ l, ∀ j ∈ l, j.production.level ≤ i.production.level := by
  induction l with
  | nil => exact absurd rfl h
  | cons i l ih =>
    by_cases hl : l = []
    · subst hl
      exact ⟨i, .head _, List.forall_mem_singleton.2 (Int.le_refl _)⟩
    · obtain ⟨m, hm, hmax⟩ := ih hl
      by_cases hle : i.production.level ≤ m.production.level
      · exact ⟨m, .tail _ hm, List.forall_mem_cons.2 ⟨hle, hmax⟩⟩
      · refine ⟨i, .head _, List.forall_mem_cons.2 ⟨Int.le_refl _, fun j hj => ?_⟩⟩
        have := hmax j hj
        omega

/-- **Every terminal that may come next calls for a move.** -/
theorem not_wants_of_moves_eq_nil {terminal : Nat} (h : s.moves terminal = []) :
    ¬ s.Wants terminal := by
  have hnone : s.ending terminal = [] ∧ s.continuing terminal = [] := by
    unfold moves at h
    dsimp only at h
    cases hends : s.ending terminal with
    | nil =>
      cases hgoOn : s.continuing terminal with
      | nil => exact ⟨rfl, rfl⟩
      | cons => simp [hends, hgoOn] at h
    | cons e es =>
      cases hgoOn : s.continuing terminal with
      | nil => simp [hends, hgoOn] at h
      | cons =>
        simp only [hends, hgoOn, List.head?_cons] at h
        split at h
        · cases h
        · split at h
          · cases h
          · split at h
            · cases h
            · split at h <;> cases h
  obtain ⟨hending, hcontinuing⟩ := hnone
  rintro ⟨i, hi, ⟨hrest, hahead⟩ | ⟨step, more, hrest, hfirst⟩⟩
  · -- of the items that are through, one of the highest level ends
    have hcomplete : s.filter (fun i => i.rest.isEmpty && i.ahead.has terminal) ≠ [] := by
      refine List.ne_nil_of_mem (List.mem_filter.2 ⟨hi, ?_⟩)
      rw [hrest, hahead]
      rfl
    obtain ⟨m, hm, hmax⟩ := exists_highest hcomplete
    have hmem : m ∈ s.ending terminal :=
      List.mem_filter.2 ⟨hm, List.all_eq_true.2 fun j hj => decide_eq_true (hmax j hj)⟩
    rw [hending] at hmem
    exact absurd hmem List.not_mem_nil
  · have hmem : i ∈ s.continuing terminal := by
      refine List.mem_filter.2 ⟨hi, ?_⟩
      rw [hrest]
      exact hfirst
    rw [hcontinuing] at hmem
    exact absurd hmem List.not_mem_nil

end State
end CallOrigins.Java
