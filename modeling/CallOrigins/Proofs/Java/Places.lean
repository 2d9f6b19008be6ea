import CallOrigins.Java.Index.Arguments
import CallOrigins.Proofs.Java.Walk

/-!
# Places in a tree

Where the tokens of a tree stand in order, the nodes that cover a range of bytes are found by going
down from the root: of the nodes side by side at most one covers the range, and no node before it
reaches its end. So the way down to a range passes every node that covers it
(`Node.covering_of_holds`), and a range that takes in a token of a node ends the way down at that
node, or at the token.

**The law** (`coveringCall?_eq`): a call is found again from every range inside of it that takes in
one of its own tokens.
-/

namespace CallOrigins.Java

theorem Token.start_le_stop (t : Token) : t.start ≤ t.stop :=
  Nat.le_add_right ..

/-- The tokens stand one after the other. -/
def InOrder (ts : List Token) : Prop :=
  ts.Pairwise (fun t u => t.stop ≤ u.start)

namespace Node

/-! ## The tokens of a tree -/

theorem tokens_leaf (r : Option Role) (k : Kind) (t : Token) : (leaf r k t).tokens = [t] := rfl

theorem text_leaf (r : Option Role) (k : Kind) (t : Token) : (leaf r k t).text = t.text := by
  simp [text, tokens_leaf, textOf]

mutual
theorem tokensOnto_eq (n : Node) (after : List Token) :
    n.tokensOnto after = n.tokens ++ after := by
  match n with
  | .leaf r k t => rfl
  | .branch r k cs =>
    rw [tokens, tokensOnto, tokensOnto, tokensOfAllOnto_eq cs after, tokensOfAllOnto_eq cs [],
      List.append_nil]
theorem tokensOfAllOnto_eq (ns : List Node) (after : List Token) :
    tokensOfAllOnto ns after = ns.flatMap tokens ++ after := by
  match ns with
  | [] => rfl
  | n :: ns =>
    rw [tokensOfAllOnto, tokensOnto_eq n, tokensOfAllOnto_eq ns, List.flatMap_cons,
      List.append_assoc]
end

theorem tokens_branch (r : Option Role) (k : Kind) (cs : List Node) :
    (branch r k cs).tokens = cs.flatMap tokens := by
  rw [tokens, tokensOnto, tokensOfAllOnto_eq, List.append_nil]

/-- A fault has no tokens. -/
theorem tokens_append_error (r : Option Role) (k : Kind) (cs : List Node) :
    (branch r k (cs ++ [branch none .error []])).tokens = (branch r k cs).tokens := by
  rw [tokens_branch, tokens_branch, List.flatMap_append]
  exact List.append_nil _

mutual
theorem firstToken?_eq (n : Node) : n.firstToken? = n.tokens.head? := by
  match n with
  | .leaf r k t => rfl
  | .branch r k cs => rw [firstToken?, firstTokenOfAll?_eq cs, tokens_branch]
theorem firstTokenOfAll?_eq (ns : List Node) :
    firstTokenOfAll? ns = (ns.flatMap tokens).head? := by
  match ns with
  | [] => rfl
  | n :: ns =>
    rw [firstTokenOfAll?, firstToken?_eq n, firstTokenOfAll?_eq ns, List.flatMap_cons,
      List.head?_append]
    cases n.tokens.head? <;> rfl
end

mutual
theorem lastToken?_eq (n : Node) : n.lastToken? = n.tokens.getLast? := by
  match n with
  | .leaf r k t => rfl
  | .branch r k cs => rw [lastToken?, lastTokenOfAll?_eq cs, tokens_branch]
theorem lastTokenOfAll?_eq (ns : List Node) :
    lastTokenOfAll? ns = (ns.flatMap tokens).getLast? := by
  match ns with
  | [] => rfl
  | n :: ns =>
    rw [lastTokenOfAll?, lastToken?_eq n, lastTokenOfAll?_eq ns, List.flatMap_cons,
      List.getLast?_append]
    cases (ns.flatMap tokens).getLast? <;> rfl
end

theorem tokens_sublist_of_mem {n c : Node} (h : c ∈ n.parts) : c.tokens.Sublist n.tokens := by
  cases n with
  | leaf => exact absurd h List.not_mem_nil
  | branch r k cs =>
    rw [tokens_branch]
    exact List.sublist_flatten_of_mem (List.mem_map_of_mem h)

theorem Holds.tokens_sublist {root n : Node} (h : root.Holds n) : n.tokens.Sublist root.tokens := by
  induction h with
  | refl => exact .refl _
  | tail _ hpart ih => exact (tokens_sublist_of_mem hpart).trans ih

/-! ## Where a tree starts and stops -/

variable {n : Node} {t : Token}

theorem start_le_of_mem (ordered : InOrder n.tokens) (h : t ∈ n.tokens) : n.start ≤ t.start := by
  rw [start, firstToken?_eq]
  cases htokens : n.tokens with
  | nil => simp
  | cons first rest =>
    rw [htokens] at ordered h
    rcases List.mem_cons.1 h with rfl | h
    · exact Nat.le_refl _
    · exact Nat.le_trans first.start_le_stop (List.rel_of_pairwise_cons ordered h)

theorem le_stop_of_mem (ordered : InOrder n.tokens) (h : t ∈ n.tokens) : t.stop ≤ n.stop := by
  rw [stop, lastToken?_eq]
  rcases List.eq_nil_or_concat n.tokens with htokens | ⟨front, last, htokens⟩
  · rw [htokens] at h
    exact absurd h List.not_mem_nil
  · rw [htokens, List.concat_eq_append] at ordered h
    rw [htokens, List.concat_eq_append, List.getLast?_concat]
    rcases List.mem_append.1 h with h | h
    · exact Nat.le_trans ((List.pairwise_append.1 ordered).2.2 t h last (List.mem_singleton.2 rfl))
        last.start_le_stop
    · exact Nat.le_of_eq (congrArg Token.stop (List.mem_singleton.1 h))

/-- A tree stops where one of its tokens does, unless it has none. -/
theorem stop_cases (n : Node) : n.stop = 0 ∨ ∃ t ∈ n.tokens, n.stop = t.stop := by
  rw [stop, lastToken?_eq]
  cases hlast : n.tokens.getLast? with
  | none => exact .inl rfl
  | some t => exact .inr ⟨t, List.mem_of_getLast? hlast, rfl⟩

/-- A tree starts where one of its tokens does, unless it has none. -/
theorem start_cases (n : Node) : n.stop = 0 ∨ ∃ t ∈ n.tokens, n.start = t.start := by
  rw [start, stop, lastToken?_eq, firstToken?_eq]
  cases htokens : n.tokens with
  | nil => exact .inl rfl
  | cons t ts => exact .inr ⟨t, .head _, rfl⟩

/-- What a tree holds does not reach out of it. -/
theorem Holds.span_le {root : Node} (h : root.Holds n) (ordered : InOrder root.tokens)
    (hstop : 0 < n.stop) : root.start ≤ n.start ∧ n.stop ≤ root.stop := by
  constructor
  · rcases n.start_cases with hzero | ⟨t, ht, hstart⟩
    · omega
    · exact hstart ▸ start_le_of_mem ordered (h.tokens_sublist.subset ht)
  · rcases n.stop_cases with hzero | ⟨t, ht, hstop⟩
    · omega
    · exact hstop ▸ le_stop_of_mem ordered (h.tokens_sublist.subset ht)

/-! ## Nodes side by side -/

section Siblings

variable {before after : List Node} {c : Node}
  (ordered : InOrder ((before ++ c :: after).flatMap tokens))

include ordered

/-- A node stops before the tokens of a later one. -/
theorem stop_le_of_before {x : Node} (hx : x ∈ before) (ht : t ∈ c.tokens) : x.stop ≤ t.start := by
  rcases x.stop_cases with hzero | ⟨u, hu, hstop⟩
  · omega
  · rw [hstop]
    rw [InOrder, List.flatMap_append, List.flatMap_cons] at ordered
    exact (List.pairwise_append.1 ordered).2.2 u (List.mem_flatMap.2 ⟨x, hx, hu⟩) t
      (List.mem_append_left _ ht)

/-- A node that has tokens starts after the tokens of an earlier one. -/
theorem le_start_of_after {x : Node} (hx : x ∈ after) (hstop : 0 < x.stop) (ht : t ∈ c.tokens) :
    t.stop ≤ x.start := by
  rcases x.start_cases with hzero | ⟨u, hu, hstart⟩
  · omega
  · rw [hstart]
    rw [InOrder, List.flatMap_append, List.flatMap_cons] at ordered
    have hlater := (List.pairwise_append.1 (List.pairwise_append.1 ordered).2.1).2.2
    exact hlater t ht u (List.mem_flatMap.2 ⟨x, hx, hu⟩)

end Siblings

/-! ## The way down to a range -/

variable {lo hi : Nat}

mutual
theorem holds_of_mem_covering {n x : Node} (h : x ∈ n.covering lo hi) : n.Holds x := by
  match n with
  | .leaf r k t =>
    rw [List.mem_singleton.1 h]
    exact .refl
  | .branch r k cs =>
    rcases List.mem_cons.1 h with rfl | h
    · exact .refl
    · obtain ⟨c, hc, hx⟩ := exists_holds_of_mem_coveringAmong h
      exact .head hc hx
theorem exists_holds_of_mem_coveringAmong {ns : List Node} {x : Node}
    (h : x ∈ coveringAmong lo hi ns) : ∃ c ∈ ns, c.Holds x := by
  match ns with
  | [] => exact absurd h List.not_mem_nil
  | c :: cs =>
    rw [coveringAmong] at h
    by_cases hbefore : (c.stop < hi || c.stop ≤ lo) = true
    · rw [if_pos hbefore] at h
      obtain ⟨c', hc', hx⟩ := exists_holds_of_mem_coveringAmong h
      exact ⟨c', .tail _ hc', hx⟩
    · rw [if_neg hbefore] at h
      by_cases hafter : lo < c.start
      · rw [if_pos hafter] at h
        exact absurd h List.not_mem_nil
      · rw [if_neg hafter] at h
        exact ⟨c, .head _, holds_of_mem_covering h⟩
end

theorem coveringAmong_append {before : List Node} (after : List Node)
    (h : ∀ x ∈ before, x.stop < hi ∨ x.stop ≤ lo) :
    coveringAmong lo hi (before ++ after) = coveringAmong lo hi after := by
  induction before with
  | nil => rfl
  | cons x before ih =>
    simp only [List.forall_mem_cons] at h
    rw [List.cons_append, coveringAmong, if_pos (by simpa using h.1), ih h.2]

/-- **The way down goes through the part that covers the range.** -/
theorem covering_part {n c : Node} (ordered : InOrder n.tokens) (hc : c ∈ n.parts) (range : lo < hi)
    (hstart : c.start ≤ lo) (hstop : hi ≤ c.stop) :
    n.covering lo hi = n :: c.covering lo hi := by
  cases n with
  | leaf => exact absurd hc List.not_mem_nil
  | branch r k cs =>
    obtain ⟨before, after, rfl⟩ := List.append_of_mem hc
    rw [tokens_branch] at ordered
    have hbefore : ∀ x ∈ before, x.stop < hi ∨ x.stop ≤ lo := by
      intro x hx
      rcases c.start_cases with hzero | ⟨t, ht, hfirst⟩
      · omega
      · have := stop_le_of_before ordered hx ht
        omega
    rw [covering, coveringAmong_append _ hbefore, coveringAmong, if_neg (by simp; omega),
      if_neg (by omega)]

/-- The way down to a range passes every node that covers it. -/
theorem covering_of_holds {root n : Node} (h : root.Holds n) (ordered : InOrder root.tokens)
    (range : lo < hi) (hstart : n.start ≤ lo) (hstop : hi ≤ n.stop) :
    ∃ outer, root.covering lo hi = outer ++ n.covering lo hi := by
  induction h using Relation.ReflTransGen.head_induction_on with
  | refl => exact ⟨[], rfl⟩
  | @head root c hc hn ih =>
    have hordered : InOrder c.tokens := ordered.sublist (tokens_sublist_of_mem hc)
    obtain ⟨outer, houter⟩ := ih hordered
    have hspan := Holds.span_le hn hordered (by omega)
    refine ⟨root :: outer, ?_⟩
    rw [covering_part ordered hc range (by omega) (by omega), houter, List.cons_append]

/-- **The way down ends at a token of the node**, or before it, where the range takes in that
token. -/
theorem covering_of_leaf {n : Node} {r : Option Role} {k : Kind} (ordered : InOrder n.tokens)
    (hleaf : .leaf r k t ∈ n.parts) (htext : t.start < t.stop) (hlo : lo ≤ t.start)
    (hhi : t.stop ≤ hi) :
    ∃ inner, n.covering lo hi = n :: inner ∧ ∀ x ∈ inner, x = .leaf r k t := by
  cases n with
  | leaf => exact absurd hleaf List.not_mem_nil
  | branch r' k' cs =>
    refine ⟨coveringAmong lo hi cs, rfl, ?_⟩
    obtain ⟨before, after, rfl⟩ := List.append_of_mem hleaf
    rw [tokens_branch] at ordered
    have ht : t ∈ (Node.leaf r k t).tokens := List.mem_singleton.2 rfl
    have hbefore : ∀ x ∈ before, x.stop < hi ∨ x.stop ≤ lo := by
      intro x hx
      have := stop_le_of_before ordered hx ht
      omega
    -- what comes after the token starts after it, so it does not reach back to the range
    have hafter : ∀ xs : List Node, (∀ x ∈ xs, x ∈ after) → coveringAmong lo hi xs = [] := by
      intro xs
      induction xs with
      | nil => exact fun _ => rfl
      | cons x xs ih =>
        intro hxs
        simp only [List.forall_mem_cons] at hxs
        rw [coveringAmong]
        split
        · exact ih hxs.2
        next hreach =>
          have hreach : hi ≤ x.stop ∧ lo < x.stop := by simpa using hreach
          have := le_start_of_after ordered hxs.1 (by omega) ht
          rw [if_pos (by omega)]
    rw [coveringAmong_append _ hbefore, coveringAmong]
    split
    · simp [hafter after fun _ h => h]
    · split
      · simp
      · simp [covering]

end Node

/-! ## Calls -/

theorem nearestCall?_append {n : Node} (hn : n.kind.isCall = true) (outer : List Node)
    {inner : List Node}
    (hinner : ∀ x ∈ inner, x.kind.isCall = false ∧ x.kind.isBoundary = false) :
    nearestCall? (outer ++ n :: inner).reverse = some n := by
  have hskipped : inner.reverse.find? (fun x => x.kind.isCall || x.kind.isBoundary) = none := by
    rw [List.find?_eq_none]
    intro x hx
    simp [hinner x (List.mem_reverse.1 hx)]
  have hfound : (outer ++ n :: inner).reverse.find?
      (fun x => x.kind.isCall || x.kind.isBoundary) = some n := by
    rw [List.reverse_append, List.reverse_cons, List.append_assoc, List.find?_append, hskipped]
    simp [hn]
  rw [nearestCall?, hfound]
  simp [hn]

/-- The call that covers a range is a call, and it is a node of the tree. -/
theorem isCall_and_holds_of_coveringCall? {root call : Node} {lo hi : Nat}
    (h : coveringCall? root lo hi = some call) : call.kind.isCall = true ∧ root.Holds call := by
  unfold coveringCall? nearestCall? at h
  cases hfound : (root.covering lo hi).reverse.find? (fun n => n.kind.isCall || n.kind.isBoundary) with
  | none =>
    rw [hfound] at h
    cases h
  | some n =>
    rw [hfound] at h
    obtain ⟨hkind, hcall⟩ := Option.ite_none_right_eq_some.1 h
    cases hcall
    refine ⟨hkind, ?_⟩
    exact Node.holds_of_mem_covering (List.mem_reverse.1 (List.mem_of_find?_eq_some hfound))

/-- **A call is found again** from every range inside of it that takes in one of its tokens. -/
theorem coveringCall?_eq {root n : Node} (ordered : InOrder root.tokens) (hn : root.Holds n)
    (hcall : n.kind.isCall = true) {r : Option Role} {k : Kind} {t : Token}
    (hleaf : .leaf r k t ∈ n.parts) (hkind : k.isCall = false ∧ k.isBoundary = false)
    (htext : t.start < t.stop) {lo hi : Nat} (hlo : n.start ≤ lo ∧ lo ≤ t.start)
    (hhi : t.stop ≤ hi ∧ hi ≤ n.stop) : coveringCall? root lo hi = some n := by
  have hordered : InOrder n.tokens := ordered.sublist hn.tokens_sublist
  obtain ⟨outer, houter⟩ := Node.covering_of_holds hn ordered (by omega : lo < hi) hlo.1 hhi.2
  obtain ⟨inner, hinner, hsame⟩ := Node.covering_of_leaf hordered hleaf htext hlo.2 hhi.1
  rw [coveringCall?, houter, hinner]
  exact nearestCall?_append hcall outer fun x hx => hsame x hx ▸ hkind

end CallOrigins.Java
