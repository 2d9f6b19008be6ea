import CallOrigins.Proofs.Java.Located
import Mathlib.Data.List.Pairwise

/-!
# The order of calls

A walk through a body meets the nodes of a tree in pre-order: each node before its parts, and the
parts of a node one after the other. So of two nodes that it meets, the first one surrounds the
second, or all its tokens stand before those of the second (`Node.pairwise_met`). The calls of a
method are recorded in this order.

**The law** (`SourceFile.IsSound.startsWith`): two calls of one method have different offsets,
unless the first of them starts with the second. The place of a call of a method starts at the name,
which no other call takes in; but the place of any other call starts where its node does, and there
may be a call already: the object of a reference `f()::f`, or the outer instance of a constructor.
-/

namespace CallOrigins.Java

/-! ## Pre-order -/

namespace Node

/-- All the tokens of a node stand before those of another one. -/
def Precedes (a b : Node) : Prop :=
  ∀ t ∈ a.tokens, ∀ u ∈ b.tokens, t.stop ≤ u.start

/-- The second node stands inside of a part of the first one. -/
def Surrounds (a b : Node) : Prop :=
  ∃ c ∈ a.parts, c.Holds b

variable {a b x y : Node}

theorem Precedes.of_holds (h : a.Precedes b) (ha : a.Holds x) (hb : b.Holds y) : x.Precedes y := by
  intro t ht u hu
  exact h t (ha.tokens_sublist.subset ht) u (hb.tokens_sublist.subset hu)

theorem pairwise_precedes {ns : List Node} (ordered : InOrder (ns.flatMap tokens)) :
    ns.Pairwise Precedes :=
  (List.pairwise_flatMap.1 ordered).2

/-- Of two different parts of a node, one precedes the other. -/
theorem precedes_or_precedes {n : Node} (ordered : InOrder n.tokens) (ha : a ∈ n.parts)
    (hb : b ∈ n.parts) (hne : a ≠ b) : a.Precedes b ∨ b.Precedes a := by
  cases n with
  | leaf => exact absurd ha List.not_mem_nil
  | branch r k cs =>
    rw [tokens_branch] at ordered
    have hpairs : cs.Pairwise (fun a b => a.Precedes b ∨ b.Precedes a) :=
      (pairwise_precedes ordered).imp .inl
    have hsymm : Std.Symm (fun a b : Node => a.Precedes b ∨ b.Precedes a) := ⟨fun _ _ => Or.symm⟩
    exact hpairs.forall ha hb hne

-- The induction is on the tree, as the nodes that are met are listed.
mutual
/-- **Of two nodes that are met, the first one surrounds or precedes the second.** -/
theorem pairwise_met (n : Node) (ordered : InOrder n.tokens) :
    n.met.Pairwise (fun a b => a.Surrounds b ∨ a.Precedes b) := by
  match n with
  | .leaf _ _ _ => exact .nil
  | .branch r k parts =>
    rw [tokens_branch] at ordered
    rw [met]
    refine List.pairwise_cons.2 ⟨?_, ?_⟩
    · intro b hb
      split at hb
      · exact absurd hb List.not_mem_nil
      · exact .inl (exists_holds_of_mem_metAmong hb)
    · split
      · exact .nil
      · exact pairwise_metAmong _ parts ordered
theorem pairwise_metAmong (creation : Bool) (ns : List Node)
    (ordered : InOrder (ns.flatMap tokens)) :
    (metAmong creation ns).Pairwise (fun a b => a.Surrounds b ∨ a.Precedes b) := by
  match ns with
  | [] => exact .nil
  | c :: cs =>
    have hprecedes := List.pairwise_cons.1 (pairwise_precedes ordered)
    rw [InOrder, List.flatMap_cons, List.pairwise_append] at ordered
    rw [metAmong]
    refine List.pairwise_append.2 ⟨?_, pairwise_metAmong creation cs ordered.2.1, ?_⟩
    · split
      · exact .nil
      · exact pairwise_met c ordered.1
    · intro a ha b hb
      obtain ⟨c', hc', hb⟩ := exists_holds_of_mem_metAmong hb
      split at ha
      · exact absurd ha List.not_mem_nil
      · exact .inr ((hprecedes.1 c' hc').of_holds (holds_of_mem_met ha) hb)
end

end Node

/-- What holds of nodes in their order holds of the calls that they make. -/
theorem Recorded.pairwise {line : Nat → Nat} {scopes : List TypeScope} {ns : List Node}
    {cs : List Call} {R : Node → Node → Prop} (h : Recorded line scopes ns cs)
    (hns : ns.Pairwise R) :
    cs.Pairwise (fun c c' => ∃ n n', R n n' ∧ n.Makes c ∧ n'.Makes c') := by
  induction h with
  | nil => exact .nil
  | @cons n ns cs b rest ih =>
    obtain ⟨hfirst, hrest⟩ := List.pairwise_cons.1 hns
    refine List.pairwise_append.2 ⟨?_, ih hrest, ?_⟩
    · cases call? line scopes b n <;> simp
    · intro c hc c' hc'
      obtain ⟨n', hn', b', hcall'⟩ := rest.exists_of_mem hc'
      exact ⟨n, n', hfirst n' hn', Node.makes_of_call? (Option.mem_toList.1 hc),
        Node.makes_of_call? hcall'⟩

/-- **Of two calls of a body, the node of the first one surrounds or precedes that of the
second.** -/
theorem RecordedIn.pairwise {root : Node} {calls : List Call} (h : RecordedIn root calls)
    (ordered : InOrder root.tokens) :
    calls.Pairwise (fun c c' => ∃ n n', (root.Holds n ∧ root.Holds n' ∧
      (n.Surrounds n' ∨ n.Precedes n')) ∧ n.Makes c ∧ n'.Makes c') := by
  obtain ⟨line, scopes, body, held, recorded⟩ := h
  refine recorded.pairwise ?_
  cases body with
  | none => exact .nil
  | some top =>
    have htop := held top rfl
    refine (Node.pairwise_met top (ordered.sublist htop.tokens_sublist)).imp_of_mem ?_
    intro n n' hn hn' hrel
    exact ⟨htop.trans (Node.holds_of_mem_met hn), htop.trans (Node.holds_of_mem_met hn'), hrel⟩

/-! ## Offsets -/

/-- **The first call starts with the second**: both have one offset, and the first one goes further.
It is no call of a method: those start at the name. -/
structure Call.StartsWith (c c' : Call) : Prop where
  offset : c.offset = c'.offset
  length : c'.length < c.length
  kind : c.kind ≠ .method

namespace SourceFile.IsSound

variable {f : SourceFile} {n n' : Node} {c c' : Call}

/-- A token of a call starts where the place of the call does. -/
theorem exists_start (sound : f.IsSound) (hn : f.tree.Holds n) (makes : n.Makes c)
    (named : c.kind = .method → c.name ≠ "") : ∃ t ∈ n.tokens, t.start = c.offset := by
  obtain ⟨r, k, t, hleaf, htext, -, hoffset, -⟩ := sound.exists_token hn makes named
  have ht : t ∈ n.tokens := (Node.tokens_sublist_of_mem hleaf).subset (List.mem_singleton.2 rfl)
  rw [hoffset]
  split
  · exact ⟨t, ht, rfl⟩
  · have hstop := Node.le_stop_of_mem (sound.ordered.sublist hn.tokens_sublist) ht
    rcases n.start_cases with hzero | ⟨u, hu, hstart⟩
    · omega
    · exact ⟨u, hu, hstart.symm⟩

/-- **Two calls with one offset**: where the node of the first one surrounds or precedes that of the
second, the first one starts with the second. -/
theorem startsWith (sound : f.IsSound) (hn : f.tree.Holds n) (hn' : f.tree.Holds n')
    (makes : n.Makes c) (makes' : n'.Makes c') (named : c.kind = .method → c.name ≠ "")
    (named' : c'.kind = .method → c'.name ≠ "") (h : n.Surrounds n' ∨ n.Precedes n')
    (hoffset : c.offset = c'.offset) : c.StartsWith c' := by
  obtain ⟨r, k, t, hleaf, htext, hstart, hplace, hstop⟩ := sound.exists_token hn makes named
  obtain ⟨u, hu, hustart⟩ := sound.exists_start hn' makes' named'
  have hordered : InOrder n.tokens := sound.ordered.sublist hn.tokens_sublist
  have ht : t ∈ (Node.leaf r k t).tokens := List.mem_singleton.2 rfl
  have htn : t ∈ n.tokens := (Node.tokens_sublist_of_mem hleaf).subset ht
  have hle : c.offset ≤ t.start := by
    rw [hplace]
    split <;> omega
  rcases h with ⟨p, hp, hheld⟩ | h
  · -- a token is no call, so the part that holds the second call is not the token of the first
    have hne : p ≠ Node.leaf r k t := by
      rintro rfl
      rcases Relation.ReflTransGen.cases_head hheld with rfl | ⟨x, hx, -⟩
      · have hcall := makes'.isCall
        rw [Node.kind, (sound.leaves r k t hn').1] at hcall
        cases hcall
      · exact absurd hx List.not_mem_nil
    rcases Node.precedes_or_precedes hordered hp hleaf hne with hbefore | hafter
    · obtain ⟨r', k', t', hleaf', htext', hstart', hplace', hstop'⟩ :=
        sound.exists_token hn' makes' named'
      have ht' : t' ∈ n'.tokens :=
        (Node.tokens_sublist_of_mem hleaf').subset (List.mem_singleton.2 rfl)
      have hlt : t'.stop ≤ t.start := hbefore t' (hheld.tokens_sublist.subset ht') t ht
      have hle' : c'.offset ≤ t'.start := by
        rw [hplace']
        split <;> omega
      have hends : n'.stop ≤ t.start := by
        rcases n'.stop_cases with hzero | ⟨v, hv, hvstop⟩
        · omega
        · rw [hvstop]
          exact hbefore v (hheld.tokens_sublist.subset hv) t ht
      have hends' := Node.le_stop_of_mem hordered htn
      refine ⟨hoffset, by omega, fun hkind => ?_⟩
      rw [if_pos hkind] at hplace
      omega
    · have := hafter t ht u (hheld.tokens_sublist.subset hu)
      omega
  · have := h t htn u hu
    omega

end SourceFile.IsSound

namespace Index

/-- **Two calls of one method have different offsets**, unless the first starts with the second. -/
theorem startsWith_of_calls {files : List SourceFile} (read : ∀ f ∈ files, f.IsRead)
    (sound : ∀ f ∈ files, f.IsSound) {d : IndexedMethod} (hd : d ∈ (ofFiles files).methods)
    {i j : Nat} {c c' : Call} (hc : d.decl.calls[i]? = some c) (hc' : d.decl.calls[j]? = some c')
    (hij : i < j) (named : c.kind = .method → c.name ≠ "")
    (named' : c'.kind = .method → c'.name ≠ "") (hoffset : c.offset = c'.offset) :
    c.StartsWith c' := by
  obtain ⟨f, hf, -, hrecorded⟩ := recordedIn_of_mem_methods read hd
  have hpairs := hrecorded.pairwise (sound f hf).ordered
  obtain ⟨hi, rfl⟩ := List.getElem?_eq_some_iff.1 hc
  obtain ⟨hj, rfl⟩ := List.getElem?_eq_some_iff.1 hc'
  obtain ⟨n, n', ⟨hn, hn', hrel⟩, makes, makes'⟩ := List.pairwise_iff_getElem.1 hpairs i j hi hj hij
  exact (sound f hf).startsWith hn hn' makes makes' named named' hrel hoffset

end Index
end CallOrigins.Java
