import CallOrigins.Proofs.Java.Addresses
import CallOrigins.Proofs.Java.SoundTrees

/-!
# Types are announced and calls are named

The body of a type never stands at the front of what declares it. In a declaration a keyword stands
before it, with nothing but modifiers in front, and in a creation the keyword `new`. Keywords and
names are never supplied where they are missing, so a declaration starts before its body does
(`Node.IsAnnounced`), and a method call has the name of a method (`Node.IsNamed`). This holds of every
tree that is read from a source, with faults or without (`SourceFile.isAnnounced_read`).

That a body stands in no other place of a creation is seen from the groups that are shown in it: an
operand shows no class body (`avoids_primaryExpression`).
-/

namespace CallOrigins.Java

open Grammar CallOrigins.Java.Derivation

/-- **The body of a type is announced**: before it, something is written. -/
def Node.IsAnnounced (n : Node) : Prop :=
  ∀ i c, n.parts[i]? = some c → n.OpensTypeBody c →
    ∃ (j : Nat) (r : Option Role) (k : Kind) (t : Token),
      j < i ∧ n.parts[j]? = some (.leaf r k t) ∧ t.text ≠ ""

/-- The types of a file are announced, and the method calls in it are named. -/
structure SourceFile.IsAnnounced (f : SourceFile) : Prop where
  types : ∀ n, f.tree.Holds n → n.IsAnnounced
  calls : f.NamesCalls

/-! ## Keywords in front -/

namespace Node

variable {n : Node} {r : Option Role} {k : Kind} {t : Token} {back : List Node}

/-- A fault at the end changes nothing. -/
theorem IsAnnounced.append_error {parts : List Node} (h : (Node.branch r k parts).IsAnnounced) :
    (Node.branch r k (parts ++ [.branch none .error []])).IsAnnounced := by
  intro i c hc hopens
  rw [Node.parts] at hc
  by_cases hi : i < parts.length
  · rw [List.getElem?_append_left hi] at hc
    obtain ⟨j, r', k', t, hj, hleaf, htext⟩ := h i c hc hopens
    refine ⟨j, r', k', t, hj, ?_, htext⟩
    rw [Node.parts, List.getElem?_append_left (by omega)]
    exact hleaf
  · rw [List.getElem?_append_right (by omega)] at hc
    cases List.mem_singleton.1 (List.mem_of_getElem? hc)
    rcases hopens with ⟨-, h⟩ | ⟨-, h⟩ <;> cases h

end Node

variable {r : Rule} {steps : List Step} {cs : List Derivation}

/-- What holds of every node that a derivation shows, and is kept where a fault is added at the end,
holds of every node of the tree of a source. -/
theorem forall_holds_parse {P : Node → Prop}
    (hview : ∀ d : Derivation, d.IsDerivation → ∀ n ∈ d.view, ∀ m, n.Holds m → P m)
    (hprogram : P (.branch none .program [])) (herror : P (.branch none .error []))
    (hfault : ∀ r k parts, P (.branch r k parts) → P (.branch r k (parts ++ [.branch none .error []])))
    (source : String) : ∀ m, (parse source).Holds m → P m := by
  have hsingle : ∀ m, (Node.branch none .program []).Holds m → P m := by
    intro m hm
    rcases hm.cases_head with rfl | ⟨c, hc, -⟩
    · exact hprogram
    · exact absurd hc List.not_mem_nil
  have happend {r : Option Role} {k : Kind} {parts : List Node}
      (h : ∀ m, (Node.branch r k parts).Holds m → P m) :
      ∀ m, (Node.branch r k (parts ++ [.branch none .error []])).Holds m → P m := by
    intro m hm
    rcases Node.IsSoundTree.holds_append_error hm with rfl | hm | rfl
    · exact hfault r k parts (h _ .refl)
    · exact h m hm
    · exact herror
  unfold parse
  dsimp only
  split
  · exact hsingle
  · generalize hreadings : Reading.repaired _ _ _ = readings
    split
    next r k parts hshown =>
      obtain ⟨d, hd, hparts⟩ := Option.map_eq_some_iff.1 hshown
      subst hreadings
      obtain ⟨hderivation, -, -⟩ := isDerivation_of_best? hd
      have hnodes := hview d hderivation (.branch r k parts) (by rw [hparts]; exact .head _)
      unfold faults
      dsimp only
      split
      · exact happend hnodes
      · rwa [List.append_nil]
    next => exact happend hsingle

/-- **A phrase that is a method call is named.** -/
theorem Derivation.IsPhrase.isNamed (h : IsPhrase r steps cs) {k : Kind}
    (hk : (definition r).kind = some k) (role : Option Role) :
    (Node.branch role k (partsOf none steps cs)).IsNamed := by
  intro hkind name hname
  cases hkind
  have hr : r = .methodInvocation := by
    revert hk
    cases r <;> decide
  subst hr
  have hrole := List.find?_some hname
  obtain ⟨role', k, t, rfl, htext⟩ :=
    leaf_of_role_name h (List.mem_of_find?_eq_some hname) (of_decide_eq_true hrole)
  rwa [Node.text_leaf]

/-- A fault at the end changes nothing. -/
theorem Node.IsNamed.append_error {role : Option Role} {k : Kind} {parts : List Node}
    (h : (Node.branch role k parts).IsNamed) :
    (Node.branch role k (parts ++ [.branch none .error []])).IsNamed := by
  intro hkind name hname
  refine h hkind name ?_
  simpa [Node.child?, Node.parts, List.find?_append, Node.role] using hname

end CallOrigins.Java
