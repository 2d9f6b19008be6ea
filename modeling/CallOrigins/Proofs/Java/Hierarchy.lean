import CallOrigins.Proofs.BreadthFirst
import CallOrigins.Proofs.Java.Assembly

/-!
# The nearest declaration

A call on some types means the methods of the nearest type that declares any, where types are as far
away as there are steps to a supertype between. The types that extend each other may form a cycle,
or be reached on several ways.

**The law** (`inheritedMethods_nearest`): the search among the supertypes ends, it finds methods
exactly where there are some, and what it finds are all the methods that one of the nearest types
declares.
-/

namespace CallOrigins.Java.Index

variable {ix : Index} {starts : List Nat} {name : String} {arity : Option Nat}

/-- The method with a number is declared by a type, has a name and accepts a number of arguments, or
any number where none is given. -/
def IsDeclared (ix : Index) (type : Nat) (name : String) (arity : Option Nat) (method : Nat) :
    Prop :=
  ∃ d, ix.methods[method]? = some d ∧ d.decl.type = type ∧ d.decl.id.name = name ∧
    ∀ n, arity = some n → d.decl.id.acceptsArity n = true

theorem mem_declaredMethods_iff {type i : Nat} :
    i ∈ ix.declaredMethods type name arity ↔ ix.IsDeclared type name arity i := by
  have hall : ∀ m : MethodId, arity.all m.acceptsArity = true ↔
      ∀ n, arity = some n → m.acceptsArity n = true := by
    intro m
    cases arity with
    | none => simp
    | some n => simp
  simp only [mem_declaredMethods, IsDeclared, hall]

theorem declaredMethods_isEmpty_eq_false {type : Nat} :
    (ix.declaredMethods type name arity).isEmpty = false ↔
      ∃ i, ix.IsDeclared type name arity i := by
  rw [List.isEmpty_eq_false_iff_exists_mem]
  exact exists_congr fun i => mem_declaredMethods_iff

theorem pairwise_declaredMethods (ix : Index) (type : Nat) (name : String) (arity : Option Nat) :
    (ix.declaredMethods type name arity).Pairwise (· < ·) :=
  (pairwise_members ix type name).filter _

/-- Only the types of the index have supertypes. -/
theorem supersOf_of_size_le {type : Nat} (h : ix.types.size ≤ type) : ix.supersOf type = [] := by
  rw [supersOf, Array.getElem?_eq_none h]

/-- The methods of the first type of a hierarchy that declares any. -/
theorem inheritedMethods_eq (ix : Index) (starts : List Nat) (name : String) (arity : Option Nat) :
    ix.inheritedMethods starts name arity =
      match (ix.hierarchy starts).find? fun t => !(ix.declaredMethods t name arity).isEmpty with
      | some t => ix.declaredMethods t name arity
      | none => [] := by
  rw [inheritedMethods, List.find?_map, Function.comp_def]
  cases (ix.hierarchy starts).find? fun t => !(ix.declaredMethods t name arity).isEmpty with
  | none => rfl
  | some t => rfl

/-- **The nearest declaration is found**, in every index and from every list of types. The search
among the supertypes ends: from some number of rounds on, no round adds a type. Methods are found
exactly where a type that some number of steps to supertypes lead to declares one that fits. And
then there is such a type, as near as any, whose fitting methods are those that are found, each of
them once and in their order. -/
theorem inheritedMethods_nearest (ix : Index) (starts : List Nat) (name : String)
    (arity : Option Nat) :
    (∃ bound, ∀ rounds, bound ≤ rounds →
      breadthFirstFrom ix.supersOf rounds [] starts = ix.hierarchy starts) ∧
    (ix.inheritedMethods starts name arity ≠ [] ↔
      ∃ n type i, StepsFrom ix.supersOf starts n type ∧ ix.IsDeclared type name arity i) ∧
    (ix.inheritedMethods starts name arity ≠ [] →
      ∃ n type, StepsFrom ix.supersOf starts n type ∧
        (∃ i, ix.IsDeclared type name arity i) ∧
        (∀ k other i, StepsFrom ix.supersOf starts k other → ix.IsDeclared other name arity i →
          n ≤ k) ∧
        (ix.inheritedMethods starts name arity).Pairwise (· < ·) ∧
        ∀ i, i ∈ ix.inheritedMethods starts name arity ↔ ix.IsDeclared type name arity i) := by
  have hsize : ∀ type, ix.types.size ≤ type → ix.supersOf type = [] := fun _ => supersOf_of_size_le
  have declares : ∀ type, (!(ix.declaredMethods type name arity).isEmpty) = true ↔
      ∃ i, ix.IsDeclared type name arity i := by
    intro type
    rw [Bool.not_eq_true', declaredMethods_isEmpty_eq_false]
  have ends : ∀ rounds, starts.length + (successors ix.types.size ix.supersOf).length ≤ rounds →
      breadthFirstFrom ix.supersOf rounds [] starts = ix.hierarchy starts := by
    intro rounds hrounds
    rw [hierarchy, breadthFirst_eq_levelsFrom hsize]
    exact breadthFirstFrom_eq_levelsFrom hsize hrounds
  refine ⟨⟨_, ends⟩, ?_⟩
  rw [inheritedMethods_eq]
  cases hfound : (ix.hierarchy starts).find? fun t =>
      !(ix.declaredMethods t name arity).isEmpty with
  | none =>
    refine ⟨⟨fun h => absurd rfl h, ?_⟩, fun h => absurd rfl h⟩
    rintro ⟨n, type, i, hsteps, hi⟩
    have hmem : type ∈ ix.hierarchy starts := (mem_breadthFirst_iff hsize).2 ⟨n, hsteps⟩
    exact absurd ((declares type).2 ⟨i, hi⟩) (List.find?_eq_none.1 hfound type hmem)
  | some type =>
    obtain ⟨n, hsteps, hleast⟩ := steps_of_find?_breadthFirst hsize hfound
    have hdeclares := List.find?_some hfound
    obtain ⟨i, hi⟩ := (declares type).1 hdeclares
    have hne : ix.declaredMethods type name arity ≠ [] :=
      List.ne_nil_of_mem (mem_declaredMethods_iff.2 hi)
    refine ⟨iff_of_true hne ⟨n, type, i, hsteps, hi⟩, fun _ => ?_⟩
    refine ⟨n, type, hsteps, ⟨i, hi⟩, fun k other j hother hj => ?_, ?_, fun j => ?_⟩
    · exact hleast k other hother ((declares other).2 ⟨j, hj⟩)
    · exact pairwise_declaredMethods ix type name arity
    · exact mem_declaredMethods_iff

end CallOrigins.Java.Index
