import CallOrigins.Java.Grammar

/-!
# Productions

A production is one way in which a phrase of a rule can be composed, with no choices left. The
content of a repetition becomes a rule of its own, numbered after the named rules: a repetition
is its content, or a shorter repetition followed by its content. No production is empty.
-/

namespace CallOrigins.Java

/-- A terminal or a rule, by its number. -/
inductive Symbol where
  | terminal (n : Nat)
  | rule (n : Nat)
  deriving DecidableEq, Repr

/-- A part of a production. -/
structure Step where
  symbol : Symbol
  /-- The role that the part plays. -/
  role : Option Role
  /-- The kind of its node, if it is not the symbol's own. -/
  kind : Option Kind
  /-- Terminals before which the part may end, whatever else follows it. -/
  before : TerminalSet
  deriving DecidableEq, Repr

/-- One way to compose a phrase of a rule. -/
structure Composition where
  steps : List Step
  level : Int
  bias : Bias
  weight : Nat
  deriving Repr

namespace Composition

/-- Is it all the same by which of two compositions `n` parts were read? It is if the parts had
the same roles and kinds and the rest is the same. -/
def agree (n : Nat) (c d : Composition) : Bool :=
  c.level == d.level && c.bias == d.bias && c.weight == d.weight &&
    c.steps.drop n == d.steps.drop n &&
    (c.steps.take n).map (fun s => (s.role, s.kind)) ==
      (d.steps.take n).map (fun s => (s.role, s.kind))

end Composition

/-- A composition of a rule. -/
structure Production extends Composition where
  /-- The number of the rule. -/
  rule : Nat
  /-- The kind of the rule's nodes. -/
  kind : Option Kind
  /-- For every number of parts, the first of the rule's compositions that agrees with this one
  when they were read. -/
  places : List Nat
  deriving Repr

namespace Grammar

/-- The named rules, in the order of their numbers. -/
def rules : List Rule :=
  (List.range Rule.count).map Rule.ofNat

/-- The contents of all repetitions. -/
def repetitions : List Form :=
  ((rules.flatMap fun r => (definition r).alternatives).flatMap fun a =>
    a.form.repetitions).eraseDups

/-- The number of rules, repetitions included. -/
def ruleCount : Nat :=
  Rule.count + repetitions.length

/-- All the ways to compose a form. -/
def sequences : Form → List (List Step)
  | .nothing => [[]]
  | .token t => [[⟨.terminal t.index, none, none, 0⟩]]
  | .rule r => [[⟨.rule r.index, none, none, 0⟩]]
  | .seq f g => (sequences f).flatMap fun front => (sequences g).map fun back => front ++ back
  | .alt f g => sequences f ++ sequences g
  | .repeated f => [[⟨.rule (Rule.count + repetitions.idxOf f), none, none, 0⟩]]
  | .as r f =>
    (sequences f).map fun steps => steps.map fun s => { s with role := s.role.or (some r) }
  | .shown k f =>
    (sequences f).map fun steps => steps.map fun s => { s with kind := s.kind.or (some k) }
  | .before t f =>
    (sequences f).map fun steps =>
      steps.map fun s => { s with before := s.before.join (.single t.index) }

/-- The productions of a rule, given its compositions. -/
def productionsFor (rule : Nat) (kind : Option Kind) (cs : List Composition) :
    List Production :=
  let cs := cs.filter fun c => !c.steps.isEmpty
  cs.map fun c =>
    let places := (List.range (c.steps.length + 1)).map fun n => cs.findIdx (c.agree n)
    { c with rule, kind, places }

/-- The productions of a named rule. -/
def namedProductions (r : Rule) : List Production :=
  let d := definition r
  productionsFor r.index d.kind
    (d.alternatives.flatMap fun a =>
      (sequences a.form).eraseDups.map fun steps => ⟨steps, a.level, a.bias, a.weight⟩)

/-- The productions of a repetition. -/
def repeatedProductions (f : Form) (n : Nat) : List Production :=
  let number := Rule.count + n
  let once := (sequences f).eraseDups
  productionsFor number none
    ((once ++ once.map fun steps => ⟨.rule number, none, none, 0⟩ :: steps).map fun steps =>
      ⟨steps, 0, .neither, 0⟩)

/-- **All productions**, by the number of the rule. -/
def productions : Array (List Production) :=
  (rules.map namedProductions ++
    repetitions.zipIdx.map fun (f, n) => repeatedProductions f n).toArray

/-- The productions of a rule. -/
def productionsOf (rule : Nat) : List Production :=
  productions.getD rule []

end Grammar
end CallOrigins.Java
