import CallOrigins.Java.Grammar.State

/-!
# Derivations

A derivation says by which productions a text was read. Of two derivations of the same text
the one counts that comes first: derivations are compared symbol by symbol, from the top and from
the left. Its *view* is the syntax tree: the nodes of the rules that have nodes of their own.
-/

namespace CallOrigins.Java

/-- How a text was read. -/
inductive Derivation where
  | leaf (terminal : Nat) (token : Token)
  | branch (production : Production) (children : List Derivation)
  deriving Repr

namespace Derivation

mutual
/-- **The order of derivations.** -/
def compare : Derivation → Derivation → Ordering
  | leaf m _, leaf n _ => Ord.compare m n
  | leaf _ _, branch _ _ => .lt
  | branch _ _, leaf _ _ => .gt
  | branch p cs, branch q ds =>
    match Ord.compare p.rule q.rule with
    | .eq =>
      match Ord.compare cs.length ds.length with
      | .eq => compareAll cs ds
      | o => o
    | o => o
/-- The order of derivations that stand side by side, the first difference decides. -/
def compareAll : List Derivation → List Derivation → Ordering
  | [], [] => .eq
  | [], _ :: _ => .lt
  | _ :: _, [] => .gt
  | c :: cs, d :: ds =>
    match compare c d with
    | .eq => compareAll cs ds
    | o => o
end

/-! ## The view -/

/-- What the terminals are in a tree. -/
def terminalKinds : Array Kind :=
  (Terminal.all.map Terminal.kind).toArray

/-- What a token is in a tree, where it may be given another kind than its terminal's. -/
def leafKind (kind : Option Kind) (terminal : Nat) (t : Token) : Kind :=
  if t.text.isEmpty then .missing else kind.getD (terminalKinds.getD terminal .symbol)

mutual
/-- The nodes of a derivation that plays a role and has a kind, before those that follow. -/
def viewOnto (role : Option Role) (kind : Option Kind) : Derivation → List Node → List Node
  | leaf n t, after => .leaf role (leafKind kind n t) t :: after
  | branch p cs, after =>
    match kind.or p.kind with
    | some k => .branch role k (viewAllOnto none p.steps cs []) :: after
    | none => viewAllOnto role p.steps cs after
/-- The nodes of the parts of a production, before those that follow. A role that was given to
the whole is the role of every part. -/
def viewAllOnto (whole : Option Role) : List Step → List Derivation → List Node → List Node
  | s :: ss, d :: ds, after =>
    viewOnto (whole.or s.role) s.kind d (viewAllOnto whole ss ds after)
  | _, _, after => after
end

/-- **The syntax tree of a derivation.** -/
def view (d : Derivation) : List Node :=
  d.viewOnto none none []

end Derivation
end CallOrigins.Java
