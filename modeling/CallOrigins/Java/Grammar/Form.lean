import CallOrigins.Java.Grammar.Rule
import CallOrigins.Java.Terminal

/-!
# Forms

A form says what the phrases of a rule look like: terminals and other rules, one after the other,
in alternatives or repeated. In a form, a part may be given the role that it plays in the whole,
or another kind than its own.

A definition gives a rule its form, the kind of its nodes, and what decides where a text can be
read in two ways:
* the *level* of an alternative says how tightly it binds, and its *bias* whether it rather ends
  or goes on where another alternative of the same level competes;
* where a text was read in two ways up to the end, the one with the greater *weight* counts.
-/

namespace CallOrigins.Java

/-- What phrases look like. -/
inductive Form where
  | nothing
  | token (t : Terminal)
  | rule (r : Rule)
  | seq (first second : Form)
  | alt (first second : Form)
  /-- A form once or more often. -/
  | repeated (f : Form)
  /-- A form whose nodes play a role. -/
  | as (role : Role) (f : Form)
  /-- A form whose node is of another kind than its own. -/
  | shown (kind : Kind) (f : Form)
  /-- A form that may end before a terminal, whatever else follows it. -/
  | before (t : Terminal) (f : Form)
  deriving DecidableEq, Repr

namespace Form

/-- Forms one after the other. -/
def all : List Form → Form
  | [] => nothing
  | [f] => f
  | f :: fs => seq f (all fs)

/-- One of several forms. -/
def oneOf : List Form → Form
  | [] => nothing
  | [f] => f
  | f :: fs => alt f (oneOf fs)

/-- A form or nothing. -/
def opt (f : Form) : Form := alt f nothing

/-- A form any number of times. -/
def many (f : Form) : Form := opt (repeated f)

/-- An operator, a bracket or a separator. -/
def mark (text : String) : Form := token (.mark text)

/-- A keyword. -/
def word (text : String) : Form := token (.word text)

/-- One of several keywords. -/
def wordOf (texts : List String) : Form := oneOf (texts.map word)

/-- A form once or more often, with a mark between. -/
def sepBy1 (f : Form) (separator : String) : Form := seq f (many (seq (mark separator) f))

/-- A form once or more often, with commas between. -/
def commas1 (f : Form) : Form := sepBy1 f ","

/-- A form any number of times, with commas between. -/
def commas (f : Form) : Form := opt (commas1 f)

/-- A form in round brackets. -/
def inParens (f : Form) : Form := all [mark "(", f, mark ")"]

/-- A form in braces. -/
def inBraces (f : Form) : Form := all [mark "\x7b", f, mark "\x7d"]

/-- A word that is no keyword where it stands. -/
def plainName : Form := token .name

/-- A name; some of the keywords count as names too. -/
def name : Form := alt plainName (rule .reservedIdentifier)

/-- A name that stands for a type. -/
def typeName : Form := shown .typeIdentifier plainName

/-- The contents of the repetitions in a form, inner ones before outer ones. -/
def repetitions : Form → List Form
  | nothing | token _ | rule _ => []
  | seq f g | alt f g => f.repetitions ++ g.repetitions
  | repeated f => f.repetitions ++ [f]
  | as _ f | shown _ f | before _ f => f.repetitions

end Form

/-- Whether an alternative rather ends or goes on. -/
inductive Bias where
  | neither
  /-- Ends, so that chains associate to the left. -/
  | left
  /-- Goes on, so that chains associate to the right. -/
  | right
  deriving DecidableEq, Repr

/-- An alternative of a rule. -/
structure Alternative where
  form : Form
  level : Int
  bias : Bias
  weight : Nat
  deriving Repr

/-- **What defines a rule.** -/
structure Definition where
  /-- The kind of the rule's nodes; `none` where it has none of its own. -/
  kind : Option Kind
  alternatives : List Alternative

namespace Definition

/-- Nodes of a kind. -/
def node (kind : Kind) (f : Form) : Definition := ⟨some kind, [⟨f, 0, .neither, 0⟩]⟩

/-- A group without a node of its own. -/
def group (f : Form) : Definition := ⟨none, [⟨f, 0, .neither, 0⟩]⟩

/-- All alternatives on a level. -/
def onLevel (level : Int) (bias : Bias) (d : Definition) : Definition :=
  { d with alternatives := d.alternatives.map (fun a => { a with level := level, bias := bias }) }

/-- All alternatives of a weight. -/
def weighing (weight : Nat) (d : Definition) : Definition :=
  { d with alternatives := d.alternatives.map (fun a => { a with weight := weight }) }

end Definition
end CallOrigins.Java
