import CallOrigins.Java.Tree

/-!
# Terminals

The terminals of the grammar are the classes into which it sorts tokens. They are numbered by
their place in `Terminal.all`, and a set of terminals is a number whose bits say which of them
belong to it.

A keyword is a terminal only as a text: whether a word is a keyword or a name depends on what
may follow where it stands.
-/

namespace CallOrigins.Java

/-- What a token is to the grammar. -/
inductive Terminal where
  | name | number | character
  /-- A string without embedded expressions. -/
  | string
  /-- A string up to its first embedded expression. -/
  | stringHead
  /-- A string between two embedded expressions. -/
  | stringPart
  /-- A string after its last embedded expression. -/
  | stringTail
  /-- A text block, which is cut like a string. -/
  | textBlock | blockHead | blockPart | blockTail
  /-- A keyword. -/
  | word (text : String)
  /-- An operator, a bracket or a separator. -/
  | mark (text : String)
  /-- The end of the source. -/
  | finish
  deriving DecidableEq, Repr

namespace Terminal

/-- The words that are keywords somewhere. -/
def words : List String :=
  ["true", "false", "null", "instanceof", "final", "new", "class", "extends", "switch", "case",
    "default", "_", "when", "assert", "do", "while", "break", "continue", "return", "yield",
    "synchronized", "throw", "try", "catch", "finally", "if", "else", "for", "open", "module",
    "requires", "transitive", "static", "exports", "to", "opens", "uses", "provides", "with",
    "package", "import", "enum", "public", "protected", "private", "abstract", "strictfp",
    "native", "transient", "volatile", "sealed", "implements", "permits", "record", "interface",
    "byte", "short", "int", "long", "char", "float", "double", "boolean", "void", "throws",
    "this", "super"]

/-- The marks, a longer one before those that it starts with. -/
def marks : List String :=
  ["non-sealed", "@interface", ">>>=", "<<=", ">>=", ">>>", "...", "+=", "-=", "*=", "/=", "&=",
    "|=", "^=", "%=", ">=", "<=", "==", "!=", "&&", "||", "<<", ">>", "->", "++", "--", "::",
    "(", ")", "\x7b", "\x7d", "[", "]", "&", "=", ">", "<", "+", "-", "*", "/", "|", "^", "%",
    ",", "?", ":", "!", "~", ".", ";", "@"]

/-- **All the terminals**, in the order of their numbers. -/
def all : List Terminal :=
  [name, number, character, string, stringHead, stringPart, stringTail, textBlock, blockHead,
    blockPart, blockTail, finish] ++ words.map word ++ marks.map mark

/-- The number of a terminal. -/
def index (t : Terminal) : Nat :=
  all.idxOf t

/-- What a token of the terminal is in a tree. -/
def kind : Terminal → Kind
  | name => .identifier
  | number | character => .literal
  | word text =>
    match text with
    | "true" | "false" | "null" => .literal
    | "this" => .thisWord
    | "super" => .superWord
    | "boolean" => .booleanType
    | "void" => .voidType
    | "_" => .underscorePattern
    | _ => .symbol
  | _ => .symbol

end Terminal

/-- A set of terminals. -/
abbrev TerminalSet := Nat

namespace TerminalSet

/-- The set of one terminal. -/
def single (n : Nat) : TerminalSet :=
  1 <<< n

/-- Does a terminal belong to the set? -/
def has (s : TerminalSet) (n : Nat) : Bool :=
  s.testBit n

/-- The terminals of either set. -/
def join (s t : TerminalSet) : TerminalSet :=
  s ||| t

end TerminalSet
end CallOrigins.Java
