import CallOrigins.Java.Reading.Round

/-!
# Sources with faults

A source that does not follow the grammar is read all the same. Where no reading can go on, a
semicolon or a closing bracket is supplied if the next token then fits; otherwise the next piece of
the source is passed over. At the end of the source, what was begun is completed with tokens that are
missing.
-/

namespace CallOrigins.Java.Reading

/-- The reading after a token that is missing in the source, if it fits. -/
def supply? (fuel : Nat) (t : Terminal) (r : Reading) : Option Reading :=
  match r.meet fuel ⟨t.index, .missing r.offset, r.rest⟩ ⟨0, []⟩ with
  | (.moved r, _) => some r
  | _ => none

/-- Is there a next token that fits? -/
def canGoOn (fuel : Nat) (r : Reading) : Bool :=
  match Scanner.next? fuel r.state.expected r.offset r.rest with
  | none => false
  | some t => !(r.state.moves t.terminal).isEmpty

/-- The tokens that are supplied within a source, in the order in which they are tried. -/
def supplied : List Terminal :=
  [.mark ";", .mark ")", .mark "]"]

/-- The first of some readings that can go on after a token that is missing. -/
def withToken? (fuel : Nat) (rs : List Reading) : Option Reading :=
  supplied.findSome? fun t => rs.findSome? fun r => (r.supply? fuel t).filter (canGoOn fuel)

/-- All terminals. -/
def anything : TerminalSet :=
  1 <<< Terminal.all.length - 1

/-- The reading after the next piece of the source was passed over: a token of any kind, or a
single character. -/
def skip (fuel : Nat) (r : Reading) : Reading :=
  let gap := Scanner.gapLength fuel r.rest
  let front := r.rest.drop gap
  let length := ((Scanner.match? fuel anything front).map Scanner.Match.length).getD 1
  let passed := String.ofList (r.rest.take (gap + max 1 length))
  { r with
    offset := r.offset + passed.utf8ByteSize
    rest := r.rest.drop (gap + max 1 length)
    skipped := r.skipped ++ passed }

/-- Are only blanks and comments left? -/
def atEnd (fuel : Nat) (r : Reading) : Bool :=
  (r.rest.drop (Scanner.gapLength fuel r.rest)).isEmpty

/-- The tokens with which phrases are completed, those first that end one. -/
def closing : List Terminal :=
  [.mark "\x7d", .mark ")", .mark "]", .mark ";", .mark "(", .mark "\x7b"]

/-- The reading with what was begun completed. -/
def complete? (fuel : Nat) : Nat → Reading → Option Reading
  | 0, _ => none
  | turns + 1, r =>
    match r.meet fuel ⟨Terminal.finish.index, .missing r.offset, r.rest⟩ ⟨0, []⟩ with
    | (.finished done, _) => some done
    | _ => (closing.findSome? fun t => r.supply? fuel t).bind (complete? fuel turns)

/-- **Reading with repairs.** -/
def repaired (fuel : Nat) : Nat → List Reading → List Reading
  | 0, _ => []
  | turns + 1, rs =>
    match rounds fuel fuel 0 rs with
    | .ok finished => finished
    | .error stuck =>
      if stuck.any (atEnd fuel) then (stuck.findSome? (complete? fuel fuel)).toList
      else
        match withToken? fuel stuck with
        | some r => repaired fuel turns [r]
        | none => repaired fuel turns (stuck.map (skip fuel))

end CallOrigins.Java.Reading
