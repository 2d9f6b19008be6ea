import CallOrigins.Search.Codebase

/-!
# Codebases written out

A codebase given by finite tables. Where a table has several entries for one key the last of
them counts.
-/

namespace CallOrigins

/-- The tables of a codebase. -/
structure Tables where
  /-- The methods that exist. -/
  methods : List MethodId := []
  /-- The methods that are external. -/
  externals : List MethodId := []
  /-- Called methods with references to them. -/
  references : List (MethodId × Reference) := []
  /-- The enclosing methods of places in files. -/
  enclosing : List ((String × Nat) × MethodId) := []
  /-- Methods whose search fails. -/
  faults : List (MethodId × SearchFault) := []
  /-- Arguments by offset. -/
  arguments : List (Nat × Except ExtractionFailure (List String)) := []
  /-- Lines by offset. -/
  lines : List (Nat × Nat) := []

namespace Tables

/-- The value of the last entry for a key. -/
def last? {κ ν : Type} [DecidableEq κ] (entries : List (κ × ν)) (key : κ) : Option ν :=
  ((entries.filter (fun e => e.1 = key)).getLast?).map Prod.snd

theorem mem_of_last? {κ ν : Type} [DecidableEq κ] {entries : List (κ × ν)} {key : κ} {value : ν}
    (h : last? entries key = some value) : (key, value) ∈ entries := by
  obtain ⟨e, he, rfl⟩ := Option.map_eq_some_iff.1 h
  have hm := List.mem_filter.1 (List.mem_of_getLast? he)
  have hk : e.1 = key := by simpa using hm.2
  exact hk ▸ hm.1

/-- The references to a method, or the fault of their search. -/
def searchOf (t : Tables) (m : MethodId) : References :=
  match last? t.faults m with
  | some fault => .error fault
  | none => .ok ((t.references.filter (fun e => e.1 = m)).map Prod.snd)

/-- The method that encloses a reference: the one that it knows, or the one in the table. -/
def enclosingOf (t : Tables) (r : Reference) : Option MethodId :=
  match r.element with
  | some m => some m
  | none => last? t.enclosing (r.file, r.offset)

/-- All methods that enclose a reference. -/
def callers (t : Tables) : List MethodId :=
  t.references.filterMap (fun e => e.2.element) ++ t.enclosing.map Prod.snd

theorem enclosingOf_mem (t : Tables) (m : MethodId) (rs : List Reference)
    (h : t.searchOf m = .ok rs) (r : Reference) (hr : r ∈ rs) (c : MethodId)
    (hc : t.enclosingOf r = some c) : c ∈ t.callers := by
  unfold searchOf at h
  split at h
  · cases h
  · cases h
    obtain ⟨e, he, rfl⟩ := List.mem_map.1 hr
    unfold enclosingOf at hc
    split at hc
    · next m' hm =>
      cases hc
      exact List.mem_append_left _ (List.mem_filterMap.2 ⟨e, (List.mem_filter.1 he).1, hm⟩)
    · exact List.mem_append_right _ (List.mem_map.2 ⟨_, mem_of_last? hc, rfl⟩)

/-- **The codebase of tables.** A search for references that is interrupted answers as if it
were not. -/
def codebase (t : Tables) : Codebase where
  isPresent m := decide (m ∈ t.methods)
  isExternal m := decide (m ∈ t.externals)
  references := t.searchOf
  interrupted := t.searchOf
  enclosing := t.enclosingOf
  arguments _ _ offset _ := (last? t.arguments offset).getD (.ok [])
  line _ offset := last? t.lines offset
  callers := t.callers
  enclosing_mem := t.enclosingOf_mem

end Tables
end CallOrigins
