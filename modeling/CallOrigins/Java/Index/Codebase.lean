import CallOrigins.Java.Index.Arguments
import CallOrigins.Java.Index.References
import CallOrigins.Search

/-!
# An index as a codebase

The answers of an index to the questions of a search. The method that encloses a reference is
the one that the reference names, or else the smallest method around its offset.
-/

namespace CallOrigins.Java.Index

/-- Of two methods the smaller one, the first where they are of one size. -/
def smaller (best : Option IndexedMethod) (d : IndexedMethod) : Option IndexedMethod :=
  match best with
  | none => some d
  | some b => if d.decl.span < b.decl.span then some d else some b

/-- The smallest method of a file around an offset. -/
def innermost? (ix : Index) (file offset : Nat) : Option IndexedMethod :=
  ((ix.methodsIn file).filter (fun d => d.decl.contains offset)).foldl smaller none

/-- The method that encloses a reference. -/
def enclosing (ix : Index) (r : Reference) : Option MethodId :=
  match r.element with
  | some m => some m
  | none =>
    ((ix.fileNumber? r.file).bind (fun f => ix.innermost? f r.offset)).map (fun d => d.decl.id)

/-- Is there a method with this identifier? -/
def isPresent (ix : Index) (m : MethodId) : Bool :=
  (ix.method? m).isSome

/-- Is the method declared in an external file? -/
def isExternal (ix : Index) (m : MethodId) : Bool :=
  ((ix.method? m).bind ix.fileOf?).any (fun f => f.source.external)

/-- The number of the line of an offset in the file of a method. -/
def line (ix : Index) (m : MethodId) (offset : Nat) : Option Nat :=
  ((ix.method? m).bind ix.fileOf?).bind (fun f => f.lineOf offset)

/-- The identifiers of all methods. -/
def identifiers (ix : Index) : List MethodId :=
  ix.methods.toList.map (fun d => d.decl.id)

/-! ## References name methods of the index -/

theorem mem_identifiers_of_callAt? {ix : Index} {s : Site} {d : IndexedMethod} {c : Call}
    (h : ix.callAt? s = some (d, c)) : d.decl.id ∈ ix.identifiers := by
  unfold callAt? at h
  split at h
  · cases h
  · next e he =>
    obtain ⟨_, _, hpair⟩ := Option.map_eq_some_iff.1 h
    have hd : e = d := congrArg Prod.fst hpair
    exact List.mem_map.2 ⟨d, Array.mem_toList_iff.2 (Array.mem_of_getElem? (hd ▸ he)), rfl⟩

theorem element_of_referenceAt? {ix : Index} {target : Nat} {method caller : IndexedMethod}
    {call : Call} {r : Reference} (h : ix.referenceAt? target method caller call = some r) :
    r.element = some caller.decl.id := by
  unfold referenceAt? at h
  split at h
  · obtain ⟨a, _, rfl⟩ := Option.map_eq_some_iff.1 h
    rfl
  · cases h

theorem element_of_mem_referencesAmong {ix : Index} {cancelled : Nat → Bool} {target : Nat}
    {method : IndexedMethod} {r : Reference} (sites : List Site) (current : Option Nat)
    (h : r ∈ ix.referencesAmong cancelled target method current sites) :
    ∃ m ∈ ix.identifiers, r.element = some m := by
  induction sites generalizing current with
  | nil => simp [referencesAmong] at h
  | cons s rest ih =>
    unfold referencesAmong at h
    split at h
    · exact ih _ h
    · next caller call hs =>
      split at h
      · cases h
      · rcases List.mem_append.1 h with h | h
        · exact ⟨_, mem_identifiers_of_callAt? hs,
            element_of_referenceAt? (Option.mem_toList.1 h)⟩
        · exact ih _ h

theorem enclosing_mem_identifiers (ix : Index) (m : MethodId) (rs : List Reference)
    (h : ix.references (fun _ => false) m = .ok rs) (r : Reference) (hr : r ∈ rs)
    (c : MethodId) (hc : ix.enclosing r = some c) : c ∈ ix.identifiers := by
  unfold references at h
  split at h
  · cases h
    obtain ⟨m', hm, he⟩ := element_of_mem_referencesAmong _ _ hr
    unfold enclosing at hc
    rw [he] at hc
    cases hc
    exact hm
  · cases h

/-- **The codebase of an index.** -/
def codebase (ix : Index) : Codebase where
  isPresent := ix.isPresent
  isExternal := ix.isExternal
  references := ix.references (fun _ => false)
  interrupted := ix.references (fun _ => true)
  enclosing := ix.enclosing
  arguments := ix.arguments
  line := ix.line
  callers := ix.identifiers
  enclosing_mem := ix.enclosing_mem_identifiers

end CallOrigins.Java.Index
