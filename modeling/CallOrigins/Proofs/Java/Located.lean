import CallOrigins.Proofs.Java.Merging
import CallOrigins.Proofs.Java.Places
import CallOrigins.Proofs.Java.Reported

/-!
# Finding a reported call again

A reference names a place: a range of bytes in the file of the method around it. The arguments are
read from that place alone. The nearest call around the range is taken and compared with the method
that was sought, by the name that is written. Here it is shown that this leads back to the call that
the search reported.

**The law** (`reference_located`): in files whose trees are sound, every reference leads back to its
call. The arguments are as many as the search counted. There are none of a method reference, and
where the text of the call has a fault, the fault is told. The trees of all sources are sound
(`SourceFile.isSound_read`).

What is written and what was found come apart in two places (`Call.Misleads`). A reference `T::new`
is taken for one to a method named `new`, but it is written as one to a constructor
(`constructorReference_not_located`). And a class may be named with a keyword under which any
constructor is looked for, and not be called so in the identifier of the constructor.

In a tree that was not read from a text, a method call may be without a name. Its place can be empty,
and then the call is not found there (`namelessCall_not_located`).
-/

namespace CallOrigins.Java

/-! ## Sound trees -/

namespace Node

/-- How a call is written. -/
structure IsWrittenCall (n : Node) : Prop where
  /-- The name of a method that is called is a single token. -/
  name : n.kind = .methodInvocation → ∀ name, n.child? .name = some name →
    ∃ r k t, name = .leaf r k t
  /-- Every other call has a keyword or an operator of its own. -/
  word : n.kind ≠ .methodInvocation → ∃ r k t, .leaf r k t ∈ n.parts ∧ t.text ≠ ""
  /-- Only a method reference has no list of arguments. -/
  arguments : n.child? .arguments = none ↔ n.kind = .methodReference
  /-- The word `new` at the end of a method reference is a keyword. -/
  new : n.kind = .methodReference → ∀ last, n.parts.getLast? = some last →
    last.kind = .identifier → last.text ≠ "new"

/-- **A method call is named**: what stands in the role of the name is written. -/
def IsNamed (n : Node) : Prop :=
  n.kind = .methodInvocation → ∀ name, n.child? .name = some name → name.text ≠ ""

end Node

/-- The method calls of a file are named. -/
def SourceFile.NamesCalls (f : SourceFile) : Prop :=
  ∀ n, f.tree.Holds n → n.IsNamed

/-- **A sound file**: the tokens of its tree stand one after the other in its text, a token alone is
no call and no body, and calls are written as calls. -/
structure SourceFile.IsSound (f : SourceFile) : Prop where
  ordered : InOrder f.tree.tokens
  inside : ∀ t ∈ f.tree.tokens, t.stop ≤ f.source.content.utf8ByteSize
  leaves : ∀ r k t, f.tree.Holds (.leaf r k t) → k.isCall = false ∧ k.isBoundary = false
  calls : ∀ n, f.tree.Holds n → n.kind.isCall = true → n.IsWrittenCall

/-! ## The call of a node -/

section Call

variable {line : Nat → Nat} {scopes : List TypeScope} {b : Body} {n : Node} {c : Call}

/-- The calls that a node can make, by the kind of the node. -/
inductive Node.Makes (n : Node) : Call → Prop where
  | method {name : Node} (line : Nat → Nat) (receiver : Receiver)
    (kind : n.kind = .methodInvocation) (child : n.child? .name = some name) :
    n.Makes (callAt line n .method name.text receiver (some (argumentCount n)) name.start)
  | creation {type : Node} (line : Nat → Nat) (kind : n.kind = .objectCreationExpression)
    (child : n.child? .type = some type) :
    n.Makes (callAt line n .creation (lastSegment type.erased) (.typed type.erased)
      (some (argumentCount n)) n.start)
  | super (line : Nat → Nat) (kind : n.kind = .explicitConstructorInvocation) :
    n.Makes (callAt line n .superConstructor "super" .superclass (some (argumentCount n)) n.start)
  | this (line : Nat → Nat) (kind : n.kind = .explicitConstructorInvocation) :
    n.Makes (callAt line n .thisConstructor "this" .implicit (some (argumentCount n)) n.start)
  | reference {name : String} (line : Nat → Nat) (receiver : Receiver)
    (kind : n.kind = .methodReference) (referred : referredName? n = some name) :
    n.Makes (callAt line n .reference name receiver none n.start)

theorem Node.makes_of_call? (h : call? line scopes b n = some c) : n.Makes c := by
  unfold call? at h
  split at h
  next kind =>
    split at h
    next => cases h
    next child =>
      cases h
      exact .method line _ kind child
  next kind =>
    split at h
    next => cases h
    next child =>
      cases h
      exact .creation line kind child
  next kind =>
    split at h
    next => cases h
    next =>
      split at h
      next =>
        cases h
        exact .super line kind
      next =>
        cases h
        exact .this line kind
  next kind =>
    split at h
    next referred =>
      cases h
      exact .reference line _ kind referred
    next => cases h
  next => cases h

theorem Node.Makes.isCall (h : n.Makes c) : n.kind.isCall = true := by
  cases h <;> simp [Kind.isCall, *]

theorem Node.IsNamed.name_ne (hn : n.IsNamed) (h : n.Makes c) (hkind : c.kind = .method) :
    c.name ≠ "" := by
  cases h with
  | method line receiver kind child => exact hn kind _ child
  | _ => cases hkind

theorem Token.start_lt_stop {t : Token} (h : t.text ≠ "") : t.start < t.stop := by
  have hsize : t.text.utf8ByteSize ≠ 0 := fun hzero => h (String.utf8ByteSize_eq_zero_iff.1 hzero)
  rw [Token.stop]
  omega

end Call

/-- **The place of a call** takes in a token of the call and ends where the call does. It starts at
that token, the name, if a method is called, and else where the call starts. -/
theorem SourceFile.IsSound.exists_token {f : SourceFile} (sound : f.IsSound) {n : Node}
    (hn : f.tree.Holds n) {c : Call} (h : n.Makes c) (named : c.kind = .method → c.name ≠ "") :
    ∃ r k t, .leaf r k t ∈ n.parts ∧ t.start < t.stop ∧ n.start ≤ t.start ∧
      c.offset = (if c.kind = .method then t.start else n.start) ∧
      c.offset + c.length = n.stop := by
  have hwritten := sound.calls n hn h.isCall
  have hordered : InOrder n.tokens := sound.ordered.sublist hn.tokens_sublist
  have hspan : ∀ {r k t}, .leaf r k t ∈ n.parts → n.start ≤ t.start ∧ t.stop ≤ n.stop := by
    intro r k t hleaf
    have ht : t ∈ n.tokens :=
      (Node.tokens_sublist_of_mem hleaf).subset (List.mem_singleton.2 rfl)
    exact ⟨Node.start_le_of_mem hordered ht, Node.le_stop_of_mem hordered ht⟩
  have hword : n.kind ≠ .methodInvocation → c.kind ≠ .method → c.offset = n.start →
      c.length = n.stop - n.start → ∃ r k t, .leaf r k t ∈ n.parts ∧ t.start < t.stop ∧
        n.start ≤ t.start ∧ c.offset = (if c.kind = .method then t.start else n.start) ∧
        c.offset + c.length = n.stop := by
    intro hkind hcall hoffset hlength
    obtain ⟨r, k, t, hleaf, htext⟩ := hwritten.word hkind
    have hlt := Token.start_lt_stop htext
    have := hspan hleaf
    exact ⟨r, k, t, hleaf, hlt, this.1, by rw [if_neg hcall, hoffset], by omega⟩
  cases h with
  | @method name line receiver kind child =>
    obtain ⟨r, k, t, rfl⟩ := hwritten.name kind name child
    have hleaf : Node.leaf r k t ∈ n.parts := List.mem_of_find?_eq_some child
    have hlt : t.start < t.stop :=
      Token.start_lt_stop fun hempty => named rfl ((Node.text_leaf r k t).trans hempty)
    have := hspan hleaf
    refine ⟨r, k, t, hleaf, hlt, this.1, rfl, ?_⟩
    change t.start + (n.stop - t.start) = n.stop
    omega
  | creation line kind => exact hword (by simp [kind]) (by simp [callAt]) rfl rfl
  | super line kind => exact hword (by simp [kind]) (by simp [callAt]) rfl rfl
  | this line kind => exact hword (by simp [kind]) (by simp [callAt]) rfl rfl
  | reference line receiver kind => exact hword (by simp [kind]) (by simp [callAt]) rfl rfl

/-- **A call is found again at its place**, and the place lies in the text. -/
theorem SourceFile.IsSound.coveringCall?_eq {f : SourceFile} (sound : f.IsSound) {n : Node}
    (hn : f.tree.Holds n) {c : Call} (h : n.Makes c) (named : c.kind = .method → c.name ≠ "") :
    coveringCall? f.tree c.offset (c.offset + c.length) = some n ∧
      c.offset + c.length ≤ f.source.content.utf8ByteSize := by
  have hordered : InOrder n.tokens := sound.ordered.sublist hn.tokens_sublist
  obtain ⟨r, k, t, hleaf, htext, hstart, hoffset, hstop⟩ := sound.exists_token hn h named
  have ht : t ∈ n.tokens := (Node.tokens_sublist_of_mem hleaf).subset (List.mem_singleton.2 rfl)
  have hplace : n.start ≤ c.offset ∧ c.offset ≤ t.start := by
    rw [hoffset]
    split <;> omega
  rw [hstop]
  refine ⟨Java.coveringCall?_eq sound.ordered hn h.isCall hleaf
    (sound.leaves r k t (hn.part hleaf)) htext hplace
    ⟨Node.le_stop_of_mem hordered ht, Nat.le_refl _⟩, ?_⟩
  rcases n.stop_cases with hzero | ⟨u, hu, hstop⟩
  · omega
  · exact hstop ▸ sound.inside u (hn.tokens_sublist.subset hu)

/-! ## Calls that are written for another method -/

/-- **A call that is bound to a method and not written for it**: a reference with the word `new` to
a method of that name which is no constructor, or the creation of an object of a class that is named
with a keyword, where the identifier of the constructor does not show this name. -/
def Call.Misleads (c : Call) (m : MethodId) : Prop :=
  (m.isConstructor = false ∧ m.name = "new" ∧ c.kind = .reference ∧ c.name = "new") ∨
    (m.isConstructor = true ∧ c.kind = .creation ∧ c.name ≠ m.simpleTypeName ∧
      c.name ∈ ["super", "this", "new"])

namespace Index

variable {ix : Index} {target : Nat} {method caller : IndexedMethod} {call : Call}
  {accuracy : Accuracy}

theorem kind_of_bindMethod (h : ix.bindMethod caller call target = some accuracy) :
    call.kind = .method ∨ call.kind = .reference := by
  unfold bindMethod at h
  split at h
  next hkind => exact .inl hkind
  next hkind => exact .inr hkind
  next => cases h

theorem kind_of_createdType? {type : Nat} (h : ix.createdType? caller call = some type) :
    call.kind ≠ .method ∧ (call.kind = .reference → call.name = "new") := by
  unfold createdType? at h
  split at h
  next hkind _ => simp [hkind]
  next hkind _ =>
    split at h
    next hnew => simp [hkind, beq_iff_eq.1 hnew]
    next => cases h
  next hkind => simp [hkind]
  next hkind => simp [hkind]
  next => cases h

/-- The last part of a method reference, as far as it says what is referred to. -/
theorem writtenFor_reference {n : Node} (hwritten : n.IsWrittenCall)
    (kind : n.kind = .methodReference) {name : String} (referred : referredName? n = some name)
    (m : MethodId) :
    writtenFor n m = if name = "new" then m.isConstructor else name == m.name := by
  unfold referredName? at referred
  unfold writtenFor
  simp only [kind]
  cases hlast : n.parts.getLast? with
  | none =>
    rw [hlast] at referred
    cases referred
  | some last =>
    rw [hlast] at referred
    dsimp only at referred ⊢
    split at referred
    next hkind =>
      cases referred
      have hne := hwritten.new kind last hlast hkind
      simp [hkind, hne]
    next hkind =>
      split at referred
      next hnew =>
        cases referred
        simp [hkind, hnew]
      next => cases referred
    next => cases referred

/-- **A call that is bound to a method is written for it**, unless it misleads. -/
theorem writtenFor_iff {n : Node} (hwritten : n.IsWrittenCall) (makes : n.Makes call)
    (hmethod : ix.methods[target]? = some method)
    (hname : call.name ∈ searchNames method.decl.id)
    (hbind : ix.bind? target method caller call = some accuracy) :
    writtenFor n method.decl.id = true ↔ ¬ call.Misleads method.decl.id := by
  unfold bind? at hbind
  split at hbind
  next hconstructor =>
    have hkind := kind_of_createdType? (of_bindConstructor hbind).1
    cases makes with
    | method => exact absurd rfl hkind.1
    | @creation type line kind child =>
      have hiff : writtenFor n method.decl.id = true ↔
          lastSegment type.erased = method.decl.id.simpleTypeName := by
        simp [writtenFor, kind, child, hconstructor]
      rw [searchNames, if_pos hconstructor] at hname
      rw [hiff]
      constructor
      · rintro hsimple (⟨hnot, -⟩ | ⟨-, -, hne, -⟩)
        · exact absurd hconstructor (by simp [hnot])
        · exact hne hsimple
      · intro hnot
        rcases List.mem_cons.1 hname with hsimple | hkeyword
        · exact hsimple
        · exact Classical.not_not.1 fun hne => hnot (.inr ⟨hconstructor, rfl, hne, hkeyword⟩)
    | super line kind => simp [writtenFor, kind, hconstructor, Call.Misleads, callAt]
    | this line kind => simp [writtenFor, kind, hconstructor, Call.Misleads, callAt]
    | @reference name line receiver kind referred =>
      have hnew : name = "new" := hkind.2 rfl
      rw [writtenFor_reference hwritten kind referred, if_pos hnew]
      simp [hconstructor, Call.Misleads, callAt]
  next hconstructor =>
    have hkind := kind_of_bindMethod hbind
    obtain ⟨d, hd, hmeant, -⟩ := fits_of_bindMethod hbind
    cases hmethod.symm.trans hd
    cases makes with
    | method line receiver kind child =>
      simp [writtenFor, kind, child, hmeant, Call.Misleads, callAt]
    | creation => simp [callAt] at hkind
    | super => simp [callAt] at hkind
    | this => simp [callAt] at hkind
    | @reference name line receiver kind referred =>
      rw [writtenFor_reference hwritten kind referred]
      by_cases hnew : name = "new" <;> simp [hnew, hconstructor, hmeant, Call.Misleads, callAt]

/-! ## What a search gives -/

theorem mem_referencesAmong {cancelled : Nat → Bool} {current : Option Nat} {sites : List Site}
    {r : Reference} (h : r ∈ ix.referencesAmong cancelled target method current sites) :
    ∃ s ∈ sites, ix.reference? target method s = some r := by
  induction sites generalizing current with
  | nil => exact absurd h List.not_mem_nil
  | cons s sites ih =>
    rw [referencesAmong] at h
    split at h
    next =>
      obtain ⟨s', hs', hr⟩ := ih h
      exact ⟨s', .tail _ hs', hr⟩
    next caller call hcall =>
      split at h
      next => exact absurd h List.not_mem_nil
      next =>
        rcases List.mem_append.1 h with h | h
        · refine ⟨s, .head _, ?_⟩
          rw [reference?, hcall]
          exact Option.mem_toList.1 h
        · obtain ⟨s', hs', hr⟩ := ih h
          exact ⟨s', .tail _ hs', hr⟩

/-- What a search gives, cancelled or not, is reported. -/
theorem mem_reported_of_references {cancelled : Nat → Bool} {m : MethodId} {rs : List Reference}
    (h : ix.references cancelled m = .ok rs) {r : Reference} (hr : r ∈ rs) :
    ∃ s, (s, r) ∈ ix.reported m := by
  unfold references at h
  split at h
  next target method htarget hmethod =>
    cases h
    obtain ⟨s, hs, hreference⟩ := mem_referencesAmong hr
    refine ⟨s, ?_⟩
    rw [reported, htarget, hmethod]
    exact mem_foundAt.2 ⟨hs, hreference⟩
  next => cases h

/-! ## The arguments at a place -/

theorem length_renderArguments (list : Node) :
    (renderArguments list).length = list.children.length := by
  simp [renderArguments, Expr.ofArguments]

/-- What is given for the arguments at a place, once the call there is found. -/
theorem arguments_eq {m caller : MethodId} {f : SourceFile} {n : Node} {offset length : Nat}
    (hfile : (ix.method? caller).bind ix.fileOf? = some f)
    (hsize : offset + length ≤ f.source.content.utf8ByteSize)
    (hcall : coveringCall? f.tree offset (offset + length) = some n) :
    ix.arguments caller m offset length =
      if writtenFor n m then
        if n.hasError then .error .parseError
        else
          match n.child? .arguments with
          | none => .error .argumentsUnavailable
          | some list => .ok (renderArguments list)
      else .error .callSiteNotFound := by
  rw [arguments, argumentList, callCovering, hfile]
  dsimp only
  rw [if_neg (Nat.not_lt.2 hsize), hcall]
  dsimp only
  by_cases hwritten : writtenFor n m = true
  · rw [if_pos hwritten, if_pos hwritten]
    by_cases herror : n.hasError = true
    · simp only [if_pos herror]
    · simp only [if_neg herror]
      cases n.child? .arguments <;> rfl
  · rw [if_neg hwritten, if_neg hwritten]

theorem arguments_ne_noSource {m caller : MethodId} {f : SourceFile} {offset length : Nat}
    (hfile : (ix.method? caller).bind ix.fileOf? = some f) :
    ix.arguments caller m offset length ≠ .error .noSource := by
  have hcovering : ix.callCovering caller m offset length ≠ .error .noSource := by
    rw [callCovering, hfile]
    dsimp only
    split
    · exact fun h => by cases h
    · split
      · exact fun h => by cases h
      · split <;> exact fun h => by cases h
  rw [arguments, argumentList]
  cases hcall : ix.callCovering caller m offset length with
  | error e => exact fun h => hcovering (by cases h; exact hcall)
  | ok n =>
    by_cases herror : n.hasError = true
    · simp [herror]
    · cases hlist : n.child? .arguments <;> simp [herror, hlist]

/-- **What the arguments of a call come to**, for the node that makes the call: a fault in its text
is told, a method reference has none, and otherwise they are as many as were counted. -/
structure Located (n : Node) (c : Call) (outcome : Except ExtractionFailure (List String)) :
    Prop where
  faulty : n.hasError = true → outcome = .error .parseError
  reference : n.hasError = false → c.kind = .reference → outcome = .error .argumentsUnavailable
  arguments : n.hasError = false → c.kind ≠ .reference →
    ∃ texts, outcome = .ok texts ∧ c.argCount = some texts.length

theorem located {n : Node} (hwritten : n.IsWrittenCall) (makes : n.Makes call) :
    Located n call
      (if n.hasError then .error .parseError
      else
        match n.child? .arguments with
        | none => .error .argumentsUnavailable
        | some list => .ok (renderArguments list)) := by
  have hkind : call.kind = .reference ↔ n.kind = .methodReference := by
    cases makes <;> simp [callAt, *]
  have hcount : call.kind ≠ .reference → call.argCount = some (argumentCount n) := by
    cases makes <;> simp [callAt]
  refine ⟨fun herror => by rw [if_pos herror], fun herror href => ?_, fun herror href => ?_⟩
  · rw [hwritten.arguments.2 (hkind.1 href), herror]
    rfl
  · cases hlist : n.child? .arguments with
    | none => exact absurd (hkind.2 (hwritten.arguments.1 hlist)) href
    | some list =>
      refine ⟨renderArguments list, by rw [herror]; rfl, ?_⟩
      rw [hcount href, argumentCount, hlist, length_renderArguments]
      rfl

/-- A call of a method by its name is reported for methods of that name. -/
theorem name_of_bind? {target : Nat} {method caller : IndexedMethod} {call : Call}
    {accuracy : Accuracy} (hmethod : ix.methods[target]? = some method)
    (hbind : ix.bind? target method caller call = some accuracy) (hkind : call.kind = .method) :
    method.decl.id.isConstructor = false ∧ call.name = method.decl.id.name := by
  unfold bind? at hbind
  split at hbind
  next => exact absurd hkind (kind_of_createdType? (of_bindConstructor hbind).1).1
  next hconstructor =>
    obtain ⟨d, hd, hname, -⟩ := fits_of_bindMethod hbind
    cases hmethod.symm.trans hd
    exact ⟨Bool.not_eq_true _ ▸ hconstructor, hname.symm⟩

/-- **A reported call is found again.** For every index of sound files that have been read, and
every method: each reference that a search gives is the place of a call of the method around it, and
the source of that method is known. Where the method that was sought has a name, or the method calls
in that source have names, the arguments at this place are those of the node that makes the call,
unless the call misleads. It is only then that no call is found there. -/
theorem reference_located (files : List SourceFile) (read : ∀ f ∈ files, f.IsRead)
    (sound : ∀ f ∈ files, f.IsSound) (m : MethodId) (cancelled : Nat → Bool)
    (rs : List Reference) (hrs : (ofFiles files).references cancelled m = .ok rs)
    (r : Reference) (hr : r ∈ rs) :
    ∃ caller d f call, r.element = some caller ∧
      (ofFiles files).method? caller = some d ∧ (ofFiles files).fileOf? d = some f ∧
      call ∈ d.decl.calls ∧ call.offset = r.offset ∧ call.length = r.length ∧
      call.IsMade f.tree ∧
      (ofFiles files).arguments caller m r.offset r.length ≠ .error .noSource ∧
      ((call.kind = .method → m.name ≠ "") ∨ f.NamesCalls →
        (call.Misleads m →
          (ofFiles files).arguments caller m r.offset r.length = .error .callSiteNotFound) ∧
        (¬ call.Misleads m → ∀ line scopes b n, f.tree.Holds n → call? line scopes b n = some call →
          Located n call ((ofFiles files).arguments caller m r.offset r.length))) := by
  obtain ⟨s, hs⟩ := mem_reported_of_references hrs hr
  obtain ⟨target, method, d, call, accuracy, htarget, hmethod, hsite, hcall, -, hbind, rfl⟩ :=
    mem_reported.1 hs
  obtain ⟨hd, hplace⟩ := callAt?_eq_some.1 hcall
  obtain rfl := (references_eq htarget hmethod).1
  have hmem := Array.mem_of_getElem? hd
  have hcalls := List.mem_of_getElem? hplace
  have hfound := (wellFormed_ofFiles read).method?_eq hmem
  obtain ⟨f, hf, hmade⟩ := made_ofFiles read d hmem
  have hfile : f ∈ files := by
    have hfiles := Array.mem_of_getElem? hf
    rw [files_ofFiles] at hfiles
    exact List.mem_toArray.1 hfiles
  have hname : call.name ∈ searchNames method.decl.id := by
    obtain ⟨_, _, hcall', hname⟩ := mem_candidateSites.1 hsite
    cases hcall.symm.trans hcall'
    exact hname
  have hsource : ((ofFiles files).method? d.decl.id).bind (ofFiles files).fileOf? = some f := by
    rw [hfound]
    exact hf
  refine ⟨d.decl.id, d, f, call, rfl, hfound, hf, hcalls, rfl, rfl, hmade call hcalls,
    arguments_ne_noSource hsource, fun named => ?_⟩
  have hnamed : call.kind = .method → call.name ≠ "" := by
    intro hkind
    rcases named with named | named
    · exact (name_of_bind? hmethod hbind hkind).2 ▸ named hkind
    · obtain ⟨line, scopes, b, n, hn, hc⟩ := hmade call hcalls
      exact (named n hn).name_ne (Node.makes_of_call? hc) hkind
  have hplaced : ∀ n, f.tree.Holds n → n.Makes call →
      (ofFiles files).arguments d.decl.id method.decl.id call.offset call.length = _ :=
    fun n hn makes =>
      have hcovering := (sound f hfile).coveringCall?_eq hn makes hnamed
      arguments_eq hsource hcovering.2 hcovering.1
  have hiff : ∀ n, f.tree.Holds n → n.Makes call → _ := fun n hn makes =>
    writtenFor_iff ((sound f hfile).calls n hn makes.isCall) makes hmethod hname hbind
  constructor
  · intro hmisleads
    obtain ⟨line, scopes, b, n, hn, hc⟩ := hmade call hcalls
    have makes := Node.makes_of_call? hc
    rw [hplaced n hn makes, if_neg fun h => (hiff n hn makes).1 h hmisleads]
  · intro hmisleads line scopes b n hn hc
    have makes := Node.makes_of_call? hc
    rw [hplaced n hn makes, if_pos ((hiff n hn makes).2 hmisleads)]
    exact located ((sound f hfile).calls n hn makes.isCall) makes

/-! ## Sound files -/

end Index

namespace Node

theorem forall_holds_leaf {p : Node → Prop} (r : Option Role) (k : Kind) (t : Token) :
    (∀ n, (leaf r k t).Holds n → p n) ↔ p (leaf r k t) := by
  refine ⟨fun h => h _ .refl, fun h n hn => ?_⟩
  rcases Relation.ReflTransGen.cases_head hn with rfl | ⟨c, hc, -⟩
  · exact h
  · exact absurd hc List.not_mem_nil

theorem forall_holds_branch {p : Node → Prop} (r : Option Role) (k : Kind) (cs : List Node) :
    (∀ n, (branch r k cs).Holds n → p n) ↔
      p (branch r k cs) ∧ ∀ c ∈ cs, ∀ n, c.Holds n → p n := by
  refine ⟨fun h => ⟨h _ .refl, fun c hc n hn => h n (.head hc hn)⟩, fun h n hn => ?_⟩
  rcases Relation.ReflTransGen.cases_head hn with rfl | ⟨c, hc, hn⟩
  · exact h.1
  · exact h.2 c hc n hn

mutual
/-- Do all nodes of a tree pass a test? -/
def all (p : Node → Bool) : Node → Bool
  | leaf r k t => p (leaf r k t)
  | branch r k cs => p (branch r k cs) && allIn p cs
def allIn (p : Node → Bool) : List Node → Bool
  | [] => true
  | c :: cs => c.all p && allIn p cs
end

mutual
theorem all_iff {p : Node → Bool} (n : Node) : n.all p = true ↔ ∀ m, n.Holds m → p m = true := by
  cases n with
  | leaf r k t => rw [all, forall_holds_leaf]
  | branch r k cs => rw [all, Bool.and_eq_true, allIn_iff cs, forall_holds_branch]
theorem allIn_iff {p : Node → Bool} (cs : List Node) :
    allIn p cs = true ↔ ∀ c ∈ cs, ∀ m, c.Holds m → p m = true := by
  cases cs with
  | nil => simp [allIn]
  | cons c cs => rw [allIn, Bool.and_eq_true, all_iff c, allIn_iff cs, List.forall_mem_cons]
end

instance {p : Node → Prop} [DecidablePred p] (n : Node) : Decidable (∀ m, n.Holds m → p m) :=
  decidable_of_iff (n.all (fun m => decide (p m)) = true) <| by
    simp only [all_iff, decide_eq_true_iff]

/-- The token that a node is. -/
def token? : Node → Option Token
  | leaf _ _ t => some t
  | branch .. => none

theorem eq_leaf_of_token? {n : Node} {t : Token} (h : n.token? = some t) :
    ∃ r k, n = .leaf r k t := by
  cases n with
  | leaf r k u => exact ⟨r, k, congrArg _ (Option.some.inj h)⟩
  | branch => cases h

/-- A test for how calls are written. -/
def passesAsCall (n : Node) : Bool :=
  (if n.kind = .methodInvocation then (n.child? .name).all (fun c => c.token?.isSome)
    else n.parts.any (fun c => c.token?.any (fun t => t.text != ""))) &&
  (n.child? .arguments).isNone == decide (n.kind = .methodReference) &&
  (n.kind != .methodReference ||
    n.parts.getLast?.all (fun last => last.kind != .identifier || last.text != "new"))

theorem isWrittenCall_of_passes {n : Node} (h : n.passesAsCall = true) : n.IsWrittenCall := by
  simp only [passesAsCall, Bool.and_eq_true, Bool.or_eq_true, beq_iff_eq, bne_iff_ne] at h
  obtain ⟨⟨hword, harguments⟩, hnew⟩ := h
  refine ⟨fun hkind name hname => ?_, fun hkind => ?_, ?_, fun hkind last hlast hidentifier => ?_⟩
  · rw [if_pos hkind, hname] at hword
    obtain ⟨t, ht⟩ := Option.isSome_iff_exists.1 hword
    obtain ⟨r, k, rfl⟩ := eq_leaf_of_token? ht
    exact ⟨r, k, t, rfl⟩
  · rw [if_neg hkind] at hword
    obtain ⟨c, hc, hword⟩ := List.any_eq_true.1 hword
    obtain ⟨t, ht, htext⟩ := (Option.any_eq_true ..).1 hword
    obtain ⟨r, k, rfl⟩ := eq_leaf_of_token? ht
    exact ⟨r, k, t, hc, bne_iff_ne.1 htext⟩
  · rw [← Option.isNone_iff_eq_none, harguments, decide_eq_true_iff]
  · have htext := hnew.resolve_left (fun hne => hne hkind)
    rw [hlast] at htext
    simpa [hidentifier] using htext

/-- A test for the nodes of a sound tree. -/
def passes (n : Node) : Bool :=
  if n.token?.isSome then !n.kind.isCall && !n.kind.isBoundary
  else !n.kind.isCall || n.passesAsCall

end Node

/-- **Files can be tested for soundness.** -/
theorem SourceFile.isSound_of_passes {f : SourceFile} (ordered : InOrder f.tree.tokens)
    (inside : ∀ t ∈ f.tree.tokens, t.stop ≤ f.source.content.utf8ByteSize)
    (passes : ∀ n, f.tree.Holds n → n.passes = true) : f.IsSound := by
  refine ⟨ordered, inside, fun r k t h => ?_, fun n hn hkind => ?_⟩
  · simpa [Node.passes, Node.token?, Node.kind] using passes _ h
  · have hn := passes n hn
    rw [Node.passes] at hn
    split at hn
    · simp [hkind] at hn
    · exact Node.isWrittenCall_of_passes (by simpa [hkind] using hn)

namespace Index

/-- A call with two arguments. -/
def swapCall : Node :=
  .branch none .methodInvocation [
    token (some .name) .identifier " " "f" 33,
    .branch (some .arguments) .argumentList [
      sign "" "(" 34,
      token none .identifier "" "b" 35,
      sign "" "," 36,
      token none .identifier " " "a" 38,
      sign "" ")" 39]]

/-- A class with a method that calls itself. -/
def swapTree : Node :=
  .branch none .program [
    .branch none .classDeclaration [
      sign "" "class" 0,
      token (some .name) .identifier " " "A" 6,
      braced .classBody 8 [
        .branch none .methodDeclaration [
          token (some .type) .voidType " " "void" 10,
          token (some .name) .identifier " " "f" 15,
          .branch (some .parameters) .formalParameters [
            sign "" "(" 16,
            .branch none .formalParameter [
              .branch (some .type) .integralType [
                sign "" "int" 17],
              token (some .name) .identifier " " "a" 21],
            sign "" "," 22,
            .branch none .formalParameter [
              .branch (some .type) .integralType [
                sign " " "int" 24],
              token (some .name) .identifier " " "b" 28],
            sign "" ")" 29],
          braced .block 31 [
            .branch none .expressionStatement [
              swapCall,
              sign "" ";" 40]] 42]] 44]]

def swapFile : SourceFile :=
  fileOf "A.java" "class A \x7b void f(int a, int b) \x7b f(b, a); \x7d \x7d" swapTree

theorem isSound_swapFile : swapFile.IsSound :=
  SourceFile.isSound_of_passes (by unfold InOrder; decide +kernel) (by decide +kernel)
    (by decide +kernel)

/-- The method, in the index of the file. -/
def swapMethod : IndexedMethod where
  decl :=
    { id := ⟨"A#f(int,int)"⟩
      type := 0
      start := 10
      stop := 43
      lineStart := 1
      lineEnd := 1
      calls := [⟨.method, "f", .implicit, some 2, 33, 7, 1⟩] }
  file := 0

/-- The call of the method by itself is reported, and its two arguments are found at its place. -/
theorem swapCall_located :
    (∀ f ∈ [swapFile], f.IsRead) ∧ (∀ f ∈ [swapFile], f.IsSound) ∧
    ∃ rs, (ofFiles [swapFile]).references (fun _ => false) ⟨"A#f(int,int)"⟩ = .ok rs ∧
      ⟨"A.java", 33, 7, .exact, some ⟨"A#f(int,int)"⟩⟩ ∈ rs ∧
      ∃ texts, (ofFiles [swapFile]).arguments ⟨"A#f(int,int)"⟩ ⟨"A#f(int,int)"⟩ 33 7 = .ok texts ∧
        texts.length = 2 := by
  have read : ∀ f ∈ [swapFile], f.IsRead := by simp [swapFile, isRead_fileOf]
  have sound : ∀ f ∈ [swapFile], f.IsSound := by simp [isSound_swapFile]
  have hmethods : (ofFiles [swapFile]).methods = #[swapMethod] := by decide +kernel
  have hnumber : (ofFiles [swapFile]).methodNumber? ⟨"A#f(int,int)"⟩ = some 0 := by decide +kernel
  have hcall : (ofFiles [swapFile]).callAt? ⟨0, 0⟩ =
      some (swapMethod, ⟨.method, "f", .implicit, some 2, 33, 7, 1⟩) :=
    callAt?_eq_some.2 ⟨by rw [hmethods]; rfl, rfl⟩
  have hreported : (⟨0, 0⟩, ⟨"A.java", 33, 7, .exact, some ⟨"A#f(int,int)"⟩⟩) ∈
      (ofFiles [swapFile]).reported ⟨"A#f(int,int)"⟩ :=
    mem_reported.2 ⟨0, swapMethod, swapMethod, _, .exact, hnumber, by rw [hmethods]; rfl,
      mem_candidateSites.2 ⟨_, _, hcall, by decide⟩, hcall, by decide, by decide +kernel,
      by decide +kernel⟩
  have hrs := references_of_methodNumber? hnumber
  have hr := List.mem_map_of_mem (f := Prod.snd) hreported
  refine ⟨read, sound, _, hrs, hr, ?_⟩
  obtain ⟨caller, d, f, call, helement, hd, hf, hmem, -, -, -, -, hplace⟩ :=
    reference_located [swapFile] read sound ⟨"A#f(int,int)"⟩ _ _ hrs _ hr
  cases helement
  have hd' : (ofFiles [swapFile]).method? ⟨"A#f(int,int)"⟩ = some swapMethod := by decide +kernel
  cases hd.symm.trans hd'
  have hf' : (ofFiles [swapFile]).fileOf? swapMethod = some swapFile := by
    rw [fileOf?, files_ofFiles]
    rfl
  cases hf.symm.trans hf'
  cases List.mem_singleton.1 hmem
  have holds : swapTree.Holds swapCall :=
    .head (List.mem_of_getElem? (i := 0) rfl) <| .head (List.mem_of_getElem? (i := 2) rfl) <|
      .head (List.mem_of_getElem? (i := 1) rfl) <| .head (List.mem_of_getElem? (i := 3) rfl) <|
        .head (List.mem_of_getElem? (i := 1) rfl) <| .single (List.mem_of_getElem? (i := 0) rfl)
  have hlocated := (hplace (.inl fun _ => by decide)).2
    (by rintro (⟨-, -, h, -⟩ | ⟨-, h, -⟩) <;> cases h)
    (fun _ => 1) [] ⟨[], [], []⟩ swapCall holds (by decide +kernel)
  obtain ⟨texts, htexts, hcount⟩ := hlocated.arguments (by decide +kernel) (by decide)
  exact ⟨texts, htexts, (Option.some.inj hcount).symm⟩

/-- **A reference that is reported for a method is not found again.** `Foo::new` is reported for the
method of `Bar` whose name is read as `new`, and at its place no call of that method is found. -/
theorem constructorReference_not_located :
    ∃ files m rs r caller, (∀ f ∈ files, SourceFile.IsRead f) ∧
      (ofFiles files).references (fun _ => false) m = .ok rs ∧ r ∈ rs ∧ r.element = some caller ∧
      (ofFiles files).arguments caller m r.offset r.length = .error .callSiteNotFound := by
  have hnumber : (ofFiles heirFiles).methodNumber? ⟨"a./*.Z#new(*/b.Bar#m()"⟩ = some 0 := by
    decide +kernel
  have hreported : (⟨2, 0⟩, heirReference) ∈
      (ofFiles heirFiles).reported ⟨"a./*.Z#new(*/b.Bar#m()"⟩ :=
    @mem_reported_heirFiles _ 0 ⟨⟨⟨"a./*.Z#new(*/b.Bar#m()"⟩, 0, 43, 62, 1, 1, []⟩, 0⟩
      hnumber (by decide +kernel) (by decide) (by decide +kernel)
  refine ⟨heirFiles, ⟨"a./*.Z#new(*/b.Bar#m()"⟩, _, heirReference, ⟨"Foo#f()"⟩, isRead_heirFiles,
    references_of_methodNumber? hnumber, List.mem_map_of_mem (f := Prod.snd) hreported, rfl,
    by decide +kernel⟩

/-! ## Calls without a name -/

/-- A method call of which nothing is written. -/
def namelessCall : Node :=
  .branch none .methodInvocation [
    token (some .name) .identifier "" "" 19,
    .branch (some .arguments) .argumentList []]

/-- A method without a name that calls itself twice, in one place. -/
def namelessTree : Node :=
  .branch none .program [
    .branch none .classDeclaration [
      sign "" "class" 0,
      token (some .name) .identifier " " "A" 6,
      braced .classBody 8 [
        .branch none .methodDeclaration [
          token (some .type) .voidType " " "void" 10,
          token (some .name) .identifier "" "" 14,
          .branch (some .parameters) .formalParameters [
            sign " " "(" 15,
            sign "" ")" 16],
          braced .block 18 [
            namelessCall,
            namelessCall] 20]] 22]]

def namelessFile : SourceFile :=
  fileOf "A.java" "class A \x7b void () \x7b \x7d \x7d" namelessTree

theorem isRead_namelessFile : ∀ f ∈ [namelessFile], f.IsRead := by
  simp [namelessFile, isRead_fileOf]

theorem isSound_namelessFile : ∀ f ∈ [namelessFile], f.IsSound :=
  List.forall_mem_singleton.2 <| SourceFile.isSound_of_passes (by unfold InOrder; decide +kernel)
    (by decide +kernel) (by decide +kernel)

/-- Both calls, as they are recorded. -/
def namelessSite : Call :=
  ⟨.method, "", .implicit, some 0, 19, 0, 1⟩

def namelessMethod : IndexedMethod :=
  ⟨⟨⟨"A#()"⟩, 0, 10, 21, 1, 1, [namelessSite, namelessSite]⟩, 0⟩

/-- What is reported of each. -/
def namelessReference : Reference :=
  ⟨"A.java", 19, 0, .exact, some ⟨"A#()"⟩⟩

theorem callAt?_namelessFile {place : Nat} (hplace : place < 2) :
    (ofFiles [namelessFile]).callAt? ⟨0, place⟩ = some (namelessMethod, namelessSite) := by
  have hmethods : (ofFiles [namelessFile]).methods = #[namelessMethod] := by decide +kernel
  refine callAt?_eq_some.2 ⟨by rw [hmethods]; rfl, ?_⟩
  obtain rfl | rfl : place = 0 ∨ place = 1 := by omega
  · rfl
  · rfl

/-- Both calls are reported. -/
theorem mem_reported_namelessFile {place : Nat} (hplace : place < 2) :
    (⟨0, place⟩, namelessReference) ∈ (ofFiles [namelessFile]).reported ⟨"A#()"⟩ := by
  have hcall := callAt?_namelessFile hplace
  exact mem_reported.2 ⟨0, namelessMethod, namelessMethod, _, .exact, by decide +kernel,
    by decide +kernel, mem_candidateSites.2 ⟨_, _, hcall, by decide⟩, hcall, by decide,
    by decide +kernel, by decide +kernel⟩

/-- **A name is needed**: a call without one is reported and is not found again. It does not
mislead. -/
theorem namelessCall_not_located :
    (∀ f ∈ [namelessFile], f.IsRead) ∧ (∀ f ∈ [namelessFile], f.IsSound) ∧
    ∃ rs, (ofFiles [namelessFile]).references (fun _ => false) ⟨"A#()"⟩ = .ok rs ∧
      namelessReference ∈ rs ∧ ¬ namelessSite.Misleads ⟨"A#()"⟩ ∧
      (ofFiles [namelessFile]).arguments ⟨"A#()"⟩ ⟨"A#()"⟩ 19 0 = .error .callSiteNotFound := by
  have hnumber : (ofFiles [namelessFile]).methodNumber? ⟨"A#()"⟩ = some 0 := by decide +kernel
  refine ⟨isRead_namelessFile, isSound_namelessFile, _, references_of_methodNumber? hnumber,
    List.mem_map_of_mem (f := Prod.snd) (mem_reported_namelessFile (by decide : 0 < 2)), ?_,
    by decide +kernel⟩
  rintro (⟨-, -, h, -⟩ | ⟨-, h, -⟩) <;> cases h

end Index
end CallOrigins.Java
