import CallOrigins.Proofs.Java.Shortening

/-!
# Lists, creations and dimensions

The laws of `Shortening` for the phrases whose length is not fixed. In a list the items alternate
with commas (`IsListing`), and only a comma before the closing bracket is lost. A creation loses the
annotations, the type arguments and the outer object that stand around its type, and dimensions lose
their annotations.

With them every phrase that is taken apart is accounted for (`IsPhrase.isAccounted`).
-/

namespace CallOrigins.Java

open Grammar Text

namespace Node

/-! ## Lists -/

section

variable {kinds : Kind → Bool} {role : Option Role} {items ns : List Node}

theorem IsTail.filter_isNamed {separator : String} (h : IsTail separator kinds role items ns)
    (hkinds : ∀ k, kinds k = true → k.isItem = true) : ns.filter isNamed = items := by
  induction h with
  | nil => rfl
  | @cons items ns mark n separates item _ ih =>
    have hitem : n.IsOf Kind.isItem role := ⟨item.role, hkinds _ item.kind⟩
    rw [List.filter_cons_of_neg (by simp [isNamed_mark separates]),
      List.filter_cons_of_pos hitem.isNamed, ih]

theorem IsTail.flatMap_inReport (h : IsTail "," kinds role items ns) {f : Node → List Char}
    (hf : ∀ n : Node, n.IsOf kinds role → n.inReport = f n) :
    ns.flatMap inReport = (items.map f).flatMap ([','] ++ ·) := by
  induction h with
  | nil => rfl
  | cons separates item _ ih =>
    simp [separates.inReport_eq, hf _ item, ih, Terminal.text, compactChars_cons, isBlank]

theorem IsTail.getLast? {separator : String} (h : IsTail separator kinds role items ns) {first : Node}
    (hfirst : first.IsOf kinds role) :
    ∃ last : Node, (first :: ns).getLast? = some last ∧ last.IsOf kinds role := by
  induction h generalizing first with
  | nil => exact ⟨first, rfl, hfirst⟩
  | cons separates item _ ih =>
    obtain ⟨last, hlast, hkind⟩ := ih item
    refine ⟨last, ?_, hkind⟩
    rwa [List.getLast?_cons_cons, List.getLast?_cons_cons]

/-- Things with commas between. -/
def IsListing (kinds : Kind → Bool) (items ns : List Node) : Prop :=
  items = [] ∧ ns = [] ∨ ∃ (first : Node) (rest tail : List Node), first.IsOf kinds none ∧
    IsTail "," kinds none rest tail ∧ items = first :: rest ∧ ns = first :: tail

theorem IsListing.filter_isNamed (h : IsListing kinds items ns)
    (hkinds : ∀ k, kinds k = true → k.isItem = true) : ns.filter isNamed = items := by
  rcases h with ⟨rfl, rfl⟩ | ⟨first, rest, tail, hfirst, htail, rfl, rfl⟩
  · rfl
  · have hitem : first.IsOf Kind.isItem none := ⟨hfirst.role, hkinds _ hfirst.kind⟩
    rw [List.filter_cons_of_pos hitem.isNamed, htail.filter_isNamed hkinds]

theorem IsListing.flatMap_inReport (h : IsListing kinds items ns) {f : Node → List Char}
    (hf : ∀ n : Node, n.IsOf kinds none → n.inReport = f n) :
    ns.flatMap inReport = [','].intercalate (items.map f) := by
  rcases h with ⟨rfl, rfl⟩ | ⟨first, rest, tail, hfirst, htail, rfl, rfl⟩
  · rfl
  · rw [List.flatMap_cons, List.map_cons, intercalate_cons, hf first hfirst,
      htail.flatMap_inReport hf]

theorem exists_isListing {f : Form}
    (hf : ∀ ns, f.Builds none ns → ∃ n : Node, n.IsOf kinds none ∧ ns = [n])
    (h : (Form.commas1 f).Builds none ns) : ∃ items, IsListing kinds items ns := by
  obtain ⟨_, hfront, tail, hback, rfl⟩ := Form.builds_seq.1 h
  obtain ⟨first, hfirst, rfl⟩ := hf _ hfront
  obtain ⟨rest, htail⟩ := Piece.tail_of_many hback.many hf
  exact ⟨first :: rest, .inr ⟨first, rest, tail, hfirst, htail, rfl, rfl⟩⟩

theorem exists_isListing_option {f : Form}
    (hf : ∀ ns, f.Builds none ns → ∃ n : Node, n.IsOf kinds none ∧ ns = [n])
    (h : (Piece.option none (.commas1 f)).Fits ns) : ∃ items, IsListing kinds items ns := by
  rcases h with rfl | h
  · exact ⟨[], .inl ⟨rfl, rfl⟩⟩
  · exact exists_isListing hf h

end

section

variable {role : Option Role} {parts : List Node} {ps : List Piece}

/-- Things in brackets, where a comma at the end is left out. -/
theorem isAccounted_bracketed {k : Kind} {kinds : Kind → Bool} {f : Node → List Char}
    {opening closing : Node} {o c : String} {items ns comma : List Node}
    (hopening : opening.IsToken none (.mark o)) (hclosing : closing.IsToken none (.mark c))
    (ho : o ≠ ",") (hitems : IsListing kinds items ns)
    (hkinds : ∀ k, kinds k = true → k.isItem = true)
    (hf : ∀ n : Node, n.IsOf kinds none → n.inReport = f n)
    (hcomma : (Piece.option none (.mark ",")).Fits comma)
    (hshortens : ∀ parts, (branch role k parts).shortens =
      parts.dropLast.getLast?.any fun p => p.kind = .symbol && p.text = ",")
    (hparts : parts = opening :: ns ++ comma ++ [closing])
    (hreport : parts.filter isNamed = items → (branch role k parts).inReport =
      opening.inReport ++ [','].intercalate (items.map f) ++ closing.inReport) :
    (branch role k parts).IsAccounted := by
  subst hparts
  have hlost : comma = [] ∨ ∃ mark : Node, mark.IsToken none (.mark ",") ∧ comma = [mark] :=
    hcomma.imp id fun h => h.token (by simp) rfl
  have hnamed : (opening :: ns ++ comma ++ [closing]).filter isNamed = items := by
    rcases hlost with rfl | ⟨mark, hmark, rfl⟩
    · simp [isNamed_mark hopening, isNamed_mark hclosing, hitems.filter_isNamed hkinds]
    · simp [isNamed_mark hopening, isNamed_mark hclosing, isNamed_mark hmark,
        hitems.filter_isNamed hkinds]
  have hlast : (opening :: ns).getLast?.any (fun p => p.kind = .symbol && p.text = ",") = false := by
    rcases hitems with ⟨-, rfl⟩ | ⟨first, rest, tail, hfirst, htail, -, rfl⟩
    · simp [hopening.text_eq, Terminal.text, ho]
    · obtain ⟨last, hlast, hof⟩ := htail.getLast? hfirst
      have hitem : last.IsOf Kind.isItem none := ⟨hof.role, hkinds _ hof.kind⟩
      rw [List.getLast?_cons_cons, hlast]
      simp [hitem.kind_ne_symbol]
  have htells : AreLost (fun p => p.kind = .symbol && p.text = ",") comma := by
    rcases hlost with rfl | ⟨mark, hmark, rfl⟩
    · exact .inl rfl
    · refine .inr ⟨by simpa using weight_pos_of_token hmark rfl, ?_⟩
      simp [hmark.kind_eq, hmark.text_eq, Terminal.kind, Terminal.text]
  apply isAccounted_of_lost htells
  · rw [hreport hnamed]
    simp [hitems.flatMap_inReport hf]
  · rw [hshortens, List.dropLast_concat]
    rcases hlost with rfl | ⟨mark, hmark, rfl⟩
    · rw [List.append_nil, hlast, List.any_nil]
    · rw [List.getLast?_concat, Option.any_some, List.any_cons, List.any_nil, Bool.or_false]

theorem isAccounted_argumentList (hps : ps ∈ layouts .argumentList) (hfits : Piece.FitAll ps parts) :
    (branch role .argumentList parts).IsAccounted := by
  cases List.mem_singleton.1 hps
  obtain ⟨_, _, rfl, ⟨opening, hopening, rfl⟩, ns, _, rfl, hns, _, _, rfl,
    ⟨closing, hclosing, rfl⟩, rfl⟩ := hfits
  obtain ⟨items, hitems⟩ := exists_isListing_option (fun _ h => h.item rfl) hns
  refine isAccounted_bracketed hopening hclosing (by decide) hitems (fun _ => id)
    (fun n h => h.inReport_eq) (.inl rfl) (fun _ => rfl) (by simp) fun hnamed => ?_
  rw [inReport, kind_branch, children, parts_branch, hnamed, hopening.inReport_eq,
    hclosing.inReport_eq]
  rfl

theorem isAccounted_arrayInitializer (hps : ps ∈ layouts .arrayInitializer)
    (hfits : Piece.FitAll ps parts) (helides : (branch role .arrayInitializer parts).elides = false) :
    (branch role .arrayInitializer parts).IsAccounted := by
  have hlength : (parts.filter isNamed).length ≤ Expr.shownElements :=
    Nat.not_lt.1 (of_decide_eq_false helides)
  cases List.mem_singleton.1 hps
  obtain ⟨_, _, rfl, ⟨opening, hopening, rfl⟩, ns, _, rfl, hns, comma, _, rfl, hcomma, _, _, rfl,
    ⟨closing, hclosing, rfl⟩, rfl⟩ := hfits
  obtain ⟨items, hitems⟩ := exists_isListing_option (fun _ h => h.item rfl) hns
  refine isAccounted_bracketed hopening hclosing (by decide) hitems (fun _ => id)
    (fun n h => h.inReport_eq) hcomma (fun _ => rfl) (by simp) fun hnamed => ?_
  rw [inReport_eq_printed (.inl rfl), printed_arrayInitializer role _ hlength, hnamed,
    hopening.inReport_eq, hclosing.inReport_eq]
  rfl

/-- Parameters in brackets. -/
theorem isAccounted_parameters {k : Kind} (hk : k = .formalParameters ∨ k = .inferredParameters)
    {opening closing : Node} {items ns comma : List Node}
    (hopening : opening.IsToken none (.mark "(")) (hclosing : closing.IsToken none (.mark ")"))
    (hitems : IsListing Kind.isVerbatim items ns)
    (hcomma : (Piece.option none (.mark ",")).Fits comma)
    (hparts : parts = opening :: ns ++ comma ++ [closing]) :
    (branch role k parts).IsAccounted := by
  have hverbatim : ∀ k, Kind.isVerbatim k = true → k.isItem = true :=
    fun k h => (Bool.and_eq_true_iff.1 h).1
  refine isAccounted_bracketed hopening hclosing (by decide) hitems hverbatim
    (fun n h => h.inReport_eq_written) hcomma ?_ hparts fun hnamed => ?_
  · intro parts
    rcases hk with rfl | rfl <;> rfl
  · rw [hopening.inReport_eq, hclosing.inReport_eq]
    rcases hk with rfl | rfl <;> rw [inReport, kind_branch, children, parts_branch, hnamed] <;> rfl

theorem isAccounted_formalParameters (hps : ps ∈ layouts .formalParameters)
    (hfits : Piece.FitAll ps parts) : (branch role .formalParameters parts).IsAccounted := by
  rcases List.mem_cons.1 hps with rfl | hps
  · obtain ⟨_, _, rfl, ⟨opening, hopening, rfl⟩, _, _, rfl, ⟨receiver, hreceiver, rfl⟩, _, _, rfl,
      ⟨closing, hclosing, rfl⟩, rfl⟩ := hfits
    exact isAccounted_parameters (.inl rfl) hopening hclosing
      (.inr ⟨receiver, [], [], hreceiver, .nil, rfl, rfl⟩) (.inl rfl) (by simp)
  cases List.mem_singleton.1 hps
  obtain ⟨_, _, rfl, ⟨opening, hopening, rfl⟩, front, _, rfl, hfront, ns, _, rfl, hns, _, _, rfl,
    ⟨closing, hclosing, rfl⟩, rfl⟩ := hfits
  obtain ⟨items, hitems⟩ := exists_isListing_option (fun _ h => h.verbatim rfl) hns
  rcases hfront with rfl | hfront
  · exact isAccounted_parameters (.inl rfl) hopening hclosing hitems (.inl rfl) (by simp)
  · obtain ⟨_, hfirst, _, hcomma, rfl⟩ := Form.builds_seq.1 hfront
    obtain ⟨receiver, hreceiver, rfl⟩ := hfirst.verbatim rfl
    rcases hitems with ⟨-, rfl⟩ | ⟨first, rest, tail, hfirst, htail, -, rfl⟩
    · -- nothing follows the comma after the receiver
      exact isAccounted_parameters (.inl rfl) hopening hclosing
        (.inr ⟨receiver, [], [], hreceiver, .nil, rfl, rfl⟩) (.inr hcomma) (by simp)
    · obtain ⟨mark, hmark, rfl⟩ := hcomma.token (by simp) rfl
      exact isAccounted_parameters (.inl rfl) hopening hclosing
        (.inr ⟨receiver, _, _, hreceiver, .cons hmark hfirst htail, rfl, rfl⟩) (.inl rfl) (by simp)

theorem isAccounted_inferredParameters (hps : ps ∈ layouts .inferredParameters)
    (hfits : Piece.FitAll ps parts) : (branch role .inferredParameters parts).IsAccounted := by
  cases List.mem_singleton.1 hps
  obtain ⟨_, _, rfl, ⟨opening, hopening, rfl⟩, _, _, rfl, ⟨token, rfl⟩, tail, _, rfl, hmany, _, _,
    rfl, ⟨closing, hclosing, rfl⟩, rfl⟩ := hfits
  obtain ⟨rest, htail⟩ := Piece.tail_of_many hmany fun _ h => h.verbatim rfl
  exact isAccounted_parameters (.inr rfl) hopening hclosing
    (.inr ⟨_, rest, tail, isOf_identifier none token, htail, rfl, rfl⟩) (.inl rfl) (by simp)

/-! ## Creations -/

theorem areLost_annotations {tells : Node → Bool} {ns : List Node}
    (h : (Piece.many none (.rule .annotationUse)).Fits ns)
    (htells : ∀ n : Node, n.IsOf Kind.isVerbatim none → tells n = true) :
    (∀ n ∈ ns, n.IsOf Kind.isVerbatim none) ∧ AreLost tells ns := by
  have hof : ∀ n ∈ ns, n.IsOf Kind.isVerbatim none := by
    refine Piece.forall_of_many h fun chunk hyields hcomplete => ?_
    have hbuilds : (Form.rule .annotationUse).Builds none chunk := ⟨hyields, hcomplete⟩
    obtain ⟨n, hn, rfl⟩ := hbuilds.verbatim rfl
    exact List.forall_mem_singleton.2 hn
  refine ⟨hof, ?_⟩
  obtain ⟨chunks, hchunks, rfl⟩ := h
  cases chunks with
  | nil => exact .inl rfl
  | cons chunk chunks =>
    have hweight := (hchunks chunk (.head _)).1.weight_pos rfl (hchunks chunk (.head _)).2
    refine .inr ⟨?_, ?_⟩
    · rw [List.flatten_cons, List.flatMap_append, weight_append]
      exact Nat.add_pos_left hweight _
    · obtain ⟨n, hn⟩ : ∃ n, n ∈ chunk := by
        refine List.exists_mem_of_ne_nil _ ?_
        rintro rfl
        cases hweight
      have hmem : n ∈ (chunk :: chunks).flatten := List.mem_flatten_of_mem (.head _) hn
      exact List.any_eq_true.2 ⟨n, hmem, htells n (hof n hmem)⟩

/-- What is lost between the word `new` and the type. -/
def isLostInCreation (p : Node) : Bool :=
  p.isNamed && (p.role ≠ some .type && p.role ≠ some .arguments && p.kind ≠ .classBody)

/-- The creation of an object, from the keyword on. -/
theorem exists_creation {ns : List Node} (h : (Form.rule .unqualifiedCreation).Builds none ns) :
    ∃ (word type args : Node) (lost body : List Node), word.IsToken none (.word "new") ∧
      type.IsOf Kind.isVerbatim (some .type) ∧ args.role = some .arguments ∧
      args.IsPhrase .argumentList ∧ (∀ p ∈ lost, p.role = none ∨ p.role = some .typeArguments) ∧
      AreLost isLostInCreation lost ∧ (∀ p ∈ body, p.kind = .classBody) ∧
      ns = [word] ++ lost ++ [type, args] ++ body := by
  obtain ⟨-, a, ha, hyields⟩ := (Form.yields_group rfl).1 h.1
  cases List.mem_singleton.1 ha
  have hbuilds : Form.Builds _ none ns := ⟨hyields, h.2⟩
  have hannotation : ∀ p : Node, p.IsOf Kind.isVerbatim none → isLostInCreation p = true := by
    intro p hp
    have hkind : p.kind ≠ .classBody := by
      intro hk
      have hitem := hp.item.kind
      rw [hk] at hitem
      cases hitem
    simp [isLostInCreation, hp.item.isNamed, hp.role, hkind]
  have hbody : ∀ body, (Piece.option none (.rule .classBody)).Fits body →
      ∀ p ∈ body, p.kind = .classBody := by
    rintro body (rfl | hbody)
    · simp
    · obtain ⟨n, ⟨-, hphrase, -⟩, rfl⟩ := (Form.builds_node rfl).1 hbody
      exact List.forall_mem_singleton.2 (hphrase.kind_eq rfl)
  obtain ⟨ps, hps, hfits⟩ := hbuilds.exists_layout
  rcases List.mem_cons.1 hps with rfl | hps
  · obtain ⟨_, _, rfl, ⟨word, hword, rfl⟩, front, _, rfl, hfront, _, _, rfl,
      ⟨typeArgs, ⟨hrole, hphrase, hcomplete⟩, rfl⟩, back, _, rfl, hback, _, _, rfl,
      ⟨type, htype, rfl⟩, _, _, rfl, ⟨args, ⟨hargs, hlist, -⟩, rfl⟩, body, _, rfl, hclass,
      rfl⟩ := hfits
    obtain ⟨hfrontOf, hfrontLost⟩ := areLost_annotations hfront hannotation
    obtain ⟨hbackOf, hbackLost⟩ := areLost_annotations hback hannotation
    have hkind : typeArgs.kind = .typeArguments := hphrase.kind_eq rfl
    have hlost : AreLost isLostInCreation [typeArgs] := by
      refine .inr ⟨by simpa using hphrase.weight_pos hcomplete (by decide), ?_⟩
      simp [isLostInCreation, isNamed, hkind, hrole]
    refine ⟨word, type, args, front ++ [typeArgs] ++ back, body, hword, htype, hargs, hlist, ?_,
      (hfrontLost.append hlost).append hbackLost, hbody body hclass, by simp⟩
    intro p hp
    simp only [List.mem_append, List.mem_singleton] at hp
    rcases hp with (hp | rfl) | hp
    · exact .inl (hfrontOf p hp).role
    · exact .inr hrole
    · exact .inl (hbackOf p hp).role
  · cases List.mem_singleton.1 hps
    obtain ⟨_, _, rfl, ⟨word, hword, rfl⟩, front, _, rfl, hfront, _, _, rfl,
      ⟨type, htype, rfl⟩, _, _, rfl, ⟨args, ⟨hargs, hlist, -⟩, rfl⟩, body, _, rfl, hclass,
      rfl⟩ := hfits
    obtain ⟨hfrontOf, hfrontLost⟩ := areLost_annotations hfront hannotation
    exact ⟨word, type, args, front, body, hword, htype, hargs, hlist,
      fun p hp => .inl (hfrontOf p hp).role, hfrontLost, hbody body hclass, by simp⟩

theorem shortens_objectCreation :
    (branch role .objectCreationExpression parts).shortens = parts.any isLostInCreation :=
  List.any_filter ..

theorem isAccounted_objectCreation (hps : ps ∈ layouts .objectCreationExpression)
    (hfits : Piece.FitAll ps parts)
    (helides : (branch role .objectCreationExpression parts).elides = false) :
    (branch role .objectCreationExpression parts).IsAccounted := by
  have hbody : parts.any (fun p => p.kind = .classBody) = false := helides
  -- in front there may be an object and a point
  have hlayout : ∃ front ns : List Node, (∀ p ∈ front, p.role = none) ∧
      AreLost isLostInCreation front ∧ (Form.rule .unqualifiedCreation).Builds none ns ∧
      parts = front ++ ns := by
    rcases List.mem_cons.1 hps with rfl | hps
    · obtain ⟨ns, _, rfl, hns, rfl⟩ := hfits
      exact ⟨[], ns, by simp, .inl rfl, hns, by simp⟩
    · cases List.mem_singleton.1 hps
      obtain ⟨_, _, rfl, ⟨object, hobject, rfl⟩, _, _, rfl, ⟨dot, hdot, rfl⟩, ns, _, rfl, hns, rfl⟩ :=
        hfits
      refine ⟨[object, dot], ns, by simp [hobject.role, hdot.role_eq], .inr ⟨?_, ?_⟩, hns, by simp⟩
      · exact (weight_pos_of_token hdot rfl).trans_le (by simp)
      · have hkind : object.kind ≠ .classBody := by simpa using List.any_eq_false.1 hbody object
        simp [isLostInCreation, hobject.isNamed, hobject.role, hkind]
  obtain ⟨front, ns, hfront, hfrontLost, hns, rfl⟩ := hlayout
  obtain ⟨word, type, args, lost, body, hword, htype, hargs, hlist, hroles, hlost, hclass, rfl⟩ :=
    exists_creation hns
  obtain rfl : body = [] := by
    refine List.eq_nil_iff_forall_not_mem.2 fun p hp => ?_
    have hp' := List.any_eq_false.1 hbody p (by simp [hp])
    simp [hclass p hp] at hp'
  have hnone : ∀ r : Role, r ≠ .typeArguments → partAs front r = none ∧ partAs lost r = none := by
    refine fun r hr => ⟨partAs_eq_none fun p hp => by simp [hfront p hp], partAs_eq_none ?_⟩
    intro p hp hrole
    rcases hroles p hp with h | h
    · simp [h] at hrole
    · exact hr (Option.some.inj (hrole.symm.trans h))
  have hkept : ∀ p ∈ [word, type, args], isLostInCreation p = false := by
    simp [isLostInCreation, isNamed, hword.kind_eq, htype.role, hargs, Terminal.kind]
  refine isAccounted_of_kept (hfrontLost.append hlost) ?_
    (?_ : ∀ p ∈ [word, type, args], p ∈ _) ?_ ?_ ?_
  · simp +contextual
  · simp +contextual
  · simp only [List.flatMap_append, weight_append, List.flatMap_cons, List.flatMap_nil, weight_nil]
    omega
  · rw [inReport_eq_printed (.inl rfl), printed_objectCreation role _ hbody]
    simp [partAs_append, partAs_cons, hnone, hword.role_eq, htype.role, hargs,
      hword.inReport_eq, htype.inReport_eq_written, inReport_argumentList hlist, Terminal.text,
      compactChars_cons, isBlank]
  · rw [shortens_objectCreation]
    simp [hkept]

theorem length_children_le {n : Node} (h : n.IsPhrase .arrayInitializer) (hn : n.elides = false) :
    n.children.length ≤ Expr.shownElements := by
  rw [elides, h.kind_eq rfl] at hn
  exact Nat.not_lt.1 (of_decide_eq_false hn)

theorem inReport_arrayInitializer {n : Node} (h : n.IsPhrase .arrayInitializer)
    (hn : n.elides = false) : n.inReport = '\x7b' :: listed n.children ++ ['\x7d'] := by
  have hlength := length_children_le h hn
  have hkind : n.kind = .arrayInitializer := h.kind_eq rfl
  rw [inReport_eq_printed (.inl (by rw [hkind]; rfl))]
  rw [h.branch, hkind] at hlength ⊢
  exact printed_arrayInitializer _ _ hlength

theorem shortens_arrayCreation : (branch role .arrayCreationExpression parts).shortens =
    parts.any fun p => p.isNamed && p.role = none :=
  List.any_filter ..

/-- What stands behind the dimensions of a new array: nothing, or its elements. -/
def IsValue (value : List Node) : Prop :=
  value = [] ∨ ∃ n : Node, n.role = some .value ∧ n.IsPhrase .arrayInitializer ∧
    n.elides = false ∧ value = [n]

theorem IsValue.role_eq {value : List Node} (h : IsValue value) :
    ∀ p ∈ value, p.role = some .value := by
  rcases h with rfl | ⟨n, hn, -, -, rfl⟩
  · exact fun _ hp => absurd hp List.not_mem_nil
  · exact List.forall_mem_singleton.2 hn

theorem IsValue.length_le {value : List Node} (h : IsValue value) :
    ∀ p ∈ partAs value .value, p.children.length ≤ Expr.shownElements := by
  rcases h with rfl | ⟨n, hn, hphrase, helides, rfl⟩
  · simp
  · simpa [partAs_cons, hn] using length_children_le hphrase helides

theorem IsValue.flatMap_inReport {value : List Node} (h : IsValue value) :
    (partAs value .value).elim [] (fun p => '\x7b' :: listed p.children ++ ['\x7d']) =
      value.flatMap inReport := by
  rcases h with rfl | ⟨n, hn, hphrase, helides, rfl⟩
  · rfl
  · simp [partAs_cons, hn, inReport_arrayInitializer hphrase helides]

/-- The creation of an array, with dimensions and with elements or without. -/
theorem isAccounted_array {word type : Node} {lost dims value : List Node}
    (hword : word.IsToken none (.word "new"))
    (hlost : (Piece.many none (.rule .annotationUse)).Fits lost)
    (htype : type.IsOf Kind.isVerbatim (some .type))
    (hdims : ∀ p ∈ dims, p.role = some .dimensions ∧
      (p.kind = .dimensionsExpr ∨ p.kind = .dimensions))
    (hvalue : IsValue value) :
    (branch role .arrayCreationExpression
      ([word] ++ lost ++ (type :: dims ++ value))).IsAccounted := by
  have htells : ∀ p : Node, p.IsOf Kind.isVerbatim none → (p.isNamed && p.role = none) = true := by
    intro p hp
    simp [hp.item.isNamed, hp.role]
  obtain ⟨hannotations, hlost⟩ := areLost_annotations hlost htells
  have hnone : ∀ r : Role, partAs lost r = none :=
    fun r => partAs_eq_none fun p hp => by simp [(hannotations p hp).role]
  have hdimsNone : partAs dims .value = none :=
    partAs_eq_none fun p hp => by simp [(hdims p hp).1]
  have hpart : partAs ([word] ++ lost ++ (type :: dims ++ value)) .value = partAs value .value := by
    simp [partAs_append, partAs_cons, hnone, hdimsNone, hword.role_eq, htype.role]
  have hfilter : ([word] ++ lost ++ (type :: dims ++ value)).filter
      (fun p => p.role = some .dimensions) = dims := by
    have hlostFilter : lost.filter (fun p => p.role = some .dimensions) = [] :=
      List.filter_eq_nil_iff.2 fun p hp => by simp [(hannotations p hp).role]
    have hdimsFilter : dims.filter (fun p => p.role = some .dimensions) = dims :=
      List.filter_eq_self.2 fun p hp => by simp [(hdims p hp).1]
    have hvalueFilter : value.filter (fun p => p.role = some .dimensions) = [] :=
      List.filter_eq_nil_iff.2 fun p hp => by simp [hvalue.role_eq p hp]
    simp [hlostFilter, hdimsFilter, hvalueFilter, hword.role_eq, htype.role]
  have hkinds : ∀ p ∈ [word] ++ lost ++ (type :: dims ++ value), p.role = some .dimensions →
      p.kind = .dimensionsExpr ∨ p.kind = .dimensions := by
    intro p hp hrole
    refine (hdims p ?_).2
    rw [← hfilter]
    exact List.mem_filter.2 ⟨hp, decide_eq_true hrole⟩
  apply isAccounted_of_lost hlost
  · rw [inReport_eq_printed (.inl rfl),
      printed_arrayCreation role _ hkinds (hpart ▸ hvalue.length_le), hpart, hfilter,
      hvalue.flatMap_inReport]
    simp [partAs_append, partAs_cons, hnone, hword.role_eq, htype.role, hword.inReport_eq,
      htype.inReport_eq_written, Terminal.text, compactChars_cons, isBlank]
  · have hsymbol : word.isNamed = false := by simp [isNamed, hword.kind_eq, Terminal.kind]
    have hdimsKept : dims.any (fun p => p.isNamed && p.role = none) = false :=
      List.any_eq_false.2 fun p hp => by simp [(hdims p hp).1]
    have hvalueKept : value.any (fun p => p.isNamed && p.role = none) = false :=
      List.any_eq_false.2 fun p hp => by simp [hvalue.role_eq p hp]
    rw [shortens_arrayCreation]
    simp [hsymbol, htype.role, hdimsKept, hvalueKept]

theorem isAccounted_arrayCreation (hps : ps ∈ layouts .arrayCreationExpression)
    (hfits : Piece.FitAll ps parts) (hparts : ∀ p ∈ parts, p.elides = false) :
    (branch role .arrayCreationExpression parts).IsAccounted := by
  rcases List.mem_cons.1 hps with rfl | hps
  · obtain ⟨_, _, rfl, ⟨word, hword, rfl⟩, lost, _, rfl, hlost, _, _, rfl, ⟨type, htype, rfl⟩, sizes,
      _, rfl, hsizes, empty, _, rfl, hempty, rfl⟩ := hfits
    have hsizes := Piece.nodes_of_many hsizes rfl
    have hempty : ∀ p ∈ empty, p.role = some .dimensions ∧ p.kind = .dimensions := by
      rcases hempty with rfl | hempty
      · simp
      · obtain ⟨n, ⟨hrole, hphrase, -⟩, rfl⟩ := (Form.builds_node rfl).1 hempty
        exact List.forall_mem_singleton.2 ⟨hrole, hphrase.kind_eq rfl⟩
    have hdims : ∀ p ∈ sizes ++ empty, p.role = some .dimensions ∧
        (p.kind = .dimensionsExpr ∨ p.kind = .dimensions) := by
      intro p hp
      rcases List.mem_append.1 hp with hp | hp
      · exact ⟨(hsizes p hp).1, .inl ((hsizes p hp).2.1.kind_eq rfl)⟩
      · exact ⟨(hempty p hp).1, .inr (hempty p hp).2⟩
    simpa using isAccounted_array hword hlost htype hdims (.inl rfl)
  · cases List.mem_singleton.1 hps
    obtain ⟨_, _, rfl, ⟨word, hword, rfl⟩, lost, _, rfl, hlost, _, _, rfl, ⟨type, htype, rfl⟩, _,
      _, rfl, ⟨dims, ⟨hrole, hdims, -⟩, rfl⟩, _, _, rfl, ⟨value, ⟨hvalue, hphrase, -⟩, rfl⟩, rfl⟩ :=
      hfits
    simpa using isAccounted_array hword hlost htype
      (List.forall_mem_singleton.2 ⟨hrole, .inr (hdims.kind_eq rfl)⟩)
      (.inr ⟨value, hvalue, hphrase, hparts value (by simp), rfl⟩)

/-! ## Dimensions -/

theorem IsPhrase.exists_branch {n : Node} {r : Rule} {k : Kind} (h : n.IsPhrase r)
    (hk : (definition r).kind = some k) : ∃ role parts, n = .branch role k parts :=
  ⟨n.role, n.parts, h.kind_eq hk ▸ h.branch⟩

/-- An annotated dimension shows its first annotation, in place of its size. -/
theorem isAccounted_dimensionsExpr {n : Node} (h : n.IsPhrase .dimensionsExpr)
    (hn : n.isIncomplete = false) : n.IsAccounted := by
  obtain ⟨a, ha, hbuilds⟩ := h.exists_builds hn
  cases List.mem_singleton.1 ha
  obtain ⟨role, parts, rfl⟩ := h.exists_branch rfl
  obtain ⟨front, hfront, _, hback, rfl⟩ := Form.builds_seq.1 hbuilds
  obtain ⟨_, hopen, _, hsized, rfl⟩ := Form.builds_seq.1 hback
  obtain ⟨_, hsize, _, hclose, rfl⟩ := Form.builds_seq.1 hsized
  obtain ⟨opening, hopening, rfl⟩ := hopen.token (by simp) rfl
  obtain ⟨size, hof, rfl⟩ := hsize.item rfl
  obtain ⟨closing, hclosing, rfl⟩ := hclose.token (by simp) rfl
  have hannotations := (areLost_annotations hfront.many fun p hp => hp.item.isNamed).1
  have hchildren : (branch role .dimensionsExpr
      (front ++ ([opening] ++ ([size] ++ [closing])))).children = front ++ [size] := by
    have hnamed : front.filter isNamed = front :=
      List.filter_eq_self.2 fun p hp => (hannotations p hp).item.isNamed
    simp [children, hnamed, isNamed_mark hopening, isNamed_mark hclosing, hof.isNamed]
  cases front with
  | nil =>
    refine .inl ⟨by rw [shortens, kind_branch, hchildren]; rfl, ?_⟩
    rw [IsShownWhole, inReport, kind_branch, hchildren]
    simp [hopening.inReport_eq, hclosing.inReport_eq, hof.inReport_eq, Terminal.text,
      compactChars_cons, isBlank]
  | cons first rest =>
    have hfirst := (hannotations first (.head _)).item
    have hweight : 0 < weight size.inSource := by
      simpa using hsize.1.weight_pos rfl hsize.2
    refine .inr ⟨by rw [shortens, kind_branch, hchildren]; simp, ?_⟩
    refine isShownShort_of_kept (?_ : ∀ p ∈ [first, opening, closing], p ∈ _) ?_ ?_
    · simp
    · rw [inReport, kind_branch, hchildren]
      simp [hopening.inReport_eq, hclosing.inReport_eq, hfirst.inReport_eq, Terminal.text,
        weight_cons, isHeavy]
    · simp only [List.flatMap_append, List.flatMap_cons, List.flatMap_nil, weight_append, weight_nil]
      omega

theorem IsBrackets.flatMap_inReport {ns : List Node} (h : IsBrackets ns)
    (hnamed : ns.filter isNamed = []) : ns.flatMap inReport =
      (List.replicate ((ns.flatMap inSource).count '[') ['[', ']']).flatten := by
  induction h with
  | nil => rfl
  | @cons items ns opening closing annotations opens closes _ ih =>
    rw [List.filter_append, List.append_eq_nil_iff] at hnamed
    have hitems := (areLost_annotations annotations fun p hp => hp.item.isNamed).1
    obtain rfl : items = [] := by
      rw [← hnamed.1]
      exact (List.filter_eq_self.2 fun p hp => (hitems p hp).item.isNamed).symm
    have hrest : ns.filter isNamed = [] := by
      simpa [isNamed_mark opens, isNamed_mark closes] using hnamed.2
    simp [opens.inReport_eq, closes.inReport_eq, opens.inSource_eq, closes.inSource_eq, ih hrest,
      Terminal.text, compactChars_cons, isBlank, List.replicate_succ]

theorem IsBrackets.weight_pos {ns : List Node} (h : IsBrackets ns)
    (hnamed : ns.filter isNamed ≠ []) : 0 < weight (ns.flatMap inSource) := by
  induction h with
  | nil => exact absurd rfl hnamed
  | @cons items ns opening closing annotations opens closes _ ih =>
    rw [List.flatMap_append, weight_append]
    rcases (areLost_annotations annotations fun p hp => hp.item.isNamed).2 with rfl | ⟨hpos, -⟩
    · have hrest : ns.filter isNamed ≠ [] := by
        simpa [isNamed_mark opens, isNamed_mark closes] using hnamed
      have hpos := ih hrest
      simp only [List.flatMap_cons, weight_append]
      omega
    · exact Nat.add_pos_left hpos _

theorem weight_brackets (n : Nat) : weight (List.replicate n ['[', ']']).flatten = 0 := by
  induction n with
  | zero => rfl
  | succ n ih => simpa [List.replicate_succ, weight_cons, isHeavy] using ih

/-- Of empty dimensions, only the brackets are shown. -/
theorem isAccounted_dimensions (hps : ps ∈ layouts .dimensions) (hfits : Piece.FitAll ps parts)
    (hwritten : (branch role .dimensions parts).written = (branch role .dimensions parts).inSource) :
    (branch role .dimensions parts).IsAccounted := by
  cases List.mem_singleton.1 hps
  obtain ⟨ns, _, rfl, hns, rfl⟩ := hfits
  rw [List.append_nil] at hwritten ⊢
  have hbrackets := Piece.brackets_of_many hns
  by_cases hnamed : ns.filter isNamed = []
  · refine .inl ⟨by rw [shortens, kind_branch, children, parts_branch, hnamed]; rfl, ?_⟩
    have hcount : (branch role .dimensions ns).text.toList.count '[' =
        (ns.flatMap inSource).count '[' := by
      rw [← inSource_branch role .dimensions, ← hwritten, written, compactChars, List.count_filter rfl]
    rw [IsShownWhole, inReport, kind_branch]
    dsimp only
    rw [hcount, parts_branch, hbrackets.flatMap_inReport hnamed]
  · refine .inr ⟨?_, fun _ => ?_⟩
    · rw [shortens, kind_branch, children, parts_branch]
      simpa using hnamed
    · rw [inReport, kind_branch, inSource_branch]
      dsimp only
      rw [weight_brackets]
      exact hbrackets.weight_pos hnamed

end

/-! ## Nodes of all kinds -/

/-- The rules of nodes that are taken apart. -/
def takenApartRules : List Rule :=
  [.methodInvocation, .fieldAccess, .arrayAccess, .parenthesizedExpression, .ternaryExpression,
    .assignmentExpression, .binaryExpression, .unaryExpression, .updateExpression,
    .instanceofExpression, .castExpression, .lambdaExpression, .methodReference, .argumentList,
    .arrayInitializer, .formalParameters, .inferredParameters, .objectCreationExpression,
    .arrayCreationExpression, .dimensionsExpr, .dimensions]

theorem IsPhrase.mem_takenApartRules {n : Node} {r : Rule} (h : n.IsPhrase r)
    (hn : n.kind.isTakenApart = true) : r ∈ takenApartRules := by
  have hrules : rules.all (fun r => !(definition r).kind.any Kind.isTakenApart ||
      takenApartRules.contains r) = true := by
    decide +kernel
  have hr := List.all_eq_true.1 hrules r (List.mem_of_getElem? (getElem?_rules r))
  rw [h.kind, Option.any_some, hn, Bool.not_true, Bool.false_or] at hr
  exact List.contains_iff_mem.1 hr

theorem IsPhrase.of_layout {n : Node} {r : Rule} {k : Kind} (h : n.IsPhrase r)
    (hn : n.isIncomplete = false) (hk : (definition r).kind = some k) {P : Node → Prop}
    (hP : ∀ role parts ps, ps ∈ layouts r → Piece.FitAll ps parts → P (.branch role k parts)) :
    P n := by
  obtain ⟨ps, hps, hfits⟩ := h.exists_layout hn
  obtain ⟨role, parts, rfl⟩ := h.exists_branch hk
  exact hP role parts ps hps hfits

/-- **What is shown of a phrase** is all of its parts, or it shortens and less is shown. -/
theorem IsPhrase.isAccounted {n : Node} {r : Rule} (h : n.IsPhrase r) (hn : n.isIncomplete = false)
    (hkind : n.kind.isTakenApart = true) (hwritten : n.written = n.inSource)
    (helides : n.elides = false) (hparts : ∀ p ∈ n.parts, p.elides = false) : n.IsAccounted := by
  have hr := h.mem_takenApartRules hkind
  simp only [takenApartRules, List.mem_cons, List.not_mem_nil, or_false] at hr
  rcases hr with rfl | rfl | rfl | rfl | rfl | rfl | rfl | rfl | rfl | rfl | rfl | rfl | rfl | rfl |
    rfl | rfl | rfl | rfl | rfl | rfl | rfl
  · exact h.of_layout hn rfl fun _ _ _ => isAccounted_methodInvocation
  · exact h.of_layout hn rfl fun _ _ _ => isAccounted_fieldAccess
  · exact h.of_layout hn rfl fun _ _ _ => isAccounted_arrayAccess
  · exact h.of_layout hn rfl fun _ _ _ => isAccounted_parenthesized
  · exact h.of_layout hn rfl fun _ _ _ => isAccounted_ternary
  · exact h.of_layout hn rfl fun _ _ _ => isAccounted_assignment
  · exact h.of_layout hn rfl fun _ _ _ => isAccounted_binary
  · exact h.of_layout hn rfl fun _ _ _ => isAccounted_unary
  · exact h.of_layout hn rfl fun _ _ _ => isAccounted_update
  · exact h.of_layout hn rfl fun _ _ _ => isAccounted_instanceof
  · exact h.of_layout hn rfl fun _ _ _ => isAccounted_castExpression
  · exact h.of_layout hn rfl (P := fun n => n.elides = false → n.IsAccounted)
      (fun _ _ _ => isAccounted_lambda) helides
  · exact h.of_layout hn rfl fun _ _ _ => isAccounted_methodReference
  · exact h.of_layout hn rfl fun _ _ _ => isAccounted_argumentList
  · exact h.of_layout hn rfl (P := fun n => n.elides = false → n.IsAccounted)
      (fun _ _ _ => isAccounted_arrayInitializer) helides
  · exact h.of_layout hn rfl fun _ _ _ => isAccounted_formalParameters
  · exact h.of_layout hn rfl fun _ _ _ => isAccounted_inferredParameters
  · exact h.of_layout hn rfl (P := fun n => n.elides = false → n.IsAccounted)
      (fun _ _ _ => isAccounted_objectCreation) helides
  · exact h.of_layout hn rfl (P := fun n => (∀ p ∈ n.parts, p.elides = false) → n.IsAccounted)
      (fun _ _ _ => isAccounted_arrayCreation) hparts
  · exact isAccounted_dimensionsExpr h hn
  · exact h.of_layout hn rfl (P := fun n => n.written = n.inSource → n.IsAccounted)
      (fun _ _ _ => isAccounted_dimensions) hwritten

end Node

end CallOrigins.Java
