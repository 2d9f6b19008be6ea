import CallOrigins.Proofs.Agreement
import CallOrigins.Proofs.Java.Renumbering

/-!
# References under other numbers

The calls that a search looks at are sorted by the numbers of their files, and repetitions that
stand side by side are removed. Under other numbers the files change places, but the calls at one
place of one file do not: they are gathered in the same order, a stable sort leaves them so, and
repetitions are removed among them alone. So both searches find the same references, in the same
order for each caller and offset (`Renumbering.references`).
-/

namespace CallOrigins.Java.Index

/-! ## The order of sites -/

/-- The place of a call: its file and its offset. -/
theorem placeOf_eq {ix : Index} {s : Site} {caller : IndexedMethod} {call : Call}
    (h : ix.callAt? s = some (caller, call)) : ix.placeOf s = (caller.file, call.offset) := by
  rw [placeOf, h]

theorem siteLe_of_placeOf_eq {ix : Index} {s t : Site} (h : ix.placeOf s = ix.placeOf t) :
    ix.siteLe s t = true := by
  simp [siteLe, h]

theorem placeOf_eq_of_siteLe {ix : Index} {s t u : Site} (hst : ix.siteLe s t = true)
    (htu : ix.siteLe t u = true) (h : ix.placeOf s = ix.placeOf u) :
    ix.placeOf t = ix.placeOf s := by
  simp only [siteLe, Bool.or_eq_true, Bool.and_eq_true, decide_eq_true_eq, beq_iff_eq, h] at *
  exact Prod.ext (by omega) (by omega)

/-- A reference tells the place of its call and the caller. -/
theorem exists_of_referenceAt? {ix : Index} {target : Nat} {method caller : IndexedMethod}
    {call : Call} {r : Reference} (h : ix.referenceAt? target method caller call = some r) :
    ∃ accuracy,
      r = ⟨ix.pathOf caller, call.offset, call.length, accuracy, some caller.decl.id⟩ := by
  unfold referenceAt? at h
  split at h
  · obtain ⟨accuracy, -, rfl⟩ := Option.map_eq_some_iff.1 h
    exact ⟨accuracy, rfl⟩
  · cases h

namespace Renumbering

variable {ix ix' : Index} (R : Renumbering ix ix')

/-! ## Sites -/

/-- The site of a call under the other numbers. -/
def site (s : Site) : Site := ⟨R.method s.method, s.place⟩

theorem site_injective : Function.Injective R.site := by
  rintro ⟨i, j⟩ ⟨i', j'⟩ h
  obtain ⟨hmethod, rfl⟩ := Site.mk.inj h
  cases R.method.injective hmethod
  rfl

theorem site_surjective : Function.Surjective R.site := by
  rintro ⟨i, j⟩
  exact ⟨⟨R.method.symm i, j⟩, by rw [site, R.method.apply_symm_apply]⟩

theorem callAt? (s : Site) :
    ix'.callAt? (R.site s) =
      (ix.callAt? s).map (fun (d, c) => (d.renumber R.file R.type, c)) := by
  rw [Index.callAt?, Index.callAt?, site, R.methods.get]
  cases ix.methods[s.method]? with
  | none => rfl
  | some d =>
    change (d.decl.calls[s.place]?).map _ = _
    rw [Option.map_map]
    rfl

theorem mem_sitesNamed {name : String} {s : Site} :
    R.site s ∈ ix'.sitesNamed name ↔ s ∈ ix.sitesNamed name := by
  rw [Index.mem_sitesNamed, Index.mem_sitesNamed, R.callAt?]
  constructor
  · rintro ⟨caller', call, hcall, hname⟩
    obtain ⟨⟨caller, call⟩, hcall, heq⟩ := Option.map_eq_some_iff.1 hcall
    cases heq
    exact ⟨caller, call, hcall, hname⟩
  · rintro ⟨caller, call, hcall, hname⟩
    exact ⟨_, call, by rw [hcall]; rfl, hname⟩

/-- Two calls stand at one place under both numberings or under none. -/
theorem placeOf_site_eq_iff {s t : Site} {name name' : String} (hs : s ∈ ix.sitesNamed name)
    (ht : t ∈ ix.sitesNamed name') :
    ix'.placeOf (R.site s) = ix'.placeOf (R.site t) ↔ ix.placeOf s = ix.placeOf t := by
  obtain ⟨d, c, hd, -⟩ := Index.mem_sitesNamed.1 hs
  obtain ⟨e, c', he, -⟩ := Index.mem_sitesNamed.1 ht
  have hd' : ix'.callAt? (R.site s) = some (d.renumber R.file R.type, c) := by
    rw [R.callAt?, hd]
    rfl
  have he' : ix'.callAt? (R.site t) = some (e.renumber R.file R.type, c') := by
    rw [R.callAt?, he]
    rfl
  rw [placeOf_eq hd, placeOf_eq he, placeOf_eq hd', placeOf_eq he', Prod.mk.injEq, Prod.mk.injEq]
  exact and_congr_left fun _ => R.file.injective.eq_iff

/-- **The calls under a name agree place by place.** -/
theorem sitesNamed_agree (name : String) :
    AgreeBy ix'.placeOf (ix'.sitesNamed name) ((ix.sitesNamed name).map R.site) := by
  intro place
  have hperm : (ix'.sitesNamed name).Perm ((ix.sitesNamed name).map R.site) := by
    refine (List.perm_ext_iff_of_nodup (nodup_sitesNamed ix' name)
      ((nodup_sitesNamed ix name).map R.site_injective)).2 fun s' => ?_
    obtain ⟨s, rfl⟩ := R.site_surjective s'
    rw [R.mem_sitesNamed, List.mem_map_of_injective R.site_injective]
  refine List.Perm.eq_of_pairwise ?_ ((pairwise_sitesNamed ix' name).filter _) ?_ (hperm.filter _)
  · intro s t _ _ hst hts
    simp only [Site.Before] at hst hts
    omega
  · rw [List.pairwise_filter, List.pairwise_map]
    refine (pairwise_sitesNamed ix name).imp_of_mem fun {s t} hs ht hst hps hpt => ?_
    rcases hst with hlt | ⟨heq, hlt⟩
    · -- the calls at one place are in one file, and there the methods keep their order
      obtain ⟨d, c, hd, -⟩ := Index.mem_sitesNamed.1 hs
      obtain ⟨e, c', he, -⟩ := Index.mem_sitesNamed.1 ht
      have hplace := (R.placeOf_site_eq_iff hs ht).1
        ((of_decide_eq_true hps).trans (of_decide_eq_true hpt).symm)
      rw [placeOf_eq hd, placeOf_eq he, Prod.mk.injEq] at hplace
      exact .inl (R.methodsOrdered _ _ d e (callAt?_eq_some.1 hd).1 (callAt?_eq_some.1 he).1
        hplace.1 hlt)
    · exact .inr ⟨congrArg R.method heq, hlt⟩

/-- **The calls that a search looks at agree place by place.** -/
theorem candidateSites_agree (m : MethodId) :
    AgreeBy ix'.placeOf (ix'.candidateSites m) ((ix.candidateSites m).map R.site) := by
  intro place
  have hgathered : ((searchNames m).flatMap ix'.sitesNamed).filter
      (fun s => ix'.placeOf s = place) =
      (((searchNames m).flatMap ix.sitesNamed).map R.site).filter
        (fun s => ix'.placeOf s = place) := by
    rw [List.map_flatMap, List.filter_flatMap, List.filter_flatMap]
    exact List.flatMap_congr fun name _ => R.sitesNamed_agree name place
  have hclass : ∀ s ∈ (searchNames m).flatMap ix.sitesNamed,
      ∀ t ∈ (searchNames m).flatMap ix.sitesNamed,
      (ix'.placeOf (R.site s) = ix'.placeOf (R.site t) ↔ ix.placeOf s = ix.placeOf t) := by
    intro s hs t ht
    obtain ⟨name, -, hs⟩ := List.mem_flatMap.1 hs
    obtain ⟨name', -, ht⟩ := List.mem_flatMap.1 ht
    exact R.placeOf_site_eq_iff hs ht
  rw [candidateSites, candidateSites, List.filter_map]
  rw [filter_eraseReps (List.pairwise_mergeSort ix'.siteLe_trans ix'.siteLe_total _),
    filter_mergeSort ix'.siteLe_trans ix'.siteLe_total, hgathered,
    filter_eraseReps (List.pairwise_mergeSort ix.siteLe_trans ix.siteLe_total _),
    filter_mergeSort ix.siteLe_trans ix.siteLe_total, ← eraseReps_map R.site_injective,
    List.filter_map]
  · intro s hs t ht hps hpt
    refine siteLe_of_placeOf_eq ((hclass s hs t ht).1 ?_)
    exact (of_decide_eq_true hps).trans (of_decide_eq_true hpt).symm
  · intro s hs t ht u hu hst htu hps hpu
    rw [List.mem_mergeSort] at hs ht hu
    have hsu := (hclass s hs u hu).1 ((of_decide_eq_true hps).trans (of_decide_eq_true hpu).symm)
    have hts := (hclass t ht s hs).2 (placeOf_eq_of_siteLe hst htu hsu)
    exact decide_eq_true (hts.trans (of_decide_eq_true hps))
  · intro s _ t _ hps hpt
    exact siteLe_of_placeOf_eq ((of_decide_eq_true hps).trans (of_decide_eq_true hpt).symm)
  · intro s _ t _ u _ hst htu hps hpu
    have hsu := (of_decide_eq_true hps).trans (of_decide_eq_true hpu).symm
    exact decide_eq_true ((placeOf_eq_of_siteLe hst htu hsu).trans (of_decide_eq_true hps))

/-! ## References -/

section References

variable (wf : ix.WellFormed) (wf' : ix'.WellFormed)

include R wf wf'

theorem reference? (target : Nat) (method : IndexedMethod) (s : Site) :
    ix'.reference? (R.method target) (method.renumber R.file R.type) (R.site s) =
      ix.reference? target method s := by
  rw [Index.reference?, Index.reference?, R.callAt?, Option.bind_map]
  refine congrArg _ (funext fun found => ?_)
  obtain ⟨caller, call⟩ := found
  have hpath : ix'.pathOf (caller.renumber R.file R.type) = ix.pathOf caller := by
    rw [pathOf, pathOf, R.fileOf?]
  dsimp only [Function.comp_apply]
  rw [referenceAt?, referenceAt?, R.bind? wf wf', hpath]
  rfl

/-- **Both searches find the same references**, and in the same order for each caller and
offset. -/
theorem references (m : MethodId) :
    (∃ fault, ix.references (fun _ => false) m = .error fault ∧
      ix'.references (fun _ => false) m = .error fault) ∨
    ∃ rs rs', ix.references (fun _ => false) m = .ok rs ∧
      ix'.references (fun _ => false) m = .ok rs' ∧
      AgreeBy (fun r : Reference => (r.element, r.offset)) rs' rs := by
  have hnumber := R.methodNumber? wf wf' m
  cases htarget : ix.methodNumber? m with
  | none =>
    rw [htarget] at hnumber
    refine .inl ⟨.query (m.text ++ " is not in the index"), ?_, ?_⟩
    · simp [Index.references, htarget]
    · simp [Index.references, hnumber]
  | some target =>
    rw [htarget] at hnumber
    obtain ⟨method, hmethod, -⟩ := wf.methodNumber?_eq_some_iff.1 htarget
    have hmethod' : ix'.methods[R.method target]? = some (method.renumber R.file R.type) := by
      rw [R.methods.get, hmethod]
      rfl
    refine .inr ⟨_, _, (references_eq htarget hmethod).2, (references_eq hnumber hmethod').2, ?_⟩
    have hrs : (ix.candidateSites m).filterMap (ix.reference? target method) =
        ((ix.candidateSites m).map R.site).filterMap
          (ix'.reference? (R.method target) (method.renumber R.file R.type)) := by
      rw [List.filterMap_map]
      exact List.filterMap_congr fun s _ => (R.reference? wf wf' target method s).symm
    rw [hrs]
    refine (R.candidateSites_agree m).filterMap fun s _ t _ r r' hr hr' hkey => ?_
    -- one caller and offset are one place
    obtain ⟨⟨d, c⟩, hd, hr⟩ := Option.bind_eq_some_iff.1 hr
    obtain ⟨⟨e, c'⟩, he, hr'⟩ := Option.bind_eq_some_iff.1 hr'
    obtain ⟨_, rfl⟩ := exists_of_referenceAt? hr
    obtain ⟨_, rfl⟩ := exists_of_referenceAt? hr'
    obtain ⟨hid, hoffset⟩ := Prod.mk.inj hkey
    have hmethods := wf'.eq_of_id_eq (callAt?_eq_some.1 hd).1 (callAt?_eq_some.1 he).1
      (Option.some.inj hid)
    have hcaller := (callAt?_eq_some.1 hd).1
    rw [hmethods, (callAt?_eq_some.1 he).1] at hcaller
    cases hcaller
    rw [placeOf_eq hd, placeOf_eq he]
    exact congrArg (d.file, ·) hoffset

end References

end Renumbering
end CallOrigins.Java.Index
