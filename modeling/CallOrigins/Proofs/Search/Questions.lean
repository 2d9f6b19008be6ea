import CallOrigins.Proofs.Search.Cancellation

/-!
# What a traversal asks, and when

A traversal puts its questions in a certain order. No method is looked for, classified or searched
twice. Only a method that exists is searched, and only the target or one that was classified as
not external. The arguments of a call are asked for once, and its line directly after them.

The order is given by `MayAsk`, which says of each question after which others it may be asked. A
script *follows* such a rule if it does so for all answers (`Script.Follows`); cancellation ends a
run early or changes the answer of an interrupted search, and neither can break the rule. That the
traversal follows it comes from one invariant (`Traversal.Asked`), which ties the state of a
traversal to the questions asked so far, with one lemma for each part of the traversal.
-/

namespace CallOrigins

/-! ## Scripts that follow a rule -/

/-- Questions each of which the rule allows after those before it. -/
inductive Ruled (rule : List Question → Question → Prop) : List Question → Prop where
  | nil : Ruled rule []
  | concat {asked : List Question} {q : Question} :
    Ruled rule asked → rule asked q → Ruled rule (asked ++ [q])

namespace Ruled

variable {rule : List Question → Question → Prop} {asked : List Question}

theorem allows (h : Ruled rule asked) {before after : List Question} {q : Question}
    (heq : asked = before ++ q :: after) : rule before q := by
  induction h generalizing after with
  | nil => simp at heq
  | @concat asked last _ hlast ih =>
    rcases List.eq_nil_or_concat after with rfl | ⟨after, q', rfl⟩
    · obtain ⟨rfl, h⟩ := List.append_inj' heq rfl
      cases h
      exact hlast
    · rw [List.concat_eq_append, ← List.cons_append, ← List.append_assoc] at heq
      exact ih (List.append_inj' heq rfl).1

/-- A kind of question that is asked only after questions of other kinds is asked at most once. -/
theorem countP_le_one (h : Ruled rule asked) {kind : Question → Bool}
    (first : ∀ before q, rule before q → kind q = true → ∀ q' ∈ before, ¬ kind q' = true) :
    asked.countP kind ≤ 1 := by
  induction h with
  | nil => exact Nat.zero_le 1
  | @concat asked last _ hlast ih =>
    rw [List.countP_append, List.countP_singleton]
    split
    next hkind => exact Nat.le_of_eq (by rw [List.countP_eq_zero.2 (first asked last hlast hkind)])
    next => exact ih

theorem count_le_one (h : Ruled rule asked) {q : Question}
    (first : ∀ before, rule before q → q ∉ before) : asked.count q ≤ 1 := by
  refine h.countP_le_one fun before q₁ hq₁ heq₁ q₂ hq₂ heq₂ => ?_
  cases beq_iff_eq.1 heq₁
  cases beq_iff_eq.1 heq₂
  exact first before hq₁ hq₂

end Ruled

namespace Script

variable {α β : Type} {cb : Codebase} {rule : List Question → Question → Prop}
  {mayEnd : List Question → Prop}

/-- A script that follows a rule after the questions asked before it: whatever is answered, each
of its questions is allowed, it fails only where a run may end, and a result is as promised. -/
def Follows (cb : Codebase) (rule : List Question → Question → Prop)
    (mayEnd : List Question → Prop) (post : List Question → α → Prop) :
    Script α → List Question → Prop
  | done a, asked => post asked a
  | fail _, asked => mayEnd asked
  | check next, asked => next.Follows cb rule mayEnd post asked
  | ask q next, asked =>
    rule asked q ∧
      ∀ cancelled, (next (cb.reply cancelled q)).Follows cb rule mayEnd post (asked ++ [q])

theorem Follows.bind {s : Script α} {f : α → Script β} {asked : List Question}
    {mid : List Question → α → Prop} {post : List Question → β → Prop}
    (hs : s.Follows cb rule mayEnd mid asked)
    (hf : ∀ asked a, mid asked a → (f a).Follows cb rule mayEnd post asked) :
    (s.bind f).Follows cb rule mayEnd post asked := by
  induction s generalizing asked with
  | done a => exact hf asked a hs
  | fail why => exact hs
  | check next ih => exact ih hs
  | ask q next ih => exact ⟨hs.1, fun cancelled => ih _ (hs.2 cancelled)⟩

/-- **A run of a script that follows a rule**, whenever cancellation is requested: its questions
are as the rule says, and unless it is cancelled it ends where it may. -/
theorem Follows.run {s : Script α} {p : Progress}
    (hs : s.Follows cb rule mayEnd (fun asked _ => mayEnd asked) p.asked)
    (hp : Ruled rule p.asked) (moment : CancelMoment) :
    Ruled rule (s.run cb moment p).progress.asked ∧
      ((s.run cb moment p).outcome = .cancelled ∨ mayEnd (s.run cb moment p).progress.asked) := by
  induction s generalizing p with
  | done a => exact ⟨hp, .inr hs⟩
  | fail why => exact ⟨hp, .inr hs⟩
  | check next ih =>
    rw [Script.run]
    split
    · exact ⟨hp, .inl rfl⟩
    · exact ih hs hp
  | ask q next ih => exact ih _ (p := p.afterQuestion q) (hs.2 _) (hp.concat hs.1)

/-- A run that finishes has the result that the script promises. -/
theorem Follows.finished {s : Script α} {p : Progress} {post : List Question → α → Prop}
    (hs : s.Follows cb rule mayEnd post p.asked) {moment : CancelMoment} {a : α}
    (hrun : (s.run cb moment p).outcome = .finished a) :
    post (s.run cb moment p).progress.asked a := by
  induction s generalizing p with
  | done b =>
    cases hrun
    exact hs
  | fail why => cases hrun
  | check next ih =>
    rw [Script.run] at hrun ⊢
    by_cases hp : moment p.afterCheck = true
    · rw [if_pos hp] at hrun
      cases hrun
    · rw [if_neg hp] at hrun ⊢
      exact ih (p := p.afterCheck) hs hrun
  | ask q next ih => exact ih _ (p := p.afterQuestion q) (hs.2 _) hrun

end Script

/-! ## The rule of the traversal -/

/-- The last question was not for the arguments of a call. -/
def Settled (asked : List Question) : Prop :=
  ∀ caller target offset length, asked.getLast? ≠ some (.arguments caller target offset length)

/-- The callers of a method may be sought: it is the target or known not to be external. -/
def Sought (cb : Codebase) (target : MethodId) (asked : List Question) (m : MethodId) : Prop :=
  m = target ∨ .isExternal m ∈ asked ∧ cb.isExternal m = false

/-- The questions that a traversal may ask after others. -/
inductive MayAsk (cb : Codebase) (target : MethodId) (asked : List Question) : Question → Prop where
  | isPresent {m : MethodId} (settled : Settled asked) (first : .isPresent m ∉ asked) :
    MayAsk cb target asked (.isPresent m)
  | isExternal {m : MethodId} (settled : Settled asked) (first : .isExternal m ∉ asked) :
    MayAsk cb target asked (.isExternal m)
  | references {m : MethodId} (settled : Settled asked) (first : .references m ∉ asked)
    (lookedFor : .isPresent m ∈ asked) (present : cb.isPresent m = true)
    (sought : Sought cb target asked m) : MayAsk cb target asked (.references m)
  | enclosing {r : Reference} (settled : Settled asked) : MayAsk cb target asked (.enclosing r)
  | arguments {caller : MethodId} {offset length : Nat} (settled : Settled asked)
    (first : ∀ target length, .arguments caller target offset length ∉ asked) :
    MayAsk cb target asked (.arguments caller target offset length)
  | line {caller : MethodId} {offset length : Nat}
    (last : asked.getLast? = some (.arguments caller target offset length)) :
    MayAsk cb target asked (.line caller offset)

/-- After the arguments of a call, its line is asked for. -/
theorem MayAsk.eq_line {cb : Codebase} {target caller callee : MethodId} {offset length : Nat}
    {before : List Question} {q : Question}
    (h : MayAsk cb target (before ++ [.arguments caller callee offset length]) q) :
    q = .line caller offset := by
  have unsettled : ¬ Settled (before ++ [.arguments caller callee offset length]) :=
    fun settled => settled _ _ _ _ List.getLast?_concat
  cases h with
  | line last =>
    rw [List.getLast?_concat] at last
    cases last
    rfl
  | isPresent settled => exact absurd settled unsettled
  | isExternal settled => exact absurd settled unsettled
  | references settled => exact absurd settled unsettled
  | enclosing settled => exact absurd settled unsettled
  | arguments settled => exact absurd settled unsettled

theorem Sought.mono {cb : Codebase} {target m : MethodId} {asked asked' : List Question}
    (h : Sought cb target asked m) (sub : asked ⊆ asked') : Sought cb target asked' m :=
  h.imp_right fun ⟨hm, hext⟩ => ⟨sub hm, hext⟩

namespace Traversal

open Script

/-- How the state of a traversal stands to the questions asked so far. -/
structure Asked (cb : Codebase) (target : MethodId) (t : Traversal) (asked : List Question) :
    Prop where
  settled : Settled asked
  present : ∀ m, .isPresent m ∈ asked → m ∈ t.visited
  searched : ∀ m, .references m ∈ asked → m ∈ t.visited
  classified : ∀ m external, t.external.lookup m = some external ↔
    .isExternal m ∈ asked ∧ cb.isExternal m = external
  recorded : ∀ caller target offset length,
    .arguments caller target offset length ∈ asked → (caller, offset) ∈ t.recorded
  waiting : ∀ m ∈ t.queue, Sought cb target asked m

variable {cb : Codebase} {target searched m : MethodId} {t : Traversal} {asked : List Question}

/-- A question that says nothing of the invariant. -/
theorem Asked.concat (h : Asked cb target t asked) {q : Question}
    (visited : ∀ m, q = .isPresent m ∨ q = .references m → m ∈ t.visited)
    (notExternal : ∀ m, q ≠ .isExternal m)
    (notArguments : ∀ caller target offset length, q ≠ .arguments caller target offset length) :
    Asked cb target t (asked ++ [q]) where
  settled caller target offset length hlast := by
    rw [List.getLast?_append, List.getLast?_singleton] at hlast
    exact notArguments caller target offset length (Option.some.inj hlast)
  present m hm := by
    rcases List.mem_append.1 hm with hm | hm
    · exact h.present m hm
    · exact visited m (.inl (List.mem_singleton.1 hm).symm)
  searched m hm := by
    rcases List.mem_append.1 hm with hm | hm
    · exact h.searched m hm
    · exact visited m (.inr (List.mem_singleton.1 hm).symm)
  classified m external := by
    have hm : .isExternal m ∉ [q] := fun hm => notExternal m (List.mem_singleton.1 hm).symm
    rw [h.classified m, List.mem_append, or_iff_left hm]
  recorded caller target offset length hm := by
    rcases List.mem_append.1 hm with hm | hm
    · exact h.recorded caller target offset length hm
    · exact absurd (List.mem_singleton.1 hm).symm (notArguments caller target offset length)
  waiting m hm := (h.waiting m hm).mono (List.subset_append_left asked [q])

theorem Asked.noteExternal (h : Asked cb target t asked) (m : MethodId) :
    Asked cb target (t.noteExternal m (cb.isExternal m)) (asked ++ [.isExternal m]) where
  settled caller target offset length hlast := by
    rw [List.getLast?_append, List.getLast?_singleton] at hlast
    cases hlast
  present m' hm' := h.present m' (by simpa using hm')
  searched m' hm' := h.searched m' (by simpa using hm')
  classified m' external := by
    rw [Traversal.noteExternal, List.lookup_cons]
    by_cases heq : m' = m
    · simp [heq]
    · simp only [beq_false_of_ne heq, h.classified m', List.mem_append, List.mem_singleton,
        Question.isExternal.injEq, heq, or_false]
  recorded caller target offset length hm' :=
    h.recorded caller target offset length (by simpa using hm')
  waiting m' hm' := (h.waiting m' hm').mono (List.subset_append_left asked _)

theorem Asked.enqueue (h : Asked cb target t asked) (hm : Sought cb target asked m) :
    Asked cb target (t.enqueue m) asked := by
  unfold Traversal.enqueue
  split
  · exact h
  · refine { h with waiting := fun m' hm' => ?_ }
    rcases List.mem_append.1 hm' with hm' | hm'
    · exact h.waiting m' hm'
    · exact List.mem_singleton.1 hm' ▸ hm

/-- What a part of the traversal does: it follows the rule and keeps the invariant. -/
def Keeps (cb : Codebase) (target : MethodId) (s : Script Traversal) (asked : List Question) :
    Prop :=
  s.Follows cb (MayAsk cb target) Settled (fun asked t => Asked cb target t asked) asked

theorem classify_follows (h : Asked cb target t asked) :
    (t.classify m).Follows cb (MayAsk cb target) Settled
      (fun asked a => Asked cb target a.2 asked ∧ a.2.external.lookup m = some a.1) asked := by
  unfold classify
  split
  next external hm => exact ⟨h, hm⟩
  next hm =>
    have first : .isExternal m ∉ asked := fun hasked => by
      simpa [hm] using (h.classified m _).2 ⟨hasked, rfl⟩
    refine ⟨.isExternal h.settled first, fun _ => ⟨h.noteExternal m, ?_⟩⟩
    simp [Traversal.noteExternal, Codebase.reply]

theorem Asked.record (h : Asked cb target t asked) (r : Reference) (calls : List DirectCall) :
    Asked cb target
      { t with recorded := (m, r.offset) :: t.recorded, directCalls := calls }
      (asked ++ [.arguments m target r.offset r.length] ++ [.line m r.offset]) where
  settled caller target offset length hlast := by
    rw [List.getLast?_append, List.getLast?_singleton] at hlast
    cases hlast
  present m' hm' := h.present m' (by simpa using hm')
  searched m' hm' := h.searched m' (by simpa using hm')
  classified m' external := by
    rw [h.classified m' external]
    simp
  recorded caller target' offset length hm' := by
    simp only [List.mem_append, List.mem_singleton, Question.arguments.injEq, reduceCtorEq,
      or_false] at hm'
    rcases hm' with hm' | ⟨rfl, -, rfl, -⟩
    · exact List.mem_cons_of_mem _ (h.recorded caller target' offset length hm')
    · exact List.mem_cons_self
  waiting m' hm' := (h.waiting m' hm').mono (by simp)

theorem record_follows (h : Asked cb target t asked) {r : Reference}
    (first : (m, r.offset) ∉ t.recorded) :
    (t.record target m r).Follows cb (MayAsk cb target) Settled
      (fun asked t' => Asked cb target t' asked ∧ t'.external = t.external) asked := by
  have hfirst : ∀ callee length, .arguments m callee r.offset length ∉ asked :=
    fun callee length hasked => first (h.recorded m callee r.offset length hasked)
  refine ⟨.arguments h.settled hfirst, fun _ => ⟨?_, fun _ => ⟨h.record r _, rfl⟩⟩⟩
  exact .line List.getLast?_concat

theorem acceptCaller_keeps (h : Asked cb target t asked) (r : Reference) :
    Keeps cb target (t.acceptCaller target searched r m) asked := by
  refine (classify_follows h).bind fun asked ⟨external, t⟩ ⟨ht, hm⟩ => ?_
  -- the edge changes nothing that the invariant speaks of
  have hedge : Asked cb target { t with graph := t.graph.addEdge searched m } asked := { ht with }
  have hlast : ∀ asked t', Asked cb target t' asked → t'.external = t.external →
      Asked cb target (if external then t' else t'.enqueue m) asked := by
    intro asked t' ht' heq
    cases external with
    | true => exact ht'
    | false => exact ht'.enqueue (.inr ((ht'.classified m false).1 (heq ▸ hm)))
  dsimp only
  split
  next hnew =>
    have first : (m, r.offset) ∉ t.recorded := by simpa using (Bool.and_eq_true_iff.1 hnew).2
    exact (record_follows hedge first).bind fun asked t' ht' => hlast asked t' ht'.1 ht'.2
  next => exact hlast asked _ hedge rfl

theorem accept_keeps (h : Asked cb target t asked) (r : Reference) :
    Keeps cb target (t.accept target searched r) asked := by
  unfold accept
  split
  · exact h
  · have hasked : Asked cb target t (asked ++ [.enclosing r]) :=
      h.concat (by simp) (by simp) (by simp)
    refine ⟨.enclosing h.settled, fun _ => ?_⟩
    dsimp only [Codebase.reply]
    cases cb.enclosing r with
    | none => exact hasked
    | some caller => exact acceptCaller_keeps hasked r

theorem acceptAll_keeps {rs : List Reference} (h : Asked cb target t asked) :
    Keeps cb target (acceptAll target searched rs t) asked := by
  induction rs generalizing t asked with
  | nil => exact h
  | cons r rs ih => exact (accept_keeps h r).bind fun asked t ht => ih ht

theorem visit_keeps (h : Asked cb target t asked) (visited : m ∈ t.visited)
    (sought : Sought cb target asked m) (notPresent : .isPresent m ∉ asked)
    (notSearched : .references m ∉ asked) : Keeps cb target (visit t target m) asked := by
  have hpresent : Asked cb target t (asked ++ [.isPresent m]) :=
    h.concat (by simpa using visited) (by simp) (by simp)
  have hsearched : Asked cb target t (asked ++ [.isPresent m] ++ [.references m]) :=
    hpresent.concat (by simpa using visited) (by simp) (by simp)
  refine ⟨.isPresent h.settled notPresent, fun _ => ?_⟩
  dsimp only [Codebase.reply]
  cases hm : cb.isPresent m with
  | false => exact hpresent
  | true =>
    refine ⟨?_, fun cancelled => ?_⟩
    · exact .references hpresent.settled (by simpa using notSearched) (by simp) hm
        (sought.mono (List.subset_append_left ..))
    · generalize cb.reply cancelled (.references m) = answer
      rcases answer with fault | rs
      · simp only [done_bind]
        cases fault.fatal? with
        | none => exact hsearched
        | some why => exact hsearched.settled
      · exact acceptAll_keeps hsearched

/-- Taking the first method off the queue. -/
theorem Asked.dequeue (h : Asked cb target t asked) {queue : List MethodId}
    (hqueue : t.queue = m :: queue) {visited : List MethodId} (sub : t.visited ⊆ visited) :
    Asked cb target { t with queue, visited } asked :=
  { h with
    present := fun m hm => sub (h.present m hm)
    searched := fun m hm => sub (h.searched m hm)
    waiting := fun m' hm' => h.waiting m' (hqueue ▸ List.mem_cons_of_mem m hm') }

theorem expand_keeps (fuel : Nat) (h : Asked cb target t asked) :
    Keeps cb target (expand target fuel t) asked := by
  induction fuel generalizing t asked with
  | zero => exact h
  | succ fuel ih =>
    rw [expand]
    simp only [bind_eq_bind, checkpoint_bind]
    split
    next => exact h
    next m queue hqueue =>
      split
      next => exact ih (h.dequeue hqueue (List.Subset.refl _))
      next hm =>
        have sought : Sought cb target asked m := h.waiting m (hqueue ▸ List.mem_cons_self)
        refine (visit_keeps (h.dequeue hqueue (List.subset_cons_self m _)) List.mem_cons_self sought
          (fun hp => hm (h.present m hp)) (fun hs => hm (h.searched m hs))).bind ?_
        exact fun asked t ht => ih ht

theorem asked_seeded (cb : Codebase) (target : MethodId) : Asked cb target (seeded target) [] where
  settled := by simp [Settled]
  present := by simp
  searched := by simp
  classified := by simp [seeded, enqueue]
  recorded := by simp
  waiting m hm := .inl (by simpa [seeded, enqueue] using hm)

end Traversal

theorem traverse_follows (cb : Codebase) (callers : Nat) (target : MethodId) :
    (traverse callers target).Follows cb (MayAsk cb target) Settled
      (fun asked _ => Settled asked) [] := by
  refine (Traversal.classify_follows (Traversal.asked_seeded cb target)).bind fun asked a ha => ?_
  exact (Traversal.expand_keeps (callers + 2) ha.1).bind fun asked t ht => ht.settled

namespace Codebase

/-- Does a question ask for the arguments of a call at this offset of this caller? -/
def asksArgumentsAt (caller : MethodId) (offset : Nat) : Question → Bool
  | .arguments caller' _ offset' _ => caller' = caller && offset' = offset
  | _ => false

theorem eq_arguments_of_asksArgumentsAt {caller : MethodId} {offset : Nat} {q : Question}
    (h : asksArgumentsAt caller offset q = true) :
    ∃ callee length, q = .arguments caller callee offset length := by
  cases q with
  | arguments caller' callee offset' length =>
    simp only [asksArgumentsAt, Bool.and_eq_true, decide_eq_true_eq] at h
    exact ⟨callee, length, by rw [h.1, h.2]⟩
  | _ => cases h

theorem traverse_ruled (cb : Codebase) (moment : CancelMoment) (target : MethodId) :
    Ruled (MayAsk cb target) (cb.traverse moment target).progress.asked ∧
      ((cb.traverse moment target).outcome = .cancelled ∨
        Settled (cb.traverse moment target).progress.asked) :=
  (traverse_follows cb cb.callers.length target).run (p := {}) .nil moment

/-- **What a traversal asks, whenever cancellation is requested.** It looks for, classifies and
searches each method at most once. It searches only methods that it has found to exist, and of
these only the target and those that it has classified as not external. It asks for the arguments
of each call of the target at most once, and then for the line of that call and for nothing else,
unless it is cancelled right there. -/
theorem traverse_asks (cb : Codebase) (moment : CancelMoment) (target : MethodId) :
    (∀ m,
      (cb.traverse moment target).progress.asked.count (.references m) ≤ 1 ∧
      (cb.traverse moment target).progress.asked.count (.isPresent m) ≤ 1 ∧
      (cb.traverse moment target).progress.asked.count (.isExternal m) ≤ 1) ∧
    (∀ before m after,
      (cb.traverse moment target).progress.asked = before ++ .references m :: after →
        .isPresent m ∈ before ∧ cb.isPresent m = true ∧
          (m = target ∨ .isExternal m ∈ before ∧ cb.isExternal m = false)) ∧
    (∀ caller offset,
      (cb.traverse moment target).progress.asked.countP (asksArgumentsAt caller offset) ≤ 1) ∧
    (∀ before caller callee offset length after,
      (cb.traverse moment target).progress.asked =
          before ++ .arguments caller callee offset length :: after →
        callee = target ∧
          ((∃ rest, after = .line caller offset :: rest) ∨
            after = [] ∧ (cb.traverse moment target).outcome = .cancelled)) := by
  obtain ⟨ruled, ends⟩ := cb.traverse_ruled moment target
  refine ⟨fun m => ⟨?_, ?_, ?_⟩, fun before m after hasked => ?_, fun caller offset => ?_,
    fun before caller callee offset length after hasked => ?_⟩
  · exact ruled.count_le_one fun before h => by cases h; assumption
  · exact ruled.count_le_one fun before h => by cases h; assumption
  · exact ruled.count_le_one fun before h => by cases h; assumption
  · cases ruled.allows hasked with
    | references _ _ lookedFor present sought => exact ⟨lookedFor, present, sought⟩
  · refine ruled.countP_le_one fun before q hq hkind q' hq' hkind' => ?_
    obtain ⟨callee, length, rfl⟩ := eq_arguments_of_asksArgumentsAt hkind
    obtain ⟨callee', length', rfl⟩ := eq_arguments_of_asksArgumentsAt hkind'
    cases hq with
    | arguments _ first => exact first callee' length' hq'
  · constructor
    · cases ruled.allows hasked with
      | arguments => rfl
    · cases after with
      | nil =>
        -- a run that ends here by itself would have been settled
        refine .inr ⟨rfl, ends.resolve_right fun settled => ?_⟩
        exact settled caller callee offset length (hasked ▸ List.getLast?_concat)
      | cons q rest =>
        have hsplit : (cb.traverse moment target).progress.asked =
            (before ++ [.arguments caller callee offset length]) ++ q :: rest := by simp [hasked]
        have hnext := ruled.allows hsplit
        exact .inl ⟨rest, by rw [hnext.eq_line]⟩

/-- A traversal that is cancelled between the arguments and the line of a call. -/
theorem oneCall_asks :
    (oneCall.codebase.traverse (.atQuestion 6) ⟨"shop.Cart#add(Item)"⟩).progress.asked =
      [.isExternal ⟨"shop.Cart#add(Item)"⟩, .isPresent ⟨"shop.Cart#add(Item)"⟩,
        .references ⟨"shop.Cart#add(Item)"⟩,
        .enclosing ⟨"Page.java", 120, 9, .exact, some ⟨"shop.Page#buy()"⟩⟩,
        .isExternal ⟨"shop.Page#buy()"⟩] ++
      .arguments ⟨"shop.Page#buy()"⟩ ⟨"shop.Cart#add(Item)"⟩ 120 9 :: [] ∧
    (oneCall.codebase.traverse (.atQuestion 6) ⟨"shop.Cart#add(Item)"⟩).outcome = .cancelled := by
  refine (and_iff_left_of_imp fun hasked => ?_).2 (by decide)
  obtain ⟨-, -, -, arguments⟩ :=
    traverse_asks oneCall.codebase (.atQuestion 6) ⟨"shop.Cart#add(Item)"⟩
  obtain ⟨-, ⟨rest, hrest⟩ | ⟨-, hcancelled⟩⟩ := arguments _ _ _ _ _ _ hasked
  · cases hrest
  · exact hcancelled

end Codebase
end CallOrigins
