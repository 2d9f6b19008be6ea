import CallOrigins.Proofs.Java.Stacks

/-!
# Readings

All that a reading does keeps it sound: its ways to read the source up to where it stands are
matched by its state. Readings that are joined and stacks of which one is given up make no
difference, because the states that are joined have the same items. So every derivation that comes
of a source, faults or not, is one by the grammar, and its tokens stand one after the other in the
source (`isDerivation_of_best?`).
-/

namespace CallOrigins.Java

open Grammar

/-- **A sound reading** of a source of some size. -/
structure Reading.IsSound (size : Nat) (r : Reading) : Prop where
  size_eq : r.offset + byteCount r.rest = size
  begun : State.IsBegun r.state
  ways : ∀ s ∈ r.ways, Stack.Way r.state r.offset s

theorem Stack.mem_insert {shared : Nat} {yields : Stack → Stack → Bool} {s t : Stack}
    {ss : List Stack} (h : s ∈ Stack.insert shared yields t ss) : s = t ∨ s ∈ ss := by
  induction ss with
  | nil => exact .inl (List.mem_singleton.1 h)
  | cons u ss ih =>
    rw [Stack.insert] at h
    split at h
    · rcases List.mem_cons.1 h with rfl | h
      · split
        · exact .inl rfl
        · exact .inr (.head _)
      · exact .inr (.tail _ h)
    · rcases List.mem_cons.1 h with rfl | h
      · exact .inr (.head _)
      · exact (ih h).imp id (.tail _)

namespace Reading

variable {size shared : Nat} {r : Reading}

theorem isSound_initial (source : List Char) : (initial source).IsSound (byteCount source) where
  size_eq := Nat.zero_add _
  begun := State.isBegun_initial
  ways := by
    intro s hs
    cases List.mem_singleton.1 hs
    refine ⟨State.isBegun_initial, ⟨fun i hi => ?_, fun i hi hstart => ?_, fun e he => ?_⟩, .nil,
      List.Pairwise.nil, fun _ h => absurd h List.not_mem_nil⟩
    · cases List.mem_singleton.1 hi
      exact ⟨start, .inl rfl, rfl, rfl, rfl⟩
    · cases List.mem_singleton.1 hi
      exact absurd rfl hstart
    · cases he

/-! ## Joining -/

theorem IsSound.join? {a b c : Reading} (ha : a.IsSound size) (hb : b.IsSound size)
    (h : a.join? shared b = some c) : c.IsSound size := by
  unfold Reading.join? at h
  split at h
  next hjoin =>
    cases h
    simp only [Bool.and_eq_true, beq_iff_eq] at hjoin
    obtain ⟨hoffset, hlike⟩ := hjoin
    have hbegun := ha.begun.join hlike
    have hjoined := State.covers_join hlike
    refine ⟨ha.size_eq, hbegun, ?_⟩
    refine List.foldlRecOn _ _ (motive := fun ss : List Stack =>
      ∀ s ∈ ss, Stack.Way (a.state.join b.state) a.offset s) ?_ ?_
    · exact fun s hs => (ha.ways s hs).of_covers hbegun hjoined.1
    · intro ss hss t ht s hs
      rcases Stack.mem_insert hs with rfl | hs
      · exact hoffset ▸ (hb.ways s ht).of_covers hbegun hjoined.2
      · exact hss s hs
  next => cases h

theorem isSound_of_mem_joinInto {qs : List Reading} (hr : r.IsSound size)
    (hqs : ∀ q ∈ qs, q.IsSound size) : ∀ q ∈ r.joinInto shared qs, q.IsSound size := by
  induction qs with
  | nil => exact fun q hq => List.mem_singleton.1 hq ▸ hr
  | cons q qs ih =>
    simp only [List.forall_mem_cons] at hqs
    rw [joinInto]
    cases hjoin : q.join? shared r with
    | some joined => exact List.forall_mem_cons.2 ⟨hqs.1.join? hr hjoin, hqs.2⟩
    | none => exact List.forall_mem_cons.2 ⟨hqs.1, ih hqs.2⟩

theorem isSound_of_mem_foldl_joinInto {rs qs : List Reading} (hrs : ∀ r ∈ rs, r.IsSound size)
    (hqs : ∀ q ∈ qs, q.IsSound size) :
    ∀ q ∈ rs.foldl (fun qs r => r.joinInto shared qs) qs, q.IsSound size :=
  List.foldlRecOn _ _ (motive := fun qs : List Reading => ∀ q ∈ qs, q.IsSound size) hqs
    fun _ hqs r hr => isSound_of_mem_joinInto (hrs r hr) hqs

/-! ## The end of a phrase -/

/-- A reading came of another when a phrase of an item ended there. -/
def Came (r q : Reading) : Prop :=
  q.offset = r.offset ∧ ∃ i ∈ r.state, i.rest = [] ∧ ∃ s ∈ r.ways, ∃ after t,
    Stack.reduce? i.production s = some (after, t) ∧ q.state.like after = true

theorem Came.of_like {q q' : Reading} (h : r.Came q) (hoffset : q'.offset = q.offset)
    (hlike : q'.state.like q.state = true) : r.Came q' := by
  obtain ⟨hr, i, hi, hrest, s, hs, after, t, hreduce, hafter⟩ := h
  exact ⟨hoffset.trans hr, i, hi, hrest, s, hs, after, t, hreduce, State.like_trans hlike hafter⟩

theorem Came.join? {q q' joined : Reading} (h : r.Came q)
    (hjoin : q.join? shared q' = some joined) : r.Came joined := by
  unfold Reading.join? at hjoin
  split at hjoin
  next hlike =>
    cases hjoin
    simp only [Bool.and_eq_true] at hlike
    exact h.of_like rfl (State.like_join hlike.2).1
  next => cases hjoin

/-- Readings that were gathered after a phrase of a rule: their state is the one after that rule,
whatever is below. -/
structure IsGathered (size : Nat) (r : Reading) (rule : Nat) (q : Reading) : Prop where
  sound : q.IsSound size
  came : r.Came q
  follows : ∀ s ∈ q.ways, State.IsBegun s.base ∧
    q.state.like (s.base.follow (.rule rule)) = true

theorem isGathered_of_mem_gather {rule : Nat} {after : State} {t : Stack} {qs : List Reading}
    (hr : r.IsSound size) (hway : Stack.Way after r.offset t) (hbase : State.IsBegun t.base)
    (hafter : after = t.base.follow (.rule rule))
    (hcame : r.Came { r with state := after, ways := [t] })
    (hqs : ∀ q ∈ qs, IsGathered size r rule q) :
    ∀ q ∈ gather shared r after t qs, IsGathered size r rule q := by
  induction qs with
  | nil =>
    intro q hq
    cases List.mem_singleton.1 hq
    refine ⟨⟨hr.size_eq, hway.begun, ?_⟩, hcame, ?_⟩
    · exact List.forall_mem_singleton.2 hway
    · exact List.forall_mem_singleton.2 ⟨hbase, hafter ▸ State.like_refl _⟩
  | cons q qs ih =>
    simp only [List.forall_mem_cons] at hqs
    obtain ⟨hq, hqs⟩ := hqs
    rw [gather]
    split
    next hany =>
      obtain ⟨s, hs, hlike⟩ := List.any_eq_true.1 hany
      obtain ⟨hbegun, hfollows⟩ := hq.follows s hs
      -- the states below are alike, so the states after the phrase are alike
      have hstates : q.state.like after = true :=
        State.like_trans hfollows (hafter ▸ State.like_follow hbegun.items hbase.items hlike _)
      have hcovers := State.covers_join hstates
      have hjoin := hq.sound.begun.join hstates
      refine List.forall_mem_cons.2 ⟨⟨⟨hq.sound.size_eq, hjoin, ?_⟩, ?_, ?_⟩, hqs⟩
      · intro u hu
        rcases Stack.mem_insert hu with rfl | hu
        · exact hq.came.1 ▸ hway.of_covers hjoin hcovers.2
        · exact (hq.sound.ways u hu).of_covers hjoin hcovers.1
      · exact hq.came.of_like rfl hcovers.1.like
      · intro u hu
        rcases Stack.mem_insert hu with rfl | hu
        · exact ⟨hbase, hafter ▸ hcovers.2.like⟩
        · exact ⟨(hq.follows u hu).1, State.like_trans hcovers.1.like (hq.follows u hu).2⟩
    next => exact List.forall_mem_cons.2 ⟨hq, ih hqs⟩

/-- **The end of a phrase** in a reading, where the phrase is that of an item that is through. -/
theorem isGathered_of_mem_reduce (hr : r.IsSound size) {i : Item} (hi : i ∈ r.state)
    (hrest : i.rest = []) :
    ∀ q ∈ r.reduce shared i.production, IsGathered size r i.production.rule q := by
  refine List.foldlRecOn _ _ (motive := fun qs : List Reading =>
    ∀ q ∈ qs, IsGathered size r i.production.rule q) (fun _ h => absurd h List.not_mem_nil) ?_
  intro qs hqs found hfound
  obtain ⟨s, hs, hreduce⟩ := List.mem_filterMap.1 hfound
  obtain ⟨hway, hbase, hafter, -⟩ := (hr.ways s hs).reduce? hi hrest hreduce
  refine isGathered_of_mem_gather hr hway hbase hafter ?_ hqs
  exact ⟨rfl, i, hi, hrest, s, hs, _, _, hreduce, State.like_refl _⟩

/-! ## A token -/

/-- The token may be read here: the word `new` counts as a name only where no method reference goes
on with it. -/
def Allows (r : Reading) (t : Scanner.Scanned) : Prop :=
  t.terminal = Terminal.name.index → t.token.text = "new" → r.state.RefusesNew

/-- **A token that fits.** -/
theorem IsSound.shift (hr : r.IsSound size) {t : Scanner.Scanned} (ht : t.Fits size r.offset)
    (hnew : r.Allows t) : (r.shift t).IsSound size := by
  refine ⟨ht.size_eq, hr.begun.follow _, fun s hs => ?_⟩
  obtain ⟨below, hbelow, rfl⟩ := List.mem_map.1 hs
  have htoken : ∀ {token : Token}, token.text = t.token.text → token.start = t.token.start →
      ∀ e : Entry, e.below = r.state → e.derivation = .leaf t.terminal token →
        Stack.Way (r.shift t).state (r.shift t).offset (e :: below) := by
    intro token htext hstart e hstate hleaf
    have hstop : token.stop = t.token.stop := by rw [Token.stop, Token.stop, htext, hstart]
    have hname : Stack.NewIsNoName e := by
      intro token' hleaf' htext' i hi hrule
      obtain ⟨hname, rfl⟩ := Derivation.leaf.inj (hleaf.symm.trans hleaf')
      rw [hstate] at hi
      exact hr.begun.rest_ne_nameStep (hnew hname (htext.symm.trans htext')).awaits hi hrule
    have hway := (hr.ways below hbelow).shift (htext ▸ ht.reads) (hstart ▸ ht.start_le) hstate hleaf
      hname
    rw [hstop] at hway
    exact hway
  refine htoken ?_ ?_ _ rfl rfl <;> split <;> rfl

/-- The token may also be read after a phrase has ended. -/
theorem IsSound.allows_of_came (hr : r.IsSound size) {q : Reading} (hq : q.IsSound size)
    (hcame : r.Came q) {t : Scanner.Scanned} (hnew : r.Allows t) : q.Allows t := by
  intro hname htext
  obtain ⟨-, i, hi, hrest, s, hs, after, u, hreduce, hlike⟩ := hcame
  exact (hr.ways s hs).refusesNew (hnew hname htext) hi hrest hreduce hq.begun hlike

/-- A piece of the source that is passed over. -/
theorem IsSound.skip (hr : r.IsSound size) (fuel : Nat) : (r.skip fuel).IsSound size := by
  unfold Reading.skip
  dsimp only
  generalize Scanner.gapLength fuel r.rest + _ = n
  refine ⟨?_, hr.begun, fun s hs => (hr.ways s hs).mono (Nat.le_add_right ..)⟩
  have hpassed := byteCount_take_add_drop n r.rest
  have hsize := hr.size_eq
  simp only [byteCount] at hpassed hsize ⊢
  omega

end Reading

/-! ## Rounds -/

/-- From some place on, all readings have come of another. -/
def AllCame (r : Reading) (n : Nat) (rs : List Reading) : Prop :=
  n ≤ rs.length ∧ ∀ q ∈ rs.drop n, r.Came q

theorem AllCame.joinInto {r q : Reading} (hq : r.Came q) (shared : Nat) {n : Nat}
    {rs : List Reading} (h : AllCame r n rs) : AllCame r n (q.joinInto shared rs) := by
  induction rs generalizing n with
  | nil =>
    obtain rfl : n = 0 := Nat.le_zero.1 h.1
    exact ⟨Nat.zero_le _, List.forall_mem_singleton.2 hq⟩
  | cons first rs ih =>
    obtain ⟨hle, hcame⟩ := h
    rw [Reading.joinInto]
    cases n with
    | zero =>
      simp only [List.drop_zero, List.forall_mem_cons] at hcame
      refine ⟨Nat.zero_le _, ?_⟩
      cases hjoin : first.join? shared q with
      | some joined => exact List.forall_mem_cons.2 ⟨hcame.1.join? hjoin, hcame.2⟩
      | none =>
        exact List.forall_mem_cons.2 ⟨hcame.1, (ih ⟨Nat.zero_le _, hcame.2⟩).2⟩
    | succ n =>
      cases first.join? shared q with
      | some joined => exact ⟨hle, hcame⟩
      | none =>
        obtain ⟨hle', hcame'⟩ := ih ⟨Nat.le_of_succ_le_succ hle, hcame⟩
        exact ⟨Nat.succ_le_succ hle', hcame'⟩

namespace Queue

variable {size : Nat} {q : Queue} {r : Reading}

/-- All readings that wait are sound. -/
def IsSound (size : Nat) (q : Queue) : Prop :=
  ∀ r ∈ q.waiting, r.IsSound size

/-- Phrases have ended in a reading. From some place on, the readings in the queue have come of it;
one of them may be marked. -/
structure Reduced (size : Nat) (r : Reading) (n : Nat) (result : Queue × Option Nat) : Prop where
  sound : result.1.IsSound size
  came : AllCame r n result.1.waiting
  marked : ∀ m ∈ result.2, n ≤ m

theorem Reduced.reduce {last : Option Nat} {n : Nat} (h : Reduced size r n (q, last))
    (hr : r.IsSound size) {i : Item} (hi : i ∈ r.state) (hrest : i.rest = []) :
    Reduced size r n (q.reduce i.production r) := by
  unfold Queue.reduce
  dsimp only
  generalize r.depth i.production q.shared = shared
  have hnew : ∀ new ∈ r.reduce shared i.production,
      Reading.IsGathered size r i.production.rule new :=
    Reading.isGathered_of_mem_reduce hr hi hrest
  refine ⟨?_, ?_, ?_⟩
  · exact Reading.isSound_of_mem_foldl_joinInto (fun new h => (hnew new h).sound) h.sound
  · exact List.foldlRecOn _ _ (motive := fun rs : List Reading => AllCame r n rs) h.came
      fun rs hrs new hmem => hrs.joinInto (hnew new hmem).came shared
  · intro m hm
    dsimp only at hm
    split at hm
    · cases hm
      exact h.came.1
    · cases hm

theorem Reduced.reduceAll {last : Option Nat} {n : Nat} (h : Reduced size r n (q, last))
    (hr : r.IsSound size) {ps : List Production}
    (hps : ∀ p ∈ ps, ∃ i ∈ r.state, i.production = p ∧ i.rest = []) :
    Reduced size r n (Queue.reduceAll r ps (q, last)) := by
  induction ps generalizing q last with
  | nil => exact h
  | cons p ps ih =>
    simp only [List.forall_mem_cons] at hps
    obtain ⟨⟨i, hi, rfl, hrest⟩, hps⟩ := hps
    have hone := h.reduce hr hi hrest
    rw [Queue.reduceAll]
    dsimp only
    refine ih ⟨hone.sound, hone.came, fun m hm => ?_⟩ hps
    rcases Option.or_eq_some_iff.1 hm with hm | ⟨-, hm⟩
    · exact hone.marked m hm
    · exact h.marked m hm

end Queue

/-- What has come of a reading is sound. -/
def Outcome.IsSound (size : Nat) : Outcome → Prop
  | .moved r => r.IsSound size
  | .finished r => r.IsSound size
  | .stuck => True

namespace Reading

variable {size : Nat} {r : Reading} {q : Queue}

theorem reduce_mem_of_mem_endings {ms : List State.Move} {p : Production} (h : p ∈ endings ms) :
    State.Move.reduce p ∈ ms := by
  obtain ⟨m, hm, hp⟩ := List.mem_filterMap.1 h
  cases m with
  | reduce p' =>
    cases hp
    exact hm
  | shift => cases hp

/-- A keyword that calls for no move may be read as a name. -/
theorem allows_asName {t : Scanner.Scanned} (hreads : Terminal.Reads t.terminal t.token.text)
    (hword : Scanner.isWord t.terminal = true) (hmoves : r.state.moves t.terminal = []) :
    r.Allows t.asName := by
  intro _ htext
  obtain ⟨w, hw, hindex⟩ := Scanner.exists_of_isWord hword
  rw [hindex] at hreads
  have hnew : "new" = w := htext.symm.trans (hreads.allows (Terminal.word_mem_all hw))
  rw [hindex, ← hnew] at hmoves
  exact State.refusesNew_of_not_wants (State.not_wants_of_moves_eq_nil hmoves)

/-- **A reading meets its next token**: what comes of it is sound. -/
theorem IsSound.meet (hr : r.IsSound size) (fuel : Nat) {t : Scanner.Scanned}
    (ht : t.Fits size r.offset) (hnew : r.Allows t) (hq : q.IsSound size) :
    (r.meet fuel t q).1.IsSound size ∧ (r.meet fuel t q).2.IsSound size := by
  induction fuel generalizing t r q with
  | zero => exact ⟨trivial, hq⟩
  | succ fuel ih =>
    rw [Reading.meet]
    cases hmoves : r.state.moves t.terminal with
    | nil =>
      dsimp only
      split
      next hword =>
        exact ih hr ⟨ht.start_le, ht.size_eq, Scanner.reads_name_of_isWord ht.reads hword⟩
          (allows_asName ht.reads hword hmoves) hq
      next => exact ⟨trivial, hq⟩
    | cons m ms =>
      cases m with
      | shift => exact ⟨hr.shift ht hnew, hq⟩
      | reduce p =>
        dsimp only
        have hends : ∀ p' ∈ p :: endings ms, ∃ i ∈ r.state, i.production = p' ∧ i.rest = [] := by
          intro p' hp'
          have hmove : State.Move.reduce p' ∈ r.state.moves t.terminal := by
            rw [hmoves]
            rcases List.mem_cons.1 hp' with rfl | hp'
            · exact .head _
            · exact .tail _ (reduce_mem_of_mem_endings hp')
          exact State.exists_of_reduce_mem_moves hmove
        have hreduced : Queue.Reduced size r q.waiting.length
            (Queue.reduceAll r (p :: endings ms) (q, none)) := by
          refine Queue.Reduced.reduceAll ⟨hq, ⟨Nat.le_refl _, ?_⟩, fun _ h => by cases h⟩ hr hends
          rw [List.drop_length]
          exact fun _ h => absurd h List.not_mem_nil
        split
        · exact ⟨hr, hq⟩
        · split
          · exact ⟨hr.shift ht hnew, hreduced.sound⟩
          · generalize Queue.reduceAll r (p :: endings ms) (q, none) = result at hreduced ⊢
            cases htake : result.2.bind result.1.take? with
            | none => exact ⟨trivial, hreduced.sound⟩
            | some taken =>
              obtain ⟨n, hn, htaken⟩ := Option.bind_eq_some_iff.1 htake
              obtain ⟨next, hnext, rfl⟩ := Option.map_eq_some_iff.1 htaken
              have hsound := hreduced.sound next (List.mem_of_getElem? hnext)
              have hcame : r.Came next := by
                refine hreduced.came.2 next (List.mem_of_getElem? (i := n - q.waiting.length) ?_)
                rw [List.getElem?_drop, Nat.add_sub_cancel' (hreduced.marked n hn)]
                exact hnext
              exact ih hsound (hcame.1 ▸ ht) (hr.allows_of_came hsound hcame hnew)
                fun r' hr' => hreduced.sound r' (List.mem_of_mem_eraseIdx hr')

end Reading

namespace Round

variable {size : Nat} {acc : Round} {q : Queue}

/-- What has come of a round is sound. -/
structure IsSound (size : Nat) (acc : Round) : Prop where
  done : ∀ r ∈ acc.done, r.IsSound size
  finished : ∀ r ∈ acc.finished, r.IsSound size

theorem IsSound.moved (h : acc.IsSound size) {r : Reading} (hr : r.IsSound size) :
    IsSound size { acc with done := r :: acc.done } :=
  ⟨List.forall_mem_cons.2 ⟨hr, h.done⟩, h.finished⟩

theorem IsSound.run (hacc : acc.IsSound size) (hq : q.IsSound size) (fuel offset turns : Nat) :
    (Round.run fuel offset turns q acc).IsSound size := by
  induction turns generalizing q acc with
  | zero => exact hacc
  | succ turns ih =>
    rw [Round.run]
    cases hwaiting : q.waiting with
    | nil => exact ⟨hacc.done, hacc.finished⟩
    | cons r rest =>
      rw [Queue.IsSound, hwaiting, List.forall_mem_cons] at hq
      obtain ⟨hr, hrest⟩ := hq
      have hq : Queue.IsSound size ⟨q.shared, rest⟩ := hrest
      dsimp only
      split
      · exact ih (hacc.moved hr) hq
      · cases hnext : Scanner.next? fuel r.state.expected r.offset r.rest with
        | none => exact ih hacc hq
        | some t =>
          have ht : t.Fits size r.offset := hr.size_eq ▸ Scanner.next?_fits hnext
          have hnew : r.Allows t := by
            intro hname htext
            have hexpected := Scanner.not_expected_of_next? hnext hname (by decide) htext
            refine State.refusesNew_of_not_wants fun hwants => ?_
            rw [State.has_expected_iff.2 hwants] at hexpected
            cases hexpected
          obtain ⟨houtcome, hqueue⟩ := hr.meet fuel ht hnew hq
          dsimp only
          generalize r.meet fuel t ⟨q.shared, rest⟩ = result at houtcome hqueue ⊢
          obtain ⟨outcome, q⟩ := result
          cases outcome with
          | moved r => exact ih (hacc.moved houtcome) hqueue
          | finished r =>
            exact ih ⟨hacc.done, List.forall_mem_cons.2 ⟨houtcome, hacc.finished⟩⟩ hqueue
          | stuck => exact ih hacc hqueue

end Round

namespace Reading

variable {size : Nat} {r : Reading} {rs : List Reading}

/-- **All rounds**: the readings that come of them are sound, whether they are through or not. -/
theorem isSound_of_rounds (hrs : ∀ r ∈ rs, r.IsSound size) {fuel turns shared : Nat}
    {rs' : List Reading}
    (h : rounds fuel turns shared rs = .ok rs' ∨ rounds fuel turns shared rs = .error rs') :
    ∀ r ∈ rs', r.IsSound size := by
  induction turns generalizing shared rs with
  | zero =>
    rcases h with h | h
    · cases h
    · cases h
      exact hrs
  | succ turns ih =>
    have hround : (round fuel shared rs).IsSound size := by
      have hq : Queue.IsSound size ⟨sharedAtStart shared rs, rs⟩ := hrs
      refine Round.IsSound.run ⟨?_, ?_⟩ hq ..
      · exact fun _ h => absurd h List.not_mem_nil
      · exact fun _ h => absurd h List.not_mem_nil
    simp only [rounds] at h
    generalize round fuel shared rs = result at hround h
    obtain ⟨done, finished, shared'⟩ := result
    cases finished with
    | cons r finished =>
      rcases h with h | h
      · cases h
        exact fun r hr => hround.finished r (List.mem_reverse.1 hr)
      · cases h
    | nil =>
      cases done with
      | nil =>
        rcases h with h | h
        · cases h
        · cases h
          exact hrs
      | cons r done =>
        refine ih (isSound_of_mem_foldl_joinInto ?_ ?_) h
        · exact fun r hr => hround.done r (List.mem_reverse.1 hr)
        · exact fun _ h => absurd h List.not_mem_nil

/-! ## Repairs -/

/-- A token that is missing fits where its terminal allows no text. -/
theorem IsSound.fits_missing (hr : r.IsSound size) {t : Terminal} (ht : t.Allows "") :
    Scanner.Scanned.Fits ⟨t.index, .missing r.offset, r.rest⟩ size r.offset :=
  ⟨Nat.le_refl _, hr.size_eq, Terminal.reads_of_allows t ht⟩

theorem allows_missing {n : Nat} {rest : List Char} {offset : Nat} :
    r.Allows ⟨n, .missing offset, rest⟩ :=
  fun _ htext => absurd htext (by simp [Token.missing])

theorem isSound_noneWaiting : Queue.IsSound size ⟨0, []⟩ :=
  fun _ h => absurd h List.not_mem_nil

theorem IsSound.supply? (hr : r.IsSound size) {fuel : Nat} {t : Terminal} (ht : t.Allows "")
    {r' : Reading} (h : r.supply? fuel t = some r') : r'.IsSound size := by
  have hmeet := (hr.meet fuel (hr.fits_missing ht) allows_missing isSound_noneWaiting).1
  unfold Reading.supply? at h
  generalize r.meet fuel ⟨t.index, .missing r.offset, r.rest⟩ ⟨0, []⟩ = result at h hmeet
  obtain ⟨outcome, q⟩ := result
  cases outcome with
  | moved =>
    cases h
    exact hmeet
  | finished => cases h
  | stuck => cases h

theorem allows_of_mem_closing {t : Terminal} (ht : t ∈ closing) : t.Allows "" := by
  cases t with
  | mark m => exact .inr ⟨rfl, ht⟩
  | word | name => exact absurd ht (by simp [closing])
  | _ => trivial

theorem IsSound.complete? (hr : r.IsSound size) {fuel turns : Nat} {done : Reading}
    (h : complete? fuel turns r = some done) : done.IsSound size := by
  induction turns generalizing r with
  | zero => cases h
  | succ turns ih =>
    have hfits := hr.fits_missing (t := .finish) trivial
    have hmeet := (hr.meet fuel hfits allows_missing isSound_noneWaiting).1
    have hclosing : ∀ r', (closing.findSome? fun t => r.supply? fuel t) = some r' →
        r'.IsSound size := by
      intro r' h
      obtain ⟨t, ht, hsupply⟩ := List.exists_of_findSome?_eq_some h
      exact hr.supply? (allows_of_mem_closing ht) hsupply
    rw [Reading.complete?] at h
    generalize r.meet fuel _ ⟨0, []⟩ = result at h hmeet
    obtain ⟨outcome, q⟩ := result
    cases outcome with
    | finished =>
      cases h
      exact hmeet
    | moved =>
      obtain ⟨r', hr', h⟩ := Option.bind_eq_some_iff.1 h
      exact ih (hclosing r' hr') h
    | stuck =>
      obtain ⟨r', hr', h⟩ := Option.bind_eq_some_iff.1 h
      exact ih (hclosing r' hr') h

/-- **Reading with repairs.** -/
theorem isSound_of_mem_repaired {fuel turns : Nat} (hrs : ∀ r ∈ rs, r.IsSound size) :
    ∀ r ∈ repaired fuel turns rs, r.IsSound size := by
  induction turns generalizing rs with
  | zero => exact fun _ h => absurd h List.not_mem_nil
  | succ turns ih =>
    rw [repaired]
    cases hrounds : rounds fuel fuel 0 rs with
    | ok finished => exact isSound_of_rounds hrs (.inl hrounds)
    | error stuck =>
      have hstuck := isSound_of_rounds hrs (.inr hrounds)
      dsimp only
      split
      · intro r hr
        obtain ⟨r', hr', h⟩ := List.exists_of_findSome?_eq_some (Option.mem_toList.1 hr)
        exact (hstuck r' hr').complete? h
      · cases htoken : withToken? fuel stuck with
        | none =>
          refine ih fun r hr => ?_
          obtain ⟨r', hr', rfl⟩ := List.mem_map.1 hr
          exact (hstuck r' hr').skip fuel
        | some r =>
          refine ih fun r' hr' => ?_
          cases List.mem_singleton.1 hr'
          obtain ⟨t, ht, h⟩ := List.exists_of_findSome?_eq_some htoken
          obtain ⟨r', hr', h⟩ := List.exists_of_findSome?_eq_some h
          have hclosing : ∀ t ∈ supplied, t ∈ closing := by decide
          exact (hstuck r' hr').supply? (allows_of_mem_closing (hclosing t ht))
            (Option.filter_eq_some_iff.1 h).1

end Reading

/-! ## The derivation that counts -/

theorem mem_derivations_of_best? {rs : List Reading} {d : Derivation} (h : best? rs = some d) :
    ∃ r ∈ rs, ∃ s ∈ r.ways, ∃ e ∈ s, e.derivation = d := by
  have hmem : ∃ weight, (weight, d) ∈ derivations rs := by
    unfold best? at h
    cases hds : derivations rs with
    | nil => simp [hds] at h
    | cons first ds =>
      rw [hds] at h
      cases h
      refine List.foldlRecOn ds better (motive := fun best : Nat × Derivation =>
        ∃ weight, (weight, best.2) ∈ first :: ds) ⟨first.1, .head _⟩ ?_
      intro best hbest next hnext
      have hnext : ∃ weight, (weight, next.2) ∈ first :: ds := ⟨next.1, .tail _ hnext⟩
      unfold better
      split
      · split
        · exact hnext
        · exact hbest
      · split
        · exact hnext
        · exact hbest
  obtain ⟨weight, hmem⟩ := hmem
  simp only [derivations, List.mem_flatMap, List.mem_map, Prod.mk.injEq] at hmem
  obtain ⟨r, hr, s, hs, e, he, -, hd⟩ := hmem
  exact ⟨r, hr, s, hs, e, he, hd⟩

/-- **The derivation of a source** is one by the grammar, and its tokens stand one after the other
in the source. -/
theorem isDerivation_of_best? {source : List Char} {fuel turns : Nat} {d : Derivation}
    (h : best? (Reading.repaired fuel turns [.initial source]) = some d) :
    d.IsDerivation ∧ InOrder d.tokens ∧ ∀ t ∈ d.tokens, t.stop ≤ byteCount source := by
  obtain ⟨r, hr, s, hs, e, he, rfl⟩ := mem_derivations_of_best? h
  have hsound : r.IsSound (byteCount source) := by
    refine Reading.isSound_of_mem_repaired (fun r hr => ?_) r hr
    cases List.mem_singleton.1 hr
    exact Reading.isSound_initial source
  have hway := hsound.ways s hs
  have hsub : e.derivation.tokens.Sublist (Stack.tokens s) :=
    List.sublist_flatten_of_mem (List.mem_map_of_mem (List.mem_reverse.2 he))
  refine ⟨hway.built.isDerivation he, hway.ordered.sublist hsub, fun t ht => ?_⟩
  have := hway.inside t (hsub.mem ht)
  have := hsound.size_eq
  omega

end CallOrigins.Java
