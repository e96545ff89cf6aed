import FeedHandler.Phase2.AbArbiterRun

/-! What the arbiter delivers. An arrival is handed out exactly when it is the
expected sequence; the events buffered behind it are popped from the ring and
erased from the pending vector, and nobody hands them out. -/
namespace FeedHandler.AbSession

variable {s : AbSession} {side : FeedSide} {ev : BookEvent} {v : Venue} {arb : AbArbiter}
  {gapWindow : Nat} {past feed : List BookEvent}

/-- After a forced advance to `seq`: the venue expects the event that was discarded,
and what has been handed out since `base` belongs to other venues. -/
structure Stalled (v : Venue) (seq : Nat) (base : List BookEvent) (s : AbSession) : Prop where
  labels : ∀ w, s.arb.Labelled w
  next : (s.arb.tracker v).nextExpected = seq
  others : ∃ added, s.total = base ++ added ∧ ∀ e ∈ added, e.venue ≠ v

theorem Stalled.onEvent_other {base : List BookEvent} {seq : Nat} (stalled : Stalled v seq base s)
    (side : FeedSide) (other : ev.venue ≠ v) : Stalled v seq base (s.call (.onEvent side ev)) := by
  have effect := AbArbiter.onEvent_local side (stalled.labels ev.venue)
  obtain ⟨added, total, venues⟩ := stalled.others
  obtain ⟨more, ready, venuesMore⟩ := effect.ready
  refine ⟨call_labelled stalled.labels _, ?_, added ++ more, ?_, ?_⟩
  · have same := effect.trackers v (Ne.symm other)
    exact (congrArg SequenceTracker.nextExpected same).trans stalled.next
  · simp only [AbSession.total] at total ⊢
    simp only [call, ready, ← List.append_assoc, ← total]
  · intro e member
    rcases List.mem_append.mp member with old | new
    · exact venues e old
    · exact fun here => other ((venuesMore e new).symm.trans here)

theorem Stalled.onEvent_ahead {base : List BookEvent} {seq : Nat} (stalled : Stalled v seq base s)
    (venue : ev.venue = v) (ahead : seq < ev.seq)
    (within : (s.arb.onEvent side ev).2.status ≠ .gapTooLarge) :
    Stalled v seq base (s.call (.onEvent side ev)) := by
  subst venue
  have next := stalled.next
  rw [AbArbiter.onEvent_status, ne_eq, SequenceTracker.tooLarge_iff] at within
  obtain ⟨replay, outcome⟩ := AbArbiter.onEvent_outcome s.arb side ev
  have labels := call_labelled stalled.labels (.onEvent side ev)
  simp only [call] at labels ⊢
  generalize (s.arb.onEvent side ev).1 = after at outcome labels
  cases outcome with
  | old behind => omega
  | tooLarge far => exact absurd far within
  | inOrder same => omega
  | buffered => exact ⟨labels, by simp only [AbArbiter.tracker, Function.update_self]; exact next,
      stalled.others⟩

/-- One call keeps the venue stalled, as long as its arrivals are ahead of the
discarded event and inside the window. -/
theorem Stalled.call {base : List BookEvent} {seq : Nat} (stalled : Stalled v seq base s)
    {c : AbCall} (ahead : ∀ ev ∈ c.event?, ev.venue = v → seq < ev.seq)
    (within : WithinWindow v s c) : Stalled v seq base (s.call c) := by
  cases c with
  | drainReady =>
    refine ⟨stalled.labels, stalled.next, ?_⟩
    rw [total_drain]
    exact stalled.others
  | onEvent side ev =>
    by_cases venue : ev.venue = v
    · exact stalled.onEvent_ahead venue (ahead ev rfl venue) (within venue)
    · exact stalled.onEvent_other side venue

/-- A forced advance stalls the venue. -/
theorem stalled_of_tooLarge (labels : ∀ w, s.arb.Labelled w)
    (tooLarge : (s.arb.onEvent side ev).2.status = .gapTooLarge) :
    Stalled ev.venue ev.seq (s.call (.onEvent side ev)).total (s.call (.onEvent side ev)) := by
  rw [AbArbiter.onEvent_status, SequenceTracker.tooLarge_iff] at tooLarge
  refine ⟨call_labelled labels _, ?_, [], by simp⟩
  obtain ⟨replay, outcome⟩ := AbArbiter.onEvent_outcome s.arb side ev
  simp only [AbSession.call]
  generalize (s.arb.onEvent side ev).1 = after at outcome
  cases outcome with
  | old behind => omega
  | inOrder same => omega
  | buffered _ near => omega
  | tooLarge =>
    simp only [AbArbiter.tracker, GapAwareSequencer.forceAdvance, Function.update_self]
    exact SequenceTracker.forceAdvance_next (Nat.lt_of_le_of_lt (Nat.le_add_right _ _) tooLarge)

/-- The arbiter never delivers the continuation of a large gap: from every reachable
state, whatever the other venues do and whenever it is drained. -/
theorem gap_continuation_undelivered (gapWindow : Nat) (before after : List AbCall)
    (side : FeedSide) (ev : BookEvent) (count : Nat)
    (tooLarge : ((run gapWindow before).arb.onEvent side ev).2.status = .gapTooLarge)
    (positive : 1 ≤ count)
    (continuation : ((arrivals after).filter (fun e => e.venue = ev.venue)).map BookEvent.seq =
      List.range' (ev.seq + 1) count) :
    let s := run gapWindow (before ++ [.onEvent side ev])
    ¬ (Run.Along AbSession.call (WithinWindow ev.venue) s after ∧
      List.Sublist ((arrivals after).filter (fun e => e.venue = ev.venue))
        (((after.foldl AbSession.call s).call .drainReady).drained.drop s.total.length)) := by
  rintro s ⟨within, delivered⟩
  have shape : s = (run gapWindow before).call (.onEvent side ev) := by
    simp only [s, run, List.foldl_append, List.foldl_cons, List.foldl_nil]
  have start : Stalled ev.venue ev.seq s.total s := by
    rw [shape]
    exact stalled_of_tooLarge (run_labelled gapWindow before) tooLarge
  have ahead : ∀ c ∈ after, ∀ e ∈ c.event?, e.venue = ev.venue → ev.seq < e.seq := by
    intro c member e event venue
    have arrival : e ∈ (arrivals after).filter (fun e => e.venue = ev.venue) := by
      rw [List.mem_filter]
      exact ⟨List.mem_filterMap.mpr ⟨c, member, event⟩, by simpa using venue⟩
    have inRange : e.seq ∈ List.range' (ev.seq + 1) count :=
      continuation ▸ List.mem_map_of_mem arrival
    exact (List.mem_range'_1.mp inRange).1
  have stalled := (within.and (Run.along_of_forall s after ahead)).invariant
    (P := Stalled ev.venue ev.seq s.total) (fun _ _ holds ok => holds.call ok.2 ok.1) start
  obtain ⟨added, total, venues⟩ := stalled.others
  rw [total_final, total, List.drop_left] at delivered
  have first : ((arrivals after).filter (fun e => e.venue = ev.venue)) ≠ [] := by
    intro none
    rw [none, List.map_nil] at continuation
    have := congrArg List.length continuation
    simp at this
    omega
  obtain ⟨e, member⟩ := List.exists_mem_of_ne_nil _ first
  exact venues e (delivered.subset member) (by simpa using (List.mem_filter.mp member).2)

/-- Window 1: sequence 5 is discarded, 6 arrives and is never handed out. -/
theorem gap_continuation_undelivered_six :
    let s := run 1 ([] ++ [.onEvent .a { sequence := 5 }])
    ¬ (Run.Along AbSession.call (WithinWindow .nasdaq) s [.onEvent .b { sequence := 6 }] ∧
      List.Sublist ((arrivals [.onEvent .b { sequence := 6 }]).filter (fun e => e.venue = .nasdaq))
        ((([AbCall.onEvent .b { sequence := 6 }].foldl AbSession.call s).call
          .drainReady).drained.drop s.total.length)) :=
  gap_continuation_undelivered 1 [] [.onEvent .b { sequence := 6 }] .a { sequence := 5 } 1
    (by decide) (by decide) (by decide)

/-- The arrival after the gap is inside the window, and the drain returns nothing. -/
theorem gap_continuation_stalls :
    let s := run 1 [.onEvent .a { sequence := 5 }, .onEvent .a { sequence := 6 }, .drainReady]
    ((AbArbiter.create 1).onEvent .a { sequence := 5 }).2.status = .gapTooLarge ∧
      ((run 1 [.onEvent .a { sequence := 5 }]).arb.onEvent .a { sequence := 6 }).2.status =
        .gapBuffered ∧
      s.drained = [] := by
  decide

/-- Ring and pending vector of a venue agree: what is pending and not behind is
buffered in the ring. -/
structure Tracked (gapWindow : Nat) (v : Venue) (arb : AbArbiter) : Prop where
  width : (arb.tracker v).gapWindow = gapWindow
  windowed : (arb.tracker v).Windowed
  pending : ∀ e ∈ arb.pending v, (arb.tracker v).nextExpected ≤ e.seq →
    (arb.tracker v).Buffered e.seq

theorem create_tracked (small : gapWindow + 1 < wordSize) (v : Venue) :
    Tracked gapWindow v (AbArbiter.create gapWindow) where
  width := rfl
  windowed := SequenceTracker.create_windowed small
  pending := by
    intro e member
    cases member

/-- Nothing is replayed after an in-order arrival: the ring has already released
every pending event up to the new expected sequence. -/
theorem Tracked.inOrder_absent (tracked : Tracked gapWindow ev.venue arb)
    (same : ev.seq = (arb.tracker ev.venue).nextExpected) (room : ev.seq + 1 < wordSize) :
    ∀ e ∈ arb.pending ev.venue, e.seq ≠ (arb.tracker ev.venue).advanced.nextExpected := by
  obtain ⟨_, _, _, _, stops⟩ := tracked.windowed.released_spec (same ▸ room)
  have advance := (tracked.windowed.released_bounded (same ▸ room)).1
  intro e member here
  change e.seq = (arb.tracker ev.venue).released.1 at here
  exact stops (here ▸ tracked.pending e member (by omega))

/-- One arrival inside the window: the tracker takes its step, and the event is
handed out exactly when it was the expected one. -/
theorem Tracked.onEvent (tracked : Tracked gapWindow ev.venue arb) (side : FeedSide)
    (room : ev.seq + 1 < wordSize)
    (near : ev.seq ≤ (arb.tracker ev.venue).nextExpected + gapWindow) :
    Tracked gapWindow ev.venue (arb.onEvent side ev).1 ∧
      (arb.onEvent side ev).1.tracker ev.venue =
        ((arb.tracker ev.venue).onSequence ev.seq).1 ∧
      (arb.onEvent side ev).1.ready =
        arb.ready ++ if ev.seq = (arb.tracker ev.venue).nextExpected then [ev] else [] := by
  have windowed := tracked.windowed
  have inside : ev.seq ≤ (arb.tracker ev.venue).nextExpected +
      (arb.tracker ev.venue).gapWindow := tracked.width.symm ▸ near
  obtain ⟨tracker, ready, pending⟩ := AbArbiter.onEvent_quiet side windowed.positive inside
    (fun same => tracked.inOrder_absent same room)
  have grows := windowed.seen_onSequence inside room
  have nextLe := (windowed.onSequence_next room).1
  refine ⟨⟨?_, ?_, ?_⟩, tracker, ready⟩
  · rw [tracker, SequenceTracker.onSequence_width]
    exact tracked.width
  · rw [tracker]
    exact windowed.onSequence inside room
  · intro e member notBehind
    rw [tracker] at notBehind ⊢
    have seen : ((arb.tracker ev.venue).onSequence ev.seq).1.Seen e.seq := by
      rcases pending e member with old | rfl
      · exact (grows _).mpr (Or.inr (Or.inr (tracked.pending e old (by omega))))
      · exact (grows _).mpr (Or.inl rfl)
    exact seen.resolve_left (by omega)

/-- First copies arrive in order: an arrival follows one with the sequence before. -/
def FirstInOrder (past : List BookEvent) : Prop :=
  ∀ before ev after, past = before ++ ev :: after → 1 < ev.seq → ∃ x ∈ before, x.seq + 1 = ev.seq

theorem firstInOrder_nil : FirstInOrder [] := by
  intro before ev after split
  simp at split

theorem firstInOrder_append : FirstInOrder (past ++ [ev]) ↔
    FirstInOrder past ∧ (1 < ev.seq → ∃ x ∈ past, x.seq + 1 = ev.seq) := by
  constructor
  · intro ordered
    refine ⟨?_, ordered past ev [] rfl⟩
    intro before x after split
    exact ordered before x (after ++ [ev]) (by simp [split])
  · rintro ⟨ordered, last⟩ before x after split
    rcases List.eq_nil_or_concat after with rfl | ⟨front, y, rfl⟩
    · obtain ⟨rfl, here⟩ := List.append_inj' split rfl
      cases here
      exact last
    · rw [List.concat_eq_append, ← List.cons_append, ← List.append_assoc] at split
      exact ordered before x front (List.append_inj' split rfl).1

/-- The arbiter has seen exactly what arrived, and handed out only what it passed. -/
structure Arbitrated (gapWindow : Nat) (v : Venue) (past : List BookEvent) (s : AbSession) :
    Prop where
  tracked : Tracked gapWindow v s.arb
  seen : ∀ k, (s.arb.tracker v).Seen k ↔ k = 0 ∨ ∃ x ∈ past, x.seq = k
  passed : ∀ e ∈ s.total, e.seq < (s.arb.tracker v).nextExpected

/-- So far nothing had to be buffered. -/
structure Flowing (v : Venue) (feed : List BookEvent) (s : AbSession) : Prop where
  empty : ∀ k, ¬ (s.arb.tracker v).Buffered k
  total : s.total = feed.take ((s.arb.tracker v).nextExpected - 1)

/-- Some event of the feed was taken and will not be handed out. -/
def Lost (v : Venue) (feed : List BookEvent) (s : AbSession) : Prop :=
  ∃ e ∈ feed, (s.arb.tracker v).Seen e.seq ∧ ∀ x ∈ s.total, x.seq ≠ e.seq

/-- Effect of one arrival inside the window on a session. -/
structure Taken (gapWindow : Nat) (ev : BookEvent) (s s' : AbSession) : Prop where
  tracked : Tracked gapWindow ev.venue s'.arb
  tracker : s'.arb.tracker ev.venue = ((s.arb.tracker ev.venue).onSequence ev.seq).1
  total : s'.total =
    s.total ++ if ev.seq = (s.arb.tracker ev.venue).nextExpected then [ev] else []

theorem Tracked.call (tracked : Tracked gapWindow ev.venue s.arb) (side : FeedSide)
    (room : ev.seq + 1 < wordSize)
    (near : ev.seq ≤ (s.arb.tracker ev.venue).nextExpected + gapWindow) :
    Taken gapWindow ev s (s.call (.onEvent side ev)) := by
  obtain ⟨trackedAfter, tracker, ready⟩ := tracked.onEvent side room near
  refine ⟨trackedAfter, tracker, ?_⟩
  simp only [total, AbSession.call, ready, List.append_assoc]

theorem create_arbitrated (small : gapWindow + 1 < wordSize) (v : Venue) :
    Arbitrated gapWindow v [] ⟨.create gapWindow, []⟩ where
  tracked := create_tracked small v
  seen := by
    intro k
    have empty : ¬ (SequenceTracker.create gapWindow).Buffered k := TagRing.holds_cleared
    change k < 1 ∨ (SequenceTracker.create gapWindow).Buffered k ↔ _
    simp only [empty, or_false, List.not_mem_nil, false_and, exists_false]
    omega
  passed := by
    intro e member
    cases member

section Arrival

variable {s' : AbSession} (arbitrated : Arbitrated gapWindow ev.venue past s)
  (taken : Taken gapWindow ev s s') (room : ev.seq + 1 < wordSize)
  (near : ev.seq ≤ (s.arb.tracker ev.venue).nextExpected + gapWindow)

include arbitrated taken room near

theorem Arbitrated.arrive : Arbitrated gapWindow ev.venue (past ++ [ev]) s' := by
  have width := arbitrated.tracked.width
  have windowed := arbitrated.tracked.windowed
  have grows := windowed.seen_onSequence (width.symm ▸ near) room
  obtain ⟨nextLe, nextLt⟩ := windowed.onSequence_next room
  refine ⟨taken.tracked, ?_, ?_⟩
  · intro k
    rw [taken.tracker, grows k, arbitrated.seen k]
    simp only [List.mem_append, List.mem_singleton, or_and_right, exists_or, exists_eq_left]
    grind
  · intro e member
    rw [taken.tracker]
    rw [taken.total] at member
    rcases List.mem_append.mp member with old | new
    · exact Nat.lt_of_lt_of_le (arbitrated.passed e old) nextLe
    · split at new
      · next same =>
        rw [List.mem_singleton.mp new, same]
        exact same ▸ nextLt same
      · cases new

/-- An arrival ahead of its predecessor is buffered, and then lost. -/
theorem Arbitrated.lose (member : ev ∈ feed) (late : 1 < ev.seq)
    (missing : ¬ ∃ x ∈ past, x.seq + 1 = ev.seq) : Lost ev.venue feed s' := by
  have unseen : ¬ (s.arb.tracker ev.venue).Seen (ev.seq - 1) := by
    rw [arbitrated.seen]
    rintro (zero | ⟨x, arrived, here⟩)
    · omega
    · exact missing ⟨x, arrived, by omega⟩
  have ahead : (s.arb.tracker ev.venue).nextExpected < ev.seq := by
    by_contra behind
    exact unseen (Or.inl (by omega))
  have after := arbitrated.arrive taken room near
  refine ⟨ev, member, (after.seen ev.seq).mpr (Or.inr ⟨ev, by simp, rfl⟩), ?_⟩
  intro x handed
  rw [taken.total, if_neg (by omega), List.append_nil] at handed
  have := arbitrated.passed x handed
  omega

theorem Arbitrated.stay_lost (lost : Lost ev.venue feed s) : Lost ev.venue feed s' := by
  obtain ⟨e, member, seen, unhanded⟩ := lost
  have width := arbitrated.tracked.width
  have windowed := arbitrated.tracked.windowed
  refine ⟨e, member, ?_, ?_⟩
  · rw [taken.tracker]
    exact (windowed.seen_onSequence (width.symm ▸ near) room _).mpr (Or.inr seen)
  · intro x handed
    rw [taken.total] at handed
    rcases List.mem_append.mp handed with old | new
    · exact unhanded x old
    · split at new
      · next same =>
        rw [List.mem_singleton.mp new, same]
        intro here
        exact windowed.next_not_seen (here ▸ seen)
      · cases new

omit near in
/-- While every arrival follows its predecessor, nothing is ever buffered. -/
theorem Arbitrated.flow (isFeed : IsFeed ev.venue feed) (member : ev ∈ feed)
    (follows : 1 < ev.seq → ∃ x ∈ past, x.seq + 1 = ev.seq) (flowing : Flowing ev.venue feed s) :
    Flowing ev.venue feed s' := by
  have windowed := arbitrated.tracked.windowed
  have positive := windowed.positive
  have reached : ev.seq ≤ (s.arb.tracker ev.venue).nextExpected := by
    by_contra ahead
    obtain ⟨x, arrived, here⟩ := follows (by omega)
    rcases (arbitrated.seen x.seq).mpr (Or.inr ⟨x, arrived, rfl⟩) with behind | held
    · omega
    · exact flowing.empty _ held
  rcases Nat.lt_or_eq_of_le reached with behind | same
  · have tracker := taken.tracker
    rw [SequenceTracker.onSequence_old (Or.inr behind)] at tracker
    refine ⟨tracker ▸ flowing.empty, ?_⟩
    rw [taken.total, if_neg (by omega), List.append_nil, tracker]
    exact flowing.total
  · obtain ⟨count, between, held, _, _⟩ := windowed.released_spec (same ▸ room)
    have one : (s.arb.tracker ev.venue).released.1 = ev.seq + 1 := by
      by_contra more
      exact flowing.empty _ (between (ev.seq + 1) (by omega) (by omega))
    have tracker : s'.arb.tracker ev.venue = (s.arb.tracker ev.venue).advanced := by
      have answer := SequenceTracker.onSequence_inOrder positive
      rw [taken.tracker, same, answer]
    refine ⟨?_, ?_⟩
    · intro k buffered
      rw [tracker] at buffered
      exact flowing.empty k ((held k).mp buffered).1
    · have next : (s'.arb.tracker ev.venue).nextExpected - 1 = ev.seq - 1 + 1 := by
        rw [tracker]
        change (s.arb.tracker ev.venue).released.1 - 1 = _
        omega
      rw [taken.total, if_pos same, flowing.total, next, ← same, List.take_add_one,
        isFeed.getElem?_seq member]
      rfl

end Arrival

/-- What holds after any calls inside the window: the session flows while first
copies come in order, and has lost an event from the first one that does not. -/
structure Delivery (gapWindow : Nat) (v : Venue) (feed past : List BookEvent) (s : AbSession) :
    Prop where
  arbitrated : Arbitrated gapWindow v past s
  flowing : FirstInOrder past → Flowing v feed s
  lost : ¬ FirstInOrder past → Lost v feed s

theorem Delivery.arrive (delivery : Delivery gapWindow ev.venue feed past s) (side : FeedSide)
    (room : ev.seq + 1 < wordSize)
    (near : ev.seq ≤ (s.arb.tracker ev.venue).nextExpected + gapWindow)
    (isFeed : IsFeed ev.venue feed) (member : ev ∈ feed) :
    Delivery gapWindow ev.venue feed (past ++ [ev]) (s.call (.onEvent side ev)) := by
  have arbitrated := delivery.arbitrated
  have taken := arbitrated.tracked.call side room near
  refine ⟨arbitrated.arrive taken room near, ?_, ?_⟩
  · intro ordered
    obtain ⟨before, follows⟩ := firstInOrder_append.mp ordered
    exact arbitrated.flow taken room isFeed member follows (delivery.flowing before)
  · intro disordered
    by_cases before : FirstInOrder past
    · have breaks : ¬ (1 < ev.seq → ∃ x ∈ past, x.seq + 1 = ev.seq) :=
        fun follows => disordered (firstInOrder_append.mpr ⟨before, follows⟩)
      obtain ⟨late, missing⟩ := Classical.not_imp.mp breaks
      exact arbitrated.lose taken room near member late missing
    · exact arbitrated.stay_lost taken room near (delivery.lost before)

theorem Delivery.drain (delivery : Delivery gapWindow v feed past s) :
    Delivery gapWindow v feed past (s.call .drainReady) := by
  have same : (s.call .drainReady).total = s.total := total_drain
  refine ⟨⟨?_, delivery.arbitrated.seen, ?_⟩, ?_, ?_⟩
  · exact ⟨delivery.arbitrated.tracked.width, delivery.arbitrated.tracked.windowed,
      delivery.arbitrated.tracked.pending⟩
  · rw [same]
    exact delivery.arbitrated.passed
  · intro ordered
    exact ⟨(delivery.flowing ordered).empty, same.trans (delivery.flowing ordered).total⟩
  · intro disordered
    simp only [Lost]
    rw [same]
    exact delivery.lost disordered

theorem run_delivery {calls : List AbCall} (small : gapWindow < 2 ^ 64 - 1) (isFeed : IsFeed v feed)
    (short : feed.length < 2 ^ 64 - 1) (copies : ∀ e ∈ arrivals calls, e ∈ feed)
    (within : Run.Along AbSession.call (WithinWindow v) ⟨.create gapWindow, []⟩ calls) :
    Delivery gapWindow v feed (arrivals calls) (run gapWindow calls) := by
  have letters : ∀ c ∈ calls, ∀ e ∈ c.event?, e ∈ feed := fun c member e event =>
    copies e (List.mem_filterMap.mpr ⟨c, member, event⟩)
  have start : Delivery gapWindow v feed [] ⟨.create gapWindow, []⟩ :=
    ⟨create_arbitrated (by unfold wordSize; omega) v,
      fun _ => ⟨fun _ held => absurd held TagRing.holds_cleared, rfl⟩,
      fun disordered => absurd firstInOrder_nil disordered⟩
  refine (within.and (Run.along_of_forall _ calls letters)).history
    (P := fun past s => Delivery gapWindow v feed (arrivals past) s) ?_ [] start
  rintro past s c delivery ⟨inside, copy⟩
  cases c with
  | drainReady =>
    rw [arrivals_drain]
    exact delivery.drain
  | onEvent side ev =>
    rw [arrivals_onEvent]
    have member : ev ∈ feed := copy ev rfl
    have venue := isFeed.venue ev member
    have bound := isFeed.seq_bounds member
    have near := inside venue
    rw [AbArbiter.onEvent_status, ne_eq, SequenceTracker.tooLarge_iff] at near
    subst venue
    rw [delivery.arbitrated.tracked.width] at near
    exact delivery.arrive side (by unfold wordSize; omega) (by omega) isFeed member

/-- The two feeds lose nothing and duplicate nothing exactly when first copies
arrive in order. -/
theorem arbiter_delivers_iff (gapWindow : Nat) (v : Venue) (feed : List BookEvent)
    (calls : List AbCall) (small : gapWindow < 2 ^ 64 - 1) (isFeed : IsFeed v feed)
    (short : feed.length < 2 ^ 64 - 1) (copies : ∀ e ∈ arrivals calls, e ∈ feed)
    (complete : ∀ e ∈ feed, e ∈ arrivals calls)
    (within : Run.Along AbSession.call (WithinWindow v) ⟨.create gapWindow, []⟩ calls) :
    ((run gapWindow calls).call .drainReady).drained = feed ↔ FirstInOrder (arrivals calls) := by
  have delivery := run_delivery small isFeed short copies within
  rw [total_final]
  constructor
  · intro delivered
    by_contra disordered
    obtain ⟨e, member, _, unhanded⟩ := delivery.lost disordered
    exact unhanded e (delivered ▸ member) rfl
  · intro ordered
    have flowing := delivery.flowing ordered
    rw [flowing.total]
    apply List.take_of_length_le
    rcases Nat.eq_zero_or_pos feed.length with none | some
    · omega
    · obtain ⟨e, member, last⟩ := isFeed.exists_seq some (Nat.le_refl _)
      have seen := (delivery.arbitrated.seen e.seq).mpr (Or.inr ⟨e, complete e member, rfl⟩)
      rcases seen with behind | held
      · omega
      · exact absurd held (flowing.empty _)

/-- Both lines deliver in order, with one early copy on the other line. -/
theorem arbiter_delivers_both :
    ((run 8 [.onEvent .a { sequence := 1 }, .onEvent .b { sequence := 1 }, .drainReady,
        .onEvent .b { sequence := 2 }, .onEvent .a { sequence := 2 }]).call .drainReady).drained =
      [{ sequence := 1 }, { sequence := 2 }] ↔
    FirstInOrder (arrivals [.onEvent .a { sequence := 1 }, .onEvent .b { sequence := 1 },
      .drainReady, .onEvent .b { sequence := 2 }, .onEvent .a { sequence := 2 }]) :=
  arbiter_delivers_iff 8 .nasdaq [{ sequence := 1 }, { sequence := 2 }] _ (by decide)
    ⟨by decide, by decide⟩ (by decide) (by decide) (by decide)
    ⟨by decide, by decide, by decide, by decide, by decide, trivial⟩

/-- Sequence 2 arrives first, is released by the ring when 1 arrives, and is lost. -/
theorem arbiter_loses_buffered :
    let calls : List AbCall := [.onEvent .a { sequence := 2 }, .onEvent .b { sequence := 1 }]
    Run.Along AbSession.call (WithinWindow .nasdaq) ⟨.create 8, []⟩ calls ∧
      ((run 8 calls).call .drainReady).drained = [{ sequence := 1 }] ∧
      ((run 8 calls).call .drainReady).drained ≠ [{ sequence := 1 }, { sequence := 2 }] :=
  ⟨⟨by decide, by decide, trivial⟩, by decide, by decide⟩

end FeedHandler.AbSession
