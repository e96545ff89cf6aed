import FeedHandler.Phase2.Pipeline

/-! What one event does to the lane of its venue and to the others. The release
loop is described by the list of buffered events it finds; an in-order event is
the publication of that event followed by those. -/
namespace FeedHandler.Pipeline

variable {p q : Pipeline} {ev e : BookEvent} {v w : Venue}

@[simp] theorem evictStore_sequencer : (p.evictStore v).sequencer = p.sequencer := by
  simp only [evictStore]
  split <;> rfl

@[simp] theorem evictStore_merger : (p.evictStore v).merger = p.merger := by
  simp only [evictStore]
  split <;> rfl

@[simp] theorem evictStore_pending : (p.evictStore v).pendingByVenue = p.pendingByVenue := by
  simp only [evictStore]
  split <;> rfl

@[simp] theorem evictStore_sim : (p.evictStore v).recoverySim = p.recoverySim := by
  simp only [evictStore]
  split <;> rfl

@[simp] theorem evictStore_stats : (p.evictStore v).stats = p.stats := by
  simp only [evictStore]
  split <;> rfl

theorem reinjectRecovered_nil (idle : p.recoverySim.pendingRecovered = []) :
    p.reinjectRecovered = p := by
  have sim : { p.recoverySim with pendingRecovered := [] } = p.recoverySim := by rw [← idle]
  simp only [reinjectRecovered, ReplayRecoverySimulator.drainRecovered, idle, List.foldl_nil, sim]

/-- The part of a venue's recorded arrivals that survives when `next` is expected. -/
def keepRecent (next : Nat) (store : List BookEvent) : List BookEvent :=
  if next > recoveryLookbackSlack then
    store.dropWhile (fun ev => decide (ev.seq < next - recoveryLookbackSlack))
  else store

theorem keepRecent_suffix (next : Nat) (store : List BookEvent) :
    keepRecent next store <:+ store := by
  simp only [keepRecent]
  split
  · exact List.dropWhile_suffix _
  · exact List.suffix_refl _

theorem evictStore_byVenue : (p.evictStore v).recoveryStore.byVenue =
    Function.update p.recoveryStore.byVenue v
      (keepRecent (p.sequencer.nextExpected v) (p.recoveryStore.byVenue v)) := by
  simp only [evictStore, keepRecent]
  split
  · rfl
  · rw [Function.update_eq_self]

theorem evictStore_capacity :
    (p.evictStore v).recoveryStore.maxEventsPerVenue = p.recoveryStore.maxEventsPerVenue := by
  simp only [evictStore]
  split <;> rfl

/-- The buffered events with the `count` sequences from `seq` on, in that order. -/
def bufferedFrom (p : Pipeline) (v : Venue) (seq count : Nat) : List BookEvent :=
  (List.range' seq count).filterMap (p.pendingByVenue v).find?

/-- Buffered events of a venue carry that venue. -/
def Labelled (p : Pipeline) (v : Venue) : Prop :=
  ∀ k e, (p.pendingByVenue v).find? k = some e → e.venue = v ∧ e.seq = k

/-- Effect of releasing `count` sequences from `seq` on. -/
structure Released (p : Pipeline) (v : Venue) (seq count : Nat) (q : Pipeline) : Prop where
  queues : q.merger.queues =
    Function.update p.merger.queues v (p.merger.queues v ++ p.bufferedFrom v seq count)
  others : ∀ w, w ≠ v → q.pendingByVenue w = p.pendingByVenue w
  remaining : ∀ k, (q.pendingByVenue v).find? k =
    if seq ≤ k ∧ k < seq + count then none else (p.pendingByVenue v).find? k
  size : (q.pendingByVenue v).size + (p.bufferedFrom v seq count).length =
    (p.pendingByVenue v).size
  sequencer : q.sequencer = p.sequencer
  store : q.recoveryStore = p.recoveryStore
  sim : q.recoverySim = p.recoverySim
  stats : q.stats =
    { p.stats with
      accepted := p.stats.accepted + (p.bufferedFrom v seq count).length
      pendingInconsistency := p.stats.pendingInconsistency +
        (count - (p.bufferedFrom v seq count).length) }

theorem bufferedFrom_length_le (p : Pipeline) (v : Venue) (seq count : Nat) :
    (p.bufferedFrom v seq count).length ≤ count := by
  simpa [bufferedFrom] using List.length_filterMap_le (p.pendingByVenue v).find?
    (List.range' seq count)

/-- The sequence after the last released one is never used, so it may wrap. -/
theorem releasePending_successor {count seq : Nat} (v : Venue) (p : Pipeline)
    (room : seq + (count + 1) ≤ wordSize) :
    releasePending count (SequenceTracker.successor seq) v p =
      releasePending count (seq + 1) v p := by
  by_cases last : count = 0
  · subst last
    rfl
  · rw [SequenceTracker.successor_eq (by omega)]

section Released

variable {p q : Pipeline} {v : Venue} {seq count : Nat}

theorem range_succ {k : Nat} (distinct : k ≠ seq) :
    (seq + 1 ≤ k ∧ k < seq + 1 + count) ↔ (seq ≤ k ∧ k < seq + (count + 1)) := by
  omega

/-- The pipeline after a released sequence was not found. -/
def missPending (p : Pipeline) : Pipeline :=
  { p with stats := { p.stats with pendingInconsistency := p.stats.pendingInconsistency + 1 } }

/-- A release that starts at a sequence which is not buffered. -/
theorem Released.miss (absent : (p.pendingByVenue v).find? seq = none)
    (rest : Released p.missPending v (seq + 1) count q) : Released p v seq (count + 1) q := by
  have list : p.bufferedFrom v seq (count + 1) = p.missPending.bufferedFrom v (seq + 1) count := by
    simp only [bufferedFrom, List.range'_succ, List.filterMap_cons, absent, missPending]
  have short := bufferedFrom_length_le p.missPending v (seq + 1) count
  refine ⟨?_, rest.others, ?_, ?_, rest.sequencer, rest.store, rest.sim, ?_⟩
  · rw [list]
    exact rest.queues
  · intro k
    rw [rest.remaining k]
    by_cases here : k = seq
    · subst here
      simp [absent, missPending]
    · simp only [range_succ here, missPending]
  · rw [list]
    exact rest.size
  · rw [rest.stats, list]
    generalize (p.missPending.bufferedFrom v (seq + 1) count).length = hits at short
    simp only [missPending, PipelineStats.mk.injEq, true_and, and_true]
    omega

/-- The pipeline after the buffered event `head` of sequence `seq` is published. -/
def takePending (p : Pipeline) (v : Venue) (seq : Nat) (head : BookEvent) : Pipeline :=
  { p.publish head with
    pendingByVenue := Function.update p.pendingByVenue v ((p.pendingByVenue v).erase seq) }

@[simp] theorem takePending_pending (head : BookEvent) :
    (p.takePending v seq head).pendingByVenue v = (p.pendingByVenue v).erase seq :=
  Function.update_self _ _ _

theorem takePending_labelled {head : BookEvent} (labels : p.Labelled v) :
    (p.takePending v seq head).Labelled v := by
  intro k e hit
  rw [takePending_pending, OrderedMap.find?_erase] at hit
  split at hit
  · cases hit
  · exact labels k e hit

/-- A release that starts with the buffered event `head`. -/
theorem Released.take {head : BookEvent} (found : (p.pendingByVenue v).find? seq = some head)
    (venue : head.venue = v) (rest : Released (p.takePending v seq head) v (seq + 1) count q) :
    Released p v seq (count + 1) q := by
  have erased : ((p.pendingByVenue v).erase seq).size + 1 = (p.pendingByVenue v).size :=
    OrderedMap.size_erase_mem (OrderedMap.mem_keys.mpr ⟨head, found⟩)
  have list : p.bufferedFrom v seq (count + 1) =
      head :: (p.takePending v seq head).bufferedFrom v (seq + 1) count := by
    simp only [bufferedFrom, List.range'_succ, List.filterMap_cons, found, takePending_pending]
    congr 1
    apply List.filterMap_congr
    intro k member
    have later := (List.mem_range'_1.mp member).1
    rw [OrderedMap.find?_erase, if_neg (by omega)]
  refine ⟨?_, ?_, ?_, ?_, rest.sequencer, rest.store, rest.sim, ?_⟩
  · rw [rest.queues, list]
    simp [takePending, publish_eq, DeterministicMerger.push, venue]
  · intro w other
    rw [rest.others w other]
    exact Function.update_of_ne other _ _
  · intro k
    rw [rest.remaining k, takePending_pending, OrderedMap.find?_erase]
    by_cases here : k = seq
    · subst here
      simp
    · simp only [range_succ here, here, if_false]
  · rw [list, List.length_cons]
    have size := rest.size
    rw [takePending_pending] at size
    omega
  · rw [rest.stats, list]
    simp only [takePending, publish_eq, List.length_cons, PipelineStats.mk.injEq, true_and, and_true]
    constructor <;> omega

end Released

theorem releasePending_spec (count seq : Nat) (v : Venue) (p : Pipeline)
    (labels : p.Labelled v) (room : seq + count ≤ wordSize) :
    Released p v seq count (releasePending count seq v p) := by
  induction count generalizing seq p with
  | zero => constructor <;> simp [releasePending, bufferedFrom]
  | succ count ih =>
    cases found : (p.pendingByVenue v).find? seq with
    | none =>
      refine Released.miss found ?_
      simp only [releasePending, found, releasePending_successor v _ room]
      exact ih (seq + 1) _ labels (by omega)
    | some head =>
      refine Released.take found (labels seq head found).1 ?_
      simp only [releasePending, found, releasePending_successor v _ room]
      exact ih (seq + 1) _ (takePending_labelled labels) (by omega)

/-- Effect of an in-order event on the whole pipeline. -/
structure Advanced (p : Pipeline) (ev : BookEvent) (q : Pipeline) : Prop where
  trackers : q.sequencer.trackers =
    Function.update p.sequencer.trackers ev.venue (p.tracker ev.venue).advanced
  queues : q.merger.queues = Function.update p.merger.queues ev.venue
    (p.merger.queues ev.venue ++
      ev :: p.bufferedFrom ev.venue (ev.seq + 1) (p.tracker ev.venue).released.2.1)
  others : ∀ w, w ≠ ev.venue → q.pendingByVenue w = p.pendingByVenue w
  remaining : ∀ k, (q.pendingByVenue ev.venue).find? k =
    if ev.seq < k ∧ k < (p.tracker ev.venue).released.1 then none
    else (p.pendingByVenue ev.venue).find? k
  size : (q.pendingByVenue ev.venue).size +
      (p.bufferedFrom ev.venue (ev.seq + 1) (p.tracker ev.venue).released.2.1).length =
    (p.pendingByVenue ev.venue).size
  store : q.recoveryStore.byVenue = Function.update p.recoveryStore.byVenue ev.venue
    (keepRecent (p.tracker ev.venue).released.1 (p.recoveryStore.byVenue ev.venue))
  capacity : q.recoveryStore.maxEventsPerVenue = p.recoveryStore.maxEventsPerVenue
  sim : q.recoverySim = p.recoverySim
  stats : q.stats =
    { p.stats with
      accepted := p.stats.accepted + 1 +
        (p.bufferedFrom ev.venue (ev.seq + 1) (p.tracker ev.venue).released.2.1).length
      pendingInconsistency := p.stats.pendingInconsistency +
        ((p.tracker ev.venue).released.2.1 -
          (p.bufferedFrom ev.venue (ev.seq + 1) (p.tracker ev.venue).released.2.1).length) }

theorem processEvent_advanced (same : ev.seq = (p.tracker ev.venue).nextExpected)
    (ok : (p.tracker ev.venue).Unwrapped) (labels : p.Labelled ev.venue)
    (room : ev.seq + 1 < wordSize) : Advanced p ev (p.processEvent ev) := by
  have positive : 0 < ev.seq := same ▸ ok.positive
  have count := (ok.released_spec (same ▸ room)).1
  have bounded := (ok.released_bounded (same ▸ room)).2
  rw [← same] at count
  let p' := Pipeline.publish { p with
    sequencer := ⟨Function.update p.sequencer.trackers ev.venue (p.tracker ev.venue).advanced⟩ } ev
  have effect := releasePending_spec (p.tracker ev.venue).released.2.1 (ev.seq + 1) ev.venue p'
    labels (by omega)
  rw [processEvent_inOrder same positive, SequenceTracker.successor_eq room]
  constructor
  · rw [evictStore_sequencer, effect.sequencer]
    rfl
  · rw [evictStore_merger, effect.queues]
    simp only [p', publish_eq, DeterministicMerger.push, Function.update_self,
      Function.update_idem, List.append_assoc, List.singleton_append]
    rfl
  · intro w other
    rw [evictStore_pending, effect.others w other]
    rfl
  · intro k
    rw [evictStore_pending, effect.remaining k, count]
    rfl
  · rw [evictStore_pending]
    exact effect.size
  · rw [evictStore_byVenue, effect.sequencer, effect.store]
    simp only [p', publish_eq, GapAwareSequencer.nextExpected, Function.update_self]
    rfl
  · rw [evictStore_capacity, effect.store]
    rfl
  · rw [evictStore_sim, effect.sim]
    rfl
  · rw [evictStore_stats, effect.stats]
    rfl

/-- The part of the pipeline that belongs to one venue. -/
structure Lane where
  tracker : SequenceTracker
  pending : OrderedMap Nat BookEvent
  queue : List BookEvent
  store : List BookEvent

def lane (p : Pipeline) (v : Venue) : Lane :=
  ⟨p.sequencer.trackers v, p.pendingByVenue v, p.merger.queues v, p.recoveryStore.byVenue v⟩

/-- Everything one event can do to the lane of its venue. -/
inductive Lane.Step (ev : BookEvent) (l : Lane) : Lane → Prop where
  | old (behind : ev.seq = 0 ∨ ev.seq < l.tracker.nextExpected) : Lane.Step ev l l
  | tooLarge (far : l.tracker.nextExpected + l.tracker.gapWindow < ev.seq) :
      Lane.Step ev l
        ⟨l.tracker.forceAdvance ev.seq, l.pending.eraseBelow ev.seq, l.queue,
          keepRecent (l.tracker.forceAdvance ev.seq).nextExpected l.store⟩
  | buffered (ahead : l.tracker.nextExpected < ev.seq)
      (near : ev.seq ≤ l.tracker.nextExpected + l.tracker.gapWindow) :
      Lane.Step ev l ⟨l.tracker.marked ev.seq, l.pending.insert ev.seq ev, l.queue, l.store⟩
  | inOrder {pending : OrderedMap Nat BookEvent} (same : ev.seq = l.tracker.nextExpected)
      (remaining : ∀ k, pending.find? k =
        if ev.seq < k ∧ k < l.tracker.released.1 then none else l.pending.find? k) :
      Lane.Step ev l
        ⟨l.tracker.advanced, pending,
          l.queue ++ ev ::
            (List.range' (ev.seq + 1) l.tracker.released.2.1).filterMap l.pending.find?,
          keepRecent l.tracker.released.1 l.store⟩

/-- In-order events of this lane do not step past the last 64-bit sequence. -/
def Lane.RoomFor (l : Lane) (ev : BookEvent) : Prop :=
  ev.seq = l.tracker.nextExpected → ev.seq + 1 < wordSize

/-- What every lane keeps as long as its tracker has not stepped past the last
sequence, for any gap window. -/
structure Lane.Tidy (v : Venue) (l : Lane) : Prop where
  tracker : l.tracker.Unwrapped
  labels : ∀ k e, l.pending.find? k = some e → e.venue = v ∧ e.seq = k
  stored : ∀ e ∈ l.store, e.venue = v

section Labels

variable {pending left : OrderedMap Nat BookEvent}
  (labels : ∀ k e, pending.find? k = some e → e.venue = v ∧ e.seq = k)

include labels

/-- A buffered event keeps the labels. -/
theorem labels_insert (venue : ev.venue = v) (k : Nat) (e : BookEvent)
    (found : (pending.insert ev.seq ev).find? k = some e) : e.venue = v ∧ e.seq = k := by
  rw [OrderedMap.find?_insert] at found
  split at found
  · next here =>
    cases found
    exact ⟨venue, here.symm⟩
  · exact labels k e found

/-- So does a release. -/
theorem labels_released {bound : Nat} (remaining : ∀ k, left.find? k =
      if ev.seq < k ∧ k < bound then none else pending.find? k) (k : Nat) (e : BookEvent)
    (found : left.find? k = some e) : e.venue = v ∧ e.seq = k := by
  rw [remaining k] at found
  split at found
  · contradiction
  · exact labels k e found

end Labels

theorem create_tidy (gapWindow capacity : Nat) (v : Venue) :
    ((create gapWindow capacity).lane v).Tidy v where
  tracker := SequenceTracker.create_unwrapped gapWindow
  labels := by
    intro k e found
    cases found
  stored := by
    intro e member
    cases member

theorem Lane.Step.next_le {l l' : Lane} (step : Lane.Step ev l l') (tidy : l.Tidy v)
    (room : l.RoomFor ev) : l.tracker.nextExpected ≤ l'.tracker.nextExpected := by
  cases step with
  | old => exact Nat.le_refl _
  | tooLarge far =>
    have moves : l.tracker.nextExpected < ev.seq := by omega
    exact (SequenceTracker.forceAdvance_next moves).symm ▸ moves.le
  | buffered => exact Nat.le_refl _
  | inOrder same => exact (tidy.tracker.released_bounded (same ▸ room same)).1.le

/-- One event acts on the lane of its venue as `Lane.Step` says. -/
theorem processEvent_lane (tidy : (p.lane ev.venue).Tidy ev.venue)
    (room : (p.lane ev.venue).RoomFor ev) :
    Lane.Step ev (p.lane ev.venue) ((p.processEvent ev).lane ev.venue) := by
  rcases (p.tracker ev.venue).position ev.seq with old | ⟨same, _⟩ | far | ⟨ahead, near⟩
  · rw [processEvent_old old]
    exact .old old
  · have effect := processEvent_advanced same tidy.tracker tidy.labels (room same)
    have shape : (p.processEvent ev).lane ev.venue =
        ⟨(p.tracker ev.venue).advanced, (p.processEvent ev).pendingByVenue ev.venue,
          p.published ev.venue ++
            ev :: p.bufferedFrom ev.venue (ev.seq + 1) (p.tracker ev.venue).released.2.1,
          keepRecent (p.tracker ev.venue).released.1 (p.recoveryStore.byVenue ev.venue)⟩ := by
      simp only [lane, effect.trackers, effect.queues, effect.store, Function.update_self]
    rw [shape]
    exact .inOrder same effect.remaining
  · rw [processEvent_tooLarge far]
    simp only [lane, evictStore_sequencer, evictStore_pending, evictStore_merger,
      evictStore_byVenue, GapAwareSequencer.forceAdvance, GapAwareSequencer.nextExpected,
      Function.update_self]
    exact .tooLarge far
  · rw [processEvent_buffered ahead near]
    simp only [lane, Function.update_self]
    exact .buffered ahead near

/-- One event leaves the lanes of the other venues alone. -/
theorem processEvent_frame (tidy : (p.lane ev.venue).Tidy ev.venue)
    (room : (p.lane ev.venue).RoomFor ev) (other : w ≠ ev.venue) :
    (p.processEvent ev).lane w = p.lane w := by
  rcases (p.tracker ev.venue).position ev.seq with old | ⟨same, _⟩ | far | ⟨ahead, near⟩
  · rw [processEvent_old old]
    rfl
  · have effect := processEvent_advanced same tidy.tracker tidy.labels (room same)
    simp only [lane, effect.trackers, effect.queues, effect.store, effect.others w other,
      Function.update_of_ne other]
  · rw [processEvent_tooLarge far]
    simp only [lane, evictStore_sequencer, evictStore_pending, evictStore_merger,
      evictStore_byVenue, GapAwareSequencer.forceAdvance, Function.update_of_ne other]
  · rw [processEvent_buffered ahead near]
    simp only [lane, Function.update_of_ne other]

/-- The recorded arrivals that a buffered event makes the simulator recover. -/
def requested (p : Pipeline) (ev : BookEvent) : List BookEvent :=
  if (p.tracker ev.venue).nextExpected < ev.seq ∧
      ev.seq ≤ (p.tracker ev.venue).nextExpected + (p.tracker ev.venue).gapWindow then
    (List.range' (p.tracker ev.venue).nextExpected
      (ev.seq - (p.tracker ev.venue).nextExpected)).filterMap (p.recoveryStore.lookup ev.venue)
  else []

theorem processEvent_recovered (tidy : (p.lane ev.venue).Tidy ev.venue)
    (room : (p.lane ev.venue).RoomFor ev) :
    (p.processEvent ev).recoverySim.pendingRecovered =
      p.recoverySim.pendingRecovered ++ p.requested ev := by
  rcases (p.tracker ev.venue).position ev.seq with old | ⟨same, _⟩ | far | ⟨ahead, near⟩
  · rw [processEvent_old old, requested, if_neg (by omega), List.append_nil]
  · have effect := processEvent_advanced same tidy.tracker tidy.labels (room same)
    rw [effect.sim, requested, if_neg (by omega), List.append_nil]
  · rw [processEvent_tooLarge far, requested, if_neg (by omega), List.append_nil, evictStore_sim]
  · rw [processEvent_buffered ahead near, requested, if_pos ⟨ahead, near⟩]
    simp only [ReplayRecoverySimulator.requestRecovery]
    congr 3
    omega

/-- Requested events were recorded for the venue, inside the missing range. -/
theorem mem_requested {r : BookEvent} (member : r ∈ p.requested ev) :
    r ∈ p.recoveryStore.byVenue ev.venue ∧
      (p.tracker ev.venue).nextExpected ≤ r.seq ∧ r.seq < ev.seq ∧
      ev.seq ≤ (p.tracker ev.venue).nextExpected + (p.tracker ev.venue).gapWindow := by
  simp only [requested] at member
  split at member
  · next inside =>
    obtain ⟨k, inRange, found⟩ := List.mem_filterMap.mp member
    obtain ⟨stored, same⟩ := ReplayRecoveryStore.lookup_some found
    have := List.mem_range'_1.mp inRange
    exact ⟨stored, by omega, by omega, inside.2⟩
  · contradiction

end FeedHandler.Pipeline
