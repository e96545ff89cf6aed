import FeedHandler.Phase2.EventOrigins
import FeedHandler.Phase2.PipelineInOrder
import FeedHandler.Phase2.PipelineRecovery

/-! A feed that keeps its order and loses messages, as one file or one multicast line does.
What such a feed has published is stated by a receiver that keeps no buffer, no tag ring and no
store; the pipeline follows it in the lane of the venue, whatever the other venues send. -/
namespace FeedHandler

/-- The receiver of a feed whose sequences only grow: the sequence expected next, the event that
forced the last advance as long as it waits to be recovered, and what has been published. -/
structure LossyFeed where
  next : Nat := 1
  dropped : Option BookEvent := none
  published : List BookEvent := []
  deriving DecidableEq

namespace LossyFeed

/-- An event beyond the window is set aside, and forces the advance to its own sequence. One
inside the window brings back the event that was set aside, and is published itself if it
follows directly. All others wait for a sequence that no longer comes. -/
def arrive (gapWindow : Nat) (s : LossyFeed) (ev : BookEvent) : LossyFeed :=
  if s.next + gapWindow < ev.seq then { s with next := ev.seq, dropped := some ev }
  else
    match s.dropped with
    | none =>
      if ev.seq = s.next then { s with next := s.next + 1, published := s.published ++ [ev] }
      else s
    | some e =>
      if ev.seq = s.next + 1 then ⟨s.next + 2, none, s.published ++ [e, ev]⟩
      else ⟨s.next + 1, none, s.published ++ [e]⟩

def receive (gapWindow : Nat) (events : List BookEvent) : LossyFeed :=
  events.foldl (arrive gapWindow) {}

variable {gapWindow : Nat} {s : LossyFeed} {events front back : List BookEvent}

/-- Without a loss all is published. -/
theorem foldl_counted (none : s.dropped = none)
    (counted : events.map BookEvent.seq = List.range' s.next events.length) :
    events.foldl (arrive gapWindow) s =
      ⟨s.next + events.length, .none, s.published ++ events⟩ := by
  induction events generalizing s with
  | nil =>
    rw [List.append_nil]
    exact congrArg (LossyFeed.mk s.next · s.published) none
  | cons ev rest ih =>
    rw [List.length_cons, List.range'_succ, List.map_cons, List.cons.injEq] at counted
    obtain ⟨same, behind⟩ := counted
    have here : s.arrive gapWindow ev = ⟨s.next + 1, .none, s.published ++ [ev]⟩ := by
      rw [arrive, if_neg (by omega)]
      simp only [none, if_pos same]
    rw [List.foldl_cons, here, ih rfl behind, List.length_cons, Nat.add_assoc,
      Nat.add_comm 1 rest.length, List.append_assoc, List.singleton_append]

/-- While the expected sequence does not come, whatever is inside the window waits. -/
theorem foldl_waiting (none : s.dropped = none)
    (inside : ∀ ev ∈ events, s.next < ev.seq ∧ ev.seq ≤ s.next + gapWindow) :
    events.foldl (arrive gapWindow) s = s := by
  induction events with
  | nil => rfl
  | cons ev rest ih =>
    have here : s.arrive gapWindow ev = s := by
      have position := inside ev List.mem_cons_self
      rw [arrive, if_neg position.2.not_gt]
      simp only [none, if_neg position.1.ne']
    rw [List.foldl_cons, here]
    exact ih fun e member => inside e (List.mem_cons_of_mem ev member)

/-- The first event beyond the window is published if another one follows, and so is all that
follows. -/
theorem foldl_beyond (wide : 1 ≤ gapWindow)
    (counted : events.map BookEvent.seq = List.range' (s.next + gapWindow + 1) events.length) :
    (events.foldl (arrive gapWindow) s).published =
      s.published ++ if events.length ≤ 1 then [] else events := by
  match events with
  | [] => exact (List.append_nil _).symm
  | [ev] =>
    have same : ev.seq = s.next + gapWindow + 1 := (List.cons.inj counted).1
    have here : s.arrive gapWindow ev = ⟨ev.seq, some ev, s.published⟩ := if_pos (by omega)
    rw [List.foldl_cons, here]
    exact (List.append_nil _).symm
  | ev :: next :: rest =>
    simp only [List.length_cons, List.range'_succ, List.map_cons, List.cons.injEq] at counted
    obtain ⟨same, follows, behind⟩ := counted
    have here : s.arrive gapWindow ev = ⟨ev.seq, some ev, s.published⟩ := if_pos (by omega)
    have both : (LossyFeed.mk ev.seq (some ev) s.published).arrive gapWindow next =
        ⟨ev.seq + 2, none, s.published ++ [ev, next]⟩ := by
      rw [arrive, if_neg (by simp only; omega)]
      simp only
      rw [if_pos (by omega)]
    rw [List.foldl_cons, here, List.foldl_cons, both, foldl_counted rfl (by rw [same]; exact behind),
      List.append_assoc]
    simp

/-- One message that is missing costs the window behind it, and what follows the window if it is
a single message. -/
theorem receive_one_lost (wide : 1 ≤ gapWindow) {k n : Nat}
    (seqs : events.map BookEvent.seq = List.range' 1 k ++ List.range' (k + 2) n) :
    (receive gapWindow events).published =
      events.take k ++ if n ≤ gapWindow + 1 then [] else events.drop (k + gapWindow) := by
  have total : events.length = k + n := by
    have count := congrArg List.length seqs
    simpa using count
  have before : (events.take k).map BookEvent.seq = List.range' 1 (events.take k).length := by
    rw [List.map_take, seqs, List.take_left' (by simp), List.length_take, total]
    congr 1
    omega
  have after : (events.drop k).map BookEvent.seq = List.range' (k + 2) n := by
    rw [List.map_drop, seqs, List.drop_left' (by simp)]
  have inside : ∀ ev ∈ (events.drop k).take gapWindow,
      k + 1 < ev.seq ∧ ev.seq ≤ k + 1 + gapWindow := by
    intro ev member
    have seq := List.mem_map_of_mem (f := BookEvent.seq) member
    rw [List.map_take, after] at seq
    rcases le_total n gapWindow with short | long
    · rw [List.take_range'_of_length_le short, List.mem_range'_1] at seq
      omega
    · rw [List.take_range'_of_length_ge long, List.mem_range'_1] at seq
      omega
  have beyond : (events.drop (k + gapWindow)).map BookEvent.seq =
      List.range' (k + 1 + gapWindow + 1) (events.drop (k + gapWindow)).length := by
    rw [← List.drop_drop, List.map_drop, after, List.drop_range', List.length_drop,
      List.length_drop, total, Nat.mul_one]
    congr 1 <;> omega
  have parts : events = events.take k ++ ((events.drop k).take gapWindow ++
      events.drop (k + gapWindow)) := by
    rw [← List.drop_drop, List.take_append_drop, List.take_append_drop]
  have length : (events.drop (k + gapWindow)).length = n - gapWindow := by
    rw [List.length_drop, total]
    omega
  have counted := @foldl_counted gapWindow {} _ rfl before
  rw [List.length_take, total, Nat.min_eq_left (Nat.le_add_right k n), List.nil_append,
    Nat.add_comm 1 k] at counted
  have waited : ((events.drop k).take gapWindow).foldl (arrive gapWindow)
      ⟨k + 1, none, events.take k⟩ = ⟨k + 1, none, events.take k⟩ := foldl_waiting rfl inside
  have short : n - gapWindow ≤ 1 ↔ n ≤ gapWindow + 1 := by omega
  calc (receive gapWindow events).published
      = ((events.drop (k + gapWindow)).foldl (arrive gapWindow)
          ⟨k + 1, none, events.take k⟩).published := by
        conv_lhs => rw [receive, parts, List.foldl_append, List.foldl_append, counted, waited]
    _ = _ := by
        rw [foldl_beyond wide beyond, length]
        simp only [short]

end LossyFeed

namespace Pipeline

variable {p : Pipeline} {ev r : BookEvent} {v : Venue} {gapWindow last : Nat} {s : LossyFeed}
  {l l' : Lane}

/-- An event that is in order asks for no recovery. -/
theorem requested_inOrder (same : ev.seq = (p.tracker ev.venue).nextExpected) :
    p.requested ev = [] :=
  if_neg fun ahead => absurd same ahead.1.ne'

/-- The search finds the dropped event, and nothing else, for whichever later event reports the
gap. -/
theorem Lane.Awaits.requested_within (awaits : (p.lane ev.venue).Awaits r)
    (ahead : r.seq < ev.seq) (near : ev.seq ≤ r.seq + (p.tracker ev.venue).gapWindow)
    (fits : 2 ≤ p.recoveryStore.maxEventsPerVenue) : (p.record ev).requested ev = [r] := by
  have next : (p.tracker ev.venue).nextExpected = r.seq := awaits.next
  obtain ⟨kept, shape, low⟩ := awaits.recorded
  obtain ⟨fresh, recorded, older⟩ := record_keeps_newest p.recoveryStore ev kept [r] shape fits
  have found : (p.record ev).recoveryStore.lookup ev.venue r.seq = some r := by
    apply ReplayRecoveryStore.lookup_partition recorded
    · exact fun e member => low e (older e member)
    · intro e member
      rw [List.mem_singleton.mp member]
      exact ahead.le
  have missing : ∀ k ∈ List.range' (r.seq + 1) (ev.seq - (r.seq + 1)),
      (p.record ev).recoveryStore.lookup ev.venue k = none := by
    intro k inside
    have range := List.mem_range'_1.mp inside
    by_contra other
    obtain ⟨e, looked⟩ := Option.ne_none_iff_exists'.mp other
    obtain ⟨stored, same⟩ := ReplayRecoveryStore.lookup_some looked
    have parts : e ∈ fresh ++ ([r] ++ [ev]) := recorded ▸ stored
    simp only [List.mem_append, List.mem_singleton] at parts
    rcases parts with early | rfl | rfl
    · have := low e (older e early)
      omega
    · omega
    · omega
  have range : List.range' r.seq (ev.seq - r.seq) =
      r.seq :: List.range' (r.seq + 1) (ev.seq - (r.seq + 1)) := by
    rw [← List.range'_succ]
    congr 1
    omega
  have tracker : (p.record ev).tracker ev.venue = p.tracker ev.venue := rfl
  simp only [Pipeline.requested]
  rw [tracker, next, if_pos ⟨ahead, near⟩, range, List.filterMap_cons, found]
  exact congrArg (r :: ·) (List.filterMap_eq_nil_iff.mpr missing)

/-- An arrival inside the window is buffered, and what it made the simulator recover is
reinjected last. -/
theorem Recoverable.onEvent_buffered (rec : Recoverable gapWindow p)
    (ahead : (p.tracker ev.venue).nextExpected < ev.seq)
    (near : ev.seq ≤ (p.tracker ev.venue).nextExpected + (p.tracker ev.venue).gapWindow)
    (below : ev.seq + 1 < wordSize) (none : NoneRecovered ev.venue p) :
    ∃ q, p.onEvent ev = ((p.record ev).requested ev).foldl Pipeline.reinject q ∧
      Recoverable gapWindow q ∧ NoneRecovered ev.venue q ∧
      q.lane ev.venue =
        ⟨(p.tracker ev.venue).marked ev.seq, (p.pendingByVenue ev.venue).insert ev.seq ev,
          p.published ev.venue, (p.recoveryStore.recordEvent ev).byVenue ev.venue⟩ := by
  have last : (p.lane ev.venue).LastBeyondWindow ev := Lane.LastBeyondWindow.of_lt below
  have recorded := rec.toInvariant.record ev
  have recovered := processEvent_recovered (recorded.lanes ev.venue).tidy last.room
  obtain ⟨recAfter, sameLane, noneAfter⟩ := foldl_reinject_idle (v := ev.venue)
    p.recoverySim.pendingRecovered (rec.processed last).drained
    (fun s member => (rec.recovered s member).2)
    (fun s member here => absurd here (none s member)) (fun s member => by cases member)
  refine ⟨_, ?_, recAfter, noneAfter, sameLane.trans (processEvent_buffered_lane ahead near)⟩
  simp only [Pipeline.onEvent, Pipeline.reinjectRecovered]
  simp only [ReplayRecoverySimulator.drainRecovered]
  rw [recovered, List.foldl_append]
  rfl

/-- Events that are still buffered are not reinjected. -/
theorem foldl_reinject_buffered (rs : List BookEvent)
    (held : ∀ r ∈ rs, ((p.pendingByVenue r.venue).find? r.seq).isSome) :
    rs.foldl reinject p = p := by
  induction rs with
  | nil => rfl
  | cons r rest ih =>
    have here : p.reinject r = p := if_pos (held r List.mem_cons_self)
    rw [List.foldl_cons, here]
    exact ih fun e member => held e (List.mem_cons_of_mem r member)

/-- An event in order whose successor is not buffered is published alone. -/
theorem Lane.Step.publishes (step : Lane.Step r l l') (positive : 0 < r.seq)
    (same : r.seq = l.tracker.nextExpected) (room : r.seq + 1 < wordSize)
    (quiet : ¬ l.tracker.Buffered (r.seq + 1)) :
    l'.queue = l.queue ++ [r] ∧ l'.tracker.nextExpected = r.seq + 1 ∧
      ∀ k, l'.tracker.Buffered k ↔ l.tracker.Buffered k := by
  have released := SequenceTracker.released_quiet (same ▸ room) (same ▸ quiet)
  cases step with
  | old behind => omega
  | tooLarge far => omega
  | buffered ahead => omega
  | inOrder =>
    simp only [SequenceTracker.advanced, released, List.range'_zero, List.filterMap_nil, same,
      true_and]
    exact fun k => Iff.rfl

/-- The lane of a venue beside the receiver it stands for, all arrivals being at most `last`:
what has been recorded from the expected sequence on is buffered, or is the dropped event. -/
structure Lane.Mirrors (last : Nat) (s : LossyFeed) (l : Lane) : Prop where
  next : l.tracker.nextExpected = s.next
  queue : l.queue = s.published
  reached : s.next ≤ last + 1
  buffered : ∀ k, l.tracker.Buffered k → k ≤ last
  stored : ∀ e ∈ l.store, e.seq ≤ last
  settled : s.dropped = none → ∀ e ∈ l.store, e.seq < s.next ∨ l.tracker.Buffered e.seq
  awaits : ∀ e, s.dropped = some e → l.Awaits e

theorem Lane.awaits_of_none {l : Lane} {e : Option BookEvent} (none : e = none) :
    ∀ r, e = some r → l.Awaits r := by
  rintro r rfl
  cases none

/-- The pipeline follows the receiver in the lane of `v`. -/
structure Tracks (gapWindow : Nat) (v : Venue) (last : Nat) (s : LossyFeed) (p : Pipeline) :
    Prop where
  recoverable : Recoverable gapWindow p
  idle : NoneRecovered v p
  lane : (p.lane v).Mirrors last s

theorem create_tracks (capacity : Nat) (small : gapWindow + recoveryLookbackSlack < wordSize)
    (v : Venue) : Tracks gapWindow v 0 {} (create gapWindow capacity) where
  recoverable := create_recoverable small
  idle := fun _ none => absurd none List.not_mem_nil
  lane := {
    next := rfl
    queue := rfl
    reached := Nat.le_refl _
    buffered := fun _ held => absurd held TagRing.holds_cleared
    stored := fun _ none => absurd none List.not_mem_nil
    settled := fun _ _ none => absurd none List.not_mem_nil
    awaits := Lane.awaits_of_none rfl }

theorem Tracks.mem_recorded (tracks : Tracks gapWindow ev.venue last s p) {e : BookEvent}
    (member : e ∈ (p.recoveryStore.recordEvent ev).byVenue ev.venue) :
    e ∈ (p.lane ev.venue).store ∧ e.seq ≤ last ∨ e = ev := by
  rcases ReplayRecoveryStore.mem_recordEvent member with old | ⟨same, -⟩
  · exact .inl ⟨old, tracks.lane.stored e old⟩
  · exact .inr same

/-- Beyond the window: the event is set aside. -/
theorem Tracks.dropped (tracks : Tracks gapWindow ev.venue last s p)
    (far : s.next + gapWindow < ev.seq) (below : ev.seq + 1 < wordSize) :
    Tracks gapWindow ev.venue ev.seq (s.arrive gapWindow ev) (p.onEvent ev) := by
  have beyond : (p.tracker ev.venue).nextExpected + gapWindow < ev.seq := by
    rw [show (p.tracker ev.venue).nextExpected = s.next from tracks.lane.next]
    exact far
  obtain ⟨awaits, unpublished, none⟩ := tracks.recoverable.onEvent_tooLarge beyond below
  rw [LossyFeed.arrive, if_pos far]
  refine ⟨tracks.recoverable.onEvent (Lane.LastBeyondWindow.of_lt below), none, ?_⟩
  refine ⟨awaits.next, unpublished.trans tracks.lane.queue, Nat.le_succ _,
    fun k held => absurd held (awaits.empty k), ?_, fun nothing => absurd nothing (by simp), ?_⟩
  · obtain ⟨kept, shape, low⟩ := awaits.recorded
    intro e member
    rw [shape, List.mem_append, List.mem_singleton] at member
    exact member.elim (fun early => (low e early).le) fun same => same ▸ Nat.le_refl _
  · rintro e ⟨⟩
    exact awaits

/-- In order, with nothing set aside: the event is published. -/
theorem Tracks.inOrder (tracks : Tracks gapWindow ev.venue last s p) (later : last < ev.seq)
    (none : s.dropped = none) (same : ev.seq = s.next) (below : ev.seq + 1 < wordSize) :
    Tracks gapWindow ev.venue ev.seq (s.arrive gapWindow ev) (p.onEvent ev) := by
  have last : (p.lane ev.venue).LastBeyondWindow ev := Lane.LastBeyondWindow.of_lt below
  have recorded := tracks.recoverable.toInvariant.record ev
  have expected : ev.seq = (p.tracker ev.venue).nextExpected := same.trans tracks.lane.next.symm
  have quiet : ∀ k, (p.tracker ev.venue).Buffered k → k < ev.seq := fun k held =>
    (tracks.lane.buffered k held).trans_lt later
  have step := processEvent_lane (recorded.lanes ev.venue).tidy last.room
  have recovered := processEvent_recovered (recorded.lanes ev.venue).tidy last.room
  rw [requested_inOrder (p := p.record ev) expected, List.append_nil] at recovered
  obtain ⟨frame, idle⟩ := (tracks.recoverable.processed last).reinjectRecovered_idle (v := ev.venue)
    fun r member venue => absurd venue (tracks.idle r (recovered ▸ member))
  have suffix := step.store_suffix
  obtain ⟨queue, next, held⟩ := step.publishes (Nat.zero_lt_of_lt later) expected below
    fun held => absurd (quiet _ held) (by omega)
  rw [LossyFeed.arrive, if_neg (by omega)]
  simp only [none, if_pos same]
  refine ⟨tracks.recoverable.onEvent last, idle, ?_⟩
  rw [Pipeline.onEvent, frame]
  have stored : ∀ e ∈ (((p.record ev).processEvent ev).lane ev.venue).store, e.seq ≤ ev.seq := by
    intro e member
    rcases tracks.mem_recorded (suffix.mem member) with ⟨-, low⟩ | rfl
    · exact (low.trans_lt later).le
    · exact Nat.le_refl _
  refine ⟨next.trans (congrArg (· + 1) same), queue.trans (congrArg (· ++ [ev]) tracks.lane.queue),
    (congrArg (· + 1) same).ge, fun k buffered => (quiet k ((held k).mp buffered)).le, stored,
    fun _ e member => .inl ?_, Lane.awaits_of_none rfl⟩
  exact same ▸ Nat.lt_succ_of_le (stored e member)

/-- Inside the window, with nothing set aside: the event waits in the buffer, and all that is
found in the store is buffered too. -/
theorem Tracks.waits (tracks : Tracks gapWindow ev.venue last s p) (later : last < ev.seq)
    (none : s.dropped = none) (ahead : s.next < ev.seq) (near : ev.seq ≤ s.next + gapWindow)
    (below : ev.seq + 1 < wordSize) :
    Tracks gapWindow ev.venue ev.seq (s.arrive gapWindow ev) (p.onEvent ev) := by
  have lane := tracks.recoverable.lanes ev.venue
  have next : (p.tracker ev.venue).nextExpected = s.next := tracks.lane.next
  have width : (p.tracker ev.venue).gapWindow = gapWindow := lane.width
  have ahead' : (p.tracker ev.venue).nextExpected < ev.seq := next ▸ ahead
  have near' : ev.seq ≤ (p.tracker ev.venue).nextExpected + (p.tracker ev.venue).gapWindow := by
    rw [next, width]
    exact near
  have held : ∀ k, ((p.tracker ev.venue).marked ev.seq).Buffered k ↔
      k = ev.seq ∨ (p.tracker ev.venue).Buffered k := lane.windowed.buffered_marked ahead' near'
  obtain ⟨q, reinjected, rec, idle, after⟩ :=
    tracks.recoverable.onEvent_buffered ahead' near' below tracks.idle
  have nothing : p.onEvent ev = q := by
    refine reinjected.trans (foldl_reinject_buffered _ fun r member => ?_)
    obtain ⟨recorded, low, high, -⟩ := mem_requested member
    have lowest : s.next ≤ r.seq := next ▸ low
    rcases tracks.mem_recorded recorded with ⟨old, -⟩ | rfl
    · have waiting := (tracks.lane.settled none r old).resolve_left (Nat.not_lt.mpr lowest)
      have kept : (q.lane ev.venue).tracker.Buffered r.seq := by
        rw [after]
        exact (held r.seq).mpr (.inr waiting)
      have key := ((rec.lanes ev.venue).keys r.seq).mpr kept
      rw [lane.stored r old]
      exact Option.isSome_iff_exists.mpr (OrderedMap.mem_keys.mp key)
    · exact absurd high (lt_irrefl _)
  have unchanged : s.arrive gapWindow ev = s := by
    rw [LossyFeed.arrive, if_neg near.not_gt]
    simp only [none, if_neg ahead.ne']
  rw [nothing, unchanged]
  refine ⟨rec, idle, ?_⟩
  rw [after]
  refine ⟨next, tracks.lane.queue, by omega, fun k buffered => ?_, fun e member => ?_,
    fun _ e member => ?_, Lane.awaits_of_none none⟩
  · rcases (held k).mp buffered with rfl | old
    · exact Nat.le_refl _
    · exact ((tracks.lane.buffered k old).trans_lt later).le
  · rcases tracks.mem_recorded member with ⟨-, low⟩ | rfl
    · exact (low.trans_lt later).le
    · exact Nat.le_refl _
  · rcases tracks.mem_recorded member with ⟨old, -⟩ | rfl
    · exact (tracks.lane.settled none e old).imp_right fun waiting => (held e.seq).mpr (.inr waiting)
    · exact .inr ((held e.seq).mpr (.inl rfl))

/-- The tracker never forgets what it has not released. -/
theorem Lane.Step.held (step : Lane.Step r l l') (tidy : l.Tidy v)
    (same : r.seq = l.tracker.nextExpected) (room : r.seq + 1 < wordSize) {k : Nat}
    (buffered : l'.tracker.Buffered k) : l.tracker.Buffered k := by
  cases step with
  | old behind => exact buffered
  | tooLarge far => omega
  | buffered ahead => omega
  | inOrder => exact ((tidy.tracker.released_spec (same ▸ room)).2.2.1 k).mp buffered |>.1

/-- Inside the window, with an event set aside: it is recovered, and so is the arrival if it
follows directly. -/
theorem Tracks.recovers (tracks : Tracks gapWindow ev.venue last s p) (later : last < ev.seq)
    (some : s.dropped = some r) (near : ev.seq ≤ s.next + gapWindow)
    (below : ev.seq + 1 < wordSize) :
    Tracks gapWindow ev.venue ev.seq (s.arrive gapWindow ev) (p.onEvent ev) := by
  have lane := tracks.recoverable.lanes ev.venue
  have awaits := tracks.lane.awaits r some
  have next : (p.tracker ev.venue).nextExpected = s.next := tracks.lane.next
  have dropped : s.next = r.seq := next.symm.trans awaits.next
  have width : (p.tracker ev.venue).gapWindow = gapWindow := lane.width
  obtain ⟨kept, shape, older⟩ := awaits.recorded
  have own : r ∈ (p.lane ev.venue).store := shape ▸ List.mem_append_right kept List.mem_cons_self
  have venue : r.venue = ev.venue := lane.stored r own
  have ahead : r.seq < ev.seq := (tracks.lane.stored r own).trans_lt later
  have near' : ev.seq ≤ r.seq + (p.tracker ev.venue).gapWindow := by omega
  have ahead' : (p.tracker ev.venue).nextExpected < ev.seq := next.trans dropped ▸ ahead
  have inside : ev.seq ≤ (p.tracker ev.venue).nextExpected + (p.tracker ev.venue).gapWindow := by
    rw [next, dropped]
    exact near'
  have held : ∀ k, ((p.tracker ev.venue).marked ev.seq).Buffered k ↔ k = ev.seq := fun k =>
    (lane.windowed.buffered_marked ahead' inside k).trans (or_iff_left (awaits.empty k))
  obtain ⟨q, reinjected, rec, idle, after⟩ :=
    tracks.recoverable.onEvent_buffered ahead' inside below tracks.idle
  have fits : 2 ≤ p.recoveryStore.maxEventsPerVenue := by
    rw [tracks.recoverable.capacity, recoveryLookbackSlack]
    omega
  rw [awaits.requested_within ahead near' fits, List.foldl_cons, List.foldl_nil] at reinjected
  have room : r.seq + 1 < wordSize := by omega
  have positive : 0 < r.seq := awaits.next ▸ lane.windowed.positive
  have expected : r.seq = (q.lane ev.venue).tracker.nextExpected := by
    rw [after]
    exact awaits.next.symm
  have only : ∀ k, (q.lane ev.venue).tracker.Buffered k ↔ k = ev.seq := by
    rw [after]
    exact held
  have absent : (q.pendingByVenue r.venue).find? r.seq = Option.none := by
    rw [venue, OrderedMap.find?_eq_none]
    intro member
    exact ahead.ne ((only r.seq).mp (((rec.lanes ev.venue).keys r.seq).mp member))
  have step := reinject_lane (rec.lanes r.venue).tidy (fun _ => room) absent
  rw [venue] at step
  have idleAfter : NoneRecovered ev.venue (q.reinject r) := by
    have recovered := processEvent_recovered (rec.lanes r.venue).tidy (fun _ => room)
    rw [requested_inOrder (venue ▸ expected), List.append_nil] at recovered
    intro e member
    simp only [Pipeline.reinject, absent, Option.isSome_none, Bool.false_eq_true, if_false,
      recovered] at member
    exact idle e member
  have stored : ∀ e ∈ ((q.reinject r).lane ev.venue).store,
      e.seq ≤ r.seq ∨ e = ev := by
    intro e member
    have recorded := step.store_suffix.mem member
    rw [after] at recorded
    rcases tracks.mem_recorded recorded with ⟨old, -⟩ | same
    · rw [shape, List.mem_append, List.mem_singleton] at old
      exact .inl (old.elim (fun early => (older e early).le) fun same => same ▸ Nat.le_refl _)
    · exact .inr same
  have queue : (q.lane ev.venue).queue = s.published := by
    rw [after]
    exact tracks.lane.queue
  rw [reinjected, LossyFeed.arrive, if_neg near.not_gt]
  simp only [some]
  refine ⟨rec.reinject room, idleAfter, ?_⟩
  have reached : ∀ k, ((q.reinject r).lane ev.venue).tracker.Buffered k → k ≤ ev.seq := fun k held =>
    ((only k).mp (step.held (rec.lanes ev.venue).tidy expected room held)).le
  have atMost : ∀ e ∈ ((q.reinject r).lane ev.venue).store, e.seq ≤ ev.seq := fun e member =>
    (stored e member).elim (fun low => low.trans ahead.le) fun same => same ▸ Nat.le_refl _
  by_cases follows : ev.seq = s.next + 1
  · have pair : ∀ k, (q.lane ev.venue).tracker.Buffered k ↔ k = r.seq + 1 := by
      rw [← dropped, ← follows]
      exact only
    have found : (q.lane ev.venue).pending.find? (r.seq + 1) = Option.some ev := by
      rw [after, ← dropped, ← follows]
      simp
    obtain ⟨released, advanced⟩ :=
      step.release_pair (rec.lanes ev.venue) expected room pair found
    rw [if_pos follows]
    rw [dropped.symm] at advanced
    rw [queue] at released
    refine ⟨advanced, released, ?_, reached, atMost, fun _ e member => .inl ?_,
      Lane.awaits_of_none rfl⟩
    · simp only [follows]
      rfl
    · have := atMost e member
      simp only
      omega
  · obtain ⟨released, advanced, still⟩ := step.publishes positive expected room
      fun held => follows (dropped ▸ ((only _).mp held).symm)
    rw [if_neg follows]
    rw [dropped.symm] at advanced
    rw [queue] at released
    refine ⟨advanced, released, ?_, reached, atMost, fun _ e member => ?_,
      Lane.awaits_of_none rfl⟩
    · simp only
      omega
    · rcases stored e member with low | rfl
      · exact .inl (by simp only; omega)
      · exact .inr ((still _).mpr ((only _).mpr rfl))

/-- Step lemma: whatever the later arrival is, the pipeline follows. -/
theorem Tracks.arrive (tracks : Tracks gapWindow ev.venue last s p) (later : last < ev.seq)
    (below : ev.seq + 1 < wordSize) :
    Tracks gapWindow ev.venue ev.seq (s.arrive gapWindow ev) (p.onEvent ev) := by
  have reached := tracks.lane.reached
  by_cases far : s.next + gapWindow < ev.seq
  · exact tracks.dropped far below
  · cases aside : s.dropped with
    | some r => exact tracks.recovers later aside (not_lt.mp far) below
    | none =>
      by_cases same : ev.seq = s.next
      · exact tracks.inOrder later aside same below
      · exact tracks.waits later aside (by omega) (not_lt.mp far) below

/-- Run lemma: the other venues may send what they will. -/
theorem Tracks.run {events : List BookEvent} (tracks : Tracks gapWindow v last s p)
    (below : ∀ ev ∈ events, ev.seq + 1 < wordSize)
    (increasing : (last :: (DeterministicMerger.ofVenue events v).map BookEvent.seq).Pairwise
      (· < ·)) :
    ∃ reached, Tracks gapWindow v reached
      ((DeterministicMerger.ofVenue events v).foldl (LossyFeed.arrive gapWindow) s)
      (events.foldl onEvent p) := by
  induction events generalizing p last s with
  | nil => exact ⟨last, tracks⟩
  | cons ev rest ih =>
    have here := below ev List.mem_cons_self
    have behind := fun e member => below e (List.mem_cons_of_mem ev member)
    by_cases own : ev.venue = v
    · subst own
      have front : DeterministicMerger.ofVenue (ev :: rest) ev.venue =
          ev :: DeterministicMerger.ofVenue rest ev.venue :=
        List.filter_cons_of_pos (decide_eq_true rfl)
      rw [front, List.map_cons, List.pairwise_cons] at increasing
      rw [front, List.foldl_cons, List.foldl_cons]
      exact ih (tracks.arrive (increasing.1 ev.seq List.mem_cons_self) here) behind increasing.2
    · have front : DeterministicMerger.ofVenue (ev :: rest) v =
          DeterministicMerger.ofVenue rest v :=
        List.filter_cons_of_neg (by simpa using own)
      rw [front] at increasing ⊢
      obtain ⟨frame, idle⟩ := tracks.recoverable.onEvent_other
        (Lane.LastBeyondWindow.of_lt here) own tracks.idle
      refine ih ⟨?_, idle, ?_⟩ behind increasing
      · exact tracks.recoverable.onEvent (Lane.LastBeyondWindow.of_lt here)
      · rw [frame]
        exact tracks.lane

/-- What the pipeline has published of a venue whose sequences only grow, whatever is missing
between them and whatever the other venues send. -/
theorem published_received (capacity : Nat) (events : List BookEvent) (v : Venue)
    (small : gapWindow < 2 ^ 64 - 64) (below : ∀ ev ∈ events, ev.seq < 2 ^ 64 - 1)
    (increasing : (0 :: (DeterministicMerger.ofVenue events v).map BookEvent.seq).Pairwise
      (· < ·)) :
    (run gapWindow capacity events).published v =
      (LossyFeed.receive gapWindow (DeterministicMerger.ofVenue events v)).published := by
  have room : gapWindow + recoveryLookbackSlack < wordSize := by
    simp only [recoveryLookbackSlack, wordSize]
    omega
  have words : ∀ ev ∈ events, ev.seq + 1 < wordSize := by
    intro ev member
    have := below ev member
    simp only [wordSize]
    omega
  obtain ⟨reached, tracks⟩ := (create_tracks capacity room v).run words increasing
  exact tracks.lane.queue

/-- A venue whose sequences only grow has published exactly what the receiver without buffers
has, whatever is missing between them and whatever the other venues send. With the one message
behind the first `k` missing it is what lies before that message and behind the gap window, or
only what lies before if no two events lie behind. -/
theorem lossy_feed_exact (capacity : Nat) (events : List BookEvent) (v : Venue)
    (small : gapWindow < 2 ^ 64 - 64) (below : ∀ ev ∈ events, ev.seq < 2 ^ 64 - 1)
    (increasing : (0 :: (DeterministicMerger.ofVenue events v).map BookEvent.seq).Pairwise
      (· < ·)) :
    let mine := DeterministicMerger.ofVenue events v
    let p := run gapWindow capacity events
    p.published v = (LossyFeed.receive gapWindow mine).published ∧
      (1 ≤ gapWindow → ∀ k n,
        mine.map BookEvent.seq = List.range' 1 k ++ List.range' (k + 2) n →
          p.published v =
            mine.take k ++ if n ≤ gapWindow + 1 then [] else mine.drop (k + gapWindow)) := by
  intro mine p
  have followed := published_received capacity events v small below increasing
  refine ⟨followed, fun wide k n seqs => followed.trans ?_⟩
  exact LossyFeed.receive_one_lost wide seqs

/-- Window 2: sequence 2 is missing, 3 and 4 wait for it, 5 forces the advance and comes back
with 6; the other venue repeats itself and leaves the window. -/
theorem lossy_feed_exact_second :
    let events : List BookEvent := [{ sequence := 1 }, { sequence := 3 },
      { venue := .iex, sequence := 9 }, { sequence := 4 }, { venue := .iex, sequence := 9 },
      { sequence := 5 }, { venue := .iex, sequence := 1 }, { sequence := 6 }]
    let mine := DeterministicMerger.ofVenue events .nasdaq
    let p := run 2 8 events
    p.published .nasdaq = (LossyFeed.receive 2 mine).published ∧
      (1 ≤ 2 → ∀ k n, mine.map BookEvent.seq = List.range' 1 k ++ List.range' (k + 2) n →
        p.published .nasdaq = mine.take k ++ if n ≤ 2 + 1 then [] else mine.drop (k + 2)) :=
  lossy_feed_exact 8 _ .nasdaq (by decide) (by decide) (by decide)

/-- What these events leave: the window behind the missing one is gone. -/
example : (LossyFeed.receive 2 [{ sequence := 1 }, { sequence := 3 }, { sequence := 4 },
    { sequence := 5 }, { sequence := 6 }]).published =
      [{ sequence := 1 }, { sequence := 5 }, { sequence := 6 }] := by decide

end Pipeline
end FeedHandler
