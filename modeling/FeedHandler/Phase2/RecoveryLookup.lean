import FeedHandler.Lib.Run
import FeedHandler.Phase2.Recovery

/-! Completeness of the replay store. The queue of a venue is in arrival order and
the search in it presumes sequence order, so what the search misses is decided by
the arrivals that undercut the one before them. -/
namespace FeedHandler
namespace ReplayRecoveryStore

/-- A call of the store that changes it. -/
inductive Call where
  | record (ev : BookEvent)
  | evict (venue : Venue) (minSequenceToKeep : Nat)
  deriving DecidableEq

def call (store : ReplayRecoveryStore) : Call → ReplayRecoveryStore
  | .record ev => store.recordEvent ev
  | .evict venue minSequenceToKeep => store.evictBefore venue minSequenceToKeep

/-- The queue of the venue holds an event of this sequence. -/
def Held (store : ReplayRecoveryStore) (venue : Venue) (sequence : Nat) : Prop :=
  ∃ ev ∈ store.byVenue venue, ev.seq = sequence

/-- The search finds an event of the sequence exactly if one is held. -/
def Complete (store : ReplayRecoveryStore) : Prop :=
  ∀ venue sequence,
    (∃ ev, store.lookup venue sequence = some ev ∧ ev.seq = sequence) ↔ store.Held venue sequence

/-- The recorded event does not undercut the newest event that stays beside it. -/
def InOrder (store : ReplayRecoveryStore) : Call → Prop
  | .record ev => store.maxEventsPerVenue ≤ 1 ∨
      ∀ newest ∈ (store.byVenue ev.venue).getLast?, newest.seq ≤ ev.seq
  | .evict _ _ => True

/-- The sequence of the recorded event is not held yet. -/
def Fresh (store : ReplayRecoveryStore) : Call → Prop
  | .record ev => ¬ store.Held ev.venue ev.seq
  | .evict _ _ => True

/-- Every queue is in sequence order. -/
def Ascending (store : ReplayRecoveryStore) : Prop :=
  ∀ venue, (store.byVenue venue).Pairwise (fun a b => a.seq ≤ b.seq)

/-- A store before its first call. -/
def create (capacity : Nat) : ReplayRecoveryStore := { maxEventsPerVenue := capacity }

theorem create_ascending (capacity : Nat) : (create capacity).Ascending :=
  fun _ => List.Pairwise.nil

theorem recordEvent_self (store : ReplayRecoveryStore) (ev : BookEvent) :
    (store.recordEvent ev).byVenue ev.venue =
      (store.byVenue ev.venue ++ [ev]).drop
        ((store.byVenue ev.venue ++ [ev]).length - store.maxEventsPerVenue) := by
  simp only [recordEvent, Function.update_self]

theorem recordEvent_other (store : ReplayRecoveryStore) (ev : BookEvent) {venue : Venue}
    (other : venue ≠ ev.venue) : (store.recordEvent ev).byVenue venue = store.byVenue venue := by
  simp only [recordEvent, Function.update_of_ne other]

/-- The newest event bounds a sorted queue. -/
theorem newest_bound {q : List BookEvent} (sorted : q.Pairwise (fun a b => a.seq ≤ b.seq))
    {bound : Nat} (newest : ∀ e ∈ q.getLast?, e.seq ≤ bound) : ∀ e ∈ q, e.seq ≤ bound := by
  induction q using List.reverseRecOn with
  | nil => simp
  | append_singleton front last _ =>
    have top : last.seq ≤ bound := newest last (by simp)
    intro e member
    rcases List.mem_append.mp member with older | here
    · exact Nat.le_trans ((List.pairwise_append.mp sorted).2.2 e older last (by simp)) top
    · rw [List.mem_singleton.mp here]
      exact top

theorem ascending_short {q : List BookEvent} (short : q.length ≤ 1) :
    q.Pairwise (fun a b => a.seq ≤ b.seq) := by
  rcases q with _ | ⟨only, _ | ⟨second, rest⟩⟩
  · exact List.Pairwise.nil
  · exact List.pairwise_singleton _ _
  · simp only [List.length_cons] at short
    omega

theorem recordEvent_sorted {store : ReplayRecoveryStore} {ev : BookEvent}
    (ascending : store.Ascending) (inOrder : store.InOrder (.record ev)) :
    ((store.recordEvent ev).byVenue ev.venue).Pairwise (fun a b => a.seq ≤ b.seq) := by
  rw [recordEvent_self]
  rcases inOrder with tiny | newest
  · -- At most the recorded event itself survives the trim.
    apply ascending_short
    rw [List.length_drop]
    omega
  · apply List.Pairwise.drop
    rw [List.pairwise_append]
    refine ⟨ascending ev.venue, List.pairwise_singleton _ _, ?_⟩
    intro e held last isLast
    rw [List.mem_singleton.mp isLast]
    exact newest_bound (ascending ev.venue) newest e held

/-- One call that is in order keeps every queue sorted. -/
theorem Ascending.call {store : ReplayRecoveryStore} {c : Call} (ascending : store.Ascending)
    (inOrder : store.InOrder c) : (store.call c).Ascending := by
  cases c with
  | record ev =>
    intro venue
    by_cases same : venue = ev.venue
    · subst same
      exact recordEvent_sorted ascending inOrder
    · simp only [ReplayRecoveryStore.call, recordEvent_other store ev same]
      exact ascending venue
  | evict at_venue keep =>
    intro venue
    by_cases same : venue = at_venue
    · subst same
      simp only [ReplayRecoveryStore.call, evictBefore, Function.update_self]
      exact (ascending venue).sublist (List.dropWhile_sublist _)
    · simp only [ReplayRecoveryStore.call, evictBefore, Function.update_of_ne same]
      exact ascending venue

/-- A sorted queue splits in front of the first event of a sequence that it holds. -/
theorem split_at_first {q : List BookEvent} (sorted : q.Pairwise (fun a b => a.seq ≤ b.seq))
    {sequence : Nat} (held : ∃ ev ∈ q, ev.seq = sequence) :
    ∃ older ev newer, q = older ++ ev :: newer ∧ ev.seq = sequence ∧
      (∀ e ∈ older, e.seq < sequence) ∧ ∀ e ∈ newer, sequence ≤ e.seq := by
  induction q with
  | nil => obtain ⟨_, member, _⟩ := held; cases member
  | cons first rest ih =>
    obtain ⟨least, tail⟩ := List.pairwise_cons.mp sorted
    by_cases here : first.seq = sequence
    · refine ⟨[], first, rest, rfl, here, by simp, ?_⟩
      intro e member
      rw [← here]
      exact least e member
    · have later : ∃ ev ∈ rest, ev.seq = sequence := by
        obtain ⟨ev, member, same⟩ := held
        rcases List.mem_cons.mp member with rfl | inside
        · exact absurd same here
        · exact ⟨ev, inside, same⟩
      obtain ⟨older, ev, newer, shape, same, low, high⟩ := ih tail later
      refine ⟨first :: older, ev, newer, by rw [shape]; rfl, same, ?_, high⟩
      intro e member
      rcases List.mem_cons.mp member with rfl | inside
      · have bound := least ev (by rw [shape]; simp)
        omega
      · exact low e inside

theorem Ascending.complete {store : ReplayRecoveryStore} (ascending : store.Ascending) :
    store.Complete := by
  intro venue sequence
  constructor
  · rintro ⟨ev, found, same⟩
    exact ⟨ev, (lookup_some found).1, same⟩
  · intro held
    obtain ⟨older, ev, newer, shape, same, low, high⟩ :=
      split_at_first (ascending venue) held
    subst same
    exact ⟨ev, lookup_partition shape low high, rfl⟩

/-- What is recorded out of order stands right behind the event that it undercuts. -/
theorem recordEvent_undercut {store : ReplayRecoveryStore} {ev : BookEvent}
    (late : ¬ store.InOrder (.record ev)) :
    ∃ older newest, (store.recordEvent ev).byVenue ev.venue = older ++ [newest, ev] ∧
      newest.seq > ev.seq ∧ (∀ e ∈ older ++ [newest], e ∈ store.byVenue ev.venue) := by
  simp only [InOrder, not_or, not_forall, Nat.not_le] at late
  obtain ⟨roomy, newest, isLast, below⟩ := late
  obtain ⟨front, shape⟩ := List.getLast?_eq_some_iff.mp isLast
  refine ⟨front.drop (front.length + 2 - store.maxEventsPerVenue), newest, ?_, below, ?_⟩
  · rw [recordEvent_self, shape, List.append_assoc,
      List.drop_append_of_le_length (by simp; omega)]
    simp
  · intro e member
    rw [shape]
    rcases List.mem_append.mp member with older | here
    · exact List.mem_append_left _ (List.mem_of_mem_drop older)
    · exact List.mem_append_right _ here

/-- An event recorded out of order under a fresh sequence is held and not found. -/
theorem missed_of_undercut {store : ReplayRecoveryStore} {ev : BookEvent}
    (fresh : store.Fresh (.record ev)) (late : ¬ store.InOrder (.record ev)) :
    ¬ (store.recordEvent ev).Complete := by
  intro complete
  obtain ⟨older, newest, shape, below, known⟩ := recordEvent_undercut late
  have held : (store.recordEvent ev).Held ev.venue ev.seq :=
    ⟨ev, by rw [shape]; simp, rfl⟩
  obtain ⟨found, looked, same⟩ := (complete ev.venue ev.seq).mpr held
  obtain ⟨i, answer, at_index⟩ : ∃ i,
      LowerBound.index (fun e => decide (e.seq < ev.seq)) (older ++ [newest, ev]) = i ∧
        (older ++ [newest, ev])[i]? = some found := by
    simp only [lookup, shape] at looked
    split at looked
    · next candidate at_index =>
      split at looked
      · cases looked
        exact ⟨_, rfl, at_index⟩
      · contradiction
    · contradiction
  -- Only the recorded event itself has its sequence, so the answer is the last position.
  have position : i = older.length + 1 := by
    have inside : i < (older ++ [newest, ev]).length := by
      by_contra outside
      rw [List.getElem?_eq_none (by omega)] at at_index
      contradiction
    simp only [List.length_append, List.length_cons, List.length_nil] at inside
    by_contra elsewhere
    have early : i < (older ++ [newest]).length := by
      simp only [List.length_append, List.length_cons, List.length_nil]
      omega
    have split : older ++ [newest, ev] = (older ++ [newest]) ++ [ev] := by simp
    rw [split, List.getElem?_append_left early] at at_index
    exact fresh ⟨found, known found (List.mem_of_getElem? at_index), same⟩
  have left : (older ++ [newest, ev])[older.length]? = some newest := by simp
  have undercut := LowerBound.index_below (answer.trans position) left
  simp only [decide_eq_true_eq] at undercut
  omega

theorem in_order_of_complete {store : ReplayRecoveryStore} {calls : List Call}
    (fresh : Run.Along call Fresh store calls)
    (complete : ∀ n, ((calls.take n).foldl call store).Complete) :
    Run.Along call InOrder store calls := by
  induction calls generalizing store with
  | nil => trivial
  | cons c rest ih =>
    refine ⟨?_, ih fresh.2 (fun n => complete (n + 1))⟩
    cases c with
    | record ev =>
      by_contra late
      exact missed_of_undercut fresh.1 late (complete 1)
    | evict venue keep => trivial

/-- While every recorded event is in order, lookup is complete in every state; and when no
recorded sequence is held already, in no other run. -/
theorem lookup_complete_in_order (capacity : Nat) (calls : List Call) :
    (Run.Along call InOrder (create capacity) calls →
      ∀ n, ((calls.take n).foldl call (create capacity)).Complete) ∧
    (Run.Along call Fresh (create capacity) calls →
      (∀ n, ((calls.take n).foldl call (create capacity)).Complete) →
      Run.Along call InOrder (create capacity) calls) := by
  constructor
  · intro inOrder n
    have part : Run.Along call InOrder (create capacity) (calls.take n) := by
      rw [← List.take_append_drop n calls, Run.along_append] at inOrder
      exact inOrder.1
    have ascending := part.invariant (P := Ascending) (fun _ _ => Ascending.call)
      (create_ascending capacity)
    exact ascending.complete
  · exact in_order_of_complete

/-- Sequence 2, then 1: the event of sequence 1 is held and the search passes it by. -/
theorem late_arrival_not_found :
    ¬ ∀ (capacity : Nat) (calls : List Call), (calls.foldl call (create capacity)).Complete := by
  intro complete
  have answer := (complete 512 [.record { sequence := 2 }, .record { sequence := 1 }] .nasdaq 1).mpr
    ⟨{ sequence := 1 }, by decide, rfl⟩
  obtain ⟨ev, found, _⟩ := answer
  have missing : (([Call.record { sequence := 2 }, .record { sequence := 1 }].foldl call
      (create 512)).lookup .nasdaq 1) = none := by decide
  rw [missing] at found
  contradiction

end ReplayRecoveryStore
end FeedHandler
