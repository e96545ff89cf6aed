import FeedHandler.Lib.KWayMerge
import FeedHandler.Phase2.DeterministicMerger

/-! The merger as a merge of its queues: `lessEvent` is a strict weak order whose
ties stay within one venue, every pop takes a least front, and so the drain is the
one merge of the venues' queues. -/
namespace FeedHandler
namespace DeterministicMerger

/-- The comparison, field by field on natural numbers. -/
theorem lessEvent_iff (a b : BookEvent) : lessEvent a b = true ↔
    a.exchangeTsNs.toNat < b.exchangeTsNs.toNat ∨
    (a.exchangeTsNs.toNat = b.exchangeTsNs.toNat ∧
      (a.venue.code.toNat < b.venue.code.toNat ∨
      (a.venue.code.toNat = b.venue.code.toNat ∧
        (a.sequence.toNat < b.sequence.toNat ∨
        (a.sequence.toNat = b.sequence.toNat ∧ a.rawType.toNat < b.rawType.toNat))))) := by
  simp only [lessEvent]
  by_cases time : a.exchangeTsNs = b.exchangeTsNs
  · by_cases venue : a.venue = b.venue
    · by_cases sequence : a.sequence = b.sequence
      · simp [time, venue, sequence, UInt8.lt_iff_toNat_lt]
      · have apart : a.sequence.toNat ≠ b.sequence.toNat :=
          fun equal => sequence (UInt64.toNat_inj.mp equal)
        simp [time, venue, sequence, apart, UInt64.lt_iff_toNat_lt]
    · have apart : a.venue.code.toNat ≠ b.venue.code.toNat :=
        fun equal => venue (Venue.code_inj (UInt8.toNat_inj.mp equal))
      simp [time, venue, apart, UInt8.lt_iff_toNat_lt]
  · have apart : a.exchangeTsNs.toNat ≠ b.exchangeTsNs.toNat :=
      fun equal => time (UInt64.toNat_inj.mp equal)
    simp [time, apart, UInt64.lt_iff_toNat_lt]

/-- `lessEvent` as a relation. -/
def Less (a b : BookEvent) : Prop := lessEvent a b = true

theorem less_weakOrder : KWayMerge.WeakOrder Less := by
  constructor
  · intro a b
    simp only [Less, lessEvent_iff]
    omega
  · intro a b c
    simp only [Less, lessEvent_iff]
    omega

/-- Events that compare equal are of one venue, so they meet in one queue. -/
theorem less_tiesWithin : KWayMerge.TiesWithin Less BookEvent.venue := by
  intro a b
  simp only [Less, lessEvent_iff]
  intro notBelow notAbove
  apply Venue.code_inj
  apply UInt8.toNat_inj.mp
  omega

variable {m : DeterministicMerger}

/-- What the scan of `popNext` knows after the venues in `seen`. -/
def LeastOf (queues : Venue → List BookEvent) (seen : List Venue) : Option Venue → Prop
  | none => ∀ w ∈ seen, queues w = []
  | some v => ∃ x rest, queues v = x :: rest ∧
      ∀ w ∈ seen, ∀ y later, queues w = y :: later → ¬ Less y x

theorem LeastOf.better {queues : Venue → List BookEvent} {seen : List Venue} {best : Option Venue}
    (least : LeastOf queues seen best) (v : Venue) :
    LeastOf queues (seen ++ [v]) (better queues best v) := by
  simp only [DeterministicMerger.better]
  cases queue : queues v with
  | nil =>
    cases best with
    | none => exact List.forall_mem_append.mpr ⟨least, List.forall_mem_singleton.mpr queue⟩
    | some b =>
      obtain ⟨x, rest, front, below⟩ := least
      refine ⟨x, rest, front, List.forall_mem_append.mpr ⟨below, ?_⟩⟩
      refine List.forall_mem_singleton.mpr fun y later head => ?_
      rw [queue] at head
      cases head
  | cons head tail =>
    have own : ∀ w ∈ [v], ∀ y later, queues w = y :: later → ¬ Less y head := by
      refine List.forall_mem_singleton.mpr fun y later front => ?_
      rw [queue] at front
      cases front
      exact less_weakOrder.irrefl head
    cases best with
    | none =>
      refine ⟨head, tail, queue, List.forall_mem_append.mpr ⟨?_, own⟩⟩
      intro w member y later front
      rw [least w member] at front
      cases front
    | some b =>
      obtain ⟨x, rest, front, below⟩ := least
      simp only [front]
      split
      · next smaller =>
        refine ⟨head, tail, queue, List.forall_mem_append.mpr ⟨?_, own⟩⟩
        intro w member y later frontOf
        exact less_weakOrder.notLess head x y (less_weakOrder.asymm head x smaller)
          (below w member y later frontOf)
      · next notSmaller =>
        refine ⟨x, rest, front, List.forall_mem_append.mpr ⟨below, ?_⟩⟩
        refine List.forall_mem_singleton.mpr fun y later frontOf => ?_
        rw [queue] at frontOf
        cases frontOf
        exact notSmaller

theorem bestVenue_least (m : DeterministicMerger) : LeastOf m.queues Venue.all m.bestVenue := by
  have scan : ∀ (ahead seen : List Venue) (best : Option Venue), LeastOf m.queues seen best →
      LeastOf m.queues (seen ++ ahead) (ahead.foldl (better m.queues) best) := by
    intro ahead
    induction ahead with
    | nil =>
      intro seen best least
      simpa using least
    | cons v rest ih =>
      intro seen best least
      have next := ih (seen ++ [v]) _ (least.better v)
      simpa using next
  have start : LeastOf m.queues [] none := by
    intro w member
    cases member
  exact scan Venue.all [] none start

/-- A pop answers nothing exactly when every queue is empty. -/
theorem popNext_eq_none_iff : m.popNext = none ↔ ∀ v, m.queues v = [] := by
  have least := bestVenue_least m
  cases best : m.bestVenue with
  | none =>
    rw [best] at least
    simp only [popNext_none best, true_iff]
    exact fun v => least v (Venue.mem_all v)
  | some v =>
    rw [best] at least
    obtain ⟨x, rest, front, _⟩ := least
    rw [popNext_front best front]
    constructor
    · intro absurdity
      cases absurdity
    · intro empty
      rw [empty v] at front
      cases front

/-- A pop that answers takes a least front off its queue. -/
theorem popNext_least {x : BookEvent} {m' : DeterministicMerger}
    (popped : m.popNext = some (x, m')) :
    ∃ v rest, m.queues v = x :: rest ∧ m'.queues = Function.update m.queues v rest ∧
      ∀ w y later, m.queues w = y :: later → ¬ Less y x := by
  have least := bestVenue_least m
  cases best : m.bestVenue with
  | none =>
    rw [popNext_none best] at popped
    cases popped
  | some v =>
    rw [best] at least
    obtain ⟨head, rest, front, below⟩ := least
    rw [popNext_front best front] at popped
    cases popped
    exact ⟨v, rest, front, rfl, fun w => below w (Venue.mem_all w)⟩

/-- With enough fuel the drain is a merge of the queues and leaves none behind. -/
theorem drain_merges {fuel : Nat} (enough : m.queuedCount < fuel) :
    KWayMerge.Merges Less m.queues (drain fuel m).1 ∧ ∀ v, (drain fuel m).2.queues v = [] := by
  induction fuel generalizing m with
  | zero => omega
  | succ fuel ih =>
    simp only [drain]
    cases popped : m.popNext with
    | none =>
      have empty := popNext_eq_none_iff.mp popped
      exact ⟨.done empty, empty⟩
    | some answer =>
      obtain ⟨x, m'⟩ := answer
      obtain ⟨v, rest, front, after, least⟩ := popNext_least popped
      have shorter : m'.queuedCount + 1 = m.queuedCount := by
        have others : ∀ w, w ≠ v → (m'.queues w).length = (m.queues w).length := by
          intro w other
          rw [after, Function.update_of_ne other]
        have total := Venue.sum_update others
        simp only [after, Function.update_self, front, List.length_cons] at total
        simp only [queuedCount, after]
        omega
      obtain ⟨merged, empty⟩ := ih (by omega : m'.queuedCount < fuel)
      rw [after] at merged
      exact ⟨.pop v x rest front least merged, empty⟩

theorem drainAll_merges (m : DeterministicMerger) :
    KWayMerge.Merges Less m.queues m.drainAll.1 ∧ ∀ v, m.drainAll.2.queues v = [] :=
  drain_merges (Nat.lt_succ_self _)

/-- The events of one venue, in order. -/
def ofVenue (events : List BookEvent) (v : Venue) : List BookEvent :=
  events.filter (fun ev => decide (ev.venue = v))

/-- A merger after a list of pushes. -/
def pushAll (capacity : Nat) (pushes : List BookEvent) : DeterministicMerger :=
  pushes.foldl (fun m ev => (m.push ev).1) { perVenueCapacity := capacity }

theorem pushAll_append (capacity : Nat) (front : List BookEvent) (ev : BookEvent) :
    pushAll capacity (front ++ [ev]) = ((pushAll capacity front).push ev).1 := by
  simp only [pushAll, List.foldl_append, List.foldl_cons, List.foldl_nil]

theorem pushAll_queues (capacity : Nat) (pushes : List BookEvent) :
    (pushAll capacity pushes).queues = ofVenue pushes := by
  induction pushes using List.reverseRecOn with
  | nil => rfl
  | append_singleton front ev ih =>
    rw [pushAll_append]
    simp only [push, ih]
    funext v
    by_cases same : v = ev.venue
    · subst same
      simp [ofVenue]
    · have other : ¬ ev.venue = v := fun equal => same equal.symm
      simp [ofVenue, Function.update_of_ne same, other]

theorem pushAll_tagged (capacity : Nat) (pushes : List BookEvent) :
    KWayMerge.Tagged BookEvent.venue (pushAll capacity pushes).queues := by
  intro v ev member
  rw [pushAll_queues] at member
  simpa using List.of_mem_filter member

/-- The merge of a list of pushes. -/
def merged (capacity : Nat) (pushes : List BookEvent) : List BookEvent :=
  (pushAll capacity pushes).drainAll.1

theorem merged_merges (capacity : Nat) (pushes : List BookEvent) :
    KWayMerge.Merges Less (ofVenue pushes) (merged capacity pushes) := by
  have drained := (drainAll_merges (pushAll capacity pushes)).1
  rwa [pushAll_queues] at drained

theorem ofVenue_merged (capacity : Nat) (pushes : List BookEvent) (v : Venue) :
    ofVenue (merged capacity pushes) v = ofVenue pushes v := by
  have tagged := pushAll_tagged capacity pushes
  rw [pushAll_queues] at tagged
  exact (merged_merges capacity pushes).filter_eq tagged v

/-- Any merge of the venues' parts is the one that the merger computes. -/
theorem merged_unique {capacity : Nat} {pushes out : List BookEvent}
    (merge : KWayMerge.Merges Less (ofVenue pushes) out) : merged capacity pushes = out := by
  have tagged := pushAll_tagged capacity pushes
  rw [pushAll_queues] at tagged
  exact (merged_merges capacity pushes).unique merge tagged less_tiesWithin

/-- The deterministic merge: draining empties the merger, permutes the pushes and keeps each
venue's order; it is a function of the venues' parts, and ordered if they are. -/
theorem drain_deterministic_merge (capacity : Nat) (pushes : List BookEvent) :
    (pushAll capacity pushes).drainAll.2.popNext = none ∧
    (merged capacity pushes).Perm pushes ∧
    (∀ v, ofVenue (merged capacity pushes) v = ofVenue pushes v) ∧
    (∀ capacity' pushes', (∀ v, ofVenue pushes' v = ofVenue pushes v) →
      merged capacity' pushes' = merged capacity pushes) ∧
    ((∀ v, KWayMerge.Ordered Less (ofVenue pushes v)) →
      KWayMerge.Ordered Less (merged capacity pushes)) := by
  refine ⟨?_, ?_, ofVenue_merged capacity pushes, ?_, ?_⟩
  · exact popNext_eq_none_iff.mpr (drainAll_merges _).2
  · exact KWayMerge.perm_of_filter_eq (ofVenue_merged capacity pushes)
  · intro capacity' pushes' same
    apply merged_unique
    rw [funext same]
    exact merged_merges capacity pushes
  · exact (merged_merges capacity pushes).ordered less_weakOrder

end DeterministicMerger
end FeedHandler
