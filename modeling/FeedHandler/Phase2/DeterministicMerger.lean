import FeedHandler.Core.Types

/-! The k-way merge of the published events: one queue per venue, popped in the
order of exchange time, venue, sequence and raw type of the queue fronts. -/
namespace FeedHandler

structure DeterministicMerger where
  perVenueCapacity : Nat
  queues : Venue → List BookEvent := fun _ => []

namespace DeterministicMerger

def lessEvent (a b : BookEvent) : Bool :=
  if a.exchangeTsNs ≠ b.exchangeTsNs then a.exchangeTsNs < b.exchangeTsNs
  else if a.venue ≠ b.venue then a.venue.code < b.venue.code
  else if a.sequence ≠ b.sequence then a.sequence < b.sequence
  else a.rawType < b.rawType

/-- The capacity is a sizing hint, so a push is never rejected. -/
def push (m : DeterministicMerger) (ev : BookEvent) : DeterministicMerger × Bool :=
  ({ m with queues := Function.update m.queues ev.venue (m.queues ev.venue ++ [ev]) }, true)

/-- Scan step of `popNext`: keep the venue whose front is least so far. -/
def better (queues : Venue → List BookEvent) (best : Option Venue) (v : Venue) : Option Venue :=
  match queues v with
  | [] => best
  | head :: _ =>
    match best with
    | none => some v
    | some b =>
      match queues b with
      | [] => best
      | front :: _ => if lessEvent head front then some v else best

def bestVenue (m : DeterministicMerger) : Option Venue := Venue.all.foldl (better m.queues) none

def popNext (m : DeterministicMerger) : Option (BookEvent × DeterministicMerger) :=
  match m.bestVenue with
  | none => none
  | some v =>
    match m.queues v with
    | [] => none
    | head :: rest => some (head, { m with queues := Function.update m.queues v rest })

def queuedCount (m : DeterministicMerger) : Nat := (Venue.all.map (fun v => (m.queues v).length)).sum

/-- Pop until the merger answers that nothing is left, at most `fuel` times. -/
def drain : Nat → DeterministicMerger → List BookEvent × DeterministicMerger
  | 0, m => ([], m)
  | fuel + 1, m =>
    match m.popNext with
    | none => ([], m)
    | some (ev, m') =>
      let rest := drain fuel m'
      (ev :: rest.1, rest.2)

/-- The loop `while (pop_next(ev))`; the queued count bounds its iterations. -/
def drainAll (m : DeterministicMerger) : List BookEvent × DeterministicMerger :=
  drain (m.queuedCount + 1) m

variable {m m' : DeterministicMerger}

theorem popNext_none (best : m.bestVenue = none) : m.popNext = none := by
  simp only [popNext, best]

theorem popNext_empty {v : Venue} (best : m.bestVenue = some v) (queue : m.queues v = []) :
    m.popNext = none := by
  simp only [popNext, best, queue]

theorem popNext_front {v : Venue} {head : BookEvent} {rest : List BookEvent}
    (best : m.bestVenue = some v) (queue : m.queues v = head :: rest) :
    m.popNext = some (head, { m with queues := Function.update m.queues v rest }) := by
  simp only [popNext, best, queue]

/-- The merged stream depends on the queues only, not on the sizing hint. -/
theorem drain_congr (same : m.queues = m'.queues) (fuel : Nat) :
    (drain fuel m).1 = (drain fuel m').1 := by
  induction fuel generalizing m m' with
  | zero => rfl
  | succ fuel ih =>
    have best : m.bestVenue = m'.bestVenue := by simp only [bestVenue, same]
    simp only [drain]
    cases found : m'.bestVenue with
    | none => rw [popNext_none found, popNext_none (best.trans found)]
    | some v =>
      cases queue : m'.queues v with
      | nil =>
        rw [popNext_empty found queue, popNext_empty (best.trans found) (same ▸ queue)]
      | cons head rest =>
        rw [popNext_front found queue, popNext_front (best.trans found) (same ▸ queue)]
        simp only [List.cons.injEq, true_and]
        exact ih (congrArg (Function.update · v rest) same)

theorem drainAll_congr (same : m.queues = m'.queues) :
    m.drainAll.1 = m'.drainAll.1 := by
  have count : m.queuedCount = m'.queuedCount := by simp only [queuedCount, same]
  simp only [drainAll]
  rw [count]
  exact drain_congr same _

/-- Only the queue of `v` may hold events. -/
def Single (m : DeterministicMerger) (v : Venue) : Prop := ∀ w, w ≠ v → m.queues w = []

theorem Single.bestVenue_front {v : Venue} {head : BookEvent} {rest : List BookEvent}
    (single : m.Single v) (queue : m.queues v = head :: rest) : m.bestVenue = some v := by
  have others : ∀ w, w ≠ v → m.queues w = [] := single
  simp only [bestVenue]
  cases v <;> simp [Venue.all, better, queue, others]

theorem Single.bestVenue_none {v : Venue} (single : m.Single v) (queue : m.queues v = []) :
    m.bestVenue = none := by
  have empty : ∀ w, m.queues w = [] := fun w =>
    if same : w = v then same ▸ queue else single w same
  simp [bestVenue, Venue.all, better, empty]

theorem Single.drain {v : Venue} (single : m.Single v) {fuel : Nat}
    (enough : (m.queues v).length < fuel) :
    (drain fuel m).1 = m.queues v ∧ ∀ w, (drain fuel m).2.queues w = [] := by
  induction fuel generalizing m with
  | zero => omega
  | succ fuel ih =>
    simp only [DeterministicMerger.drain]
    cases queue : m.queues v with
    | nil =>
      rw [popNext_none (single.bestVenue_none queue)]
      exact ⟨rfl, fun w => if same : w = v then same ▸ queue else single w same⟩
    | cons head rest =>
      have smaller : Single { m with queues := Function.update m.queues v rest } v :=
        fun w other => (Function.update_of_ne other _ _).trans (single w other)
      obtain ⟨events, empty⟩ := ih smaller (by
        rw [queue, List.length_cons] at enough
        simp only [Function.update_self]
        omega)
      rw [popNext_front (single.bestVenue_front queue) queue]
      simp only [Function.update_self] at events
      exact ⟨congrArg (head :: ·) events, empty⟩

/-- One venue alone is merged in its own order. -/
theorem Single.drainAll {v : Venue} (single : m.Single v) :
    m.drainAll.1 = m.queues v ∧ ∀ w, m.drainAll.2.queues w = [] := by
  apply single.drain
  simp only [queuedCount, Venue.all, List.map_cons, List.map_nil, List.sum_cons, List.sum_nil]
  cases v <;> omega

end DeterministicMerger
end FeedHandler
