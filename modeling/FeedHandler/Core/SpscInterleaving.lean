import FeedHandler.Core.SpscRing
import FeedHandler.Lib.Run

/-! The ring under one producer and one consumer. Each atomic load and store and each copy of
an item is a step of its own, and the steps of the two threads come in any order. -/
namespace FeedHandler
namespace SpscRing

variable {α : Type*} {bits : Nat}

/-- How far the producer is in `tryPush`, with the head it has loaded. -/
inductive Producer (α : Type*) (bits : Nat) where
  | idle
  | loadedHead (item : α) (head : Fin (2 ^ bits))
  | hasRoom (item : α) (head : Fin (2 ^ bits))
  | copied (item : α) (head : Fin (2 ^ bits))

/-- How far the consumer is in `tryPop`, with the tail it has loaded. -/
inductive Consumer (α : Type*) (bits : Nat) where
  | idle
  | loadedTail (tail : Fin (2 ^ bits))
  | hasItem (tail : Fin (2 ^ bits))
  | copied (item : α) (tail : Fin (2 ^ bits))

/-- The slot that the producer writes in its next step. -/
def Producer.writes : Producer α bits → Option (Fin (2 ^ bits))
  | .hasRoom _ head => some head
  | _ => none

/-- The slot that the consumer copies, from its test until it gives the slot back. -/
def Consumer.reads : Consumer α bits → Option (Fin (2 ^ bits))
  | .hasItem tail => some tail
  | .copied _ tail => some tail
  | _ => none

/-- The ring, both threads, and what their calls have returned so far. -/
structure Threads (α : Type*) (bits : Nat) where
  ring : SpscRing α bits
  producer : Producer α bits := .idle
  consumer : Consumer α bits := .idle
  pushes : List (α × Bool) := []
  pops : List (Option α) := []

/-- Whose step is next. A producer between two calls starts the next one with `item`. -/
inductive Turn (α : Type*) where
  | producer (item : α)
  | consumer

def write (r : SpscRing α bits) (slot : Fin (2 ^ bits)) (item : α) : SpscRing α bits :=
  { r with buffer := Function.update r.buffer slot item }

def storeHead (r : SpscRing α bits) (next : Fin (2 ^ bits)) : SpscRing α bits :=
  { r with head := next }

def storeTail (r : SpscRing α bits) (next : Fin (2 ^ bits)) : SpscRing α bits :=
  { r with tail := next }

namespace Threads

def start (initial : α) : Threads α bits where
  ring := create initial

/-- The next step of `tryPush`. -/
def produce (s : Threads α bits) (next : α) : Threads α bits :=
  match s.producer with
  | .idle => { s with producer := .loadedHead next s.ring.head }
  | .loadedHead item head =>
    if following head = s.ring.tail then
      { s with producer := .idle, pushes := s.pushes ++ [(item, false)] }
    else { s with producer := .hasRoom item head }
  | .hasRoom item head =>
    { s with ring := s.ring.write head item, producer := .copied item head }
  | .copied item head =>
    { s with
      ring := s.ring.storeHead (following head)
      producer := .idle
      pushes := s.pushes ++ [(item, true)] }

/-- The next step of `tryPop`. -/
def consume (s : Threads α bits) : Threads α bits :=
  match s.consumer with
  | .idle => { s with consumer := .loadedTail s.ring.tail }
  | .loadedTail tail =>
    if tail = s.ring.head then { s with consumer := .idle, pops := s.pops ++ [none] }
    else { s with consumer := .hasItem tail }
  | .hasItem tail => { s with consumer := .copied (s.ring.buffer tail) tail }
  | .copied item tail =>
    { s with
      ring := s.ring.storeTail (following tail)
      consumer := .idle
      pops := s.pops ++ [some item] }

def step (s : Threads α bits) : Turn α → Threads α bits
  | .producer item => s.produce item
  | .consumer => s.consume

/-- The items whose push has returned true. -/
def pushed (s : Threads α bits) : List α :=
  s.pushes.filterMap fun call => if call.2 then some call.1 else none

/-- The items that pops have returned. -/
def popped (s : Threads α bits) : List α := s.pops.filterMap id

end Threads

variable {r : SpscRing α bits} {xs : List α} {x item : α}

/-- The slot at the head holds no item of the queue. -/
theorem Queued.write (queued : r.Queued xs) (item : α) : (r.write r.head item).Queued xs where
  room := queued.room
  head := queued.head
  items := by
    intro k x found
    have inside : k < xs.length := (List.getElem?_eq_some_iff.mp found).1
    simp only [SpscRing.write, Function.update_of_ne (queued.head_inside inside)]
    exact queued.items k x found

theorem Queued.storeHead (queued : r.Queued xs) (room : xs.length + 1 < 2 ^ bits)
    (held : r.buffer r.head = item) : (r.storeHead (following r.head)).Queued (xs ++ [item]) := by
  have free : following r.head ≠ r.tail := by
    intro wrapped
    have none : r.tryPush item = none := if_pos wrapped
    have := (queued.tryPush_none item).mp none
    omega
  have pushed : r.tryPush item = some (r.storeHead (following r.head)) := by
    simp only [tryPush, if_neg free, SpscRing.storeHead, ← held, Function.update_eq_self]
  exact queued.tryPush_some pushed

theorem Queued.storeTail (queued : r.Queued (x :: xs)) :
    (r.storeTail (following r.tail)).Queued xs := by
  obtain ⟨r', popped, rest⟩ := queued.tryPop_cons
  simp only [tryPop] at popped
  split at popped
  · cases popped
  · cases popped
    exact rest

theorem Queued.full_iff (queued : r.Queued xs) :
    following r.head = r.tail ↔ xs.length + 1 = 2 ^ bits := by
  rw [← queued.tryPush_none (r.buffer r.head)]
  simp only [tryPush, ite_eq_left_iff, reduceCtorEq, imp_false, not_not]

theorem Queued.empty_iff (queued : r.Queued xs) : r.tail = r.head ↔ xs = [] := by
  cases xs with
  | nil => simpa [tryPop] using queued.tryPop_nil
  | cons x rest =>
    have apart := queued.head_inside (k := 0) (by simp)
    rw [Nat.add_zero, slot_val] at apart
    simp [apart]

namespace Threads

variable {s : Threads α bits} {pending : List α}

/-- What the producer knows while `pending` is in the ring. Its head is the ring's, since
nobody else stores it, and room that it has seen stays. -/
def Producing (s : Threads α bits) (pending : List α) : Prop :=
  match s.producer with
  | .idle => True
  | .loadedHead _ head => head = s.ring.head
  | .hasRoom _ head => head = s.ring.head ∧ pending.length + 1 < 2 ^ bits
  | .copied item head =>
    head = s.ring.head ∧ pending.length + 1 < 2 ^ bits ∧ s.ring.buffer s.ring.head = item

/-- What the consumer knows: its tail is the ring's, and an item that it has seen stays. -/
def Consuming (s : Threads α bits) (pending : List α) : Prop :=
  match s.consumer with
  | .idle => True
  | .loadedTail tail => tail = s.ring.tail
  | .hasItem tail => tail = s.ring.tail ∧ pending ≠ []
  | .copied item tail => tail = s.ring.tail ∧ pending.head? = some item

/-- The items that were pushed and not yet popped are the queue that the ring stands for. -/
structure Fifo (s : Threads α bits) (pending : List α) : Prop where
  queued : s.ring.Queued pending
  pushed : s.pushed = s.popped ++ pending
  producing : s.Producing pending
  consuming : s.Consuming pending

theorem start_fifo (initial : α) : (start initial : Threads α bits).Fifo [] where
  queued := create_queued initial
  pushed := rfl
  producing := trivial
  consuming := trivial

theorem Fifo.produce (fifo : s.Fifo pending) (next : α) :
    ∃ pending', (s.produce next).Fifo pending' := by
  obtain ⟨queued, split, producing, consuming⟩ := fifo
  unfold Threads.produce
  cases place : s.producer with
  | idle => exact ⟨pending, queued, split, rfl, consuming⟩
  | loadedHead item head =>
    simp only [Producing, place] at producing
    subst producing
    simp only
    split
    · refine ⟨pending, queued, ?_, trivial, consuming⟩
      simpa [Threads.pushed, Threads.popped] using split
    · next free =>
      refine ⟨pending, queued, split, ⟨rfl, ?_⟩, consuming⟩
      have room := queued.room
      have open_slot := mt queued.full_iff.mpr free
      omega
  | hasRoom item head =>
    simp only [Producing, place] at producing
    obtain ⟨rfl, room⟩ := producing
    exact ⟨pending, queued.write item, split, ⟨rfl, room, Function.update_self ..⟩, consuming⟩
  | copied item head =>
    simp only [Producing, place] at producing
    obtain ⟨rfl, room, held⟩ := producing
    refine ⟨pending ++ [item], queued.storeHead room held, ?_, trivial, ?_⟩
    · simp only [Threads.pushed, Threads.popped, List.filterMap_append] at split ⊢
      rw [split, List.append_assoc]
      rfl
    · unfold Consuming at consuming ⊢
      simp only
      cases at_consumer : s.consumer with
      | idle => trivial
      | loadedTail tail =>
        simp only [at_consumer] at consuming
        exact consuming
      | hasItem tail =>
        simp only [at_consumer] at consuming
        exact ⟨consuming.1, by simp⟩
      | copied front tail =>
        simp only [at_consumer] at consuming
        exact ⟨consuming.1, by simp [List.head?_append, consuming.2]⟩

theorem Fifo.consume (fifo : s.Fifo pending) : ∃ pending', s.consume.Fifo pending' := by
  obtain ⟨queued, split, producing, consuming⟩ := fifo
  unfold Threads.consume
  cases place : s.consumer with
  | idle => exact ⟨pending, queued, split, producing, rfl⟩
  | loadedTail tail =>
    simp only [Consuming, place] at consuming
    subst consuming
    simp only
    split
    · refine ⟨pending, queued, ?_, producing, trivial⟩
      simpa [Threads.pushed, Threads.popped] using split
    · next more =>
      exact ⟨pending, queued, split, producing, rfl, mt queued.empty_iff.mpr more⟩
  | hasItem tail =>
    simp only [Consuming, place] at consuming
    obtain ⟨rfl, more⟩ := consuming
    cases pending with
    | nil => exact absurd rfl more
    | cons x rest =>
      have front := queued.items 0 x rfl
      rw [Nat.add_zero, slot_val] at front
      exact ⟨x :: rest, queued, split, producing, rfl, congrArg some front.symm⟩
  | copied item tail =>
    simp only [Consuming, place] at consuming
    obtain ⟨rfl, front⟩ := consuming
    cases pending with
    | nil => cases front
    | cons x rest =>
      cases front
      refine ⟨rest, queued.storeTail, ?_, ?_, trivial⟩
      · simp only [Threads.pushed, Threads.popped, List.filterMap_append] at split ⊢
        rw [split, List.append_assoc]
        rfl
      · unfold Producing at producing ⊢
        simp only
        cases at_producer : s.producer with
        | idle => trivial
        | loadedHead next head =>
          simp only [at_producer] at producing
          exact producing
        | hasRoom next head =>
          simp only [at_producer, List.length_cons] at producing
          exact ⟨producing.1, by omega⟩
        | copied next head =>
          simp only [at_producer, List.length_cons] at producing
          exact ⟨producing.1, by omega, producing.2.2⟩

theorem run_fifo (bits : Nat) (initial : α) (turns : List (Turn α)) :
    ∃ pending, (turns.foldl step (start initial : Threads α bits)).Fifo pending := by
  refine Run.invariant (P := fun s : Threads α bits => ∃ pending, s.Fifo pending) ?_ turns
    ⟨[], start_fifo initial⟩
  rintro s turn ⟨pending, fifo⟩
  cases turn with
  | producer item => exact fifo.produce item
  | consumer => exact fifo.consume

/-- The slot that is written is the one at the head, and no item is there to be copied. -/
theorem Fifo.apart (fifo : s.Fifo pending) {slot : Fin (2 ^ bits)}
    (written : s.producer.writes = some slot) : s.consumer.reads ≠ some slot := by
  intro read
  obtain ⟨queued, -, producing, consuming⟩ := fifo
  have at_head : slot = s.ring.head := by
    cases place : s.producer <;> simp only [Producer.writes, Producing, place] at written producing
    all_goals cases written
    exact producing.1
  have at_tail : slot = s.ring.tail ∧ pending ≠ [] := by
    cases place : s.consumer <;> simp only [Consumer.reads, Consuming, place] at read consuming
    all_goals cases read
    · exact consuming
    · refine ⟨consuming.1, ?_⟩
      rintro rfl
      cases consuming.2
  exact at_tail.2 (queued.empty_iff.mp (at_tail.1.symm.trans at_head))

/-- A push is refused in its load of the tail, by a full ring. -/
theorem Fifo.refused (fifo : s.Fifo pending) {next item : α}
    (returned : (s.produce next).pushes = s.pushes ++ [(item, false)]) :
    pending.length + 1 = 2 ^ bits := by
  obtain ⟨queued, -, producing, -⟩ := fifo
  unfold Threads.produce at returned
  cases place : s.producer with
  | idle => simp [place] at returned
  | loadedHead held head =>
    simp only [Producing, place] at producing returned
    subst producing
    split at returned
    · next full => exact queued.full_iff.mp full
    · simp at returned
  | hasRoom held head => simp [place] at returned
  | copied held head => simp [place] at returned

/-- A pop comes back empty in its load of the head, from an empty ring. -/
theorem Fifo.missed (fifo : s.Fifo pending) (returned : s.consume.pops = s.pops ++ [none]) :
    pending = [] := by
  obtain ⟨queued, -, -, consuming⟩ := fifo
  unfold Threads.consume at returned
  cases place : s.consumer with
  | idle => simp [place] at returned
  | loadedTail tail =>
    simp only [Consuming, place] at consuming returned
    subst consuming
    split at returned
    · next empty => exact queued.empty_iff.mp empty
    · simp at returned
  | hasItem tail => simp [place] at returned
  | copied item tail => simp [place] at returned

/-- In every interleaving the pops return what was pushed, in order; the producer writes no
slot that is being copied; a push that fails has found all but one slot taken by items not
yet released, and a pop that fails has found nothing published that is not yet popped. -/
theorem interleaving_fifo (initial : α) (turns : List (Turn α)) :
    let s := turns.foldl step (start initial : Threads α bits)
    s.popped <+: s.pushed ∧
      (∀ slot, s.producer.writes = some slot → s.consumer.reads ≠ some slot) ∧
      (∀ next item, (s.produce next).pushes = s.pushes ++ [(item, false)] →
        s.pushed.length = s.popped.length + (2 ^ bits - 1)) ∧
      (s.consume.pops = s.pops ++ [none] → s.pushed.length = s.popped.length) := by
  obtain ⟨pending, fifo⟩ := run_fifo bits initial turns
  have split := congrArg List.length fifo.pushed
  rw [List.length_append] at split
  refine ⟨⟨pending, fifo.pushed.symm⟩, fun slot => fifo.apart, fun next item refused => ?_,
    fun missed => ?_⟩
  · have full := fifo.refused refused
    omega
  · have empty := fifo.missed missed
    rw [split, empty, List.length_nil, Nat.add_zero]

/-- A ring of two slots has room for one item. -/
theorem interleaving_fifo_full :
    let s := [Turn.producer 5, .producer 5, .producer 5, .producer 5, .producer 6].foldl step
      (start 0 : Threads Nat 1)
    s.pushed.length = s.popped.length + (2 ^ 1 - 1) :=
  (interleaving_fifo 0 _).2.2.1 6 6 (by decide)

end Threads

end SpscRing
end FeedHandler
