import FeedHandler.Journal.JournalReader
import FeedHandler.Journal.JournalWriter
import FeedHandler.Phase3.BookStore
import Mathlib.Data.Finset.Card

/-! The reconciler of the reference book. At every checkpoint it feeds all events once more to
an empty engine, and compares the books of this engine with the live ones wherever an event has
been. -/
namespace FeedHandler

/-- Both fields of a level are compared. -/
def levelsEqual : List BookLevel → List BookLevel → Bool
  | a :: as, b :: bs => a.1 = b.1 && a.2 = b.2 && levelsEqual as bs
  | _, _ => true

def byteEqual (a b : VenueBook) : Bool :=
  if a.bids.length ≠ b.bids.length ∨ a.asks.length ≠ b.asks.length then false
  else levelsEqual a.bids b.bids && levelsEqual a.asks b.asks

structure BookReconcileStats where
  eventsProcessed : Nat := 0
  snapshotsChecked : Nat := 0
  divergences : Nat := 0
  snapshotInterval : Nat := 0
  deriving DecidableEq

/-- The set of the books that events have named is a list without repetition. -/
structure BookReconciler (layout : ProbeLayout UInt64) where
  snapshotInterval : Nat
  live : StoredEngine layout
  consumed : List BookEvent := []
  touched : List (Venue × UInt64) := []
  stats : BookReconcileStats

def BookEvent.bookKey (ev : BookEvent) : Venue × UInt64 := (ev.venue, ev.symbol.asU64)

namespace BookReconciler

variable {layout : ProbeLayout UInt64}

def create (layout : ProbeLayout UInt64) (snapshotInterval : Nat) : BookReconciler layout :=
  let interval := if snapshotInterval = 0 then 1 else snapshotInterval
  { snapshotInterval := interval
    live := .create layout
    stats := { snapshotInterval := interval } }

def checkBook (live rebuilt : StoredEngine layout) (stats : BookReconcileStats)
    (key : Venue × UInt64) : BookReconcileStats :=
  { stats with
    snapshotsChecked := stats.snapshotsChecked + 1
    divergences := stats.divergences +
      if byteEqual (live.snapshot key.1 key.2) (rebuilt.snapshot key.1 key.2) then 0 else 1 }

def checkSnapshot (r : BookReconciler layout) : BookReconciler layout :=
  let rebuilt := r.consumed.foldl StoredEngine.step (.create layout)
  { r with stats := r.touched.foldl (checkBook r.live rebuilt) r.stats }

def onEvent (r : BookReconciler layout) (ev : BookEvent) : BookReconciler layout :=
  let fed : BookReconciler layout := { r with
    live := r.live.step ev
    consumed := r.consumed ++ [ev]
    touched := r.touched.insert ev.bookKey
    stats := { r.stats with eventsProcessed := r.stats.eventsProcessed + 1 } }
  if fed.stats.eventsProcessed % fed.snapshotInterval = 0 then fed.checkSnapshot else fed

end BookReconciler

/-- The event of a record as it was recorded, with the ingest time in it. -/
def JournalEntry.bookEvent? (entry : JournalEntry) : Option BookEvent := entry.image.event?

/-- What `book_reconcile` exits with and reports. -/
structure BookReconcile where
  exitCode : Nat
  stats : BookReconcileStats := {}
  deriving DecidableEq

/-- `book_reconcile` on the file at its path, without `--generate-synthetic`; `creates` is whether
the directory of the output path is there or can be made. There is no result where a record holds
an enumeration value that the engine has no meaning for. -/
def bookReconcile (layout : ProbeLayout UInt64) (creates : Bool) (file : Option (List UInt8))
    (snapshotInterval : Nat) : Option BookReconcile :=
  let read := JournalReader.readFile file
  if read.opened then
    (read.entries.mapM JournalEntry.bookEvent?).map fun events =>
      let r := events.foldl BookReconciler.onEvent (.create layout snapshotInterval)
      -- what cannot be written behind this point is not noticed
      if creates then { exitCode := if r.stats.divergences = 0 then 0 else 3, stats := r.stats }
      else { exitCode := 1 }
  else some { exitCode := 1 }

theorem levelsEqual_self (levels : List BookLevel) : levelsEqual levels levels = true := by
  induction levels with
  | nil => rfl
  | cons level rest ih => simp [levelsEqual, ih]

theorem eq_of_levelsEqual {as bs : List BookLevel} (size : as.length = bs.length)
    (same : levelsEqual as bs = true) : as = bs := by
  induction as generalizing bs with
  | nil => exact (List.length_eq_zero_iff.mp size.symm).symm
  | cons a as ih =>
    cases bs with
    | nil => cases size
    | cons b bs =>
      simp only [levelsEqual, Bool.and_eq_true, decide_eq_true_eq] at same
      rw [Prod.ext same.1.1 same.1.2, ih (Nat.succ.inj size) same.2]

/-- The comparison finds every difference. -/
theorem byteEqual_iff (a b : VenueBook) : byteEqual a b = true ↔ a = b := by
  constructor
  · intro same
    simp only [byteEqual] at same
    split at same
    · cases same
    · next sizes =>
      obtain ⟨bids, asks⟩ := not_or.mp sizes
      rw [Bool.and_eq_true] at same
      have here := eq_of_levelsEqual (not_not.mp bids) same.1
      have there := eq_of_levelsEqual (not_not.mp asks) same.2
      cases a
      cases b
      cases here
      cases there
      rfl
  · rintro rfl
    simp [byteEqual, levelsEqual_self]

namespace BookReconciler

variable {layout : ProbeLayout UInt64} {r : BookReconciler layout} {events : List BookEvent}
  {interval : Nat}

/-- An engine differs from none of its own books. -/
theorem foldl_checkBook (e : StoredEngine layout) (keys : List (Venue × UInt64))
    (stats : BookReconcileStats) : keys.foldl (checkBook e e) stats =
      { stats with snapshotsChecked := stats.snapshotsChecked + keys.length } := by
  induction keys generalizing stats with
  | nil => rfl
  | cons key rest ih =>
    have same : byteEqual (e.snapshot key.1 key.2) (e.snapshot key.1 key.2) = true :=
      (byteEqual_iff _ _).mpr rfl
    rw [List.foldl_cons, ih, checkBook, if_pos same, List.length_cons]
    simp only [Nat.add_zero, Nat.add_assoc, Nat.add_comm 1 rest.length]

/-- The books that events name. -/
def named (events : List BookEvent) : Finset (Venue × UInt64) :=
  (events.map BookEvent.bookKey).toFinset

/-- The comparisons at all checkpoints, where each compares the books named so far. -/
def comparisons (interval : Nat) (events : List BookEvent) : Nat :=
  ((List.range (events.length / interval)).map fun i =>
    (named (events.take ((i + 1) * interval))).card).sum

theorem comparisons_append (ev : BookEvent) : comparisons interval (events ++ [ev]) =
    comparisons interval events +
      if (events.length + 1) % interval = 0 then (named (events ++ [ev])).card else 0 := by
  have early : ∀ i ∈ List.range (events.length / interval),
      (named ((events ++ [ev]).take ((i + 1) * interval))).card =
        (named (events.take ((i + 1) * interval))).card := by
    intro i listed
    have inside : (i + 1) * interval ≤ events.length :=
      (Nat.mul_le_mul_right interval (List.mem_range.mp listed)).trans
        (Nat.div_mul_le_self events.length interval)
    rw [List.take_append_of_le_length inside]
  simp only [comparisons, List.length_append, List.length_singleton, Nat.succ_div,
    Nat.dvd_iff_mod_eq_zero]
  split
  · next last =>
    have whole : (events.length / interval + 1) * interval = events.length + 1 := by
      have next : (events.length + 1) / interval = events.length / interval + 1 := by
        rw [Nat.succ_div, if_pos (Nat.dvd_of_mod_eq_zero last)]
      rw [← next]
      exact Nat.div_mul_cancel (Nat.dvd_of_mod_eq_zero last)
    rw [List.range_succ, List.map_append, List.sum_append, List.map_congr_left early,
      List.map_singleton, List.sum_singleton, whole, List.take_of_length_le (by simp)]
  · rw [Nat.add_zero, List.map_congr_left early, Nat.add_zero]

/-- What the reconciler is after `events`. -/
structure Reconciled (interval : Nat) (events : List BookEvent) (r : BookReconciler layout) :
    Prop where
  every : r.snapshotInterval = interval
  live : r.live = events.foldl StoredEngine.step (.create layout)
  consumed : r.consumed = events
  distinct : r.touched.Nodup
  touched : r.touched.toFinset = named events
  stats : r.stats = {
    eventsProcessed := events.length
    snapshotsChecked := comparisons interval events
    divergences := 0
    snapshotInterval := interval }

theorem create_reconciled (layout : ProbeLayout UInt64) (snapshotInterval : Nat) :
    Reconciled (if snapshotInterval = 0 then 1 else snapshotInterval) []
      (create layout snapshotInterval) where
  every := rfl
  live := rfl
  consumed := rfl
  distinct := List.nodup_nil
  touched := rfl
  stats := by simp [create, comparisons]

/-- Step lemma: the event is fed to both engines, which are compared at a checkpoint. -/
theorem Reconciled.onEvent (done : Reconciled interval events r) (ev : BookEvent) :
    Reconciled interval (events ++ [ev]) (r.onEvent ev) := by
  have live : r.live.step ev = (events ++ [ev]).foldl StoredEngine.step (.create layout) := by
    rw [done.live, List.foldl_append]
    rfl
  have distinct : (r.touched.insert ev.bookKey).Nodup := done.distinct.insert
  have touched : (r.touched.insert ev.bookKey).toFinset = named (events ++ [ev]) := by
    have before := done.touched
    simp only [named] at before ⊢
    rw [List.map_append, List.toFinset_append, ← before]
    ext key
    simp [or_comm]
  have size : (r.touched.insert ev.bookKey).length = (named (events ++ [ev])).card := by
    rw [← touched, List.toFinset_card_of_nodup distinct]
  have counted := @comparisons_append events interval ev
  simp only [BookReconciler.onEvent, done.stats, done.every, done.consumed, live]
  split
  · next checkpoint =>
    rw [if_pos checkpoint] at counted
    refine ⟨rfl, rfl, rfl, distinct, touched, ?_⟩
    simp only [checkSnapshot, foldl_checkBook, size, counted, List.length_append,
      List.length_singleton]
  · next between =>
    rw [if_neg between, Nat.add_zero] at counted
    refine ⟨rfl, rfl, rfl, distinct, touched, ?_⟩
    simp only [counted, List.length_append, List.length_singleton]

theorem run_reconciled (layout : ProbeLayout UInt64) (snapshotInterval : Nat)
    (events : List BookEvent) :
    Reconciled (if snapshotInterval = 0 then 1 else snapshotInterval) events
      (events.foldl onEvent (create layout snapshotInterval)) := by
  induction events using List.reverseRecOn with
  | nil => exact create_reconciled layout snapshotInterval
  | append_singleton events ev ih =>
    rw [List.foldl_append]
    exact ih.onEvent ev

/-- An event leaves all books alone but its own. -/
theorem books_unnamed (layout : ProbeLayout UInt64) {venue : Venue} {symbol : UInt64}
    (unnamed : (venue, symbol) ∉ named events) :
    (events.foldl OrderBookEngine.step (.create layout)).books venue symbol = {} := by
  induction events using List.reverseRecOn with
  | nil => rfl
  | append_singleton events ev ih =>
    simp only [named, List.map_append, List.toFinset_append, Finset.mem_union, not_or] at unnamed ih
    obtain ⟨before, own⟩ := unnamed
    rw [List.foldl_append, List.foldl_cons, List.foldl_nil, OrderBookEngine.step_bookAfter,
      OrderBookEngine.setBook_book, if_neg, ih before]
    rintro ⟨rfl, rfl⟩
    exact own (by simp [BookEvent.bookKey])

end BookReconciler

/-- The events of a journal as it was recorded. -/
theorem mapM_bookEvent?_entriesFrom (seq : UInt64) (items : List (EventObject × UInt64)) :
    (entriesFrom seq items).mapM JournalEntry.bookEvent? =
      some (items.map fun item => item.1.event) := by
  induction items generalizing seq with
  | nil => rfl
  | cons item rest ih =>
    simp [entriesFrom, List.mapM_cons, ih, JournalEntry.bookEvent?, EventObject.event?_image]

/-- The tool finds no divergence in any journal that opens, one that ends in the middle of a
record included: at every checkpoint it compares all books that are not empty, with an engine
that has been fed the same events. It fails exactly where the journal cannot be opened or the
directory for its report cannot be made. -/
theorem journal_reconciled (layout : ProbeLayout UInt64) (creates : Bool)
    (file : Option (List UInt8)) (snapshotInterval : Nat) :
    let read := JournalReader.readFile file
    let interval := if snapshotInterval = 0 then 1 else snapshotInterval
    (read.opened = false →
        bookReconcile layout creates file snapshotInterval = some { exitCode := 1 }) ∧
      (read.opened = true → ∀ events,
        read.entries.mapM JournalEntry.bookEvent? = some events →
          bookReconcile layout creates file snapshotInterval =
            some (if creates then {
                exitCode := 0
                stats := {
                  eventsProcessed := events.length
                  snapshotsChecked := BookReconciler.comparisons interval events
                  divergences := 0
                  snapshotInterval := interval } }
              else { exitCode := 1 }) ∧
          ∀ n venue symbol,
            let front := events.take n
            let live := (front.foldl BookReconciler.onEvent (.create layout snapshotInterval)).live
            live.snapshot venue symbol =
                (front.foldl OrderBookEngine.step (.create layout)).books venue symbol ∧
              ((venue, symbol) ∉ BookReconciler.named front → live.snapshot venue symbol = {})) ∧
      ∀ items : List (EventObject × UInt64),
        file = some (journalHeader ++ entriesBytes (entriesFrom 1 items)) →
          read.opened = true ∧
            read.entries.mapM JournalEntry.bookEvent? = some (items.map fun item => item.1.event) := by
  intro read interval
  refine ⟨fun refused => ?_, fun opened events found => ⟨?_, ?_⟩, ?_⟩
  · rw [bookReconcile, if_neg (by rw [refused]; exact Bool.false_ne_true)]
  · have done := BookReconciler.run_reconciled layout snapshotInterval events
    simp only [bookReconcile]
    rw [if_pos opened, found, Option.map_some, done.stats]
    rfl
  · intro n venue symbol front live
    have done := BookReconciler.run_reconciled layout snapshotInterval front
    have shown : live.snapshot venue symbol =
        (front.foldl OrderBookEngine.step (.create layout)).books venue symbol := by
      simp only [live]
      rw [done.live]
      exact (StoredEngine.run_shows layout front).books venue symbol
    exact ⟨shown, fun unnamed => shown.trans (BookReconciler.books_unnamed layout unnamed)⟩
  · rintro items rfl
    simp only [read, JournalReader.readFile_whole]
    exact ⟨trivial, mapM_bookEvent?_entriesFrom 1 items⟩

end FeedHandler
