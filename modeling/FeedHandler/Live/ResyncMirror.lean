import Mathlib.Data.Multiset.Count
import Mathlib.Data.Multiset.Filter
import FeedHandler.Lib.Run
import FeedHandler.Live.ResyncStateMachine

/-! The book of a consumer that follows the emitted events, against the tracker of the
feed. A snapshot starts the tracker afresh and emits the orders it lists, but no event that
takes away the others. -/
namespace FeedHandler

open Bitfinex

namespace Bitfinex

namespace OnBookTracker

/-- The entries are written in turn. -/
def insertAll (tracker : OnBookTracker) (entries : List (UInt64 × RestingOrder)) : OnBookTracker :=
  entries.foldl (fun tracker entry => tracker.insert entry.1 entry.2) tracker

variable {tracker : OnBookTracker} {entries : List (UInt64 × RestingOrder)} {id : UInt64}
  {order : RestingOrder}

theorem insertAll_of_not_mem (absent : id ∉ entries.map Prod.fst) :
    tracker.insertAll entries id = tracker id := by
  induction entries generalizing tracker with
  | nil => rfl
  | cons entry rest ih =>
    rw [List.map_cons, List.mem_cons, not_or] at absent
    rw [insertAll, List.foldl_cons]
    exact (ih absent.2).trans (Function.update_of_ne absent.1 ..)

theorem insertAll_of_mem (tracker other : OnBookTracker) (listed : id ∈ entries.map Prod.fst) :
    tracker.insertAll entries id = other.insertAll entries id := by
  induction entries generalizing tracker other with
  | nil => cases listed
  | cons entry rest ih =>
    simp only [insertAll, List.foldl_cons]
    by_cases later : id ∈ rest.map Prod.fst
    · exact ih _ _ later
    · have here : id = entry.1 := (List.mem_cons.mp listed).resolve_right later
      have written : ∀ t : OnBookTracker, (t.insert entry.1 entry.2).insertAll rest id =
          some entry.2 := by
        intro t
        rw [insertAll_of_not_mem later, insert, here, Function.update_self]
      exact (written tracker).trans (written other).symm

/-- What is written into an empty tracker comes from the entries. -/
theorem mem_of_insertAll (found : clear.insertAll entries id = some order) :
    (id, order) ∈ entries := by
  induction entries using List.reverseRecOn with
  | nil => cases found
  | append_singleton front entry ih =>
    rw [insertAll, List.foldl_append, List.foldl_cons, List.foldl_nil, insert] at found
    by_cases here : id = entry.1
    · rw [here, Function.update_self] at found
      rw [here, ← Option.some.inj found]
      exact List.mem_append_right front (List.mem_singleton_self _)
    · rw [Function.update_of_ne here] at found
      exact List.mem_append_left _ (ih found)

theorem insertAll_of_nodup (nodup : (entries.map Prod.fst).Nodup) (member : (id, order) ∈ entries) :
    tracker.insertAll entries id = some order := by
  induction entries generalizing tracker with
  | nil => cases member
  | cons entry rest ih =>
    obtain ⟨absent, distinct⟩ := List.nodup_cons.mp nodup
    rw [insertAll, List.foldl_cons]
    rcases List.mem_cons.mp member with rfl | later
    · exact (insertAll_of_not_mem absent).trans (Function.update_self ..)
    · exact ih distinct later

end OnBookTracker

section Lowering

variable {D : Type*} [Binary64 D]

/-- Price and quantity of a row, where both fit. -/
def BookRow.order (row : BookRow D) : Option RestingOrder := do
  let price ← priceToU32 row.price
  let qty ← qtyToU32MicroBase (Binary64.fabs row.amount)
  return ⟨price, qty⟩

theorem convert_order (row : BookRow D) (stats : LoweringStats) :
    (row.convert stats).1 = row.order := by
  simp only [BookRow.convert, BookRow.order]
  cases priceToU32 row.price with
  | none => rfl
  | some price => cases qtyToU32MicroBase (Binary64.fabs row.amount) <;> rfl

/-- The entry that a row of a snapshot makes, unless it is a removal or does not fit. -/
def BookRow.entry (row : BookRow D) : Option (UInt64 × RestingOrder) :=
  if row.removal then none else row.order.map (fun order => (row.orderId, order))

/-- What a row can do to the book. -/
theorem lowerRow_cases (row : BookRow D) (sequence tsNs : UInt64) (wire : List UInt8)
    (onBook : OnBookTracker) (stats : LoweringStats) :
    let lowered := lowerRow row sequence tsNs wire onBook stats
    (lowered.events = [] ∧ lowered.onBook = onBook) ∨
      (lowered.events = [cancelEvent row sequence tsNs wire] ∧
        lowered.onBook = onBook.erase row.orderId) ∨
      (∃ order, onBook row.orderId = none ∧
        lowered.events = [addEvent row order sequence tsNs wire] ∧
        lowered.onBook = onBook.insert row.orderId order) ∨
      ∃ order prev, onBook row.orderId = some prev ∧
        lowered.events = [replaceEvent row order prev sequence tsNs wire] ∧
        lowered.onBook = onBook.insert row.orderId order := by
  intro lowered
  simp only [lowered, lowerRow]
  split
  · split
    · exact Or.inr (Or.inl ⟨rfl, rfl⟩)
    · exact Or.inl ⟨rfl, rfl⟩
  · split
    · exact Or.inl ⟨rfl, rfl⟩
    · next order _ _ =>
      split
      · next fresh => exact Or.inr (Or.inr (Or.inl ⟨order, fresh, rfl, rfl⟩))
      · next prev known => exact Or.inr (Or.inr (Or.inr ⟨order, prev, known, rfl, rfl⟩))

/-- A snapshot writes the entries of its rows, and emits them in the same order. -/
theorem lowerSnapshotRows_spec (tsNs : UInt64) (wire : List UInt8) (rows : List (BookRow D))
    (onBook : OnBookTracker) (stats : LoweringStats) :
    let lowered := lowerSnapshotRows tsNs wire rows onBook stats
    lowered.onBook = onBook.insertAll (rows.filterMap BookRow.entry) ∧
      lowered.events.map (fun ev => (ev.orderId, (⟨ev.price, ev.qty⟩ : RestingOrder))) =
        rows.filterMap BookRow.entry ∧
      ∀ ev ∈ lowered.events, ev.type = .add := by
  induction rows generalizing onBook stats with
  | nil => exact ⟨rfl, rfl, fun ev member => by cases member⟩
  | cons row rest ih =>
    intro lowered
    simp only [lowered, lowerSnapshotRows]
    by_cases removal : row.removal = true
    · have none : row.entry = none := if_pos removal
      rw [if_pos removal, List.filterMap_cons_none none]
      exact ih onBook stats
    · have converted := convert_order row stats
      rw [if_neg removal]
      split
      · next next_ same =>
        have none : row.entry = none := by
          rw [BookRow.entry, if_neg removal, ← converted, same]
          rfl
        rw [List.filterMap_cons_none none]
        exact ih onBook next_
      · next order next_ same =>
        have some : row.entry = some (row.orderId, order) := by
          rw [BookRow.entry, if_neg removal, ← converted, same]
          rfl
        obtain ⟨written, emitted, adds⟩ := ih (onBook.insert row.orderId order)
          { next_ with adds := next_.adds + 1 }
        rw [List.filterMap_cons_some some]
        refine ⟨written, ?_, ?_⟩
        · rw [List.map_cons, emitted]
          rfl
        · intro ev member
          rcases List.mem_cons.mp member with rfl | later
          · rfl
          · exact adds ev later

end Lowering

/-- A consumer that keys its book by order id. -/
def follow (book : OnBookTracker) (ev : BookEvent) : OnBookTracker :=
  match ev.type with
  | .add => book.insert ev.orderId ⟨ev.price, ev.qty⟩
  | .replace => if book.contains ev.orderId then book.insert ev.orderId ⟨ev.price, ev.qty⟩ else book
  | .cancel => if ev.qty = 0 then book.erase ev.orderId else book
  | _ => book

/-- A live order as a consumer lists it. -/
abbrev LiveEntry := UInt64 × RestingOrder

/-- The entry after an order was replaced. -/
def reprice (id : UInt64) (order : RestingOrder) (entry : LiveEntry) : LiveEntry :=
  if entry.1 = id then (id, order) else entry

/-- A consumer that keeps one entry for every Add. -/
def followEntries (entries : Multiset LiveEntry) (ev : BookEvent) : Multiset LiveEntry :=
  match ev.type with
  | .add => (ev.orderId, ⟨ev.price, ev.qty⟩) ::ₘ entries
  | .replace => entries.map (reprice ev.orderId ⟨ev.price, ev.qty⟩)
  | .cancel => if ev.qty = 0 then entries.filter (fun entry => entry.1 ≠ ev.orderId) else entries
  | _ => entries

/-- The entries are the orders on the book, each of them once. -/
def Lists (entries : Multiset LiveEntry) (onBook : OnBookTracker) : Prop :=
  ∀ id order, entries.count (id, order) = if onBook id = some order then 1 else 0

section Followers

variable {events : List BookEvent} {entries : Multiset LiveEntry} {onBook : OnBookTracker}
  {id : UInt64} {order : RestingOrder}

theorem follow_adds (adds : ∀ ev ∈ events, ev.type = .add) (book : OnBookTracker) :
    events.foldl follow book =
      book.insertAll (events.map fun ev => (ev.orderId, ⟨ev.price, ev.qty⟩)) := by
  induction events generalizing book with
  | nil => rfl
  | cons ev rest ih =>
    rw [List.foldl_cons, ih (fun later member => adds later (List.mem_cons_of_mem _ member)),
      follow,
      adds ev List.mem_cons_self]
    rfl

theorem followEntries_adds (adds : ∀ ev ∈ events, ev.type = .add) (entries : Multiset LiveEntry) :
    events.foldl followEntries entries =
      (events.map fun ev => (ev.orderId, ⟨ev.price, ev.qty⟩) : List LiveEntry) + entries := by
  induction events generalizing entries with
  | nil => exact (Multiset.zero_add entries).symm
  | cons ev rest ih =>
    rw [List.foldl_cons, ih (fun later member => adds later (List.mem_cons_of_mem _ member)),
      followEntries, adds ev List.mem_cons_self, List.map_cons, ← Multiset.cons_coe,
      Multiset.cons_add, Multiset.add_cons]

theorem Lists.insert (lists : Lists entries onBook) (fresh : onBook id = none) :
    Lists ((id, order) ::ₘ entries) (onBook.insert id order) := by
  intro other held
  rw [Multiset.count_cons, lists]
  by_cases here : other = id
  · subst here
    rw [OnBookTracker.insert, Function.update_self, fresh]
    by_cases same : held = order
    · subst same
      simp
    · simp [same, Ne.symm same]
  · rw [OnBookTracker.insert, Function.update_of_ne here]
    simp [here]

theorem Lists.erase (lists : Lists entries onBook) :
    Lists (entries.filter (fun entry => entry.1 ≠ id)) (onBook.erase id) := by
  intro other held
  rw [Multiset.count_filter, lists, OnBookTracker.erase]
  by_cases here : other = id
  · subst here
    simp
  · simp [here]

/-- The book has one order of an id, so a replace re-prices one entry. -/
theorem Lists.reprice (lists : Lists entries onBook) {prev : RestingOrder}
    (known : onBook id = some prev) :
    Lists (entries.map (reprice id order)) (onBook.insert id order) := by
  have own : ∀ entry ∈ entries, entry.1 = id → (id, prev) = entry := by
    rintro ⟨other, held⟩ member rfl
    have listed := Multiset.one_le_count_iff_mem.mpr member
    rw [lists, known] at listed
    have same : prev = held := by
      by_contra differs
      simp [differs] at listed
    rw [same]
  intro other held
  rw [Multiset.count_map]
  by_cases here : other = id
  · subst here
    have single : entries.filter (fun entry => (other, held) = Bitfinex.reprice other order entry) =
        entries.filter (fun entry => (other, prev) = entry ∧ held = order) := by
      refine Multiset.filter_congr fun entry member => ?_
      by_cases mine : entry.1 = other
      · simp [Bitfinex.reprice, mine, own entry member mine]
      · have differs : (other, prev) ≠ entry := fun same => mine (congrArg Prod.fst same).symm
        have apart : (other, held) ≠ entry := fun same => mine (congrArg Prod.fst same).symm
        simp [Bitfinex.reprice, mine, differs, apart]
    rw [single, OnBookTracker.insert, Function.update_self]
    by_cases same : held = order
    · have once := lists other prev
      rw [known, if_pos rfl, Multiset.count_eq_card_filter_eq] at once
      simp [same, once]
    · simp [same, Ne.symm same]
  · have kept : entries.filter (fun entry => (other, held) = Bitfinex.reprice id order entry) =
        entries.filter (fun entry => (other, held) = entry) := by
      refine Multiset.filter_congr fun entry member => ?_
      by_cases mine : entry.1 = id
      · have apart : (other, held) ≠ entry := fun same => here (mine ▸ congrArg Prod.fst same)
        simp [Bitfinex.reprice, mine, here, apart]
      · simp [Bitfinex.reprice, mine]
    rw [kept, ← Multiset.count_eq_card_filter_eq, lists, OnBookTracker.insert,
      Function.update_of_ne here]

end Followers

theorem Lists.row {D : Type*} [Binary64 D] {entries : Multiset LiveEntry} {onBook : OnBookTracker}
    (lists : Lists entries onBook) (row : BookRow D) (sequence tsNs : UInt64) (wire : List UInt8)
    (stats : LoweringStats) :
    let lowered := lowerRow row sequence tsNs wire onBook stats
    Lists (lowered.events.foldl followEntries entries) lowered.onBook := by
  intro lowered
  obtain ⟨none, same⟩ | ⟨removed, same⟩ | ⟨order, fresh, added, same⟩ |
    ⟨order, prev, known, replaced, same⟩ := lowerRow_cases row sequence tsNs wire onBook stats
  · rw [none, same]
    exact lists
  · rw [removed, same]
    exact lists.erase
  · rw [added, same]
    exact lists.insert fresh
  · rw [replaced, same]
    exact lists.reprice known

theorem follow_row {D : Type*} [Binary64 D] (row : BookRow D) (sequence tsNs : UInt64)
    (wire : List UInt8) (onBook : OnBookTracker) (stats : LoweringStats) :
    let lowered := lowerRow row sequence tsNs wire onBook stats
    lowered.events.foldl follow onBook = lowered.onBook := by
  intro lowered
  obtain ⟨none, same⟩ | ⟨removed, same⟩ | ⟨order, fresh, added, same⟩ |
    ⟨order, prev, known, replaced, same⟩ := lowerRow_cases row sequence tsNs wire onBook stats
  · rw [none, same]
    rfl
  · rw [removed, same]
    rfl
  · rw [added, same]
    rfl
  · have tracked : onBook.contains row.orderId = true := Option.isSome_iff_exists.mpr ⟨prev, known⟩
    rw [replaced, same]
    exact if_pos tracked

end Bitfinex

namespace ResyncStateMachine

variable {D : Type*} [Binary64 D]

/-- The feed with the books of its two kinds of consumers. -/
structure Mirror where
  machine : ResyncStateMachine
  byId : OnBookTracker := .clear
  entries : Multiset LiveEntry := 0

def Mirror.step (s : Mirror) (call : Call D) : Mirror :=
  let answered := s.machine.answer call
  { machine := answered.1
    byId := answered.2.2.foldl follow s.byId
    entries := answered.2.2.foldl followEntries s.entries }

/-- The book keyed by id is the one of the feed. -/
def Mirror.Keyed (s : Mirror) : Prop := s.byId = s.machine.onBook

/-- The entries are the orders of the feed, each of them once. -/
def Mirror.Listed (s : Mirror) : Prop := Lists s.entries s.machine.onBook

/-- The entries that a snapshot writes. -/
def snapshotEntries (frame : SnapshotFrame D) : List LiveEntry := frame.rows.filterMap BookRow.entry

/-- If the call is a snapshot, it lists every order that is still on the book. -/
def Covers (s : Mirror) (call : Call D) : Prop :=
  ∀ frame tsNs, call = .snapshot frame tsNs → ∀ id, s.machine.onBook id ≠ none →
    id ∈ (snapshotEntries frame).map Prod.fst

/-- If the call is a snapshot, it finds an empty book and lists no order twice. -/
def Afresh (s : Mirror) (call : Call D) : Prop :=
  ∀ frame tsNs, call = .snapshot frame tsNs → (∀ id, s.machine.onBook id = none) ∧
    ((snapshotEntries frame).map Prod.fst).Nodup

variable {s : Mirror}

theorem snapshot_books (s : Mirror) (frame : SnapshotFrame D) (tsNs : UInt64) :
    (s.step (.snapshot frame tsNs)).machine.onBook =
        OnBookTracker.clear.insertAll (snapshotEntries frame) ∧
      (s.step (.snapshot frame tsNs)).byId = s.byId.insertAll (snapshotEntries frame) ∧
      (s.step (.snapshot frame tsNs)).entries = snapshotEntries frame + s.entries := by
  obtain ⟨written, emitted, adds⟩ := lowerSnapshotRows_spec tsNs s.machine.symbolWire frame.rows
    .clear s.machine.loweringStats
  refine ⟨written, ?_, ?_⟩
  · exact (follow_adds adds s.byId).trans (congrArg s.byId.insertAll emitted)
  · exact (followEntries_adds adds s.entries).trans (congrArg (· + s.entries) (congrArg _ emitted))

/-- An update is refused and changes no book, or lowers its row. -/
theorem update_books (s : Mirror) (frame : UpdateFrame D) (tsNs : UInt64) :
    let lowered := lowerRow frame.row frame.sequence tsNs s.machine.symbolWire s.machine.onBook
      s.machine.loweringStats
    let after := s.step (.update frame tsNs)
    (after.machine.onBook = s.machine.onBook ∧ after.byId = s.byId ∧ after.entries = s.entries) ∨
      (after.machine.onBook = lowered.onBook ∧ after.byId = lowered.events.foldl follow s.byId ∧
        after.entries = lowered.events.foldl followEntries s.entries) := by
  intro lowered after
  simp only [after, Mirror.step, answer]
  obtain ⟨-, same⟩ | ⟨-, -, same⟩ | ⟨-, -, same⟩ := onUpdate_cases s.machine frame tsNs
  · rw [same]
    exact Or.inl ⟨rfl, rfl, rfl⟩
  · rw [same]
    exact Or.inl ⟨rfl, rfl, rfl⟩
  · rw [same]
    exact Or.inr ⟨rfl, rfl, rfl⟩

/-- Only a snapshot can part the keyed book from the feed, by an order it does not list. -/
theorem step_keyed (keyed : s.Keyed) (call : Call D) : (s.step call).Keyed ↔ Covers s call := by
  cases call with
  | snapshot frame tsNs =>
    obtain ⟨written, byId, -⟩ := snapshot_books s frame tsNs
    rw [Mirror.Keyed, written, byId, keyed]
    constructor
    · rintro agree _ _ ⟨rfl, rfl⟩ id held
      by_contra absent
      have same := congrFun agree id
      rw [OnBookTracker.insertAll_of_not_mem absent, OnBookTracker.insertAll_of_not_mem absent]
        at same
      exact held same
    · intro covers
      funext id
      by_cases listed : id ∈ (snapshotEntries frame).map Prod.fst
      · exact OnBookTracker.insertAll_of_mem _ _ listed
      · have gone : s.machine.onBook id = none := by
          by_contra held
          exact listed (covers frame tsNs rfl id held)
        rw [OnBookTracker.insertAll_of_not_mem listed, OnBookTracker.insertAll_of_not_mem listed,
          gone]
        rfl
  | update frame tsNs =>
    refine iff_of_true ?_ (fun _ _ other => by cases other)
    obtain ⟨onBook, byId, -⟩ | ⟨onBook, byId, -⟩ := update_books s frame tsNs
    · rw [Mirror.Keyed, onBook, byId]
      exact keyed
    · rw [Mirror.Keyed, onBook, byId, keyed, follow_row]
  | disconnect => exact iff_of_true keyed (fun _ _ other => by cases other)

theorem lists_insertAll {entries : List LiveEntry} (nodup : (entries.map Prod.fst).Nodup) :
    Lists (entries : Multiset LiveEntry) (OnBookTracker.clear.insertAll entries) := by
  intro id order
  by_cases listed : (id, order) ∈ entries
  · rw [Multiset.count_eq_one_of_mem (Multiset.coe_nodup.mpr (List.Nodup.of_map _ nodup)) listed,
      OnBookTracker.insertAll_of_nodup nodup listed, if_pos rfl]
  · rw [Multiset.count_eq_zero_of_notMem listed,
      if_neg (fun found => listed (OnBookTracker.mem_of_insertAll found))]

/-- Entries added to a list agree with the tracker that starts afresh only if the list was
empty and they are of different orders. -/
theorem afresh_of_lists {added : List LiveEntry} {entries : Multiset LiveEntry}
    {onBook : OnBookTracker} (before : Lists entries onBook)
    (after : Lists (added + entries) (OnBookTracker.clear.insertAll added)) :
    (∀ id, onBook id = none) ∧ (added.map Prod.fst).Nodup := by
  have counts : ∀ id order, (added : Multiset LiveEntry).count (id, order) +
      (if onBook id = some order then 1 else 0) =
        if OnBookTracker.clear.insertAll added id = some order then 1 else 0 := by
    intro id order
    rw [← before, ← after, Multiset.count_add]
  constructor
  · intro id
    by_contra held
    obtain ⟨order, known⟩ := Option.ne_none_iff_exists'.mp held
    have count := counts id order
    rw [if_pos known] at count
    split at count
    · next found =>
      have listed := Multiset.one_le_count_iff_mem.mpr
        (Multiset.mem_coe.mpr (OnBookTracker.mem_of_insertAll found))
      omega
    · omega
  · refine List.Nodup.map_on ?_
      (Multiset.coe_nodup.mp (Multiset.nodup_iff_count_le_one.mpr fun entry => ?_))
    · rintro ⟨id, order⟩ first ⟨other, held⟩ second rfl
      have written : ∀ order, (id, order) ∈ added →
          OnBookTracker.clear.insertAll added id = some order := by
        intro order listed
        by_contra absent
        have count := counts id order
        rw [if_neg absent] at count
        have positive := Multiset.one_le_count_iff_mem.mpr (Multiset.mem_coe.mpr listed)
        omega
      rw [Option.some.inj ((written order first).symm.trans (written held second))]
    · obtain ⟨id, order⟩ := entry
      have count := counts id order
      split at count <;> split at count <;> omega

/-- Any snapshot over a live book, and any id listed twice, parts the entries from the feed. -/
theorem step_listed (listed : s.Listed) (call : Call D) : (s.step call).Listed ↔ Afresh s call := by
  cases call with
  | snapshot frame tsNs =>
    obtain ⟨written, -, entries⟩ := snapshot_books s frame tsNs
    rw [Mirror.Listed, written, entries]
    constructor
    · rintro after _ _ ⟨rfl, rfl⟩
      exact afresh_of_lists listed after
    · intro afresh
      obtain ⟨empty, nodup⟩ := afresh frame tsNs rfl
      have none : s.entries = 0 := by
        refine Multiset.eq_zero_iff_forall_notMem.mpr fun entry member => ?_
        have held := Multiset.one_le_count_iff_mem.mpr member
        rw [listed entry.1 entry.2, empty] at held
        simp at held
      rw [none, Multiset.add_zero]
      exact lists_insertAll nodup
  | update frame tsNs =>
    refine iff_of_true ?_ (fun _ _ other => by cases other)
    obtain ⟨onBook, -, entries⟩ | ⟨onBook, -, entries⟩ := update_books s frame tsNs
    · rw [Mirror.Listed, onBook, entries]
      exact listed
    · rw [Mirror.Listed, onBook, entries]
      exact Lists.row listed frame.row frame.sequence tsNs _ _
  | disconnect => exact iff_of_true listed (fun _ _ other => by cases other)

/-- The feed before any call. -/
def Mirror.start (wire : List UInt8) : Mirror := { machine := { symbolWire := wire } }

theorem start_listed (wire : List UInt8) : (Mirror.start wire).Listed := fun _ _ => rfl

/-- The book keyed by id agrees after every call exactly if every snapshot lists the orders
that are still on the book; the entries agree exactly if every snapshot starts afresh. -/
theorem mirrors_iff (wire : List UInt8) (calls : List (Call D)) :
    (Run.Along Mirror.step (fun s call => (s.step call).Keyed) (Mirror.start wire) calls ↔
      Run.Along Mirror.step Covers (Mirror.start wire) calls) ∧
    (Run.Along Mirror.step (fun s call => (s.step call).Listed) (Mirror.start wire) calls ↔
      Run.Along Mirror.step Afresh (Mirror.start wire) calls) := by
  have all : Run.Along Mirror.step (fun _ _ => True) (Mirror.start wire) calls :=
    Run.along_of_forall (Q := fun _ => True) _ calls (fun _ _ => trivial)
  exact ⟨all.after_iff (P := Mirror.Keyed) (fun _ call held _ => step_keyed held call) rfl,
    all.after_iff (P := Mirror.Listed) (fun _ call held _ => step_listed held call)
      (start_listed wire)⟩

/-- Order 1 on the book, a hole in the sequence, and a snapshot that lists order 2 alone. -/
def resubscribed : List (Call ℚ) :=
  [.snapshot { rows := [⟨1, 100, 1⟩], sequence := 10 } 0,
    .update { row := ⟨3, 101, 1⟩, sequence := 12 } 1,
    .snapshot { rows := [⟨2, 100, 1⟩], sequence := 20 } 2]

/-- Order 1 is gone from the feed, and still live downstream. -/
theorem resubscribed_stale :
    ¬ Run.Along Mirror.step (fun s call => (s.step call).Keyed) (Mirror.start []) resubscribed ∧
      ¬ Run.Along Mirror.step (fun s call => (s.step call).Listed) (Mirror.start [])
        resubscribed := by
  constructor
  · intro agree
    have last := congrFun agree.2.2.1 1
    revert last
    decide +kernel
  · intro agree
    have last := agree.2.2.1 1 ⟨1000000, 1000000⟩
    revert last
    decide +kernel

end ResyncStateMachine

end FeedHandler
