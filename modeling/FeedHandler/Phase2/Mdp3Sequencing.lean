import FeedHandler.Lib.Run
import FeedHandler.Phase2.PipelineInOrder
import FeedHandler.Proto.Mdp3
import Mathlib.Data.List.TakeWhile

/-! CME entries in the pipeline. Entries are numbered within their instrument, and the
parser makes this number the venue's sequence, so that the numbers of two instruments
meet in one sequencer. -/
namespace FeedHandler

namespace Pipeline

variable {p : Pipeline} {ev : BookEvent}

theorem releasePending_duplicates (count seq : Nat) (v : Venue) (p : Pipeline) :
    (releasePending count seq v p).stats.droppedDuplicateOrOld =
      p.stats.droppedDuplicateOrOld := by
  induction count generalizing seq p with
  | zero => rfl
  | succ count ih =>
    cases found : (p.pendingByVenue v).find? seq with
    | none =>
      simp only [releasePending, found]
      exact ih _ _
    | some head =>
      simp only [releasePending, found]
      exact ih _ _

theorem processEvent_duplicates_le (p : Pipeline) (ev : BookEvent) :
    p.stats.droppedDuplicateOrOld ≤ (p.processEvent ev).stats.droppedDuplicateOrOld := by
  rcases (p.tracker ev.venue).position ev.seq with old | ⟨same, positive⟩ | far | ⟨ahead, near⟩
  · rw [processEvent_old old]
    exact Nat.le_succ _
  · rw [processEvent_inOrder same positive, evictStore_stats, releasePending_duplicates]
    exact Nat.le_refl _
  · rw [processEvent_tooLarge far, evictStore_stats]
  · rw [processEvent_buffered ahead near]

/-- No call takes back a drop. -/
theorem onEvent_duplicates_le (p : Pipeline) (ev : BookEvent) :
    ((p.record ev).processEvent ev).stats.droppedDuplicateOrOld ≤
      (p.onEvent ev).stats.droppedDuplicateOrOld := by
  refine Run.invariant
    (P := fun q : Pipeline => ((p.record ev).processEvent ev).stats.droppedDuplicateOrOld ≤
      q.stats.droppedDuplicateOrOld) ?_ _ (Nat.le_refl _)
  intro q recovered kept
  simp only [reinject]
  split
  · exact kept
  · exact kept.trans (processEvent_duplicates_le q recovered)

theorem foldl_duplicates_le (events : List BookEvent) (p : Pipeline) :
    p.stats.droppedDuplicateOrOld ≤ (events.foldl onEvent p).stats.droppedDuplicateOrOld := by
  refine Run.invariant
    (P := fun q : Pipeline => p.stats.droppedDuplicateOrOld ≤ q.stats.droppedDuplicateOrOld) ?_
    events (Nat.le_refl _)
  intro q next kept
  have processed := processEvent_duplicates_le (q.record next) next
  have returned := onEvent_duplicates_le q next
  exact (kept.trans processed).trans returned

/-- Behind events in order, one whose sequence has passed is dropped for good. -/
theorem run_drops {front rest : List BookEvent} (gapWindow capacity : Nat)
    (follows : ∀ part e, part ++ [e] <+: front → Follows part e)
    (passed : ev.seq < (DeterministicMerger.ofVenue front ev.venue).length + 1)
    (room : (DeterministicMerger.ofVenue front ev.venue).length + 1 < wordSize) :
    (run gapWindow capacity (front ++ ev :: rest)).stats.droppedDuplicateOrOld ≠ 0 := by
  have inStep := run_inStep gapWindow capacity follows
  have expected := inStep.next ev.venue room
  have split : run gapWindow capacity (front ++ ev :: rest) =
      rest.foldl onEvent ((run gapWindow capacity front).onEvent ev) := by
    simp [run]
  generalize run gapWindow capacity front = p at inStep expected split
  have behind : ev.seq < ((p.record ev).tracker ev.venue).nextExpected := by
    simp only [record]
    rwa [expected]
  have old := processEvent_old (Or.inr behind)
  have dropped := congrArg (fun q => q.stats.droppedDuplicateOrOld) old
  have kept := onEvent_duplicates_le p ev
  have later := foldl_duplicates_le rest (p.onEvent ev)
  rw [split]
  simp only at dropped
  omega

/-- Events of one venue, counted from 1 on. -/
theorem follows_of_one_venue {events : List BookEvent} {v : Venue}
    (venue : ∀ ev ∈ events, ev.venue = v)
    (counted : events.map BookEvent.seq = List.range' 1 events.length) :
    ∀ front ev, front ++ [ev] <+: events → Follows front ev := by
  apply follows_of_counted
  intro w
  by_cases same : w = v
  · have whole : DeterministicMerger.ofVenue events w = events :=
      List.filter_eq_self.mpr (fun ev member => by simp [venue ev member, same])
    rw [whole, counted]
  · have nothing : DeterministicMerger.ofVenue events w = [] :=
      List.filter_eq_nil_iff.mpr (fun ev member => by
        simpa [venue ev member] using fun equal => same equal.symm)
    rw [nothing]
    rfl

end Pipeline

namespace Mdp3

/-- The entries of the packets, in arrival order. -/
def arrivals (packets : List (List UInt8 × UInt64)) : List MdEntry :=
  packets.flatMap fun packet => (packetEntries packet.1).map GroupEntry.entry

def ofSecurity (entries : List MdEntry) (securityId : Int32) : List MdEntry :=
  entries.filter fun entry => entry.securityId = securityId

/-- The entries of every instrument carry the numbers 1, 2, 3, … in arrival order. In
particular no two of them agree in instrument and number. -/
def Numbered (entries : List MdEntry) : Prop :=
  ∀ securityId, (ofSecurity entries securityId).map (fun entry => entry.rptSeq.toNat) =
    List.range' 1 (ofSecurity entries securityId).length

def OneSecurity (entries : List MdEntry) : Prop :=
  ∀ a ∈ entries, ∀ b ∈ entries, a.securityId = b.securityId

instance (entries : List MdEntry) : Decidable (OneSecurity entries) :=
  inferInstanceAs (Decidable (∀ a ∈ entries, ∀ b ∈ entries, _))

variable {entries : List MdEntry} {packets : List (List UInt8 × UInt64)} {stats : ParseStats}

/-- Only the instruments that occur need a look. -/
theorem numbered_iff : Numbered entries ↔ ∀ entry ∈ entries,
    (ofSecurity entries entry.securityId).map (fun entry => entry.rptSeq.toNat) =
      List.range' 1 (ofSecurity entries entry.securityId).length := by
  constructor
  · exact fun numbered entry _ => numbered entry.securityId
  · intro occurring securityId
    cases own : ofSecurity entries securityId with
    | nil => rfl
    | cons head rest =>
      have member : head ∈ ofSecurity entries securityId := by simp [own]
      obtain ⟨inside, same⟩ := List.mem_filter.mp member
      rw [← own, ← of_decide_eq_true same]
      exact occurring head inside

instance (entries : List MdEntry) : Decidable (Numbered entries) :=
  decidable_of_iff _ numbered_iff.symm

theorem mem_ofSecurity {entry : MdEntry} (member : entry ∈ entries) :
    entry ∈ ofSecurity entries entry.securityId :=
  List.mem_filter.mpr ⟨member, by simp⟩

theorem Numbered.positive (numbered : Numbered entries) {entry : MdEntry}
    (member : entry ∈ entries) : 1 ≤ entry.rptSeq.toNat := by
  have inside := List.mem_map_of_mem (f := fun entry : MdEntry => entry.rptSeq.toNat)
    (mem_ofSecurity member)
  rw [numbered, List.mem_range'_1] at inside
  exact inside.1

/-- Every instrument that occurs has an entry with number 1. -/
theorem Numbered.first (numbered : Numbered entries) {entry : MdEntry} (member : entry ∈ entries) :
    ∃ head ∈ entries, head.securityId = entry.securityId ∧ head.rptSeq.toNat = 1 := by
  have own := mem_ofSecurity member
  have positive := List.length_pos_of_mem own
  have inside : 1 ∈ (ofSecurity entries entry.securityId).map (fun e => e.rptSeq.toNat) := by
    rw [numbered, List.mem_range'_1]
    omega
  obtain ⟨head, found, one⟩ := List.mem_map.mp inside
  obtain ⟨present, same⟩ := List.mem_filter.mp found
  exact ⟨head, present, by simpa using same, one⟩

theorem OneSecurity.counted (one : OneSecurity entries) (numbered : Numbered entries) :
    entries.map (fun entry => entry.rptSeq.toNat) = List.range' 1 entries.length := by
  cases entries with
  | nil => rfl
  | cons head rest =>
    have whole : ofSecurity (head :: rest) head.securityId = head :: rest :=
      List.filter_eq_self.mpr (fun entry member => by simpa using one entry member head (by simp))
    have counted := numbered head.securityId
    rwa [whole] at counted

/-- Numbered entries keep distinct numbers only within one instrument. -/
theorem Numbered.nodup_iff (numbered : Numbered entries) :
    (entries.map (fun entry => entry.rptSeq.toNat)).Nodup ↔ OneSecurity entries := by
  constructor
  · intro distinct a memberA b memberB
    obtain ⟨headA, insideA, sameA, oneA⟩ := numbered.first memberA
    obtain ⟨headB, insideB, sameB, oneB⟩ := numbered.first memberB
    have equal := List.inj_on_of_nodup_map distinct insideA insideB (oneA.trans oneB.symm)
    rw [← sameA, ← sameB, equal]
  · intro one
    rw [one.counted numbered]
    exact List.nodup_range'

/-- Entries of several instruments split at the first entry of another instrument than
the first one's; it has number 1. -/
theorem Numbered.split (numbered : Numbered entries) (several : ¬ OneSecurity entries) :
    ∃ front other rest, entries = front ++ other :: rest ∧ front ≠ [] ∧ other.rptSeq.toNat = 1 ∧
      front.map (fun entry => entry.rptSeq.toNat) = List.range' 1 front.length := by
  cases entries with
  | nil => exact absurd (fun _ member => absurd member List.not_mem_nil) several
  | cons head tail =>
    let own : MdEntry → Bool := fun entry => entry.securityId = head.securityId
    have parts := List.takeWhile_append_dropWhile (p := own) (l := head :: tail)
    have alike : ∀ entry ∈ (head :: tail).takeWhile own, entry.securityId = head.securityId :=
      fun entry member => by simpa [own] using List.mem_takeWhile_imp member
    cases remaining : (head :: tail).dropWhile own with
    | nil =>
      rw [remaining, List.append_nil] at parts
      rw [parts] at alike
      exact absurd (fun a memberA b memberB => (alike a memberA).trans (alike b memberB).symm)
        several
    | cons other rest =>
      have different : other.securityId ≠ head.securityId := by
        have stops := List.dropWhile_get_zero_not own (head :: tail) (by simp [remaining])
        simpa [remaining, own] using stops
      rw [remaining] at parts
      generalize (head :: tail).takeWhile own = front at parts alike
      have nonempty : front ≠ [] := by
        rintro rfl
        exact different (congrArg MdEntry.securityId (List.cons.inj parts).1)
      refine ⟨front, other, rest, parts.symm, nonempty, ?_, ?_⟩
      · have before : ofSecurity front other.securityId = [] :=
          List.filter_eq_nil_iff.mpr (fun entry member => by
            simpa [alike entry member] using fun equal => different equal.symm)
        have counted := numbered other.securityId
        rw [← parts] at counted
        simp only [ofSecurity] at before counted
        rw [List.filter_append, before, List.nil_append, List.filter_cons_of_pos (by simp),
          List.map_cons, List.length_cons, List.range'_succ] at counted
        exact (List.cons.inj counted).1
      · have whole : ofSecurity front head.securityId = front :=
          List.filter_eq_self.mpr (fun entry member => by simpa using alike entry member)
        have counted := numbered head.securityId
        rw [← parts] at counted
        simp only [ofSecurity] at whole counted
        rw [List.filter_append, whole, List.map_append, List.length_append,
          ← List.range'_append_1] at counted
        exact (List.append_inj counted (by simp)).1

/-- Events with the numbers of numbered entries: the parser's second way to a sequence, by
packet number, is not taken. -/
structure Carries (entries : List MdEntry) (events : List BookEvent) : Prop where
  venue : ∀ ev ∈ events, ev.venue = .cme
  sequences : events.map BookEvent.seq = entries.map fun entry => entry.rptSeq.toNat

theorem GroupEntry.stamp_numbered {placed : GroupEntry} (positive : 1 ≤ placed.entry.rptSeq.toNat) :
    placed.stamp = (.cme, placed.entry.rptSeq.toUInt64) := by
  have nonzero : placed.entry.rptSeq ≠ 0 := by
    intro zero
    rw [zero] at positive
    exact absurd positive (by decide)
  simp only [GroupEntry.stamp, GroupEntry.sequence, entrySequence, if_pos nonzero]

theorem Numbered.carries (numbered : Numbered (arrivals packets)) (stats : ParseStats) :
    Carries (arrivals packets) (parsePackets packets stats).1 := by
  have stamps : (parsePackets packets stats).1.map stamp =
      (arrivals packets).map fun entry => (Venue.cme, entry.rptSeq.toUInt64) := by
    rw [parsePackets_stamps, arrivals, ← List.map_flatMap, List.map_map]
    apply List.map_congr_left
    intro placed member
    apply GroupEntry.stamp_numbered
    apply numbered.positive
    rw [arrivals, ← List.map_flatMap]
    exact List.mem_map_of_mem member
  constructor
  · intro ev member
    have stamped : stamp ev ∈ (parsePackets packets stats).1.map stamp :=
      List.mem_map_of_mem member
    rw [stamps] at stamped
    obtain ⟨entry, _, same⟩ := List.mem_map.mp stamped
    exact (congrArg Prod.fst same).symm
  · have sequences := congrArg (List.map fun pair : Venue × UInt64 => pair.2.toNat) stamps
    rw [List.map_map, List.map_map] at sequences
    exact sequences

theorem Carries.nodup_iff {events : List BookEvent} (carries : Carries entries events) :
    (events.map BookEvent.sequence).Nodup ↔
      (entries.map (fun entry => entry.rptSeq.toNat)).Nodup := by
  have values : events.map BookEvent.seq = (events.map BookEvent.sequence).map UInt64.toNat := by
    rw [List.map_map]
    rfl
  rw [← carries.sequences, values,
    List.nodup_map_iff (f := UInt64.toNat) (fun _ _ => UInt64.toNat_inj.mp)]

theorem Carries.drops_none_iff {events : List BookEvent} (carries : Carries entries events)
    (numbered : Numbered entries) (gapWindow capacity : Nat) :
    (Pipeline.run gapWindow capacity events).stats.droppedDuplicateOrOld = 0 ↔
      OneSecurity entries := by
  have lengths : events.length = entries.length := by
    simpa using congrArg List.length carries.sequences
  constructor
  · intro none
    by_contra several
    obtain ⟨front, other, rest, parts, nonempty, one, counted⟩ := numbered.split several
    have sequences := carries.sequences
    rw [parts, List.map_append, List.map_cons] at sequences
    obtain ⟨before, after, whole, frontSeqs, restSeqs⟩ := List.map_eq_append_iff.mp sequences
    obtain ⟨ev, later, rfl, evSeq, -⟩ := List.map_eq_cons_iff.mp restSeqs
    have venue : ∀ e ∈ before, e.venue = .cme :=
      fun e member => carries.venue e (by simp [whole, member])
    have here : ev.venue = .cme := carries.venue ev (by simp [whole])
    have frontLength : before.length = front.length := by
      simpa using congrArg List.length frontSeqs
    have own : DeterministicMerger.ofVenue before ev.venue = before :=
      List.filter_eq_self.mpr (fun e member => by simp [venue e member, here])
    have ordered : before.map BookEvent.seq = List.range' 1 before.length := by
      rw [frontSeqs, counted, frontLength]
    -- the front's last number is a 32-bit one, so the sequencer has not wrapped
    have small : before.length + 1 < wordSize := by
      have positive : 0 < front.length := List.length_pos_iff.mpr nonempty
      have last : front.length ∈ front.map (fun entry => entry.rptSeq.toNat) := by
        rw [counted, List.mem_range'_1]
        omega
      obtain ⟨entry, -, value⟩ := List.mem_map.mp last
      have bound := entry.rptSeq.toNat_lt
      simp only [wordSize]
      omega
    rw [whole] at none
    refine Pipeline.run_drops gapWindow capacity (Pipeline.follows_of_one_venue venue ordered)
      ?_ ?_ none
    · have positive : 0 < front.length := List.length_pos_iff.mpr nonempty
      rw [own, evSeq, one]
      omega
    · rwa [own]
  · intro single
    have ordered : events.map BookEvent.seq = List.range' 1 events.length := by
      rw [carries.sequences, single.counted numbered, lengths]
    exact (Pipeline.run_inStep gapWindow capacity
      (Pipeline.follows_of_one_venue carries.venue ordered)).stats.duplicates

/-- Numbered entries are kept apart by their sequences, and none of them is dropped by a
pipeline, exactly when they are all of one instrument. -/
theorem entries_kept_iff (gapWindow capacity : Nat) (stats : ParseStats)
    (numbered : Numbered (arrivals packets)) :
    (((parsePackets packets stats).1.map BookEvent.sequence).Nodup ↔
      OneSecurity (arrivals packets)) ∧
    ((Pipeline.run gapWindow capacity (parsePackets packets stats).1).stats.droppedDuplicateOrOld
        = 0 ↔ OneSecurity (arrivals packets)) :=
  have carries := numbered.carries stats
  ⟨carries.nodup_iff.trans numbered.nodup_iff, carries.drops_none_iff numbered gapWindow capacity⟩

/-- A packet with one incremental refresh; its entries are bids given by their instrument
and number. -/
def bidPacket (bids : List (Nat × Nat)) : List UInt8 :=
  LittleEndian.toBytes 4 1 ++ LittleEndian.toBytes 8 7 ++
  LittleEndian.toBytes 2 (24 + 32 * bids.length) ++ LittleEndian.toBytes 2 11 ++
  LittleEndian.toBytes 2 32 ++ LittleEndian.toBytes 2 1 ++ LittleEndian.toBytes 2 9 ++
  List.replicate 11 0 ++ LittleEndian.toBytes 2 32 ++ LittleEndian.toBytes 1 bids.length ++
  bids.flatMap fun bid =>
    List.replicate 12 0 ++ LittleEndian.toBytes 4 bid.1 ++ LittleEndian.toBytes 4 bid.2 ++
      List.replicate 6 0 ++ ['0'.toUInt8] ++ List.replicate 5 0

theorem entries_kept_iff_two_bids :
    Numbered (arrivals [(bidPacket [(5, 1), (5, 2)], 3)]) ∧
    ((Pipeline.run 16 64
        (parsePackets [(bidPacket [(5, 1), (5, 2)], 3)] {}).1).stats.droppedDuplicateOrOld = 0 ↔
      OneSecurity (arrivals [(bidPacket [(5, 1), (5, 2)], 3)])) :=
  have numbered : Numbered (arrivals [(bidPacket [(5, 1), (5, 2)], 3)]) := by decide +kernel
  ⟨numbered, (entries_kept_iff 16 64 {} numbered).2⟩

/-- The first entries of two instruments: both have sequence 1, and the second is dropped. -/
theorem two_instruments_collide :
    Numbered (arrivals [(bidPacket [(5, 1), (6, 1)], 3)]) ∧
    (arrivals [(bidPacket [(5, 1), (6, 1)], 3)]).length = 2 ∧
    (parsePackets [(bidPacket [(5, 1), (6, 1)], 3)] {}).1.map BookEvent.sequence = [1, 1] ∧
    (Pipeline.run 16 64
      (parsePackets [(bidPacket [(5, 1), (6, 1)], 3)] {}).1).stats.droppedDuplicateOrOld = 1 := by
  decide +kernel

end Mdp3
end FeedHandler
