import FeedHandler.Core.Types
import Mathlib.Data.List.Nodup

/-! The events a venue sends: one per sequence, from 1 on. Arrival runs are
compared with it. -/
namespace FeedHandler

variable {v : Venue} {ev : BookEvent} {feed past : List BookEvent}

/-- A venue's feed: its own events, with the sequences from 1 on in order. -/
structure IsFeed (v : Venue) (feed : List BookEvent) : Prop where
  venue : ∀ e ∈ feed, e.venue = v
  seqs : feed.map BookEvent.seq = List.range' 1 feed.length

theorem IsFeed.seq_bounds (isFeed : IsFeed v feed) (member : ev ∈ feed) :
    1 ≤ ev.seq ∧ ev.seq ≤ feed.length := by
  have inRange : ev.seq ∈ List.range' 1 feed.length := isFeed.seqs ▸ List.mem_map_of_mem member
  have := List.mem_range'_1.mp inRange
  omega

theorem IsFeed.exists_seq (isFeed : IsFeed v feed) {k : Nat} (positive : 1 ≤ k)
    (bound : k ≤ feed.length) : ∃ e ∈ feed, e.seq = k := by
  have member : k ∈ feed.map BookEvent.seq := by
    rw [isFeed.seqs, List.mem_range'_1]
    omega
  exact List.mem_map.mp member

theorem IsFeed.seq_inj (isFeed : IsFeed v feed) {a b : BookEvent} (left : a ∈ feed)
    (right : b ∈ feed) (same : a.seq = b.seq) : a = b := by
  have distinct : (feed.map BookEvent.seq).Nodup := by
    rw [isFeed.seqs]
    exact List.nodup_range'
  exact List.inj_on_of_nodup_map distinct left right same

theorem IsFeed.getElem?_seq (isFeed : IsFeed v feed) (member : ev ∈ feed) :
    feed[ev.seq - 1]? = some ev := by
  obtain ⟨i, inside, rfl⟩ := List.getElem_of_mem member
  have here := congrArg (fun keys => keys[i]?) isFeed.seqs
  simp only [List.getElem?_map, List.getElem?_eq_getElem inside, Option.map_some,
    List.getElem?_range' inside, Option.some.injEq] at here
  rw [here, Nat.one_mul, Nat.add_sub_cancel_left, List.getElem?_eq_getElem inside]

/-- Events drawn from a feed with the sequences of the feed are the feed. -/
theorem IsFeed.eq_of_seqs (isFeed : IsFeed v feed) {drawn : List BookEvent}
    (subset : ∀ e ∈ drawn, e ∈ feed) (seqs : drawn.map BookEvent.seq = feed.map BookEvent.seq) :
    drawn = feed := by
  have lengths : drawn.length = feed.length := by
    simpa only [List.length_map] using congrArg List.length seqs
  apply List.ext_getElem lengths
  intro i left right
  apply isFeed.seq_inj (subset _ (List.getElem_mem left)) (List.getElem_mem right)
  have here := congrArg (fun keys => keys[i]?) seqs
  simpa only [List.getElem?_map, List.getElem?_eq_getElem left, List.getElem?_eq_getElem right,
    Option.map_some, Option.some.injEq] using here

theorem IsFeed.initial (isFeed : IsFeed v feed) {front : List BookEvent}
    (initial : front <+: feed) : IsFeed v front := by
  obtain ⟨rest, rfl⟩ := initial
  refine ⟨fun e member => isFeed.venue e (List.mem_append_left _ member), ?_⟩
  have seqs := congrArg (List.take front.length) isFeed.seqs
  rw [List.map_append, List.take_append_of_le_length (by simp), List.take_of_length_le (by simp),
    List.length_append, ← List.range'_append_1, List.take_left' List.length_range'] at seqs
  exact seqs

/-- In a feed, an event comes right after those with smaller sequences. -/
theorem IsFeed.last_seq {front : List BookEvent} (isFeed : IsFeed v (front ++ [ev])) :
    ev.seq = front.length + 1 := by
  have seqs := congrArg List.getLast? isFeed.seqs
  simpa [List.getLast?_range', Nat.add_comm] using seqs

theorem IsFeed.mem_seqs_filter {k : Nat}
    (mine : IsFeed v (past.filter (fun e => e.venue = v))) :
    (∃ e ∈ past, e.venue = v ∧ e.seq = k) ↔
      1 ≤ k ∧ k ≤ (past.filter (fun e => e.venue = v)).length := by
  constructor
  · rintro ⟨e, member, venue, rfl⟩
    exact mine.seq_bounds (List.mem_filter.mpr ⟨member, by simpa using venue⟩)
  · rintro ⟨low, high⟩
    obtain ⟨e, member, here⟩ := mine.exists_seq low high
    exact ⟨e, (List.mem_filter.mp member).1, mine.venue e member, here⟩

end FeedHandler
