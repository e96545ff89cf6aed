import FeedHandler.Phase2.LossyFeed
import FeedHandler.Proto.IexCapture

/-! The merge of a day of recorded feeds: a framed Nasdaq file, a capture of the IEX feed and a
framed Cboe file, if there is one, are read one after another into one pipeline, which is then
finalized. -/
namespace FeedHandler

open DeterministicMerger (ofVenue)

structure FeedFile where
  path : String
  content : Option (List UInt8)

/-- More than 95 of 100 bytes of the front are printable, which the code asks of a quotient. -/
def looksLikeTextCsv (file : FeedFile) : Bool :=
  match file.content with
  | none => false
  | some bytes =>
    let buf := bytes.take 4096
    let printable := buf.countP fun b => (32 ≤ b && b ≤ 126) || b = 10 || b = 13 || b = 9
    buf ≠ [] && 95 * buf.length < 100 * printable && 10 < buf.count ','.toUInt8 &&
      5 < buf.count '\n'.toUInt8

def runFramedFilePhase2 {Stats : Type} (parser : MessageParser Stats) (clock : Nat → UInt64)
    (venueName : String) (file : FeedFile) (pipeline : Pipeline) :
    Except String (FeedRun Stats Pipeline) :=
  readFramed parser clock Pipeline.onEvent venueName file.path file.content pipeline

def runIexPcapFilePhase2 (clock : Nat → UInt64) (file : FeedFile) (pipeline : Pipeline) :
    Except String (Option (FeedRun IexDeep.ParseStats Pipeline)) :=
  IexPcap.validate false clock Pipeline.onEvent file.path file.content pipeline

/-- What is printed of a run, and the events that the pipeline has merged. -/
structure MergedFeeds where
  nasdaq : RunSummary
  nasdaqStats : ParseStats
  iex : RunSummary
  iexStats : IexDeep.ParseStats
  cboe : Option (RunSummary × ParseStats)
  phase2 : PipelineStats
  merged : List BookEvent

/-- The mode `--phase2-merge`. -/
def phase2Merge (clock : Venue → Nat → UInt64) (nasdaq iex : FeedFile) (cboe : Option FeedFile) :
    Except String (Option MergedFeeds) := do
  if looksLikeTextCsv nasdaq then
    throw "nasdaq input appears to be text/CSV, expected framed binary wire messages"
  if looksLikeTextCsv iex then
    throw "iex input appears to be text/CSV, expected pcap-derived binary"
  if cboe.any looksLikeTextCsv then
    throw "cboe input appears to be text/CSV, expected framed binary wire messages"
  let nasdaqRun ← runFramedFilePhase2 itch50Parser (clock .nasdaq) "nasdaq" nasdaq
    (.create 256 (2 ^ 20))
  match ← runIexPcapFilePhase2 (clock .iex) iex nasdaqRun.out with
  | none => pure none
  | some iexRun =>
    let merge (pipeline : Pipeline) (cboe : Option (RunSummary × ParseStats)) : MergedFeeds := {
      nasdaq := nasdaqRun.summary
      nasdaqStats := nasdaqRun.stats
      iex := iexRun.summary
      iexStats := iexRun.stats
      cboe := cboe
      phase2 := pipeline.finalize.1.stats
      merged := pipeline.finalize.2 }
    match cboe with
    | none => pure (some (merge iexRun.out none))
    | some file =>
      let cboeRun ← runFramedFilePhase2 pitchParser (clock .cboe) "cboe" file iexRun.out
      pure (some (merge cboeRun.out (some (cboeRun.summary, cboeRun.stats))))

/-- The messages of a framed file. -/
def FramedMessages (bytes : List UInt8) (msgs : List (List UInt8)) : Prop :=
  ∃ bodies rest, LengthPrefixed.Splits 2 bytes bodies rest ∧
    msgs = bodies.filter fun body => body ≠ []

/-- The messages of a capture. -/
def CapturedMessages (bytes : List UInt8) (msgs : List (List UInt8)) : Prop :=
  ∃ records rest, HeadedRecords.Splits IexPcap.recordLayout (bytes.drop 24) records rest ∧
    msgs = IexPcap.allHeld records

/-- The events of a venue's messages, which are numbered from 1 on. -/
def venueEvents (clock : Venue → Nat → UInt64) (msgs : Venue → List (List UInt8)) :
    Venue → List BookEvent
  | .nasdaq => itch50Parser.events (clock .nasdaq) 1 (msgs .nasdaq)
  | .iex => deepParser.events (clock .iex) 1 (msgs .iex)
  | .cboe => pitchParser.events (clock .cboe) 1 (msgs .cboe)
  | _ => []

namespace Pipeline

variable {p : Pipeline} {ev : BookEvent} {v : Venue}

theorem releasePending_mergedCrc (count seq : Nat) (v : Venue) (p : Pipeline) :
    (releasePending count seq v p).stats.mergedCrc = p.stats.mergedCrc := by
  induction count generalizing seq p with
  | zero => rfl
  | succ count ih =>
    simp only [releasePending]
    cases (p.pendingByVenue v).find? seq with
    | none => exact ih _ _
    | some e => exact ih _ _

theorem processEvent_mergedCrc (p : Pipeline) (ev : BookEvent) :
    (p.processEvent ev).stats.mergedCrc = p.stats.mergedCrc := by
  rcases (p.tracker ev.venue).position ev.seq with old | ⟨same, positive⟩ | far | ⟨ahead, near⟩
  · rw [processEvent_old old]
  · rw [processEvent_inOrder same positive, evictStore_stats, releasePending_mergedCrc]
    rfl
  · rw [processEvent_tooLarge far, evictStore_stats]
  · rw [processEvent_buffered ahead near]

theorem foldl_mergedCrc {step : Pipeline → BookEvent → Pipeline}
    (keeps : ∀ p ev, (step p ev).stats.mergedCrc = p.stats.mergedCrc) (events : List BookEvent)
    (p : Pipeline) : (events.foldl step p).stats.mergedCrc = p.stats.mergedCrc := by
  induction events generalizing p with
  | nil => rfl
  | cons ev rest ih => exact (ih _).trans (keeps p ev)

theorem reinject_mergedCrc (p : Pipeline) (r : BookEvent) :
    (p.reinject r).stats.mergedCrc = p.stats.mergedCrc := by
  simp only [Pipeline.reinject]
  split
  · rfl
  · exact processEvent_mergedCrc p r

theorem onEvent_mergedCrc (p : Pipeline) (ev : BookEvent) :
    (p.onEvent ev).stats.mergedCrc = p.stats.mergedCrc :=
  (foldl_mergedCrc reinject_mergedCrc _ _).trans (processEvent_mergedCrc (p.record ev) ev)

/-- No event is folded into the checksum before the merge. -/
theorem run_mergedCrc (gapWindow capacity : Nat) (events : List BookEvent) :
    (run gapWindow capacity events).stats.mergedCrc = 0 :=
  foldl_mergedCrc onEvent_mergedCrc events _

end Pipeline

/-- What a summary says of messages and of their events. -/
structure RunSummary.Counts (summary : RunSummary) (msgs : List (List UInt8))
    (events : List BookEvent) : Prop where
  frames : summary.frames = msgs.length
  parsed : summary.parsed = events.length
  crc : summary.crc = events.foldl updateCrcFromBookEvent 0

section Readers

variable {Stats : Type} {bytes : List UInt8} {msgs : List (List UInt8)} {file : FeedFile}

/-- The reader without a pipeline comes to this summary and these statistics. -/
def ReadAlone (parser : MessageParser Stats) (clock : Nat → UInt64) (venueName : String)
    (file : FeedFile) (summary : RunSummary) (stats : Stats) : Prop :=
  ∃ run, runFramedFile parser clock venueName file.path file.content = .ok run ∧
    run.summary = summary ∧ run.stats = stats

theorem framed_run (parser : MessageParser Stats) (clock : Nat → UInt64) (venueName : String)
    (content : file.content = some bytes) (framed : FramedMessages bytes msgs)
    (pipeline : Pipeline) :
    ∃ run, runFramedFilePhase2 parser clock venueName file pipeline = .ok run ∧
      run.summary.Counts msgs (parser.events clock 1 msgs) ∧
      run.out = (parser.events clock 1 msgs).foldl Pipeline.onEvent pipeline ∧
      ReadAlone parser clock venueName file run.summary run.stats := by
  obtain ⟨bodies, rest, split, rfl⟩ := framed
  rw [runFramedFilePhase2, content, readFramed]
  have enough := Nat.lt_succ_of_le (split.length_le Nat.two_pos)
  refine ⟨_, rfl, ?_⟩
  rw [FeedRun.framed_eq split enough]
  refine ⟨⟨Nat.zero_add _, Nat.zero_add _, rfl⟩, rfl, ?_⟩
  rw [ReadAlone, runFramedFile, content, readFramed, FeedRun.framed_eq split enough]
  exact ⟨_, rfl, rfl, rfl⟩

theorem captured_run (clock : Nat → UInt64) (content : file.content = some bytes)
    (held : CapturedMessages bytes msgs) (long : 24 ≤ bytes.length)
    (magic : IexPcap.accepted bytes = true) (pipeline : Pipeline) :
    ∃ run, runIexPcapFilePhase2 clock file pipeline = .ok (some run) ∧
      run.summary.Counts msgs (deepParser.events clock 1 msgs) ∧
      run.out = (deepParser.events clock 1 msgs).foldl Pipeline.onEvent pipeline := by
  obtain ⟨records, rest, split, rfl⟩ := held
  rw [runIexPcapFilePhase2, content]
  exact ⟨_, IexPcap.validate_eq false clock Pipeline.onEvent file.path split long magic pipeline,
    ⟨rfl, rfl, rfl⟩, rfl⟩

end Readers

section Venues

variable (clock : Venue → Nat → UInt64) {msgs : Venue → List (List UInt8)} {v : Venue}

/-- The events of the three files, in the order of the files. -/
def allEvents (clock : Venue → Nat → UInt64) (msgs : Venue → List (List UInt8)) :
    List BookEvent :=
  venueEvents clock msgs .nasdaq ++ (venueEvents clock msgs .iex ++ venueEvents clock msgs .cboe)

variable (few : ∀ v, (msgs v).length < 2 ^ 64 - 2)

include few

theorem mem_venueEvents {ev : BookEvent} (member : ev ∈ venueEvents clock msgs v) :
    ev.venue = v ∧ 1 ≤ ev.seq ∧ ev.seq < 2 ^ 64 - 1 := by
  have room := few v
  cases v with
  | nasdaq =>
    obtain ⟨venue, low, high⟩ := itch50Parser.mem_events member (by omega)
    exact ⟨venue, low, by omega⟩
  | iex =>
    obtain ⟨venue, low, high⟩ := deepParser.mem_events member (by omega)
    exact ⟨venue, low, by omega⟩
  | cboe =>
    obtain ⟨venue, low, high⟩ := pitchParser.mem_events member (by omega)
    exact ⟨venue, low, by omega⟩
  | _ => exact absurd member List.not_mem_nil

theorem venueEvents_increasing :
    ((venueEvents clock msgs v).map BookEvent.seq).Pairwise (· < ·) := by
  have room := few v
  cases v with
  | nasdaq => exact itch50Parser.events_increasing (by omega)
  | iex => exact deepParser.events_increasing (by omega)
  | cboe => exact pitchParser.events_increasing (by omega)
  | _ => exact List.Pairwise.nil

theorem venueEvents_counted (all : (venueEvents clock msgs v).length = (msgs v).length) :
    (venueEvents clock msgs v).map BookEvent.seq = List.range' 1 (msgs v).length := by
  have room := few v
  cases v with
  | nasdaq => exact itch50Parser.events_counted (by omega) all
  | iex => exact deepParser.events_counted (by omega) all
  | cboe => exact pitchParser.events_counted (by omega) all
  | cme => exact congrArg (List.range' 1) all
  | bitfinex => exact congrArg (List.range' 1) all

theorem ofVenue_venueEvents (w v : Venue) : ofVenue (venueEvents clock msgs w) v =
    if w = v then venueEvents clock msgs w else [] := by
  split
  · next same =>
    exact List.filter_eq_self.mpr fun ev member =>
      decide_eq_true ((mem_venueEvents clock few member).1.trans same)
  · next other =>
    exact List.filter_eq_nil_iff.mpr fun ev member same =>
      other ((mem_venueEvents clock few member).1.symm.trans (of_decide_eq_true same))

theorem ofVenue_allEvents (v : Venue) :
    ofVenue (allEvents clock msgs) v = venueEvents clock msgs v := by
  have parts := ofVenue_venueEvents clock few
  simp only [ofVenue] at parts ⊢
  rw [allEvents, List.filter_append, List.filter_append, parts, parts, parts]
  cases v <;> simp [venueEvents]

/-- What the pipeline has published of a venue after the three files. -/
theorem published_allEvents (v : Venue) :
    (Pipeline.run 256 (2 ^ 20) (allEvents clock msgs)).published v =
      (LossyFeed.receive 256 (venueEvents clock msgs v)).published := by
  have own := ofVenue_allEvents clock few v
  have followed := @Pipeline.published_received 256 (2 ^ 20) (allEvents clock msgs) v (by decide)
    ?_ ?_
  · rw [followed, own]
  · intro ev member
    simp only [allEvents, List.mem_append] at member
    rcases member with here | here | here <;>
      exact (mem_venueEvents clock few here).2.2
  · rw [own, List.pairwise_cons]
    refine ⟨fun seq listed => ?_, venueEvents_increasing clock few⟩
    obtain ⟨ev, member, rfl⟩ := List.mem_map.mp listed
    exact (mem_venueEvents clock few member).2.1

end Venues

/-- The files that are given can be opened, are not text and hold these messages. -/
structure FeedInputs (nasdaq iex : FeedFile) (cboe : Option FeedFile)
    (msgs : Venue → List (List UInt8)) : Prop where
  nasdaqMessages : ∃ bytes, nasdaq.content = some bytes ∧ FramedMessages bytes (msgs .nasdaq)
  iexMessages : ∃ bytes, iex.content = some bytes ∧ 24 ≤ bytes.length ∧
    IexPcap.accepted bytes = true ∧ CapturedMessages bytes (msgs .iex)
  cboeMessages : ∀ file ∈ cboe,
    ∃ bytes, file.content = some bytes ∧ FramedMessages bytes (msgs .cboe)
  absent : cboe = none → msgs .cboe = []
  binary : ∀ file ∈ nasdaq :: iex :: cboe.toList, looksLikeTextCsv file = false

/-- What the run over these files leaves. -/
structure MergedFeeds.Exact (m : MergedFeeds) (clock : Venue → Nat → UInt64)
    (msgs : Venue → List (List UInt8)) : Prop where
  nasdaq : m.nasdaq.Counts (msgs .nasdaq) (venueEvents clock msgs .nasdaq)
  iex : m.iex.Counts (msgs .iex) (venueEvents clock msgs .iex)
  cboe : ∀ summary ∈ m.cboe, summary.1.Counts (msgs .cboe) (venueEvents clock msgs .cboe)
  merges : KWayMerge.Merges DeterministicMerger.Less
    (fun v => (LossyFeed.receive 256 (venueEvents clock msgs v)).published) m.merged
  crc : m.phase2.mergedCrc = m.merged.foldl updateCrcFromBookEvent 0

/-- The framed files are summed up as the readers without a pipeline do. -/
structure MergedFeeds.Alone (m : MergedFeeds) (clock : Venue → Nat → UInt64) (nasdaq : FeedFile)
    (cboe : Option FeedFile) : Prop where
  nasdaq : ReadAlone itch50Parser (clock .nasdaq) "nasdaq" nasdaq m.nasdaq m.nasdaqStats
  cboe : ∀ file ∈ cboe, ∃ summary ∈ m.cboe,
    ReadAlone pitchParser (clock .cboe) "cboe" file summary.1 summary.2

theorem finalized {clock : Venue → Nat → UInt64} {msgs : Venue → List (List UInt8)}
    (few : ∀ v, (msgs v).length < 2 ^ 64 - 2) :
    let p := Pipeline.run 256 (2 ^ 20) (allEvents clock msgs)
    KWayMerge.Merges DeterministicMerger.Less
        (fun v => (LossyFeed.receive 256 (venueEvents clock msgs v)).published) p.finalize.2 ∧
      p.finalize.1.stats.mergedCrc = p.finalize.2.foldl updateCrcFromBookEvent 0 := by
  intro p
  constructor
  · have merges := (DeterministicMerger.drainAll_merges p.merger).1
    have queues : p.merger.queues =
        fun v => (LossyFeed.receive 256 (venueEvents clock msgs v)).published :=
      funext (published_allEvents clock few)
    rwa [queues] at merges
  · simp only [Pipeline.finalize]
    rw [Pipeline.run_mergedCrc]

section Merge

variable {clock : Venue → Nat → UInt64} {nasdaq iex : FeedFile} {cboe : Option FeedFile}
  {msgs : Venue → List (List UInt8)}

/-- The pipeline has been fed all events, in the order of the files. -/
theorem FeedInputs.merged (inputs : FeedInputs nasdaq iex cboe msgs)
    (few : ∀ v, (msgs v).length < 2 ^ 64 - 2) :
    ∃ m, phase2Merge clock nasdaq iex cboe = .ok (some m) ∧ m.Exact clock msgs ∧
      m.Alone clock nasdaq cboe := by
  obtain ⟨nasdaqBytes, nasdaqContent, framed⟩ := inputs.nasdaqMessages
  obtain ⟨iexBytes, iexContent, long, magic, held⟩ := inputs.iexMessages
  obtain ⟨nasdaqRun, nasdaqRead, nasdaqCounts, nasdaqOut, nasdaqAlone⟩ :=
    framed_run itch50Parser (clock .nasdaq) "nasdaq" nasdaqContent framed (.create 256 (2 ^ 20))
  obtain ⟨iexRun, iexRead, iexCounts, iexOut⟩ :=
    captured_run (clock .iex) iexContent held long magic nasdaqRun.out
  have nasdaqBinary := inputs.binary nasdaq List.mem_cons_self
  have iexBinary := inputs.binary iex (List.mem_cons_of_mem nasdaq List.mem_cons_self)
  obtain ⟨merges, crc⟩ := @finalized clock msgs few
  cases cboe with
  | none =>
    have fed : iexRun.out = .run 256 (2 ^ 20) (allEvents clock msgs) := by
      have nothing : venueEvents clock msgs .cboe = [] :=
        congrArg (pitchParser.events (clock .cboe) 1) (inputs.absent rfl)
      rw [iexOut, nasdaqOut, ← List.foldl_append, allEvents, nothing, List.append_nil]
      rfl
    simp only [phase2Merge, nasdaqBinary, iexBinary, nasdaqRead, iexRead, Option.any_none,
      Bool.false_eq_true, if_false, bind, pure, Except.bind, Except.pure]
    refine ⟨_, rfl, ⟨nasdaqCounts, iexCounts, fun _ none => absurd none (by simp), ?_, ?_⟩,
      nasdaqAlone, fun _ none => absurd none (by simp)⟩
    · exact fed ▸ merges
    · exact fed ▸ crc
  | some file =>
    obtain ⟨cboeBytes, cboeContent, cboeFramed⟩ := inputs.cboeMessages file rfl
    obtain ⟨cboeRun, cboeRead, cboeCounts, cboeOut, cboeAlone⟩ :=
      framed_run pitchParser (clock .cboe) "cboe" cboeContent cboeFramed iexRun.out
    have cboeBinary := inputs.binary file (by simp)
    have fed : cboeRun.out = .run 256 (2 ^ 20) (allEvents clock msgs) := by
      rw [cboeOut, iexOut, nasdaqOut, ← List.foldl_append, ← List.foldl_append]
      rfl
    simp only [phase2Merge, nasdaqBinary, iexBinary, cboeBinary, nasdaqRead, iexRead, cboeRead,
      Option.any_some, Bool.false_eq_true, if_false, bind, pure, Except.bind, Except.pure]
    refine ⟨_, rfl, ⟨nasdaqCounts, iexCounts, ?_, ?_, ?_⟩, nasdaqAlone, ?_⟩
    · rintro summary ⟨⟩
      exact cboeCounts
    · exact fed ▸ merges
    · exact fed ▸ crc
    · rintro other ⟨⟩
      exact ⟨_, rfl, cboeAlone⟩

end Merge

/-- The merge of recorded feeds: the merged stream is the merge of what each venue's events leave
of themselves in a window of 256, where a message without an event counts as one that is lost,
and the checksum is that of the stream. A venue whose messages all have an event is merged whole;
if one message has none, the 256 events behind it are missing, or all if no two are left. The
summaries of the framed files are those of the readers without a pipeline. -/
theorem feeds_merged_exact (clock : Venue → Nat → UInt64) (nasdaq iex : FeedFile)
    (cboe : Option FeedFile) (msgs : Venue → List (List UInt8))
    (inputs : FeedInputs nasdaq iex cboe msgs) (few : ∀ v, (msgs v).length < 2 ^ 64 - 2) :
    (∃ m, phase2Merge clock nasdaq iex cboe = .ok (some m) ∧ m.Exact clock msgs ∧
        m.Alone clock nasdaq cboe) ∧
      ∀ v, let feed := venueEvents clock msgs v
        let left := (LossyFeed.receive 256 feed).published
        (feed.length = (msgs v).length → left = feed) ∧
          ∀ k n, feed.map BookEvent.seq = List.range' 1 k ++ List.range' (k + 2) n →
            left = feed.take k ++ if n ≤ 257 then [] else feed.drop (k + 256) := by
  refine ⟨inputs.merged few, fun v => ?_⟩
  intro feed left
  have lost := fun k n => @LossyFeed.receive_one_lost 256 feed (by decide) k n
  refine ⟨fun all => ?_, lost⟩
  -- Nothing lies behind a message that is lost.
  have whole := lost (msgs v).length 0 (by
    rw [venueEvents_counted clock few all]
    exact (List.append_nil _).symm)
  rw [← all, List.take_length] at whole
  exact whole.trans (List.append_nil feed)

/-- A system event, an empty message and a length with nothing behind it. -/
def systemEventFile : FeedFile where
  path := "itch.bin"
  content := some (LengthPrefixed.encode 2 ('S'.toUInt8 :: List.replicate 11 0) ++
    LengthPrefixed.encode 2 [] ++ [0, 9])

/-- A packet with one message, and the front of another record. -/
def deleteFile : FeedFile where
  path := "day.pcap"
  content := some (IexPcap.captureHeader ++ (IexPcap.deleteRecord.bytes ++ [1, 2, 3]))

theorem captured_delete :
    CapturedMessages (IexPcap.captureHeader ++ (IexPcap.deleteRecord.bytes ++ [1, 2, 3]))
      [IexPcap.deleteSeven.encode] := by
  refine ⟨[IexPcap.deleteRecord.record], [1, 2, 3], ?_,
    (IexPcap.allHeld_records [IexPcap.deleteRecord]).symm⟩
  rw [List.drop_left' (by simp [IexPcap.captureHeader])]
  exact .record IexPcap.deleteRecord.record (.stuck (.inl (by decide)))

theorem feeds_merged_exact_delete :
    let clock : Venue → Nat → UInt64 := fun _ _ => 5
    let msgs : Venue → List (List UInt8)
      | .nasdaq => ['S'.toUInt8 :: List.replicate 11 0]
      | .iex => [IexPcap.deleteSeven.encode]
      | _ => []
    (∃ m, phase2Merge clock systemEventFile deleteFile none = .ok (some m) ∧
        m.Exact clock msgs ∧ m.Alone clock systemEventFile none) ∧
      ∀ v, let feed := venueEvents clock msgs v
        let left := (LossyFeed.receive 256 feed).published
        (feed.length = (msgs v).length → left = feed) ∧
          ∀ k n, feed.map BookEvent.seq = List.range' 1 k ++ List.range' (k + 2) n →
            left = feed.take k ++ if n ≤ 257 then [] else feed.drop (k + 256) :=
  feeds_merged_exact _ systemEventFile deleteFile none _
    { nasdaqMessages := ⟨_, rfl, ['S'.toUInt8 :: List.replicate 11 0, []], [0, 9],
        ⟨by decide, by decide, .inr (by decide)⟩, by decide⟩
      iexMessages := ⟨_, rfl, by simp [IexPcap.captureHeader], by decide,
        captured_delete⟩
      cboeMessages := fun file given => absurd given (by simp)
      absent := fun _ => rfl
      binary := by decide +kernel }
    fun v => by cases v <;> decide

end FeedHandler
