import FeedHandler.Service.TickStream

/-! From the capture of events to the answers of the replay service: a book journal is recorded,
the tool makes the journal of quotes from it, and the service loads both. -/
namespace FeedHandler

open AppendFile
open LimitedStream
open LittleEndian

namespace EventObject

theorem symbolU64_image (o : EventObject) : o.image.symbolU64 = o.event.symbol.asU64 := by
  simp only [EventImage.symbolU64, image, bytes, BigEndian.sliceAt_append, BigEndian.sliceAt_here,
    length_word64, Vector.length_toList, List.length_singleton, Nat.reduceLeDiff, Nat.reduceSub,
    Nat.sub_self, le_refl]

theorem exchangeTsNs_image (o : EventObject) : o.image.exchangeTsNs = o.event.exchangeTsNs := by
  simp only [EventImage.exchangeTsNs, image, bytes, word64At_append, word64At_here, length_word64,
    Vector.length_toList, List.length_singleton, Nat.reduceLeDiff, Nat.reduceSub, Nat.sub_self,
    le_refl]

/-- The message made from an image is that of the event it holds. -/
theorem toProto_image (o : EventObject) : o.image.toProto = bookEventToProto o.event := by
  have mpid : (if (if o.event.mpid.isSome then (1 : UInt8) else 0) = 0 then none
      else some (o.event.mpid.getD o.padding.noMpid).toList) = o.event.mpid.map Vector.toList := by
    cases o.event.mpid <;> rfl
  simp only [EventImage.toProto, symbolU64_image, exchangeTsNs_image]
  simp only [image, bytes, BigEndian.getD_append, BigEndian.getD_here,
    BigEndian.sliceAt_append, BigEndian.sliceAt_here, word64At_append, word64At_here,
    word32At_append, word32At_here, length_word64, length_word32, Vector.length_toList,
    List.length_singleton, Nat.reduceLeDiff, Nat.reduceSub, Nat.sub_self, le_refl, mpid]
  rfl

end EventObject

theorem StreamTicksRequest.admitsImage_image (request : StreamTicksRequest) (o : EventObject) :
    request.admitsImage o.image = request.admits o.event := by
  rw [admitsImage, admits, o.symbolU64_image, o.exchangeTsNs_image]

theorem map_image_entriesFrom (seq : UInt64) (items : List (EventObject × UInt64)) :
    (entriesFrom seq items).map JournalEntry.image = items.map (·.1.image) := by
  induction items generalizing seq with
  | nil => rfl
  | cons item rest ih => simp [entriesFrom, ih]

/-- From a whole journal the service streams the appended events. -/
theorem StreamTicksRequest.streamTicks_whole (request : StreamTicksRequest) (client : Client)
    (items : List (EventObject × UInt64)) :
    request.streamTicks client (some (journalHeader ++ entriesBytes (entriesFrom 1 items))) =
      (.ok, (serve request.admits request.limit client 0 (items.map (·.1.event))).1.map
        bookEventToProto) := by
  have whole := (JournalReader.read_without_error
    (journalHeader ++ entriesBytes (entriesFrom 1 items))).mpr ⟨_, rfl⟩
  have entries : (JournalReader.readFile
      (some (journalHeader ++ entriesBytes (entriesFrom 1 items)))).entries = entriesFrom 1 items := by
    rw [JournalReader.readFile_whole]
  generalize file : journalHeader ++ entriesBytes (entriesFrom 1 items) = bytes at whole entries ⊢
  have opened : (JournalReader.openFile {} (some bytes)).2 = true := whole.1
  obtain ⟨served, _, handed, inside, error⟩ := request.ticks_serve client (bytes.length + 1) 0
    (JournalReader.openFile {} (some bytes)).1
  have final : (JournalReader.openFile {} (some bytes)).1.drain (bytes.length + 1) =
      ((JournalReader.readFile (some bytes)).entries,
        (JournalReader.readFile (some bytes)).reader) := rfl
  have clean : (request.ticks client (bytes.length + 1) 0
      (JournalReader.openFile {} (some bytes)).1).2.2.hadError = false := by
    rw [error, ← Bool.not_eq_true]
    intro raised
    have later := JournalReader.drain_hadError_mono inside raised
    rw [final, whole.2] at later
    cases later
  rw [final, entries, map_image_entriesFrom, serve_map] at served
  have written := (Prod.mk.inj served).1
  simp only [admitsImage_image] at written
  have filters : serve request.admits request.limit client 0 (items.map (·.1.event)) =
      ((serve (fun item => request.admits item.1.event) request.limit client 0 items).1.map
          (·.1.event),
        (serve (fun item => request.admits item.1.event) request.limit client 0 items).2) :=
    serve_map _ _ _ _ _ _
  simp only [streamTicks, opened, if_true, Option.getD_some, clean, Bool.false_eq_true, if_false,
    ite_self, written, filters, List.map_map, Function.comp_def, EventObject.toProto_image]

/-- A client that takes everything gets, without a limit, all that passes the filter. -/
theorem serve_taking {α : Type*} (admits : α → Bool) (xs : List α) :
    (serve admits 0 (fun _ => true) 0 xs).1 = xs.filter admits := by
  have served : Serves 0 (fun _ => true) 0 (xs.filter admits)
      (serve admits 0 (fun _ => true) 0 xs) :=
    serve_serves admits 0 _ (fun positive => absurd positive (by decide)) xs
  cases ending : (serve admits 0 (fun _ => true) 0 xs).2 with
  | refused => exact absurd (served.refused ending).1 (by simp)
  | limited => exact absurd (served.limited ending).1 (by decide)
  | exhausted => exact served.exhausted ending

/-- A query for a symbol streams all that a feed has recorded of it if the key of the feed is that
of the codec, and nothing if the live feed has a text to pad. -/
theorem recorded_symbol_found {D : Type*} [Binary64 D] (feed : SymbolFeed) (symbol : SymbolText)
    (carried : feed.Carries symbol.text) (items : List (EventObject × UInt64))
    (recorded : ∀ item ∈ items, feed.Records D symbol.text item.1.event) :
    StreamTicksRequest.streamTicks { symbol := symbol.text } (fun _ => true)
        (some (journalHeader ++ entriesBytes (entriesFrom 1 items))) =
      (.ok, if feed ≠ .bitfinex ∨ symbol.text.length = 8 then
          items.map fun item => bookEventToProto item.1.event
        else []) := by
  have named : symbol.text ≠ [] := List.ne_nil_of_length_pos symbol.nonempty
  have admitted : ∀ ev ∈ items.map (·.1.event),
      (StreamTicksRequest.admits { symbol := symbol.text } ev = true ↔
        feed ≠ .bitfinex ∨ symbol.text.length = 8) := by
    intro ev listed
    obtain ⟨item, member, rfl⟩ := List.mem_map.mp listed
    rw [StreamTicksRequest.admits_symbol named, (recorded item member).symbol named carried,
      feed.encode_eq_iff symbol carried]
  rw [StreamTicksRequest.streamTicks_whole, serve_taking]
  split
  · next agrees =>
    rw [List.filter_eq_self.mpr fun ev listed => (admitted ev listed).mpr agrees, List.map_map]
    rfl
  · next padded =>
    rw [List.filter_eq_nil_iff.mpr fun ev listed passes => padded ((admitted ev listed).mp passes),
      List.map_nil]

/-- A short add of AAPL as Cboe sends it. -/
def aaplAdd : List UInt8 :=
  List.replicate 8 '0'.toUInt8 ++ ['A'.toUInt8] ++ List.replicate 12 '0'.toUInt8 ++ ['B'.toUInt8] ++
    List.replicate 6 '0'.toUInt8 ++ CboePitch.symbolField 'A'.toUInt8 aapl.text ++
    List.replicate 10 '0'.toUInt8 ++ ['Y'.toUInt8]

theorem recorded_symbol_found_aapl :
    let ev := CboePitch.decode { venue := .cboe, sequence := 1, rawType := 'A'.toUInt8 }
      'A'.toUInt8 aaplAdd
    StreamTicksRequest.streamTicks { symbol := aapl.text } (fun _ => true)
        (some (journalHeader ++ entriesBytes (entriesFrom 1 [({ event := ev }, 70)]))) =
      (.ok, if SymbolFeed.cboe 'A'.toUInt8 ≠ .bitfinex ∨ aapl.text.length = 8 then
          [bookEventToProto ev]
        else []) :=
  recorded_symbol_found (D := ℚ) (.cboe 'A'.toUInt8) aapl (by decide : 4 ≤ 6) [({
    event := CboePitch.decode { venue := .cboe, sequence := 1, rawType := 'A'.toUInt8 }
      'A'.toUInt8 aaplAdd }, 70)]
    (List.forall_mem_singleton.mpr
      (@SymbolFeed.Records.cboe ℚ _ 'A'.toUInt8 aapl.text aaplAdd 1 0 {} _ rfl (by decide) rfl))

variable {Path : Type*} [DecidableEq Path]

/-- Whatever has been recorded in a new book journal, the tool exits with 0 exactly if it gets the
memory that it asks for and can begin its file, and an exception ends it without that memory.
Where it exits with 0 the service loads both journals, counts the recorded events, holds exactly
the quotes that a replay of the events taken makes, with the number and the checksum that the tool
prints, and streams the recorded events and the quotes to any client. -/
theorem recorded_tape_served (memory : NbboMemory) (layout : ProbeLayout UInt64) (os : Os Path)
    (reserves : Nat → Bool) (accepting : os.Accepting) (bufferBytes : Nat) (room : recordBytes ≤ bufferBytes)
    (disk : Disk Path) (bookPath outPath : Path) (apart : bookPath ≠ outPath)
    (granted : os.opens bookPath = true) (fresh : disk.content bookPath = [])
    (taken : os.writes disk.calls journalHeaderBytes = journalHeaderBytes)
    (calls : List JournalCall) (maxEvents : UInt64) :
    let recorded := (JournalSession.record os bufferBytes disk bookPath calls).1.disk
    let items := appended calls
    let events := (if maxEvents = 0 then items else items.take maxEvents.toNat).map stampedEvent
    let replay := NbboReplay.replayToJournal memory.image layout events
    ∃ made, nbboJournalFromBook memory layout os reserves recorded bookPath outPath maxEvents =
        some made ∧
      (made.exitCode = none ↔ reserves (reservedEvents maxEvents) = false) ∧
      (made.exitCode = some 0 ↔ reserves (reservedEvents maxEvents) = true ∧
        os.opens outPath = true ∧
          os.writes recorded.calls journalHeaderBytes = journalHeaderBytes) ∧
      (made.exitCode = some 0 →
        let loaded := ReplayCatalog.load made.disk.files bookPath (some outPath)
        loaded.1 = true ∧ loaded.2.bookRecordCount = UInt64.ofNat items.length ∧
          loaded.2.rows = some replay.journal ∧
          loaded.2.nbboRecordCount = made.stats.nbboEmitted ∧
          loaded.2.nbboJournalCrc = made.stats.journalCrc ∧
          (∀ (request : StreamTicksRequest) (client : Client),
            request.streamTicks client (made.disk.files bookPath) =
              (.ok, (serve request.admits request.limit client 0
                (items.map (·.1.event))).1.map bookEventToProto)) ∧
          ∀ (request : StreamNbboRequest) (client : Client) (rows : List NbboEvent),
            loaded.2.rows = some rows →
              request.Serves client replay.journal (request.streamNbbo client rows)) := by
  intro recorded items events replay
  have checked := JournalSession.writeHeaderIfNeeded_fresh os bufferBytes fresh
  rw [decide_eq_true taken] at checked
  obtain ⟨_, content⟩ := JournalSession.record_accepted calls accepting granted checked
    (JournalSession.headed_writes fresh room taken)
  have stored : recorded.files bookPath =
      some (journalHeader ++ entriesBytes (entriesFrom 1 items)) :=
    Disk.files_eq content (List.append_ne_nil_of_left_ne_nil (by decide) _)
  have made := nbboJournalFromBook_whole os memory layout reserves items stored outPath maxEvents
  have exits : ∀ answer : Bool,
      some (if answer = true then 0 else 1) = some 0 ↔ answer = true := by decide
  cases granted_room : reserves (reservedEvents maxEvents) with
  | false =>
    simp only [granted_room, Bool.false_eq_true, if_false] at made
    exact ⟨_, made, iff_of_true rfl rfl, by simp, fun exited => by cases exited⟩
  | true =>
  simp only [granted_room, if_true] at made
  refine ⟨_, made, by simp, ?_, ?_⟩
  · rw [exits, NbboJournalPipeline.replayToJournal_answer _ outPath]
    exact (and_iff_right rfl).symm
  intro exited loaded
  have answered : (NbboJournalPipeline.replayToJournal memory layout os recorded events
      outPath).answer = true := (exits _).mp exited
  obtain ⟨round, emitted, crc, frame⟩ :=
    NbboJournalPipeline.replayToJournal_read accepting events outPath answered
  -- the tool has left the book journal as it was
  have book : (NbboJournalPipeline.replayToJournal memory layout os recorded events
      outPath).disk.files bookPath =
        some (journalHeader ++ entriesBytes (entriesFrom 1 items)) :=
    Disk.files_eq ((frame bookPath apart).trans content)
      (List.append_ne_nil_of_left_ne_nil (by decide) _)
  have count : (entriesFrom 1 items).length = items.length := by simp [entriesFrom_eq]
  have size : (journalHeader ++ entriesBytes (entriesFrom 1 items)).length =
      journalHeaderBytes + items.length * recordBytes := by
    rw [List.length_append, length_entriesBytes, count]
    rfl
  have long : ¬ journalHeaderBytes + items.length * recordBytes < journalHeaderBytes := by omega
  have records : journalHeaderBytes + items.length * recordBytes - journalHeaderBytes =
      items.length * recordBytes := Nat.add_sub_cancel_left _ _
  have counted : items.length * recordBytes / recordBytes = items.length :=
    Nat.mul_div_cancel _ (by decide)
  have load : loaded = (true,
      { bookJournalPath := bookPath
        nbboJournalPath := some outPath
        bookRecordCount := UInt64.ofNat items.length
        nbboEvents := (replay.journal.map memory.object).map NbboObject.image
        nbboRecordCount := UInt64.ofNat replay.journal.length
        nbboJournalCrc := (NbboJournalPipeline.replayToJournal memory layout os recorded events
          outPath).stats.journalCrc }) := by
    rw [crc]
    simp only [loaded, ReplayCatalog.load]
    rw [book]
    simp only [size, if_neg long, records, Nat.mul_mod_left, ne_eq, not_true, if_false, counted]
    rw [if_pos round.opened, round.images]
    simp only [List.length_map]
    rfl
  rw [load]
  have held : ((replay.journal.map memory.object).map NbboObject.image).mapM nbboEvent? =
      some replay.journal := by
    have back : nbboEvent? ∘ NbboObject.image ∘ memory.object = some := by
      funext ev
      simp only [Function.comp_apply, NbboObject.nbboEvent?_image, memory.event_object]
    rw [List.map_map, List.mapM_map, back]
    exact (List.mapM_pure (f := id)).trans (congrArg some (List.map_id _))
  refine ⟨rfl, rfl, held, emitted.symm, rfl, fun request client => ?_,
    fun request client rows shown => ?_⟩
  · have file := request.streamTicks_whole client items
    rw [← book] at file
    exact file
  · obtain rfl := Option.some.inj (held.symm.trans shown)
    exact request.streamNbbo_serves client replay.journal

/-- Two events are captured; the tool takes the first of them. -/
theorem recorded_tape_served_first :
    let os : Os Nat := .partialWrites false 1000 1000
    let memory : NbboMemory := ⟨fun ev => { event := ev }, fun _ => rfl⟩
    let calls := [.append { event := { type := .add, side := .buy, orderId := 1, qty := 10, price := 100 } }
      70, .append { event := {} } 80]
    let recorded := (JournalSession.record os 112 { files := fun _ => none } 0 calls).1.disk
    let items := appended calls
    let events := (if (1 : UInt64) = 0 then items else items.take (1 : UInt64).toNat).map stampedEvent
    let replay := NbboReplay.replayToJournal memory.image OrderBookEngine.orderLayout events
    ∃ made, nbboJournalFromBook memory OrderBookEngine.orderLayout os (fun n => n < 2 ^ 20) recorded
        0 1 1 = some made ∧ made.exitCode = some 0 ∧
      let loaded := ReplayCatalog.load made.disk.files 0 (some 1)
      loaded.1 = true ∧ loaded.2.bookRecordCount = 2 ∧ loaded.2.rows = some replay.journal ∧
        loaded.2.nbboRecordCount = made.stats.nbboEmitted ∧
        loaded.2.nbboJournalCrc = made.stats.journalCrc ∧
        (∀ (request : StreamTicksRequest) (client : Client),
          request.streamTicks client (made.disk.files 0) =
            (.ok, (serve request.admits request.limit client 0
              (items.map (·.1.event))).1.map bookEventToProto)) ∧
        ∀ (request : StreamNbboRequest) (client : Client) (rows : List NbboEvent),
          loaded.2.rows = some rows →
            request.Serves client replay.journal (request.streamNbbo client rows) := by
  obtain ⟨made, ran, -, exits, served⟩ := recorded_tape_served
    ⟨fun ev => { event := ev }, fun _ => rfl⟩ OrderBookEngine.orderLayout
    (.partialWrites false 1000 1000 : Os Nat) (fun n => n < 2 ^ 20)
    (Os.partialWrites_accepting (by decide) (by decide)) 112 (by decide) { files := fun _ => none }
    0 1 (by decide) rfl rfl rfl
    [.append { event := { type := .add, side := .buy, orderId := 1, qty := 10, price := 100 } } 70,
      .append { event := {} } 80] 1
  have exited := exits.mpr ⟨by decide, rfl, by simp [Os.partialWrites, journalHeaderBytes]⟩
  exact ⟨made, ran, exited, served exited⟩

end FeedHandler
