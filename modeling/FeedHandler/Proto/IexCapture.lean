import FeedHandler.Proto.IexPcap

/-! Captures as they are written: a global header, then packets behind record headers, some of
them of the feed and the others of other traffic. What the readers make of such a capture, cut
off anywhere, and how far they agree on any file. -/
namespace FeedHandler
namespace IexPcap

open HeadedRecords

/-- A message behind its length. -/
def frameMessage (msg : List UInt8) : List UInt8 := LittleEndian.toBytes 2 msg.length ++ msg

/-- A datagram of the feed: a session header and messages, none of them without bytes. -/
structure FeedPacket where
  frame : UdpFrame
  session : List UInt8
  messages : List (List UInt8)
  session_length : session.length = sessionHeader
  framed : ∀ msg ∈ messages, msg ≠ [] ∧ msg.length < 65536
  payload : frame.payload = session ++ messages.flatMap frameMessage

inductive CapturedPacket where
  | feed (packet : FeedPacket)
  /-- long enough for the headers, and not IPv4 or not UDP -/
  | other (bytes : List UInt8) (passed : headers bytes = some .other)

def CapturedPacket.bytes : CapturedPacket → List UInt8
  | feed packet => packet.frame.bytes
  | other bytes _ => bytes

def CapturedPacket.messages : CapturedPacket → List (List UInt8)
  | feed packet => packet.messages
  | other _ _ => []

/-- A packet with the time and the length it had on the wire. -/
structure CapturedRecord where
  stamp : List UInt8
  original : List UInt8
  packet : CapturedPacket
  stamp_length : stamp.length = 8
  original_length : original.length = 4
  fits : packet.bytes.length ≤ 65535

def CapturedRecord.header (r : CapturedRecord) : List UInt8 :=
  r.stamp ++ (LittleEndian.toBytes 4 r.packet.bytes.length ++ r.original)

def CapturedRecord.bytes (r : CapturedRecord) : List UInt8 := r.header ++ r.packet.bytes

section Packets

theorem readAt_toBytes (width x : Nat) (rest : List UInt8) :
    LittleEndian.readAt (LittleEndian.toBytes width x ++ rest) 0 width = x % 256 ^ width :=
  LittleEndian.readAt_here x

/-- A message that has bytes, as a record. -/
def messageRecord (msg : List UInt8) (framed : msg ≠ [] ∧ msg.length < 65536) :
    Record messageLayout where
  header := LittleEndian.toBytes 2 msg.length
  body := msg
  header_length := LittleEndian.length_toBytes 2 _
  announced := by
    have field : LittleEndian.readAt (LittleEndian.toBytes 2 msg.length) 0 2 = msg.length := by
      have read := readAt_toBytes 2 msg.length []
      have small : msg.length < 256 ^ 2 := framed.2
      rwa [List.append_nil, Nat.mod_eq_of_lt small] at read
    have some_bytes : msg.length ≠ 0 := List.length_eq_zero_iff.not.mpr framed.1
    simp only [messageLayout, field, if_neg some_bytes]

/-- Framed messages with nothing behind them. -/
theorem exists_messageRecords {msgs : List (List UInt8)}
    (framed : ∀ msg ∈ msgs, msg ≠ [] ∧ msg.length < 65536) :
    ∃ records : List (Record messageLayout), records.map Record.body = msgs ∧
      Splits messageLayout (msgs.flatMap frameMessage) records [] := by
  induction msgs with
  | nil => exact ⟨[], rfl, splits_flatMap []⟩
  | cons msg rest ih =>
    obtain ⟨records, bodies, split⟩ := ih fun m member => framed m (List.mem_cons_of_mem msg member)
    refine ⟨messageRecord msg (framed msg List.mem_cons_self) :: records, ?_, ?_⟩
    · rw [List.map_cons, bodies]
      rfl
    · exact .record (messageRecord msg _) split

variable {f : UdpFrame}

theorem frame_udpOffset (f : UdpFrame) : udpOffset f.bytes = ethHeader + f.ip.length := by
  have options := f.options
  have first : f.bytes.getD ethHeader 0 = f.ip.getD 0 0 :=
    f.ipField (show 0 < f.ip.length by simp only [minIpv4] at options; omega)
  rw [udpOffset, first, ← f.ip_length]

theorem frame_headers (f : UdpFrame) : headers f.bytes = none := by
  have options := f.options
  have protocol : f.bytes.getD (ethHeader + 9) 0 = 17 :=
    (f.ipField (by simp only [minIpv4] at options; omega)).trans f.protocol
  have total := f.length_bytes
  simp only [UdpFrame.payloadStart, ethHeader, udpHeader] at total
  simp only [minIpv4] at options
  have long : ¬ f.bytes.length < 42 := by omega
  have whole : ¬ (udpOffset f.bytes < ethHeader + minIpv4 ∨
      f.bytes.length < udpOffset f.bytes + udpHeader) := by
    rw [frame_udpOffset]
    simp only [ethHeader, minIpv4, udpHeader]
    omega
  rw [headers, if_neg long, f.ethertype, if_neg (by decide), if_neg whole, protocol,
    if_neg (by decide)]

theorem frame_udpLength (f : UdpFrame) : udpLength f.bytes = udpHeader + f.payload.length := by
  rw [udpLength, frame_udpOffset, f.udpField]

theorem FeedPacket.inspected (p : FeedPacket) : inspect p.frame.bytes =
    .session (p.messages.flatMap frameMessage).length
      (p.messages.flatMap frameMessage ++ p.frame.padding) := by
  have length : p.frame.payload.length =
      sessionHeader + (p.messages.flatMap frameMessage).length := by
    rw [p.payload, List.length_append, p.session_length]
  have total := p.frame.length_bytes
  rw [UdpFrame.payloadStart] at total
  have behind : p.frame.bytes.drop (udpOffset p.frame.bytes + udpHeader + sessionHeader) =
      p.messages.flatMap frameMessage ++ p.frame.padding := by
    rw [frame_udpOffset, ← List.drop_drop, ← List.drop_drop, p.frame.behind_ip,
      List.drop_left' p.frame.udp_length, p.payload, List.append_assoc,
      List.drop_left' p.session_length]
  rw [inspect, frame_headers, Option.getD_none, frame_udpLength, if_neg (by omega),
    Nat.add_sub_cancel_left, length, behind]
  simp only
  rw [if_neg (by rw [frame_udpOffset]; omega), if_neg (by omega), Nat.add_sub_cancel_left]

/-- The whole messages of a datagram are found behind its session header. -/
theorem FeedPacket.held (p : FeedPacket) : IexPcap.held p.frame.bytes = (p.messages, false) := by
  obtain ⟨inside, enough⟩ := inspect_session p.inspected
  obtain ⟨records, bodies, split⟩ := exists_messageRecords p.framed
  have cut : Splits messageLayout
      ((p.messages.flatMap frameMessage ++ p.frame.padding).take
        (p.messages.flatMap frameMessage).length) records [] := by
    rw [List.take_left]
    exact split
  have walked := messages_eq collect cut inside enough []
  rw [← List.foldl_map, bodies, foldl_collect] at walked
  rw [IexPcap.held, p.inspected]
  simp only [walked]
  rfl

theorem CapturedPacket.some_bytes (p : CapturedPacket) : p.bytes ≠ [] := by
  intro empty
  cases p with
  | feed packet =>
    have long := frame_headers packet.frame
    rw [show packet.frame.bytes = [] from empty] at long
    exact absurd long (by decide)
  | other bytes passed =>
    rw [show bytes = [] from empty] at passed
    exact absurd passed (by decide)

theorem CapturedPacket.held (p : CapturedPacket) : (IexPcap.held p.bytes).1 = p.messages := by
  cases p with
  | feed packet => exact congrArg Prod.fst packet.held
  | other bytes passed =>
    have kind : inspect bytes = .other := by
      rw [inspect, passed]
      rfl
    simp only [CapturedPacket.bytes, IexPcap.held, kind, CapturedPacket.messages]

theorem CapturedPacket.faults (p : CapturedPacket) (countsShort : Bool) :
    IexPcap.faults countsShort p.bytes = 0 := by
  rw [IexPcap.faults, if_neg p.some_bytes]
  cases p with
  | feed packet =>
    simp only [CapturedPacket.bytes, packet.inspected, packet.held, Bool.toNat_false]
  | other bytes passed =>
    have kind : inspect bytes = .other := by
      rw [inspect, passed]
      rfl
    simp only [CapturedPacket.bytes, kind]

end Packets

/-- A captured record, as the readers take it apart. -/
def CapturedRecord.record (r : CapturedRecord) : Record recordLayout where
  header := r.header
  body := r.packet.bytes
  header_length := by
    simp only [header, List.length_append, r.stamp_length, r.original_length,
      LittleEndian.length_toBytes]
    rfl
  announced := by
    have small : r.packet.bytes.length < 256 ^ 4 := r.fits.trans_lt (by decide)
    have field : LittleEndian.readAt r.header 8 4 = r.packet.bytes.length := by
      rw [header, LittleEndian.readAt_append r.stamp_length.le, r.stamp_length, Nat.sub_self,
        LittleEndian.readAt_here, Nat.mod_eq_of_lt small]
    have some_bytes : r.packet.bytes.length ≠ 0 :=
      List.length_eq_zero_iff.not.mpr r.packet.some_bytes
    have within : ¬ (r.packet.bytes.length = 0 ∨ 65535 < r.packet.bytes.length) :=
      not_or.mpr ⟨some_bytes, r.fits.not_gt⟩
    simp only [recordLayout, field, if_neg within]

/-- The messages of the feed in a capture. -/
def messagesOf (records : List CapturedRecord) : List (List UInt8) :=
  records.flatMap fun r => r.packet.messages

theorem allHeld_records (records : List CapturedRecord) :
    allHeld (records.map CapturedRecord.record) = messagesOf records := by
  rw [allHeld, messagesOf, List.flatMap_map]
  exact List.flatMap_congr fun r _ => r.packet.held

theorem faults_records (records : List CapturedRecord) (countsShort : Bool) :
    ((records.map CapturedRecord.record).map fun r => faults countsShort r.body).sum = 0 := by
  induction records with
  | nil => rfl
  | cons r records ih =>
    rw [List.map_cons, List.map_cons, List.sum_cons, ih]
    exact r.packet.faults countsShort

theorem whole_records (records : List CapturedRecord) :
    (records.map CapturedRecord.record).flatMap Record.whole =
      records.flatMap CapturedRecord.bytes := by
  rw [List.flatMap_map]
  rfl

theorem regular_record (r : CapturedRecord) : Regular r.record := by
  refine ⟨r.packet.some_bytes, fun passes => ?_⟩
  cases kind : r.packet with
  | feed packet =>
    simp only [CapturedRecord.record, kind, CapturedPacket.bytes, frame_udpLength]
    exact Nat.le_add_right _ _
  | other bytes passed =>
    simp only [CapturedRecord.record, kind, CapturedPacket.bytes, passed] at passes
    cases passes

/-- The events of messages as the feed encodes them. -/
theorem events_encode (clock : Nat → UInt64) (seq : Nat) (typed : List DeepMessage) :
    deepParser.events clock seq (typed.map DeepMessage.encode) =
      typed.mapIdx fun i m => m.event (UInt64.ofNat (seq + i)) (clock (seq + i)) := by
  induction typed generalizing seq with
  | nil => rfl
  | cons m rest ih =>
    have found : deepParser.event m.encode (UInt64.ofNat seq) (clock seq) =
        some (m.event (UInt64.ofNat seq) (clock seq)) :=
      congrArg Prod.fst (IexDeep.parseMessage_encode m _ _ _)
    rw [List.map_cons, MessageParser.events, found, ih, List.mapIdx_cons]
    simp only [Option.toList_some, List.singleton_append, Nat.add_zero, Nat.add_assoc,
      Nat.add_comm 1]

section Captures

variable {σ : Type} {bytes rest : List UInt8} {records : List (Record recordLayout)}

/-- A capture with a good header is read by the loop. -/
theorem openCapture_ok {α : Type} (errors : CaptureErrors) (path : String) (read : List UInt8 → α)
    (long : 24 ≤ bytes.length) (magic : accepted bytes = true) :
    openCapture errors path (some bytes) read = .ok (read (bytes.drop 24)) := by
  simp only [openCapture, if_neg long.not_gt, magic, if_true]

/-- What a reader returns for the records of a file. -/
theorem validate_eq (countsShort : Bool) (clock : Nat → UInt64) (sink : σ → BookEvent → σ)
    (path : String) (split : Splits recordLayout (bytes.drop 24) records rest)
    (long : 24 ≤ bytes.length) (magic : accepted bytes = true) (out : σ) :
    let events := deepParser.events clock 1 (allHeld records)
    let stats := deepParser.counted clock 1 {} (allHeld records)
    validate countsShort clock sink path (some bytes) out = .ok (some {
      summary := {
        frames := (allHeld records).length
        parsed := events.length
        malformed := (records.map fun r => faults countsShort r.body).sum +
          stats.malformedMessages.toNat
        crc := events.foldl updateCrcFromBookEvent 0 }
      seq := 1 + (allHeld records).length
      stats := stats
      out := events.foldl sink out }) := by
  rw [validate, openCapture_ok _ _ _ long magic, loop_eq split (Nat.lt_succ_self _)]
  simp only [Option.map_some, FeedRun.close, FeedRun.malformed, FeedRun.after, Nat.zero_add]
  rfl

theorem load_eq (clock : Nat → UInt64) (path : String)
    (split : Splits recordLayout (bytes.drop 24) records rest) (regular : ∀ r ∈ records, Regular r)
    (long : 24 ≤ bytes.length) (magic : accepted bytes = true) :
    loadIexPcap clock path (some bytes) =
      .ok (some (deepParser.events clock 1 (allHeld records))) := by
  rw [loadIexPcap, openCapture_ok _ _ _ long magic, loadLoop_eq split regular (Nat.lt_succ_self _)]
  rfl

/-- A capture that is cut off anywhere behind its global header is read, by whichever reader, as
the messages of the packets that are whole, in their order: each takes the next sequence, nothing
is malformed but what the parser finds so, other traffic leaves no trace, and messages as the
feed encodes them come back as their events. -/
theorem captured_messages_read (countsShort : Bool) (clock : Nat → UInt64)
    (sink : σ → BookEvent → σ) (path : String) (header : List UInt8) (size : header.length = 24)
    (magic : accepted header = true) (captured : List CapturedRecord) (cut : Nat) (out : σ) :
    let file := header ++ (captured.flatMap CapturedRecord.bytes).take cut
    ∃ k, ((captured.take k).flatMap CapturedRecord.bytes).length ≤ cut ∧
      (k < captured.length →
        cut < ((captured.take (k + 1)).flatMap CapturedRecord.bytes).length) ∧
      let msgs := messagesOf (captured.take k)
      let events := deepParser.events clock 1 msgs
      let stats := deepParser.counted clock 1 {} msgs
      validate countsShort clock sink path (some file) out = .ok (some {
        summary := {
          frames := msgs.length
          parsed := events.length
          malformed := stats.malformedMessages.toNat
          crc := events.foldl updateCrcFromBookEvent 0 }
        seq := 1 + msgs.length
        stats := stats
        out := events.foldl sink out }) ∧
      loadIexPcap clock path (some file) = .ok (some events) ∧
      ∀ typed : List DeepMessage, msgs = typed.map DeepMessage.encode →
        events = typed.mapIdx fun i m => m.event (UInt64.ofNat (1 + i)) (clock (1 + i)) := by
  intro file
  have whole := splits_flatMap (captured.map CapturedRecord.record)
  rw [whole_records] at whole
  obtain ⟨k, left, split, across⟩ := whole.take cut
  rw [← List.map_take, List.length_map, whole_records] at across
  rw [← List.map_take] at split
  have long : 24 ≤ file.length := by
    rw [List.length_append, size]
    exact Nat.le_add_right _ _
  have opened : accepted file = true := by
    have same : LittleEndian.readAt file 0 4 = LittleEndian.readAt header 0 4 := by
      rw [LittleEndian.readAt, LittleEndian.readAt, List.drop_zero, List.drop_zero,
        List.take_append_of_le_length (by rw [size]; decide)]
    rwa [accepted, same]
  have behind : file.drop 24 = (captured.flatMap CapturedRecord.bytes).take cut :=
    List.drop_left' size
  rw [← behind] at split
  have read := validate_eq countsShort clock sink path split long opened out
  have loaded := load_eq clock path split ?_ long opened
  · rw [allHeld_records] at read loaded
    simp only [faults_records, Nat.zero_add] at read
    refine ⟨k, ?_, across, read, loaded, ?_⟩
    · have parts := congrArg List.length split.joined
      rw [behind, whole_records, List.length_append] at parts
      have short := List.length_take_le cut (captured.flatMap CapturedRecord.bytes)
      omega
    · intro typed encoded
      rw [encoded, events_encode]
  · intro r member
    obtain ⟨c, -, rfl⟩ := List.mem_map.mp member
    exact regular_record c

/-- A message that deletes an order. -/
def deleteSeven : DeepMessage := .deleteOrder { symbol := ⟨Vector.replicate 8 65⟩ } 7

/-- Its packet, with padding. -/
def deletePacket : FeedPacket where
  frame := {
    stations := List.replicate 12 0
    ip := 0x45 :: List.replicate 8 0 ++ 17 :: List.replicate 10 0
    udp := [0, 0, 0, 0, 0, 76, 0, 0]
    payload := List.replicate 40 0 ++ frameMessage deleteSeven.encode
    padding := [0, 0]
    stations_length := rfl
    version := rfl
    ip_length := rfl
    options := by decide
    protocol := rfl
    udp_length := rfl
    udp_field := by decide }
  session := List.replicate 40 0
  messages := [deleteSeven.encode]
  session_length := rfl
  framed := List.forall_mem_singleton.mpr ⟨List.cons_ne_nil _ _, by decide⟩
  payload := congrArg (List.replicate 40 0 ++ ·) (List.flatMap_singleton _ _).symm

def deleteRecord : CapturedRecord where
  stamp := List.replicate 8 1
  original := List.replicate 4 2
  packet := .feed deletePacket
  stamp_length := rfl
  original_length := rfl
  fits := by decide

def captureHeader : List UInt8 := [0xd4, 0xc3, 0xb2, 0xa1] ++ List.replicate 20 0

/-- Two packets, the second of them cut off in its last byte. -/
theorem captured_messages_read_delete :
    let captured := [deleteRecord, deleteRecord]
    let file := captureHeader ++ (captured.flatMap CapturedRecord.bytes).take 255
    ∃ k, ((captured.take k).flatMap CapturedRecord.bytes).length ≤ 255 ∧
      (k < captured.length →
        255 < ((captured.take (k + 1)).flatMap CapturedRecord.bytes).length) ∧
      let msgs := messagesOf (captured.take k)
      let events := deepParser.events (fun _ => 5) 1 msgs
      let stats := deepParser.counted (fun _ => 5) 1 {} msgs
      validate true (fun _ => 5) (fun seen _ => seen + 1) "day.pcap" (some file) 0 =
        .ok (some {
          summary := {
            frames := msgs.length
            parsed := events.length
            malformed := stats.malformedMessages.toNat
            crc := events.foldl updateCrcFromBookEvent 0 }
          seq := 1 + msgs.length
          stats := stats
          out := events.foldl (fun seen _ => seen + 1) 0 }) ∧
      loadIexPcap (fun _ => 5) "day.pcap" (some file) = .ok (some events) ∧
      ∀ typed : List DeepMessage, msgs = typed.map DeepMessage.encode →
        events = typed.mapIdx fun i m => m.event (UInt64.ofNat (1 + i)) 5 :=
  captured_messages_read true (fun _ => 5) (fun seen _ => seen + 1) "day.pcap" captureHeader rfl
    (by decide) [deleteRecord, deleteRecord] 255 0

/-- A record with a packet that is too short for its headers. -/
def tooShort (r : Record recordLayout) : Bool := r.body ≠ [] && inspect r.body = .short

theorem faults_short (records : List (Record recordLayout)) :
    (records.map fun r => faults true r.body).sum =
      (records.map fun r => faults false r.body).sum + records.countP tooShort := by
  induction records with
  | nil => rfl
  | cons r records ih =>
    have here : faults true r.body = faults false r.body + if tooShort r then 1 else 0 := by
      rw [faults, faults, tooShort]
      by_cases empty : r.body = []
      · simp [empty]
      · cases inspect r.body <;> simp [empty]
    rw [List.map_cons, List.map_cons, List.sum_cons, List.sum_cons, ih, here, List.countP_cons]
    omega

end Captures

/-- The length of the datagram is zero: the loader takes all 64-bit lengths for its payload and
reads behind the packet. -/
example :
    let pkt := List.replicate 12 0 ++ [8, 0, 0x45] ++ List.replicate 8 0 ++ [17] ++
      List.replicate 18 0
    (loadPacket (fun _ => 5) { stats := {} } pkt).isNone ∧
      (packet false (fun _ => 5) (fun seen _ => seen + 1) { stats := {}, out := 0 } pkt).isSome := by
  decide

end IexPcap
end FeedHandler
