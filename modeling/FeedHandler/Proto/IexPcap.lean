import FeedHandler.Lib.HeadedRecords
import FeedHandler.Proto.FeedFiles
import FeedHandler.Transport.UdpPayload

/-! Packet captures of the IEX feed. A capture is a run of packets behind record headers; a UDP
packet of the feed holds a session header and messages behind little-endian lengths. Three
readers walk captures: one that only checks them, one in front of the pipeline, and one that
loads the events of an experiment. -/
namespace FeedHandler

/-- What the checks of a packet come to. -/
inductive CapturedKind where
  /-- too short for its headers -/
  | short
  /-- not IPv4, or not UDP -/
  | other
  /-- a UDP datagram that is cut off, or has no session header -/
  | badDatagram
  /-- the bytes behind the session header, and how many of them are of the payload -/
  | session (left : Nat) (bytes : List UInt8)
  deriving DecidableEq

namespace IexPcap

def sessionHeader : Nat := 40

def udpOffset (pkt : List UInt8) : Nat := ethHeader + (pkt.getD ethHeader 0).toNat % 16 * 4

/-- The checks up to the UDP header: what they come to, unless they pass. -/
def headers (pkt : List UInt8) : Option CapturedKind :=
  if pkt.length < 42 then some .short
  else if BigEndian.readAt pkt 12 2 ≠ 0x0800 then some .other
  else if udpOffset pkt < ethHeader + minIpv4 ∨ pkt.length < udpOffset pkt + udpHeader then
    some .short
  else if pkt.getD (ethHeader + 9) 0 ≠ 17 then some .other
  else none

def udpLength (pkt : List UInt8) : Nat := BigEndian.readAt pkt (udpOffset pkt + 4) 2

def inspect (pkt : List UInt8) : CapturedKind :=
  (headers pkt).getD <|
    if udpLength pkt < udpHeader then .badDatagram
    else
      let udpPayloadLen := udpLength pkt - udpHeader
      if pkt.length < udpOffset pkt + udpHeader + udpPayloadLen then .badDatagram
      else if udpPayloadLen < sessionHeader then .badDatagram
      else
        .session (udpPayloadLen - sessionHeader)
          (pkt.drop (udpOffset pkt + udpHeader + sessionHeader))

/-- Without a check of the length the payload size is a wrapped word, and so is the end of the
payload that is compared with the packet. -/
def inspectUnchecked (pkt : List UInt8) : CapturedKind :=
  (headers pkt).getD <|
    let udpPl := (udpLength pkt + wordSize - udpHeader) % wordSize
    if pkt.length < (udpOffset pkt + udpHeader + udpPl) % wordSize ∨ udpPl < sessionHeader then
      .badDatagram
    else
      .session (udpPl - sessionHeader) (pkt.drop (udpOffset pkt + udpHeader + sessionHeader))

/-- The checks up to the length of the datagram over a view of the packet, where a byte outside it
has no value: what they come to, or the length. -/
def udpLengthReads (pkt : List UInt8) : Option (Except CapturedKind Nat) :=
  let data := ByteSpan.full pkt
  if pkt.length < 42 then some (.error .short)
  else do
    let type ← wordReads data 12
    if type ≠ 0x0800 then return .error .other
    else
      let first ← data.byteAt ethHeader
      let udpOff := ethHeader + first.toNat % 16 * 4
      if udpOff < ethHeader + minIpv4 ∨ pkt.length < udpOff + udpHeader then return .error .short
      else
        let protocol ← data.byteAt (ethHeader + 9)
        if protocol ≠ 17 then return .error .other
        else
          let udpLen ← wordReads data (udpOff + 4)
          return .ok udpLen

/-- The loop over the messages of a payload of which `left` bytes are to come: the state after
them, and whether a length of zero or beyond the payload ended it. There is no answer where it
reads outside the packet. -/
def messages {σ : Type} (step : σ → List UInt8 → σ) :
    Nat → Nat → List UInt8 → σ → Option (σ × Bool)
  | 0, _, _, s => some (s, false)
  | fuel + 1, left, bytes, s =>
    if left < 2 then some (s, false)
    else if bytes.length < 2 then none
    else
      let msgLen := LittleEndian.readAt bytes 0 2
      if msgLen = 0 ∨ left < 2 + msgLen then some (s, true)
      else if bytes.length < 2 + msgLen then none
      else
        messages step fuel (left - (2 + msgLen)) (bytes.drop (2 + msgLen))
          (step s ((bytes.drop 2).take msgLen))

/-- The header of a capture: little-endian with either byte order of the magic. -/
def accepted (bytes : List UInt8) : Bool :=
  LittleEndian.readAt bytes 0 4 = 0xa1b2c3d4 || LittleEndian.readAt bytes 0 4 = 0xd4c3b2a1

/-- The texts of the errors, the path being appended where the reader does so. -/
structure CaptureErrors where
  cannotOpen : String
  header : String
  magic : String

def openCapture {α : Type} (errors : CaptureErrors) (path : String) (file : Option (List UInt8))
    (read : List UInt8 → α) : Except String α :=
  match file with
  | none => .error (errors.cannotOpen ++ path)
  | some bytes =>
    if bytes.length < 24 then .error (errors.header ++ path)
    else if accepted bytes then .ok (read (bytes.drop 24))
    else .error errors.magic

section Validate

variable {σ : Type} (countsShort : Bool) (clock : Nat → UInt64) (sink : σ → BookEvent → σ)

/-- A packet; the reader of the first phase also counts the short ones. -/
def packet (s : FeedRun IexDeep.ParseStats σ) (pkt : List UInt8) :
    Option (FeedRun IexDeep.ParseStats σ) :=
  match inspect pkt with
  | .short => some (if countsShort then s.malformed 1 else s)
  | .other => some s
  | .badDatagram => some (s.malformed 1)
  | .session left bytes =>
    (messages (FeedRun.message deepParser clock sink) (pkt.length + 1) left bytes s).map fun walked =>
      if walked.2 then walked.1.malformed 1 else walked.1

/-- The loop over the records. A length out of bounds is counted, and nothing is skipped but the
header of its record. -/
def loop : Nat → List UInt8 → FeedRun IexDeep.ParseStats σ →
    Option (FeedRun IexDeep.ParseStats σ)
  | 0, _, s => some s
  | fuel + 1, bytes, s =>
    if bytes.length < 16 then some s
    else
      let inclLen := LittleEndian.readAt bytes 8 4
      if inclLen = 0 ∨ 65535 < inclLen then loop fuel (bytes.drop 16) (s.malformed 1)
      else if bytes.length < 16 + inclLen then some s
      else
        (packet countsShort clock sink s ((bytes.drop 16).take inclLen)).bind
          (loop fuel (bytes.drop (16 + inclLen)))

def validate (path : String) (file : Option (List UInt8)) (out : σ) :
    Except String (Option (FeedRun IexDeep.ParseStats σ)) :=
  openCapture ⟨"failed to open iex pcap file: ", "pcap global header read failure: ",
      "unsupported pcap magic value"⟩ path file fun bytes =>
    (loop countsShort clock sink (bytes.length + 1) bytes
      { stats := deepParser.initial, out := out }).map (FeedRun.close deepParser)

end Validate

/-- The reader of the first phase. -/
def runIexPcapFile (clock : Nat → UInt64) (path : String) (file : Option (List UInt8)) :
    Except String (Option (FeedRun IexDeep.ParseStats Unit)) :=
  validate true clock (fun _ _ => ()) path file ()

end IexPcap

/-- The locals of a loader with the events it has loaded. -/
structure FeedLoad (Stats : Type) where
  seq : Nat := 1
  stats : Stats
  out : List BookEvent := []

namespace FeedLoad

def message {Stats : Type} (parser : MessageParser Stats) (clock : Nat → UInt64)
    (s : FeedLoad Stats) (msg : List UInt8) : FeedLoad Stats :=
  let parsed := parser.parseMessage msg (UInt64.ofNat s.seq) (clock s.seq) s.stats
  { seq := s.seq + 1, stats := parsed.2, out := s.out ++ parsed.1.toList }

/-- Everything that a run over messages leaves. -/
def after {Stats : Type} (parser : MessageParser Stats) (clock : Nat → UInt64)
    (s : FeedLoad Stats) (msgs : List (List UInt8)) : FeedLoad Stats where
  seq := s.seq + msgs.length
  stats := parser.counted clock s.seq s.stats msgs
  out := s.out ++ parser.events clock s.seq msgs

variable {Stats : Type} {parser : MessageParser Stats} {clock : Nat → UInt64}

theorem message_eq (s : FeedLoad Stats) (msg : List UInt8) :
    s.message parser clock msg = s.after parser clock [msg] := by
  have blind := parser.blind msg (UInt64.ofNat s.seq) (clock s.seq) s.stats
  simp only [message, after, MessageParser.events, MessageParser.event, MessageParser.counted,
    blind, List.append_nil, List.length_singleton]

theorem after_append (s : FeedLoad Stats) (front back : List (List UInt8)) :
    s.after parser clock (front ++ back) =
      (s.after parser clock front).after parser clock back := by
  simp only [after, parser.events_append, parser.counted_append, List.length_append,
    List.append_assoc, Nat.add_assoc]

theorem foldl_message (s : FeedLoad Stats) (msgs : List (List UInt8)) :
    msgs.foldl (message parser clock) s = s.after parser clock msgs := by
  induction msgs generalizing s with
  | nil => simp [after, MessageParser.events, MessageParser.counted]
  | cons msg rest ih => rw [List.foldl_cons, ih, message_eq, ← after_append, List.singleton_append]

end FeedLoad

namespace IexPcap

def loadPacket (clock : Nat → UInt64) (s : FeedLoad IexDeep.ParseStats) (pkt : List UInt8) :
    Option (FeedLoad IexDeep.ParseStats) :=
  match inspectUnchecked pkt with
  | .session left bytes =>
    (messages (FeedLoad.message deepParser clock) (pkt.length + 1) left bytes s).map Prod.fst
  | _ => some s

/-- The loop of the loader, which skips a record of any length. -/
def loadLoop (clock : Nat → UInt64) : Nat → List UInt8 → FeedLoad IexDeep.ParseStats →
    Option (FeedLoad IexDeep.ParseStats)
  | 0, _, s => some s
  | fuel + 1, bytes, s =>
    if bytes.length < 16 then some s
    else
      let incl := LittleEndian.readAt bytes 8 4
      if incl = 0 ∨ 65535 < incl then loadLoop clock fuel (bytes.drop (16 + incl)) s
      else if bytes.length < 16 + incl then some s
      else
        (loadPacket clock s ((bytes.drop 16).take incl)).bind
          (loadLoop clock fuel (bytes.drop (16 + incl)))

def loadIexPcap (clock : Nat → UInt64) (path : String) (file : Option (List UInt8)) :
    Except String (Option (List BookEvent)) :=
  openCapture ⟨"cannot open iex pcap file: ", "pcap global header failure: ",
      "unsupported pcap magic"⟩ path file fun bytes =>
    (loadLoop clock (bytes.length + 1) bytes { stats := deepParser.initial }).map FeedLoad.out

/-- A message behind its length, which is not zero. -/
def messageLayout : HeadedRecords.Layout UInt8 where
  width := 2
  size header :=
    let msgLen := LittleEndian.readAt header 0 2
    if msgLen = 0 then none else some msgLen
  wide := Nat.two_pos

/-- A packet behind its record header; a length out of bounds stands for no packet. -/
def recordLayout : HeadedRecords.Layout UInt8 where
  width := 16
  size header :=
    let inclLen := LittleEndian.readAt header 8 4
    if inclLen = 0 ∨ 65535 < inclLen then some 0 else some inclLen
  wide := by decide

section Walk

open HeadedRecords

variable {σ : Type} {step : σ → List UInt8 → σ} {fuel left : Nat} {bytes rest : List UInt8}
  {records : List (Record messageLayout)}

theorem readAt_take {offset width n : Nat} (inside : offset + width ≤ n) :
    LittleEndian.readAt (bytes.take n) offset width = LittleEndian.readAt bytes offset width := by
  rw [LittleEndian.readAt, LittleEndian.readAt, List.drop_take, List.take_take,
    Nat.min_eq_left (by omega)]

/-- Nothing behind the payload is looked at. -/
theorem messages_take (inside : left ≤ bytes.length) (s : σ) :
    messages step fuel left bytes s = messages step fuel left (bytes.take left) s := by
  induction fuel generalizing left bytes s with
  | zero => rfl
  | succ fuel ih =>
    have size := List.length_take_of_le inside
    rw [messages, messages, size]
    by_cases short : left < 2
    · rw [if_pos short, if_pos short]
    · rw [if_neg short, if_neg short, if_neg (by omega), if_neg short, readAt_take (not_lt.mp short)]
      by_cases bad : LittleEndian.readAt bytes 0 2 = 0 ∨ left < 2 + LittleEndian.readAt bytes 0 2
      · simp only [if_pos bad]
      · have within := (not_or.mp bad).2
        simp only [if_neg bad, if_neg within]
        rw [if_neg (by omega), ih (by rw [List.length_drop]; omega), List.drop_take, List.drop_take,
          List.take_take, Nat.min_eq_left (by omega)]

/-- The loop over a payload is a fold over its messages. -/
theorem messages_eq (step : σ → List UInt8 → σ)
    (split : Splits messageLayout (bytes.take left) records rest) (inside : left ≤ bytes.length)
    (enough : left < fuel) (s : σ) :
    messages step fuel left bytes s =
      some (records.foldl (fun s r => step s r.body) s, decide (2 ≤ rest.length)) := by
  have size := List.length_take_of_le inside
  rw [← size] at enough
  have run := split.loop (fun fuel items s => messages step fuel items.length items s)
    (fun s r => step s r.body) (fun rest s => some (s, decide (2 ≤ rest.length))) ?_ ?_ enough s
  · rw [size] at run
    rw [messages_take inside, run]
  · intro fuel items s stuck
    simp only [messages]
    by_cases short : items.length < 2
    · rw [if_pos short, decide_eq_false (not_le.mpr short)]
    · have announced := stuck.resolve_left short
      rw [if_neg short, if_neg short, if_pos, decide_eq_true (not_lt.mp short)]
      by_contra whole
      obtain ⟨positive, long⟩ := not_or.mp whole
      refine long (announced _ ?_)
      simp only [messageLayout, readAt_take (Nat.le_refl (0 + 2)), if_neg positive]
  · intro fuel r later s
    have header : LittleEndian.readAt r.header 0 2 = LittleEndian.readAt (r.whole ++ later) 0 2 := by
      rw [← r.take_header later]
      exact readAt_take (Nat.le_refl 2)
    obtain ⟨positive, field⟩ : LittleEndian.readAt (r.whole ++ later) 0 2 ≠ 0 ∧
        LittleEndian.readAt (r.whole ++ later) 0 2 = r.body.length := by
      have announced := r.announced
      simp only [messageLayout, header] at announced
      split at announced
      · contradiction
      · next positive => exact ⟨positive, Option.some.inj announced⟩
    have length : (r.whole ++ later).length = 2 + r.body.length + later.length := by
      rw [List.length_append, r.length_whole]
      rfl
    have body : ((r.whole ++ later).drop 2).take r.body.length = r.body := by
      have behind := r.drop_header later
      rw [show messageLayout.width = 2 from rfl] at behind
      rw [behind, List.take_left]
    have behind : (r.whole ++ later).drop (2 + r.body.length) = later := r.drop_whole later
    have left : (r.whole ++ later).length - (2 + r.body.length) = later.length := by omega
    rw [field] at positive
    simp only [messages, field]
    rw [if_neg (by omega), if_neg (by omega), if_neg (by omega), if_neg (by omega), body, behind,
      left]

/-- A payload within its packet is walked to the end: some messages, and whether a bad length
comes behind them, whatever is done with the messages. -/
theorem exists_messages (inside : left ≤ bytes.length) (enough : left < fuel) :
    ∃ (msgs : List (List UInt8)) (bad : Bool), ∀ {σ : Type} (step : σ → List UInt8 → σ) (s : σ),
      messages step fuel left bytes s = some (msgs.foldl step s, bad) := by
  obtain ⟨records, rest, split⟩ := exists_splits messageLayout (bytes.take left)
  refine ⟨records.map Record.body, decide (2 ≤ rest.length), fun step s => ?_⟩
  rw [messages_eq step split inside enough, List.foldl_map]

end Walk

/-- The checks read no byte outside the packet. -/
theorem udpLengthReads_eq (pkt : List UInt8) :
    udpLengthReads pkt = some ((headers pkt).elim (.ok (udpLength pkt)) .error) := by
  simp only [udpLengthReads, headers]
  by_cases long : pkt.length < 42
  · rw [if_pos long, if_pos long]
    rfl
  rw [if_neg long, if_neg long, wordReads_full (show 12 + 2 ≤ pkt.length by omega),
    byteAt_full (show ethHeader < pkt.length by simp only [ethHeader]; omega),
    byteAt_full (show ethHeader + 9 < pkt.length by simp only [ethHeader]; omega)]
  simp only [Option.bind_eq_bind, Option.bind_some, ← udpOffset.eq_def]
  by_cases type : BigEndian.readAt pkt 12 2 ≠ 0x0800
  · rw [if_pos type, if_pos type]
    rfl
  rw [if_neg type, if_neg type]
  by_cases header : udpOffset pkt < ethHeader + minIpv4 ∨ pkt.length < udpOffset pkt + udpHeader
  · rw [if_pos header, if_pos header]
    rfl
  have whole := not_lt.mp (not_or.mp header).2
  have field : udpOffset pkt + 4 + 2 ≤ pkt.length := by
    simp only [udpHeader] at whole
    omega
  rw [if_neg header, if_neg header, wordReads_full field]
  by_cases protocol : pkt.getD (ethHeader + 9) 0 ≠ 17
  · rw [if_pos protocol, if_pos protocol]
    rfl
  · rw [if_neg protocol, if_neg protocol]
    rfl

theorem inspect_session {pkt bytes : List UInt8} {left : Nat}
    (session : inspect pkt = .session left bytes) :
    left ≤ bytes.length ∧ left < pkt.length + 1 := by
  unfold inspect at session
  cases stopped : headers pkt with
  | some kind =>
    rw [stopped, Option.getD_some] at session
    subst session
    unfold headers at stopped
    split_ifs at stopped <;> cases stopped
  | none =>
    rw [stopped, Option.getD_none] at session
    split at session
    · contradiction
    · simp only at session
      split at session
      · contradiction
      · split at session
        · contradiction
        · next cut none =>
          cases session
          rw [List.length_drop]
          omega

/-- Taking the messages of a payload down. -/
def collect (msgs : List (List UInt8)) (msg : List UInt8) : List (List UInt8) := msgs ++ [msg]

theorem foldl_collect (front msgs : List (List UInt8)) :
    msgs.foldl collect front = front ++ msgs := by
  induction msgs generalizing front with
  | nil => exact (List.append_nil front).symm
  | cons msg rest ih => rw [List.foldl_cons, ih, collect, List.append_assoc, List.singleton_append]

/-- The messages that a packet holds, and whether a bad length comes behind them. -/
def held (pkt : List UInt8) : List (List UInt8) × Bool :=
  match inspect pkt with
  | .session left bytes => (messages collect (pkt.length + 1) left bytes []).getD ([], false)
  | _ => ([], false)

/-- What is counted for a packet, or for a record without one. -/
def faults (countsShort : Bool) (pkt : List UInt8) : Nat :=
  if pkt = [] then 1
  else
    match inspect pkt with
    | .short => countsShort.toNat
    | .other => 0
    | .badDatagram => 1
    | .session _ _ => (held pkt).2.toNat

section Readers

variable {σ : Type} {countsShort : Bool} {clock : Nat → UInt64} {sink : σ → BookEvent → σ}
  {pkt bytes rest : List UInt8} {fuel : Nat} {records : List (HeadedRecords.Record recordLayout)}

theorem messages_held {left : Nat} (session : inspect pkt = .session left bytes)
    (step : σ → List UInt8 → σ) (s : σ) :
    messages step (pkt.length + 1) left bytes s =
      some ((held pkt).1.foldl step s, (held pkt).2) := by
  obtain ⟨inside, enough⟩ := inspect_session session
  obtain ⟨msgs, bad, walked⟩ := exists_messages inside enough
  have same : held pkt = (msgs, bad) := by
    rw [held, session]
    simp only [walked, foldl_collect, Option.getD_some, List.nil_append]
  rw [walked, same]

theorem packet_eq (some_bytes : pkt ≠ []) (s : FeedRun IexDeep.ParseStats σ) :
    packet countsShort clock sink s pkt =
      some ((s.after deepParser clock sink (held pkt).1).malformed (faults countsShort pkt)) := by
  have nothing : (∀ left bytes, inspect pkt ≠ .session left bytes) → held pkt = ([], false) := by
    intro other
    unfold held
    split
    · next session => exact absurd session (other _ _)
    · rfl
  rw [packet, faults, if_neg some_bytes]
  cases kind : inspect pkt with
  | short =>
    rw [nothing (by simp [kind])]
    cases countsShort <;> rfl
  | other =>
    rw [nothing (by simp [kind])]
    rfl
  | badDatagram =>
    rw [nothing (by simp [kind])]
    rfl
  | session left bytes =>
    simp only
    rw [messages_held kind, FeedRun.foldl_message]
    cases (held pkt).2 <;> rfl

theorem held_nil : held [] = ([], false) := rfl

/-- The messages of all packets of a capture. -/
def allHeld (records : List (HeadedRecords.Record recordLayout)) : List (List UInt8) :=
  records.flatMap fun r => (held r.body).1

/-- The field of the record header, where it is in bounds and where it is not. -/
theorem record_length (r : HeadedRecords.Record recordLayout) (later : List UInt8) :
    let inclLen := LittleEndian.readAt (r.whole ++ later) 8 4
    (r.body = [] ↔ inclLen = 0 ∨ 65535 < inclLen) ∧ (r.body ≠ [] → inclLen = r.body.length) := by
  have header : LittleEndian.readAt r.header 8 4 = LittleEndian.readAt (r.whole ++ later) 8 4 := by
    rw [← r.take_header later]
    exact readAt_take (by decide)
  have announced := r.announced
  simp only [recordLayout, header] at announced
  split at announced
  · next out =>
    have empty : r.body = [] := List.length_eq_zero_iff.mp (Option.some.inj announced).symm
    exact ⟨⟨fun _ => out, fun _ => empty⟩, fun some_bytes => absurd empty some_bytes⟩
  · next within =>
    have length := Option.some.inj announced
    refine ⟨⟨fun empty => ?_, fun out => absurd out within⟩, fun _ => length⟩
    rw [empty, List.length_nil] at length
    exact .inl length

theorem foldl_packets (s : FeedRun IexDeep.ParseStats σ) :
    records.foldl (fun s r => (s.after deepParser clock sink (held r.body).1).malformed
        (faults countsShort r.body)) s =
      (s.after deepParser clock sink (allHeld records)).malformed
        (records.map fun r => faults countsShort r.body).sum := by
  induction records generalizing s with
  | nil => rfl
  | cons r records ih =>
    rw [List.foldl_cons, ih, FeedRun.after_malformed, ← FeedRun.after_append,
      FeedRun.malformed_malformed, List.map_cons, List.sum_cons, allHeld, allHeld,
      List.flatMap_cons]

/-- A whole header behind which the records end announces a packet that is cut off. -/
theorem record_cut {items : List UInt8} (stuck : HeadedRecords.Stuck recordLayout items)
    (long : ¬ items.length < 16) :
    let inclLen := LittleEndian.readAt items 8 4
    ¬ (inclLen = 0 ∨ 65535 < inclLen) ∧ items.length < 16 + inclLen := by
  have announced := stuck.resolve_left long
  simp only [recordLayout, readAt_take (show 8 + 4 ≤ 16 by decide)] at announced
  by_cases out : LittleEndian.readAt items 8 4 = 0 ∨ 65535 < LittleEndian.readAt items 8 4
  · exact absurd (announced 0 (if_pos out)) long
  · exact ⟨out, announced _ (if_neg out)⟩

/-- The loop over a capture is a run over the messages of its packets. -/
theorem loop_eq (split : HeadedRecords.Splits recordLayout bytes records rest)
    (enough : bytes.length < fuel) (s : FeedRun IexDeep.ParseStats σ) :
    loop countsShort clock sink fuel bytes s =
      some ((s.after deepParser clock sink (allHeld records)).malformed
        (records.map fun r => faults countsShort r.body).sum) := by
  have run := split.loop (loop countsShort clock sink)
    (fun s r => (s.after deepParser clock sink (held r.body).1).malformed
      (faults countsShort r.body)) (fun _ s => some s) ?_ ?_ enough s
  · rw [run, foldl_packets]
  · intro fuel items s stuck
    rw [loop]
    by_cases short : items.length < 16
    · rw [if_pos short]
    · obtain ⟨within, cut⟩ := record_cut stuck short
      simp only [if_neg within, if_pos cut, if_neg short]
  · intro fuel r later s
    have field := record_length r later
    simp only at field
    have length : (r.whole ++ later).length = 16 + r.body.length + later.length := by
      rw [List.length_append, r.length_whole]
      rfl
    have header : (r.whole ++ later).drop 16 = r.body ++ later := r.drop_header later
    have behind : (r.whole ++ later).drop (16 + r.body.length) = later := r.drop_whole later
    rw [loop, if_neg (by omega)]
    by_cases empty : r.body = []
    · rw [empty, List.nil_append] at header
      simp only [if_pos (field.1.mp empty), header, empty, held_nil]
      rfl
    · have within := mt field.1.mpr empty
      simp only [if_neg within]
      rw [field.2 empty, if_neg (by omega), header, List.take_left, behind, packet_eq empty]
      rfl

/-- The record holds a packet, and the length of its datagram covers the UDP header. -/
def Regular (r : HeadedRecords.Record recordLayout) : Prop :=
  r.body ≠ [] ∧ (headers r.body = none → udpHeader ≤ udpLength r.body)

theorem udpLength_lt (pkt : List UInt8) : udpLength pkt < 65536 :=
  (BigEndian.ofBytes_lt _).trans_le
    (Nat.pow_le_pow_right (n := 256) (by decide) (List.length_take_le _ _))

/-- Where the length covers the header nothing wraps. -/
theorem inspectUnchecked_eq (covers : headers pkt = none → udpHeader ≤ udpLength pkt) :
    inspectUnchecked pkt = inspect pkt := by
  rw [inspectUnchecked, inspect]
  cases stopped : headers pkt with
  | some kind => rw [Option.getD_some, Option.getD_some]
  | none =>
    have least := covers stopped
    have word := udpLength_lt pkt
    have size : (udpLength pkt + wordSize - udpHeader) % wordSize = udpLength pkt - udpHeader := by
      simp only [wordSize, udpHeader] at least ⊢
      omega
    have ending : (udpOffset pkt + udpHeader + (udpLength pkt - udpHeader)) % wordSize =
        udpOffset pkt + udpHeader + (udpLength pkt - udpHeader) := by
      simp only [wordSize, udpHeader, udpOffset, ethHeader]
      omega
    rw [Option.getD_none, Option.getD_none, if_neg (not_lt.mpr least)]
    simp only [size, ending]
    by_cases cut : pkt.length < udpOffset pkt + udpHeader + (udpLength pkt - udpHeader)
    · rw [if_pos (Or.inl cut), if_pos cut]
    · by_cases none : udpLength pkt - udpHeader < sessionHeader
      · rw [if_pos (Or.inr none), if_neg cut, if_pos none]
      · rw [if_neg (not_or.mpr ⟨cut, none⟩), if_neg cut, if_neg none]

theorem loadPacket_eq (covers : headers pkt = none → udpHeader ≤ udpLength pkt)
    (s : FeedLoad IexDeep.ParseStats) :
    loadPacket clock s pkt = some (s.after deepParser clock (held pkt).1) := by
  rw [loadPacket, inspectUnchecked_eq covers]
  split
  · next session =>
    rw [messages_held session, FeedLoad.foldl_message]
    rfl
  · next other =>
    have nothing : held pkt = ([], false) := by
      unfold held
      split
      · next session => exact absurd session (other _ _)
      · rfl
    rw [nothing]
    exact congrArg some (FeedLoad.foldl_message s [])

/-- On a regular capture the loader runs over the same messages. -/
theorem loadLoop_eq (split : HeadedRecords.Splits recordLayout bytes records rest)
    (regular : ∀ r ∈ records, Regular r) (enough : bytes.length < fuel)
    (s : FeedLoad IexDeep.ParseStats) :
    loadLoop clock fuel bytes s = some (s.after deepParser clock (allHeld records)) := by
  induction split generalizing fuel s with
  | @stuck items stuck =>
    obtain ⟨fuel, rfl⟩ := Nat.exists_eq_add_one.mpr (Nat.zero_lt_of_lt enough)
    refine Eq.trans ?_ (congrArg some (FeedLoad.foldl_message s []))
    rw [loadLoop, List.foldl_nil]
    by_cases short : items.length < 16
    · rw [if_pos short]
    · obtain ⟨within, cut⟩ := record_cut stuck short
      simp only [if_neg within, if_pos cut, if_neg short]
  | @record r later records rest behind ih =>
    obtain ⟨fuel, rfl⟩ := Nat.exists_eq_add_one.mpr (Nat.zero_lt_of_lt enough)
    have field := record_length r later
    simp only at field
    obtain ⟨some_bytes, covers⟩ := regular r List.mem_cons_self
    have length : (r.whole ++ later).length = 16 + r.body.length + later.length := by
      rw [List.length_append, r.length_whole]
      rfl
    have header : (r.whole ++ later).drop 16 = r.body ++ later := r.drop_header later
    have rest : (r.whole ++ later).drop (16 + r.body.length) = later := r.drop_whole later
    have within := mt field.1.mpr some_bytes
    rw [loadLoop, if_neg (by omega)]
    simp only [if_neg within]
    rw [field.2 some_bytes, if_neg (by omega), header, List.take_left, rest, loadPacket_eq covers,
      Option.bind_some, ih (fun e member => regular e (List.mem_cons_of_mem r member)) (by omega),
      ← FeedLoad.after_append]
    rfl

end Readers

end IexPcap
end FeedHandler
