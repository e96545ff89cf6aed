import FeedHandler.Lib.BigEndian
import FeedHandler.Lib.ByteSpan

/-! The UDP payload of a received Ethernet frame. The extraction is written once more over a
view of the frame, where a byte outside the frame has no value. -/
namespace FeedHandler

open BigEndian

def ethHeader : Nat := 14

def minIpv4 : Nat := 20

def udpHeader : Nat := 8

/-- What `extract_udp_payload` returns, and where the payload starts unless the pointer is
null. -/
structure ExtractedPayload where
  length : Nat
  start : Option Nat
  deriving DecidableEq, Repr

def ExtractedPayload.failed : ExtractedPayload := ⟨0, none⟩

/-- `extract_udp_payload`. -/
def extractUdpPayload (frame : List UInt8) : ExtractedPayload :=
  if frame.length < ethHeader + minIpv4 + udpHeader then .failed
  else if readAt frame 12 2 ≠ 0x0800 then .failed
  else
    let first := frame.getD ethHeader 0
    if first.toNat / 16 ≠ 4 then .failed
    else
      let ihl := first.toNat % 16 * 4
      if ihl < minIpv4 ∨ frame.length < ethHeader + ihl + udpHeader then .failed
      else if frame.getD (ethHeader + 9) 0 ≠ 17 then .failed
      else
        let udpLen := readAt frame (ethHeader + ihl + 4) 2
        if udpLen < udpHeader then .failed
        else if frame.length < ethHeader + ihl + udpLen then .failed
        else ⟨udpLen - udpHeader, some (ethHeader + ihl + udpHeader)⟩

/-- The bytes a caller reads at the pointer. -/
def ExtractedPayload.bytes (frame : List UInt8) (extracted : ExtractedPayload) :
    Option (List UInt8) :=
  extracted.start.map fun start => (frame.drop start).take extracted.length

/-- An Ethernet frame with an IPv4 packet, possibly with options, with a UDP datagram; whatever
else the headers hold and whatever pads the frame. -/
structure UdpFrame where
  stations : List UInt8
  ip : List UInt8
  udp : List UInt8
  payload : List UInt8
  padding : List UInt8
  stations_length : stations.length = 12
  version : (ip.getD 0 0).toNat / 16 = 4
  ip_length : ip.length = (ip.getD 0 0).toNat % 16 * 4
  options : minIpv4 ≤ ip.length
  protocol : ip.getD 9 0 = 17
  udp_length : udp.length = udpHeader
  udp_field : readAt udp 4 2 = udpHeader + payload.length

namespace UdpFrame

def bytes (f : UdpFrame) : List UInt8 :=
  f.stations ++ ([0x08, 0x00] ++ (f.ip ++ (f.udp ++ (f.payload ++ f.padding))))

/-- Where the payload starts. -/
def payloadStart (f : UdpFrame) : Nat := ethHeader + f.ip.length + udpHeader

theorem length_bytes (f : UdpFrame) :
    f.bytes.length = f.payloadStart + f.payload.length + f.padding.length := by
  simp only [bytes, payloadStart, List.length_append, List.length_cons, List.length_nil,
    f.stations_length, f.udp_length, ethHeader]
  omega

theorem payload_length (f : UdpFrame) : f.payload.length < 65536 - udpHeader := by
  have word := ofBytes_lt ((f.udp.drop 4).take 2)
  have field := f.udp_field
  have two : ((f.udp.drop 4).take 2).length = 2 := by
    rw [List.length_take, List.length_drop, f.udp_length]
    rfl
  rw [two] at word
  rw [readAt] at field
  omega

theorem ethertype (f : UdpFrame) : readAt f.bytes 12 2 = 0x0800 := by
  rw [bytes, readAt_append f.stations_length.le, f.stations_length]
  rfl

theorem ipField (f : UdpFrame) {offset : Nat} (inside : offset < f.ip.length) :
    f.bytes.getD (ethHeader + offset) 0 = f.ip.getD offset 0 := by
  have behind : f.stations.length ≤ ethHeader + offset := by
    rw [f.stations_length, ethHeader]
    omega
  have position : ethHeader + offset - f.stations.length - 2 = offset := by
    rw [f.stations_length, ethHeader]
    omega
  have type : ([0x08, 0x00] : List UInt8).length ≤ ethHeader + offset - f.stations.length := by
    rw [f.stations_length, ethHeader, List.length_cons, List.length_singleton]
    omega
  rw [bytes, getD_append behind, getD_append type]
  simp only [List.length_cons, List.length_nil, Nat.zero_add, Nat.reduceAdd, position,
    List.getD_eq_getElem?_getD, List.getElem?_append_left inside]

theorem behind_ip (f : UdpFrame) :
    f.bytes.drop (ethHeader + f.ip.length) = f.udp ++ (f.payload ++ f.padding) := by
  have front : f.bytes = (f.stations ++ ([0x08, 0x00] ++ f.ip)) ++
      (f.udp ++ (f.payload ++ f.padding)) := by
    simp only [bytes, List.append_assoc]
  have size : (f.stations ++ ([0x08, 0x00] ++ f.ip)).length = ethHeader + f.ip.length := by
    simp only [List.length_append, f.stations_length, List.length_cons, List.length_nil, ethHeader]
    omega
  rw [front, List.drop_left' size]

theorem udpField (f : UdpFrame) :
    readAt f.bytes (ethHeader + f.ip.length + 4) 2 = udpHeader + f.payload.length := by
  have within : (f.udp.drop 4).length = 4 := by
    rw [List.length_drop, f.udp_length]
    rfl
  have field := f.udp_field
  rw [readAt] at field ⊢
  rw [← List.drop_drop, behind_ip, List.drop_append_of_le_length (by rw [f.udp_length]; decide),
    List.take_append_of_le_length (by rw [within]; decide), field]

/-- The payload of such a frame is found, whatever the options and the padding. -/
theorem extract (f : UdpFrame) :
    extractUdpPayload f.bytes = ⟨f.payload.length, some f.payloadStart⟩ := by
  have options := f.options
  have first : f.bytes.getD ethHeader 0 = f.ip.getD 0 0 :=
    f.ipField (show 0 < f.ip.length by simp only [minIpv4] at options; omega)
  have protocol : f.bytes.getD (ethHeader + 9) 0 = 17 :=
    (f.ipField (by simp only [minIpv4] at options; omega)).trans f.protocol
  have total := f.length_bytes
  rw [payloadStart] at total
  have long : ¬ f.bytes.length < ethHeader + minIpv4 + udpHeader := by omega
  have header : ¬ (f.ip.length < minIpv4 ∨
      f.bytes.length < ethHeader + f.ip.length + udpHeader) := by omega
  have whole : ¬ f.bytes.length < ethHeader + f.ip.length + (udpHeader + f.payload.length) := by
    omega
  have field : ¬ udpHeader + f.payload.length < udpHeader := by omega
  rw [extractUdpPayload, if_neg long, f.ethertype]
  simp only [ne_eq, not_true, if_false, first, f.version, ← f.ip_length, header, protocol,
    f.udpField, field, whole, Nat.add_sub_cancel_left, payloadStart]

theorem extract_bytes (f : UdpFrame) :
    (extractUdpPayload f.bytes).bytes f.bytes = some f.payload := by
  have split : f.bytes.drop f.payloadStart = f.payload ++ f.padding := by
    rw [payloadStart, ← List.drop_drop, f.behind_ip, List.drop_left' f.udp_length]
  rw [f.extract]
  simp only [ExtractedPayload.bytes, Option.map_some, split, List.take_left]

end UdpFrame

/-- What is read in a part of a frame is read in the frame. -/
theorem getD_part {frame : List UInt8} {start n i : Nat} (inside : i < n) :
    ((frame.drop start).take n).getD i 0 = frame.getD (start + i) 0 := by
  simp only [List.getD_eq_getElem?_getD, List.getElem?_take_of_lt inside, List.getElem?_drop]

/-- The frame of what the checks have seen. -/
theorem udpFrame_of_checked {frame : List UInt8} {ihl udpLen : Nat}
    (type : readAt frame 12 2 = 0x0800) (version : (frame.getD ethHeader 0).toNat / 16 = 4)
    (size : ihl = (frame.getD ethHeader 0).toNat % 16 * 4) (options : minIpv4 ≤ ihl)
    (protocol : frame.getD (ethHeader + 9) 0 = 17)
    (field : udpLen = readAt frame (ethHeader + ihl + 4) 2) (least : udpHeader ≤ udpLen)
    (whole : ethHeader + ihl + udpLen ≤ frame.length) : ∃ f : UdpFrame, f.bytes = frame := by
  have cut : ∀ start n, (frame.drop start).take n ++ frame.drop (start + n) = frame.drop start := by
    intro start n
    rw [← List.drop_drop, List.take_append_drop]
  have positive : 20 ≤ ihl := options
  have eight : udpLen - udpHeader + udpHeader = udpLen := Nat.sub_add_cancel least
  simp only [ethHeader, udpHeader] at whole least eight
  have first : ((frame.drop 14).take ihl).getD 0 0 = frame.getD 14 0 :=
    getD_part (by omega)
  have typed : (frame.drop 12).take 2 = [0x08, 0x00] := by
    have long : ((frame.drop 12).take 2).length = 2 := by
      rw [List.length_take, List.length_drop]
      omega
    exact eq_of_ofBytes_eq long type
  refine ⟨{
    stations := frame.take 12
    ip := (frame.drop 14).take ihl
    udp := (frame.drop (14 + ihl)).take 8
    payload := (frame.drop (14 + ihl + 8)).take (udpLen - 8)
    padding := frame.drop (14 + ihl + 8 + (udpLen - 8))
    stations_length := ?_, version := ?_, ip_length := ?_, options := ?_, protocol := ?_
    udp_length := ?_, udp_field := ?_ }, ?_⟩
  · rw [List.length_take]
    omega
  · exact first ▸ version
  · rw [List.length_take, List.length_drop, first]
    simp only [ethHeader] at size
    omega
  · rw [List.length_take, List.length_drop]
    simp only [minIpv4]
    omega
  · exact (getD_part (by omega)).trans protocol
  · rw [List.length_take, List.length_drop]
    simp only [udpHeader]
    omega
  · have shown : (((frame.drop (14 + ihl)).take 8).drop 4).take 2 =
        (frame.drop (14 + ihl + 4)).take 2 := by
      rw [List.drop_take, List.drop_drop, List.take_take]
      rfl
    rw [readAt, shown, List.length_take, List.length_drop]
    simp only [udpHeader]
    simp only [ethHeader, readAt] at field
    omega
  · simp only [UdpFrame.bytes]
    rw [cut, cut, cut, ← typed, cut, List.take_append_drop]

/-- Nothing but such frames has a payload. -/
theorem exists_udpFrame {frame : List UInt8} (found : (extractUdpPayload frame).start ≠ none) :
    ∃ f : UdpFrame, f.bytes = frame := by
  simp only [extractUdpPayload] at found
  split at found
  · exact absurd rfl found
  next long =>
  split at found
  · exact absurd rfl found
  next type =>
  split at found
  · exact absurd rfl found
  next version =>
  split at found
  · exact absurd rfl found
  next header =>
  split at found
  · exact absurd rfl found
  next protocol =>
  split at found
  · exact absurd rfl found
  next field =>
  split at found
  · exact absurd rfl found
  next whole =>
  exact udpFrame_of_checked (not_not.mp type) (not_not.mp version) rfl
    (not_lt.mp (not_or.mp header).1) (not_not.mp protocol) rfl (not_lt.mp field) (not_lt.mp whole)

section Reads

variable {frame : List UInt8}

/-- Two bytes of the frame as a number. -/
def wordReads (data : ByteSpan frame) (offset : Nat) : Option Nat :=
  (data.load offset 2).map ofBytes

theorem wordReads_full {offset : Nat} (fits : offset + 2 ≤ frame.length) :
    wordReads (.full frame) offset = some (readAt frame offset 2) := by
  have loaded : (ByteSpan.full frame).load offset 2 =
      some (((ByteSpan.full frame).bytes.drop offset).take 2) := ByteSpan.load_eq _ fits
  rw [wordReads, loaded, ByteSpan.bytes_full]
  rfl

theorem byteAt_full {i : Nat} (fits : i < frame.length) :
    (ByteSpan.full frame).byteAt i = some (frame.getD i 0) := by
  rw [(ByteSpan.full frame).byteAt_eq fits, ByteSpan.bytes_full]

def extractUdpPayloadReads (frame : List UInt8) : Option ExtractedPayload :=
  let data := ByteSpan.full frame
  if frame.length < ethHeader + minIpv4 + udpHeader then some .failed
  else do
    let type ← wordReads data 12
    if type ≠ 0x0800 then return .failed
    else
      let first ← data.byteAt ethHeader
      if first.toNat / 16 ≠ 4 then return .failed
      else
        let ihl := first.toNat % 16 * 4
        if ihl < minIpv4 ∨ frame.length < ethHeader + ihl + udpHeader then return .failed
        else
          let protocol ← data.byteAt (ethHeader + 9)
          if protocol ≠ 17 then return .failed
          else
            let udpLen ← wordReads data (ethHeader + ihl + 4)
            if udpLen < udpHeader then return .failed
            else if frame.length < ethHeader + ihl + udpLen then return .failed
            else return ⟨udpLen - udpHeader, some (ethHeader + ihl + udpHeader)⟩

/-- Every byte that is read lies in the frame. -/
theorem extractUdpPayloadReads_eq (frame : List UInt8) :
    extractUdpPayloadReads frame = some (extractUdpPayload frame) := by
  simp only [extractUdpPayloadReads, extractUdpPayload]
  by_cases long : frame.length < ethHeader + minIpv4 + udpHeader
  · rw [if_pos long, if_pos long]
  have room := not_lt.mp long
  simp only [ethHeader, minIpv4, udpHeader] at room
  rw [if_neg long, if_neg long, wordReads_full (show 12 + 2 ≤ frame.length by omega),
    byteAt_full (show ethHeader < frame.length by simp only [ethHeader]; omega),
    byteAt_full (show ethHeader + 9 < frame.length by simp only [ethHeader]; omega)]
  simp only [Option.bind_eq_bind, Option.bind_some]
  by_cases type : readAt frame 12 2 ≠ 0x0800
  · rw [if_pos type, if_pos type]
    rfl
  rw [if_neg type, if_neg type]
  by_cases version : (frame.getD ethHeader 0).toNat / 16 ≠ 4
  · rw [if_pos version, if_pos version]
    rfl
  rw [if_neg version, if_neg version]
  by_cases header : (frame.getD ethHeader 0).toNat % 16 * 4 < minIpv4 ∨
      frame.length < ethHeader + (frame.getD ethHeader 0).toNat % 16 * 4 + udpHeader
  · rw [if_pos header, if_pos header]
    rfl
  -- the length field lies in the UDP header, which is whole
  have whole := not_lt.mp (not_or.mp header).2
  have field : ethHeader + (frame.getD ethHeader 0).toNat % 16 * 4 + 4 + 2 ≤ frame.length := by
    simp only [udpHeader] at whole
    omega
  rw [if_neg header, if_neg header, wordReads_full field]
  by_cases protocol : frame.getD (ethHeader + 9) 0 ≠ 17
  · rw [if_pos protocol, if_pos protocol]
    rfl
  rw [if_neg protocol, if_neg protocol]
  simp only [Option.bind_some]
  split
  · rfl
  · split <;> rfl

/-- The payload that is handed out lies in the frame. -/
theorem extractUdpPayload_inside {start : Nat}
    (found : (extractUdpPayload frame).start = some start) :
    start + (extractUdpPayload frame).length ≤ frame.length := by
  obtain ⟨f, rfl⟩ := exists_udpFrame (by rw [found]; exact Option.some_ne_none start)
  rw [f.extract] at found ⊢
  obtain rfl := Option.some.inj found
  have total := f.length_bytes
  simp only
  omega

end Reads

/-- A frame has a payload exactly if it is an Ethernet frame with an IPv4 packet with a whole
UDP datagram, and then it is the payload of that datagram: what pads the frame, the options of
the packet and every other field are passed over. Else the length is zero. Neither the checks
nor the payload reach out of the frame. -/
theorem extractUdpPayload_exact (frame payload : List UInt8) :
    ((extractUdpPayload frame).bytes frame = some payload ↔
        ∃ f : UdpFrame, f.bytes = frame ∧ f.payload = payload) ∧
      ((extractUdpPayload frame).length = 0 ↔
        ∀ f : UdpFrame, f.bytes = frame → f.payload = []) ∧
      extractUdpPayloadReads frame = some (extractUdpPayload frame) ∧
      ∀ start, (extractUdpPayload frame).start = some start →
        start + (extractUdpPayload frame).length ≤ frame.length := by
  have refused : (extractUdpPayload frame).start = none → (extractUdpPayload frame).length = 0 := by
    simp only [extractUdpPayload]
    split_ifs <;> first | exact fun _ => rfl | exact fun none => absurd none (by simp)
  refine ⟨⟨fun read => ?_, ?_⟩, ⟨fun empty f same => ?_, fun all => ?_⟩,
    extractUdpPayloadReads_eq frame, fun start => extractUdpPayload_inside⟩
  · have found : (extractUdpPayload frame).start ≠ none := by
      intro none
      simp [ExtractedPayload.bytes, none] at read
    obtain ⟨f, rfl⟩ := exists_udpFrame found
    exact ⟨f, rfl, Option.some.inj (f.extract_bytes.symm.trans read)⟩
  · rintro ⟨f, rfl, rfl⟩
    exact f.extract_bytes
  · subst same
    rw [f.extract] at empty
    exact List.length_eq_zero_iff.mp empty
  · by_cases found : (extractUdpPayload frame).start = none
    · exact refused found
    · obtain ⟨f, same⟩ := exists_udpFrame found
      rw [← same, f.extract, all f same]
      rfl

end FeedHandler
