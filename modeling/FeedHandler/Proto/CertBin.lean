import FeedHandler.Lib.LengthPrefixed

/-! A dump of a certification feed: ten bytes, then blocks of a timestamp, a length and the
payload of a packet. -/
namespace FeedHandler

open BigEndian

structure CertBinReader where
  data : List UInt8
  offset : Nat := 10
  deriving DecidableEq, Repr

namespace CertBinReader

/-- The loop of `next`. Only a block without a payload lets it turn again, and it advances
then. -/
def scan : Nat → CertBinReader → Option (List UInt8) × CertBinReader
  | 0, r => (none, r)
  | fuel + 1, r =>
    if r.data.length < r.offset + 10 then (none, r)
    else
      let stamped := { r with offset := r.offset + 8 }
      if r.data.length < stamped.offset + 2 then (none, stamped)
      else
        let blockSize := readAt r.data stamped.offset 2
        let sized := { r with offset := stamped.offset + 2 }
        if blockSize = 0 then scan fuel sized
        else if r.data.length < sized.offset + blockSize then (none, sized)
        else
          (some ((r.data.drop sized.offset).take blockSize),
            { r with offset := sized.offset + blockSize })

/-- `CertBinReader::next`: the payload, if it returns true. -/
def next (r : CertBinReader) : Option (List UInt8) × CertBinReader := scan (r.data.length + 1) r

/-- `next` until it returns false, for at most the given number of payloads. -/
def drain : Nat → CertBinReader → List (List UInt8) × CertBinReader
  | 0, r => ([], r)
  | fuel + 1, r =>
    match r.next with
    | (none, r) => ([], r)
    | (some payload, r) => (payload :: (drain fuel r).1, (drain fuel r).2)

end CertBinReader

/-- The payloads of a file. -/
def certBinPayloads (file : List UInt8) : List (List UInt8) :=
  (CertBinReader.drain (file.length + 1) { data := file }).1

/-- A block of a dump. -/
structure CertBlock where
  stamp : List UInt8
  payload : List UInt8
  stamp_length : stamp.length = 8
  fits : payload.length < 256 ^ 2

namespace CertBlock

def bytes (block : CertBlock) : List UInt8 := block.stamp ++ LengthPrefixed.encode 2 block.payload

/-- What the blocks hold without those that hold nothing. -/
def payloads (blocks : List CertBlock) : List (List UInt8) :=
  (blocks.map payload).filter fun payload => !payload.isEmpty

/-- The rest ends within the header of a block or within the payload it announces. -/
def Cut (rest : List UInt8) : Prop := LengthPrefixed.Truncated 2 (rest.drop 8)

variable {block : CertBlock} {data rest : List UInt8}

theorem length_bytes : block.bytes.length = 10 + block.payload.length := by
  rw [bytes, List.length_append, block.stamp_length, LengthPrefixed.length_encode]
  omega

theorem behind_stamp :
    (block.bytes ++ rest).drop 8 = LengthPrefixed.encode 2 block.payload ++ rest := by
  rw [bytes, List.append_assoc, List.drop_left' block.stamp_length]

theorem readAt_bytes : readAt (block.bytes ++ rest) 8 2 = block.payload.length := by
  have length : readAt (LengthPrefixed.encode 2 block.payload ++ rest) 0 2 = block.payload.length :=
    LengthPrefixed.readAt_encode block.fits
  rw [← behind_stamp] at length
  simpa [readAt] using length

/-- A block in front, taken apart. -/
theorem exists_block (whole : ¬ Cut data) : ∃ block : CertBlock, ∃ rest, data = block.bytes ++ rest := by
  obtain ⟨payload, _, fits, split⟩ := LengthPrefixed.eq_encode whole
  have long : 8 ≤ data.length := by
    by_contra short
    have empty : data.drop 8 = [] := List.drop_of_length_le (by omega)
    exact whole (.inl (by rw [empty]; decide))
  refine ⟨⟨data.take 8, payload, List.length_take_of_le long, fits⟩,
    (data.drop 8).drop (2 + payload.length), ?_⟩
  rw [bytes, List.append_assoc, ← split, List.take_append_drop]

end CertBlock

namespace CertBinReader

variable {r : CertBinReader} {block : CertBlock} {rest : List UInt8}

/-- The reader behind a block. -/
def past (r : CertBinReader) (block : CertBlock) : CertBinReader :=
  { r with offset := r.offset + block.bytes.length }

theorem fits_of_ahead (ahead : r.data.drop r.offset = block.bytes ++ rest) :
    r.offset + (10 + block.payload.length) ≤ r.data.length := by
  have size := congrArg List.length ahead
  rw [List.length_drop, List.length_append, CertBlock.length_bytes] at size
  omega

theorem ahead_past (ahead : r.data.drop r.offset = block.bytes ++ rest) :
    (r.past block).data.drop (r.past block).offset = rest := by
  rw [past, ← List.drop_drop, ahead, List.drop_left]

/-- One turn of the loop at a block. -/
theorem scan_block (ahead : r.data.drop r.offset = block.bytes ++ rest) (fuel : Nat) :
    scan (fuel + 1) r = if block.payload = [] then scan fuel (r.past block)
      else (some block.payload, r.past block) := by
  have fits := fits_of_ahead ahead
  have header : ¬ r.data.length < r.offset + 10 := by omega
  have again : ¬ r.data.length < r.offset + 8 + 2 := by omega
  have size : readAt r.data (r.offset + 8) 2 = block.payload.length := by
    have field : readAt (block.bytes ++ rest) 8 2 = block.payload.length := CertBlock.readAt_bytes
    rw [← ahead] at field
    simpa [readAt] using field
  have place : (r.data.drop (r.offset + 8 + 2)).take block.payload.length = block.payload := by
    have inner : ((LengthPrefixed.encode 2 block.payload ++ rest).drop 2).take
        block.payload.length = block.payload := LengthPrefixed.take_encode
    rw [← CertBlock.behind_stamp, ← ahead, List.drop_drop, List.drop_drop] at inner
    exact inner
  rw [scan, if_neg header]
  simp only [if_neg again, size, List.length_eq_zero_iff]
  split
  · next empty =>
    have total : block.bytes.length = 8 + 2 := by rw [CertBlock.length_bytes, empty]; rfl
    rw [past, total, Nat.add_assoc]
  · have room : ¬ r.data.length < r.offset + 8 + 2 + block.payload.length := by omega
    rw [if_neg room, place, past, CertBlock.length_bytes]
    simp only [Nat.add_assoc, Nat.reduceAdd]

/-- A cut block ends the loop. -/
theorem scan_cut (cut : CertBlock.Cut (r.data.drop r.offset)) (fuel : Nat) :
    scan (fuel + 1) r = (none, (scan 1 r).2) := by
  rw [CertBlock.Cut, List.drop_drop, LengthPrefixed.Truncated, List.length_drop] at cut
  rw [scan, scan]
  split
  · rfl
  · next header =>
    have again : ¬ r.data.length < r.offset + 8 + 2 := by omega
    have size : readAt (r.data.drop (r.offset + 8)) 0 2 = readAt r.data (r.offset + 8) 2 := by
      simp [readAt]
    have short : r.data.length < r.offset + 8 + 2 + readAt r.data (r.offset + 8) 2 := by omega
    have some_bytes : ¬ readAt r.data (r.offset + 8) 2 = 0 := by omega
    simp only [if_neg again, if_neg some_bytes, if_pos short]

/-- Fuel for one turn more than there is room for blocks changes nothing. -/
theorem scan_fuel {fuel : Nat} (enough : r.data.length < r.offset + (fuel + 1) * 10) :
    scan (fuel + 2) r = scan (fuel + 1) r := by
  induction fuel generalizing r with
  | zero =>
    have cut : CertBlock.Cut (r.data.drop r.offset) := by
      left
      rw [List.drop_drop, List.length_drop]
      omega
    exact (scan_cut cut _).trans (scan_cut cut _).symm
  | succ fuel ih =>
    by_cases cut : CertBlock.Cut (r.data.drop r.offset)
    · exact (scan_cut cut _).trans (scan_cut cut _).symm
    · obtain ⟨block, rest, ahead⟩ := CertBlock.exists_block cut
      rw [scan_block ahead, scan_block ahead, ih]
      simp only [past, CertBlock.length_bytes]
      omega

/-- A payload is handed out, an empty one left behind. -/
theorem next_block (ahead : r.data.drop r.offset = block.bytes ++ rest) :
    r.next = if block.payload = [] then (r.past block).next
      else (some block.payload, r.past block) := by
  have fits := fits_of_ahead ahead
  obtain ⟨fuel, long⟩ : ∃ fuel, r.data.length = fuel + 1 := ⟨r.data.length - 1, by omega⟩
  have further : scan (fuel + 1) (r.past block) = scan (fuel + 2) (r.past block) := by
    refine (scan_fuel ?_).symm
    simp only [past, CertBlock.length_bytes]
    omega
  have same : (r.past block).data.length = fuel + 1 := long
  rw [next, next, same, long, scan_block ahead, further]

/-- Run lemma: of the blocks in front of a cut the payloads are handed out. -/
theorem drain_blocks {blocks : List CertBlock}
    (ahead : r.data.drop r.offset = blocks.flatMap CertBlock.bytes ++ rest)
    (cut : CertBlock.Cut rest) (fuel : Nat) :
    (drain ((CertBlock.payloads blocks).length + (fuel + 1)) r).1 = CertBlock.payloads blocks := by
  induction blocks generalizing r with
  | nil =>
    have stopped : r.next.1 = none := by
      have here : CertBlock.Cut (r.data.drop r.offset) := ahead ▸ cut
      rw [next, scan_cut here]
    rw [← Nat.add_assoc, drain]
    split
    · rfl
    · next found => simp [found] at stopped
  | cons block blocks ih =>
    rw [List.flatMap_cons, List.append_assoc] at ahead
    have later := ih (ahead_past ahead)
    have step := next_block ahead
    cases payload : block.payload with
    | nil =>
      have skipped : CertBlock.payloads (block :: blocks) = CertBlock.payloads blocks := by
        simp [CertBlock.payloads, payload]
      rw [if_pos payload] at step
      have turn : ∀ n, drain (n + 1) r = drain (n + 1) (r.past block) := by
        intro n
        rw [drain, drain, step]
      rw [skipped, ← Nat.add_assoc, turn]
      exact later
    | cons byte bytes =>
      have filled : block.payload ≠ [] := by simp [payload]
      have kept : CertBlock.payloads (block :: blocks) =
          block.payload :: CertBlock.payloads blocks := by
        simp [CertBlock.payloads, payload]
      rw [if_neg filled] at step
      rw [kept, List.length_cons, Nat.add_right_comm, drain, step]
      simp only [later]

end CertBinReader

theorem CertBlock.length_payloads_le {file rest : List UInt8} {blocks : List CertBlock}
    (split : file.drop 10 = blocks.flatMap CertBlock.bytes ++ rest) :
    (CertBlock.payloads blocks).length ≤ file.length := by
  have kept := List.length_filter_le (fun payload : List UInt8 => !payload.isEmpty)
    (blocks.map CertBlock.payload)
  have size := congrArg List.length split
  have room : blocks.length ≤ (blocks.flatMap CertBlock.bytes).length := by
    clear split kept size
    induction blocks with
    | nil => exact Nat.zero_le _
    | cons block blocks ih =>
      rw [List.flatMap_cons, List.length_append, CertBlock.length_bytes, List.length_cons]
      omega
  rw [List.length_map] at kept
  rw [List.length_drop, List.length_append] at size
  exact kept.trans (by omega)

/-- Whatever a dump holds behind its first ten bytes, it is blocks and something that is cut,
and the payloads that are not empty are handed out in order. -/
theorem certBinPayloads_blocks {file rest : List UInt8} {blocks : List CertBlock}
    (split : file.drop 10 = blocks.flatMap CertBlock.bytes ++ rest) (cut : CertBlock.Cut rest) :
    certBinPayloads file = CertBlock.payloads blocks := by
  obtain ⟨fuel, long⟩ := Nat.exists_eq_add_of_le (CertBlock.length_payloads_le split)
  rw [certBinPayloads, long, Nat.add_assoc]
  exact CertBinReader.drain_blocks (r := { data := file }) split cut fuel

end FeedHandler
