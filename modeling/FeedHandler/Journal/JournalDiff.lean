import FeedHandler.Journal.AcceptedJournals
import FeedHandler.Journal.NbboJournalReader
import FeedHandler.Lib.ListBlocks

/-! The tools that compare two journals record by record. Both compare the headers, the numbers
of whole records and then the records in order; what stands behind the last whole record is
not looked at. -/
namespace FeedHandler

open LittleEndian

/-- What a comparison prints. -/
inductive DiffVerdict where
  | notMapped
  | shortHeader
  | headerMismatch
  | recordCountMismatch (lhs rhs : Nat)
  | divergedAtRecord (record : Nat)
  | identical (records : Nat)
  deriving DecidableEq, Repr

def DiffVerdict.exitCode : DiffVerdict → Nat
  | .identical _ => 0
  | _ => 1

namespace JournalDiff

/-- The map of a file; an empty file has none. -/
def openMap (file : Option (List UInt8)) : Option (List UInt8) :=
  file.filter fun bytes => !bytes.isEmpty

/-- The bytes of a record. -/
def recordAt (header size : Nat) (file : List UInt8) (record : Nat) : List UInt8 :=
  (file.drop (header + record * size)).take size

/-- The loop over the records from `i` on, of which `left` are left. -/
def firstDivergence (header size : Nat) (lhs rhs : List UInt8) : Nat → Nat → Option Nat
  | 0, _ => none
  | left + 1, i =>
    if recordAt header size lhs i ≠ recordAt header size rhs i then some i
    else firstDivergence header size lhs rhs left (i + 1)

/-- The comparison for journals with a header and records of these sizes. -/
def diff (header size : Nat) (lhs rhs : Option (List UInt8)) : DiffVerdict :=
  match openMap lhs, openMap rhs with
  | some lhs, some rhs =>
    if lhs.length < header ∨ rhs.length < header then .shortHeader
    else if lhs.take header ≠ rhs.take header then .headerMismatch
    else
      let lrecs := (lhs.length - header) / size
      let rrecs := (rhs.length - header) / size
      if lrecs ≠ rrecs then .recordCountMismatch lrecs rrecs
      else
        match firstDivergence header size lhs rhs lrecs 0 with
        | some i => .divergedAtRecord i
        | none => .identical lrecs
  | _, _ => .notMapped

end JournalDiff

/-- `journal_diff`. -/
def journalDiff : Option (List UInt8) → Option (List UInt8) → DiffVerdict :=
  JournalDiff.diff journalHeaderBytes recordBytes

/-- `nbbo_journal_diff`. -/
def nbboJournalDiff : Option (List UInt8) → Option (List UInt8) → DiffVerdict :=
  JournalDiff.diff journalHeaderBytes nbboRecordBytes

namespace JournalDiff

variable {header size : Nat} {lhs rhs : List UInt8}

/-- The loop finds the first record that differs. -/
theorem firstDivergence_eq_some {left i record : Nat} :
    firstDivergence header size lhs rhs left i = some record ↔
      i ≤ record ∧ record < i + left ∧
        recordAt header size lhs record ≠ recordAt header size rhs record ∧
        ∀ j, i ≤ j → j < record → recordAt header size lhs j = recordAt header size rhs j := by
  induction left generalizing i with
  | zero => simp [firstDivergence]; omega
  | succ left ih =>
    rw [firstDivergence]
    split
    · next differ =>
      constructor
      · intro found
        obtain rfl := Option.some.inj found
        exact ⟨le_rfl, by omega, differ, fun j low high => absurd high (by omega)⟩
      · rintro ⟨low, _, _, before⟩
        by_contra other
        have earlier : i < record := lt_of_le_of_ne low fun same => other (congrArg some same)
        exact differ (before i le_rfl earlier)
    · next same =>
      rw [not_not] at same
      rw [ih]
      constructor
      · rintro ⟨low, high, differ, before⟩
        refine ⟨by omega, by omega, differ, fun j above below => ?_⟩
        by_cases here : j = i
        · exact here ▸ same
        · exact before j (by omega) below
      · rintro ⟨low, high, differ, before⟩
        have further : record ≠ i := fun here => differ (here ▸ same)
        exact ⟨by omega, by omega, differ, fun j above below => before j (by omega) below⟩

theorem firstDivergence_eq_none {left i : Nat} :
    firstDivergence header size lhs rhs left i = none ↔
      ∀ j, i ≤ j → j < i + left → recordAt header size lhs j = recordAt header size rhs j := by
  induction left generalizing i with
  | zero => simp [firstDivergence]; omega
  | succ left ih =>
    rw [firstDivergence]
    split
    · next differ => exact ⟨fun found => absurd found (by simp), fun all =>
        absurd (all i le_rfl (by omega)) differ⟩
    · next same =>
      rw [not_not] at same
      rw [ih]
      constructor
      · intro all j low high
        by_cases here : j = i
        · exact here ▸ same
        · exact all j (by omega) (by omega)
      · exact fun all j low high => all j (by omega) (by omega)

/-- Records that agree one by one agree as the part of the file they make up. -/
theorem take_eq_iff (front : lhs.take header = rhs.take header) {count : Nat}
    (left : header + count * size ≤ lhs.length) (right : header + count * size ≤ rhs.length) :
    lhs.take (header + count * size) = rhs.take (header + count * size) ↔
      ∀ j < count, recordAt header size lhs j = recordAt header size rhs j := by
  induction count with
  | zero => simpa using front
  | succ count ih =>
    have cut : ∀ file : List UInt8, file.take (header + (count + 1) * size) =
        file.take (header + count * size) ++ recordAt header size file count := by
      intro file
      rw [recordAt, Nat.succ_mul, ← Nat.add_assoc, List.take_add]
    rw [Nat.succ_mul] at left right
    have long : (lhs.take (header + count * size)).length =
        (rhs.take (header + count * size)).length := by
      rw [List.length_take_of_le (by omega), List.length_take_of_le (by omega)]
    rw [cut, cut, Nat.forall_lt_succ_right, ← ih (by omega) (by omega)]
    exact ⟨fun same => List.append_inj same long, fun both => by rw [both.1, both.2]⟩

/-- The verdict on two files that are both mapped and have whole headers. -/
theorem diff_mapped (positive : 0 < header) (left : header ≤ lhs.length)
    (right : header ≤ rhs.length) :
    diff header size (some lhs) (some rhs) =
      if lhs.take header ≠ rhs.take header then .headerMismatch
      else if (lhs.length - header) / size ≠ (rhs.length - header) / size then
        .recordCountMismatch ((lhs.length - header) / size) ((rhs.length - header) / size)
      else
        match firstDivergence header size lhs rhs ((lhs.length - header) / size) 0 with
        | some i => .divergedAtRecord i
        | none => .identical ((lhs.length - header) / size) := by
  have mapped : ∀ file : List UInt8, header ≤ file.length → openMap (some file) = some file := by
    intro file long
    have some_bytes : file.isEmpty = false := by
      cases file with
      | nil => exact absurd long (by simp; omega)
      | cons => rfl
    simp [openMap, some_bytes]
  have long : ¬ (lhs.length < header ∨ rhs.length < header) := by omega
  rw [diff, mapped lhs left, mapped rhs right]
  simp only [long, if_false]

/-- Files without whole headers are not compared. -/
theorem diff_short (size : Nat) (short : ¬ (header ≤ lhs.length ∧ header ≤ rhs.length)) :
    diff header size (some lhs) (some rhs) = .notMapped ∨
      diff header size (some lhs) (some rhs) = .shortHeader := by
  have less : lhs.length < header ∨ rhs.length < header := by omega
  rw [diff]
  split
  · next mapped other =>
    have same : ∀ file got, openMap (some file) = some got → got = file := by
      intro file got kept
      exact (Option.some.inj (Option.filter_eq_some_iff.mp kept).1).symm
    obtain rfl := same _ _ mapped
    obtain rfl := same _ _ other
    rw [if_pos less]
    exact .inr rfl
  · exact .inl rfl

/-- The whole records of a file lie in it. -/
theorem records_inside {file : List UInt8} (long : header ≤ file.length) {records : Nat}
    (few : records ≤ (file.length - header) / size) : header + records * size ≤ file.length := by
  have room := (Nat.mul_le_mul_right size few).trans (Nat.div_mul_le_self _ size)
  omega

/-- The journals are called identical exactly if they agree up to their last whole records. -/
theorem diff_identical_iff (positive : 0 < header) (records : Nat) :
    diff header size (some lhs) (some rhs) = .identical records ↔
      header ≤ lhs.length ∧ header ≤ rhs.length ∧ (lhs.length - header) / size = records ∧
        (rhs.length - header) / size = records ∧
        lhs.take (header + records * size) = rhs.take (header + records * size) := by
  by_cases long : header ≤ lhs.length ∧ header ≤ rhs.length
  · obtain ⟨left, right⟩ := long
    rw [diff_mapped positive left right]
    constructor
    · intro verdict
      split at verdict
      · cases verdict
      · next front =>
        rw [not_not] at front
        split at verdict
        · cases verdict
        · next counts =>
          rw [not_not] at counts
          split at verdict
          · cases verdict
          · next none_found =>
            obtain rfl := DiffVerdict.identical.inj verdict
            have agree := firstDivergence_eq_none.mp none_found
            refine ⟨left, right, rfl, counts.symm, ?_⟩
            apply (take_eq_iff front (records_inside left le_rfl)
              (records_inside right counts.le)).mpr
            exact fun j inside => agree j (Nat.zero_le j) (by omega)
    · rintro ⟨_, _, rfl, counts, same⟩
      have front : lhs.take header = rhs.take header := by
        have cut := congrArg (List.take header) same
        rwa [List.take_take, List.take_take, Nat.min_eq_left (Nat.le_add_right _ _)] at cut
      have agree := (take_eq_iff front (records_inside left le_rfl)
        (records_inside right counts.ge)).mp same
      have none_found : firstDivergence header size lhs rhs ((lhs.length - header) / size) 0 = none :=
        firstDivergence_eq_none.mpr fun j _ inside => agree j (by omega)
      rw [if_neg (not_not.mpr front), if_neg (not_not.mpr counts.symm), none_found]
  · constructor
    · intro verdict
      rcases diff_short size long with short | short <;> rw [short] at verdict <;>
        cases verdict
    · exact fun both => absurd ⟨both.1, both.2.1⟩ long

/-- They are called diverged at a record exactly if it is the first one that differs. -/
theorem diff_diverged_iff (positive : 0 < header) (record : Nat) :
    diff header size (some lhs) (some rhs) = .divergedAtRecord record ↔
      header ≤ lhs.length ∧ header ≤ rhs.length ∧
        (lhs.length - header) / size = (rhs.length - header) / size ∧
        record < (lhs.length - header) / size ∧
        lhs.take (header + record * size) = rhs.take (header + record * size) ∧
        recordAt header size lhs record ≠ recordAt header size rhs record := by
  by_cases long : header ≤ lhs.length ∧ header ≤ rhs.length
  · obtain ⟨left, right⟩ := long
    rw [diff_mapped positive left right]
    constructor
    · intro verdict
      split at verdict
      · cases verdict
      · next front =>
        rw [not_not] at front
        split at verdict
        · cases verdict
        · next counts =>
          rw [not_not] at counts
          split at verdict
          · next found =>
            obtain rfl := DiffVerdict.divergedAtRecord.inj verdict
            obtain ⟨_, inside, differ, before⟩ := firstDivergence_eq_some.mp found
            rw [Nat.zero_add] at inside
            refine ⟨left, right, counts, inside, ?_, differ⟩
            apply (take_eq_iff front (records_inside left inside.le)
              (records_inside right (counts ▸ inside.le))).mpr
            exact fun j low => before j (Nat.zero_le j) low
          · cases verdict
    · rintro ⟨_, _, counts, inside, same, differ⟩
      have front : lhs.take header = rhs.take header := by
        have cut := congrArg (List.take header) same
        rwa [List.take_take, List.take_take, Nat.min_eq_left (Nat.le_add_right _ _)] at cut
      have agree := (take_eq_iff front (records_inside left inside.le)
        (records_inside right (counts ▸ inside.le))).mp same
      have found : firstDivergence header size lhs rhs ((lhs.length - header) / size) 0 =
          some record := firstDivergence_eq_some.mpr
        ⟨Nat.zero_le _, by omega, differ, fun j _ low => agree j low⟩
      rw [if_neg (not_not.mpr front), if_neg (not_not.mpr counts), found]
  · constructor
    · intro verdict
      rcases diff_short size long with short | short <;> rw [short] at verdict <;>
        cases verdict
    · exact fun both => absurd ⟨both.1, both.2.1⟩ long

end JournalDiff

theorem word32At_take {bytes : List UInt8} {offset n : Nat} (inside : offset + 4 ≤ n) :
    word32At (bytes.take n) offset = word32At bytes offset := by
  rw [word32At, word32At, readAt, readAt, List.drop_take, List.take_take,
    Nat.min_eq_left (by omega)]

/-- A file with the header of another one has that header. -/
theorem header_shared {header lhs rhs data : List UInt8}
    (front : lhs.take header.length = rhs.take header.length) (split : lhs = header ++ data) :
    ∃ other, rhs = header ++ other := by
  refine ⟨rhs.drop header.length, ?_⟩
  have begins : rhs.take header.length = header := by rw [← front, split, List.take_left]
  conv_lhs => rw [← List.take_append_drop header.length rhs, begins]

/-- What is refused hands out nothing. -/
theorem JournalReader.entries_of_refused {file : Option (List UInt8)}
    (refused : ¬ (readFile file).opened = true) : (readFile file).entries = [] := by
  have unmapped : (openFile {} file).1.base = none := by
    simp only [readFile, openFile] at refused ⊢
    split at refused
    · rfl
    · split at refused
      · next short => rw [if_pos short]; rfl
      · next long =>
        rw [if_neg long]
        split at refused
        · next magic => rw [if_pos magic]; rfl
        · next magic =>
          rw [if_neg magic]
          split at refused
          · next version => rw [if_pos version]; rfl
          · exact absurd rfl refused
  simp only [readFile, drain, next, unmapped]

theorem NbboJournalReader.images_of_refused {file : Option (List UInt8)}
    (refused : ¬ (readFile file).opened = true) : (readFile file).images = [] := by
  have unmapped : (openFile {} file).1.base = none := by
    simp only [readFile, openFile] at refused ⊢
    split at refused
    · rfl
    · split at refused
      · next short => rw [if_pos short]; rfl
      · next long =>
        rw [if_neg long]
        split at refused
        · next header => rw [if_pos header]; rfl
        · exact absurd rfl refused
  simp only [readFile, drain, next, unmapped]

/-- Journals that are called identical are read alike, whatever stands behind their last whole
records. -/
theorem identical_entries {lhs rhs : List UInt8} {records : Nat}
    (verdict : journalDiff (some lhs) (some rhs) = .identical records) :
    (JournalReader.readFile (some lhs)).opened = (JournalReader.readFile (some rhs)).opened ∧
      (JournalReader.readFile (some lhs)).entries = (JournalReader.readFile (some rhs)).entries := by
  obtain ⟨left, right, counted, others, same⟩ :=
    (JournalDiff.diff_identical_iff (by decide) records).mp verdict
  have front : lhs.take journalHeader.length = rhs.take journalHeader.length := by
    have cut := congrArg (List.take journalHeaderBytes) same
    rwa [List.take_take, List.take_take, Nat.min_eq_left (Nat.le_add_right _ _)] at cut
  by_cases opened : (JournalReader.readFile (some lhs)).opened = true
  · obtain ⟨data, rfl⟩ := JournalReader.readFile_opened opened
    obtain ⟨other, rfl⟩ := header_shared front rfl
    obtain ⟨stored, rest, rfl, framed, unframed⟩ := exists_records data
    have header : journalHeader.length = journalHeaderBytes := rfl
    rw [List.length_append, header, Nat.add_sub_cancel_left] at counted others
    rw [← header, List.take_length_add_append, List.take_length_add_append] at same
    obtain ⟨tail, rfl, whole, begins⟩ := ListBlocks.shared_rest (by decide) counted others
      (List.append_cancel_left same) rfl (length_recordsBytes stored)
    have ends : Unframed tail := by
      rintro ⟨length, fits⟩
      have more := whole.mp fits
      have field := begins more
      refine unframed ⟨?_, more⟩
      rw [← length, ← word32At_take (n := recordBytes) (by decide), ← field,
        word32At_take (by decide)]
    rw [JournalReader.readFile_records framed unframed, JournalReader.readFile_records framed ends]
    exact ⟨rfl, rfl⟩
  · have refused : ¬ (JournalReader.readFile (some rhs)).opened = true := by
      intro other
      obtain ⟨data, split⟩ := JournalReader.readFile_opened other
      obtain ⟨mine, rfl⟩ := header_shared front.symm split
      rw [JournalReader.readFile_header] at opened
      exact opened rfl
    rw [JournalReader.entries_of_refused opened, JournalReader.entries_of_refused refused]
    simp [opened, refused]

theorem identical_images {lhs rhs : List UInt8} {records : Nat}
    (verdict : nbboJournalDiff (some lhs) (some rhs) = .identical records) :
    (NbboJournalReader.readFile (some lhs)).opened =
        (NbboJournalReader.readFile (some rhs)).opened ∧
      (NbboJournalReader.readFile (some lhs)).images =
        (NbboJournalReader.readFile (some rhs)).images := by
  obtain ⟨left, right, counted, others, same⟩ :=
    (JournalDiff.diff_identical_iff (by decide) records).mp verdict
  have front : lhs.take nbboJournalHeader.length = rhs.take nbboJournalHeader.length := by
    have cut := congrArg (List.take journalHeaderBytes) same
    rwa [List.take_take, List.take_take, Nat.min_eq_left (Nat.le_add_right _ _)] at cut
  by_cases opened : (NbboJournalReader.readFile (some lhs)).opened = true
  · obtain ⟨data, mapped⟩ := NbboJournalReader.openFile_opened opened
    obtain rfl := Option.some.inj mapped
    obtain ⟨other, rfl⟩ := header_shared front rfl
    obtain ⟨stored, rest, rfl, framed, unframed⟩ :=
      SealedRecord.exists_sealed nbboEventBytes data
    have header : nbboJournalHeader.length = journalHeaderBytes := rfl
    have size : SealedRecord.headerSize + nbboEventBytes = nbboRecordBytes := rfl
    rw [List.length_append, header, Nat.add_sub_cancel_left] at counted others
    rw [← header, List.take_length_add_append, List.take_length_add_append] at same
    obtain ⟨tail, rfl, whole, begins⟩ := ListBlocks.shared_rest (by decide) counted others
      (List.append_cancel_left same) rfl (SealedRecord.length_sealedBytes stored)
    have ends : SealedRecord.Unsealed nbboEventBytes tail := by
      rintro ⟨length, fits⟩
      have more := whole.mp fits
      have field := begins more
      refine unframed ⟨?_, more⟩
      rw [← length, ← word32At_take (n := nbboRecordBytes) (by decide), ← field,
        word32At_take (by decide)]
    rw [NbboJournalReader.readFile_records framed unframed,
      NbboJournalReader.readFile_records framed ends]
    exact ⟨rfl, rfl⟩
  · have refused : ¬ (NbboJournalReader.readFile (some rhs)).opened = true := by
      intro other
      obtain ⟨data, mapped⟩ := NbboJournalReader.openFile_opened other
      obtain ⟨mine, rfl⟩ := header_shared front.symm (Option.some.inj mapped)
      rw [NbboJournalReader.readFile, NbboJournalReader.openFile_header] at opened
      exact opened rfl
    rw [NbboJournalReader.images_of_refused opened, NbboJournalReader.images_of_refused refused]
    simp [opened, refused]

/-- Both files have whole headers and this number of whole records, and agree up to there. -/
structure SameRecords (size : Nat) (lhs rhs : List UInt8) (records : Nat) : Prop where
  left : journalHeaderBytes ≤ lhs.length
  right : journalHeaderBytes ≤ rhs.length
  counted : (lhs.length - journalHeaderBytes) / size = records
  others : (rhs.length - journalHeaderBytes) / size = records
  same : lhs.take (journalHeaderBytes + records * size) =
    rhs.take (journalHeaderBytes + records * size)

/-- The files have the same number of whole records, agree in front of this one and not in it. -/
structure FirstDifference (size : Nat) (lhs rhs : List UInt8) (record : Nat) : Prop where
  left : journalHeaderBytes ≤ lhs.length
  right : journalHeaderBytes ≤ rhs.length
  counted : (lhs.length - journalHeaderBytes) / size = (rhs.length - journalHeaderBytes) / size
  inside : record < (lhs.length - journalHeaderBytes) / size
  before : lhs.take (journalHeaderBytes + record * size) =
    rhs.take (journalHeaderBytes + record * size)
  differ : JournalDiff.recordAt journalHeaderBytes size lhs record ≠
    JournalDiff.recordAt journalHeaderBytes size rhs record

/-- Both tools call files identical exactly if their headers and all their whole records agree,
and name a record exactly if it is the first one that differs. Files that are called identical
are opened or refused alike and give a reader the same events. -/
theorem journals_compared (lhs rhs : List UInt8) (record : Nat) :
    (journalDiff (some lhs) (some rhs) = .identical record ↔
        SameRecords recordBytes lhs rhs record) ∧
      (journalDiff (some lhs) (some rhs) = .divergedAtRecord record ↔
        FirstDifference recordBytes lhs rhs record) ∧
      (journalDiff (some lhs) (some rhs) = .identical record →
        (JournalReader.readFile (some lhs)).opened = (JournalReader.readFile (some rhs)).opened ∧
          (JournalReader.readFile (some lhs)).entries =
            (JournalReader.readFile (some rhs)).entries) ∧
      (nbboJournalDiff (some lhs) (some rhs) = .identical record ↔
        SameRecords nbboRecordBytes lhs rhs record) ∧
      (nbboJournalDiff (some lhs) (some rhs) = .divergedAtRecord record ↔
        FirstDifference nbboRecordBytes lhs rhs record) ∧
      (nbboJournalDiff (some lhs) (some rhs) = .identical record →
        (NbboJournalReader.readFile (some lhs)).opened =
            (NbboJournalReader.readFile (some rhs)).opened ∧
          (NbboJournalReader.readFile (some lhs)).images =
            (NbboJournalReader.readFile (some rhs)).images) := by
  have alike : ∀ size, JournalDiff.diff journalHeaderBytes size (some lhs) (some rhs) =
      .identical record ↔ SameRecords size lhs rhs record := by
    intro size
    rw [JournalDiff.diff_identical_iff (by decide)]
    constructor
    · rintro ⟨left, right, counted, others, same⟩
      exact ⟨left, right, counted, others, same⟩
    · rintro ⟨left, right, counted, others, same⟩
      exact ⟨left, right, counted, others, same⟩
  have apart : ∀ size, JournalDiff.diff journalHeaderBytes size (some lhs) (some rhs) =
      .divergedAtRecord record ↔ FirstDifference size lhs rhs record := by
    intro size
    rw [JournalDiff.diff_diverged_iff (by decide)]
    constructor
    · rintro ⟨left, right, counted, inside, before, differ⟩
      exact ⟨left, right, counted, inside, before, differ⟩
    · rintro ⟨left, right, counted, inside, before, differ⟩
      exact ⟨left, right, counted, inside, before, differ⟩
  exact ⟨alike _, apart _, identical_entries, alike _, apart _, identical_images⟩

end FeedHandler
