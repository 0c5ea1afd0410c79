import TrapChat.Client.Media

/-!
The round trip of a media transfer: the chunks of a file that are handed to an
assembler one after the other, in any order and among the chunks of other
transfers, give the file back with the last one.

What the assembler knows of the transfer is determined by the set of chunks it
has been handed, `gathered`. The chunks of other transfers leave it alone, since
no two open transfers share a record.
-/

namespace TrapChat.Client

namespace MediaAssembler

/-! ### Records -/

/-- Every open transfer has a record of its own. -/
structure Valid (m : MediaAssembler) : Prop where
  lt : ∀ id ref, m.transfers.lookup id = some ref → ref < m.allocated
  injective : ∀ id id' ref, m.transfers.lookup id = some ref →
    m.transfers.lookup id' = some ref → id = id'

/-- The transfer is left alone. -/
structure Frames (id : String) (m m' : MediaAssembler) : Prop where
  valid : Valid m'
  find : m'.find id = m.find id
  timers : id ∈ m'.timers ↔ id ∈ m.timers

theorem valid_new : Valid new := ⟨by simp [new], by simp [new]⟩

theorem Frames.refl {id : String} {m : MediaAssembler} (hm : Valid m) : Frames id m m :=
  ⟨hm, rfl, .rfl⟩

theorem Frames.trans {id : String} {m m' m'' : MediaAssembler} (h : Frames id m m')
    (h' : Frames id m' m'') : Frames id m m'' :=
  ⟨h'.valid, h'.find.trans h.find, h'.timers.trans h.timers⟩

section
variable {m : MediaAssembler} {id other : String} {ref : TransferRef}

theorem lookup_openTransfer (m : MediaAssembler) (other id : String) (total : ℕ) :
    (m.openTransfer other total).transfers.lookup id =
      if id = other then some m.allocated else m.transfers.lookup id := by
  split
  · next h =>
    subst h
    exact Finmap.lookup_insert _
  · next h => exact Finmap.lookup_insert_of_ne _ h

theorem lookup_forget (m : MediaAssembler) (other id : String) :
    (m.forget other).transfers.lookup id =
      if id = other then none else m.transfers.lookup id := by
  split
  · next h =>
    subst h
    exact Finmap.lookup_erase _ _
  · next h => exact Finmap.lookup_erase_ne h

theorem Valid.openTransfer (hm : Valid m) (other : String) (total : ℕ) :
    Valid (m.openTransfer other total) := by
  refine ⟨fun i r h => ?_, fun i i' r h h' => ?_⟩
  · rw [lookup_openTransfer] at h
    split at h
    · obtain rfl := Option.some.inj h
      exact Nat.lt_succ_self _
    · exact (hm.lt i r h).trans (Nat.lt_succ_self _)
  · rw [lookup_openTransfer] at h h'
    split at h <;> split at h'
    · next e e' => exact e.trans e'.symm
    · exact absurd (Option.some.inj h) (hm.lt i' r h').ne'
    · exact absurd (Option.some.inj h') (hm.lt i r h).ne'
    · exact hm.injective i i' r h h'

theorem Valid.forget (hm : Valid m) (other : String) : Valid (m.forget other) := by
  refine ⟨fun i r h => ?_, fun i i' r h h' => ?_⟩
  · rw [lookup_forget] at h
    split at h
    · cases h
    · exact hm.lt i r h
  · rw [lookup_forget] at h h'
    split at h <;> split at h'
    · cases h
    · cases h
    · cases h'
    · exact hm.injective i i' r h h'

end

/-! ### Chunks of other transfers -/

section
variable {m : MediaAssembler} {id : String} {c : Chunk}

end

/-- The transfer that a message names. -/
def payloadId : PayloadData → Option String
  | .text s => (MediaPayload.parse s).bind MediaPayload.transferId
  | .object p => p.transferId

theorem payloadId_of_accept {payload : PayloadData} {c : Chunk}
    (h : accept payload = some c) : payloadId payload = some c.transferId := by
  have hfields : ∀ p : MediaPayload, acceptFields p = some c → p.transferId = some c.transferId := by
    intro p hp
    simp only [acceptFields, Option.bind_eq_bind, Option.bind_eq_some_iff] at hp
    obtain ⟨transferId, htransfer, seq, -, total, -, chunk, -, hc⟩ := hp
    split at hc
    · cases hc
    · split at hc
      · cases hc
      · split at hc
        · cases hc
        · rw [htransfer, ← Option.some.inj hc]
  cases payload with
  | text s =>
      obtain ⟨p, hp, hc⟩ := Option.bind_eq_some_iff.mp h
      rw [payloadId, hp]
      exact hfields p hc
  | object p => exact hfields p h

end MediaAssembler

/-! ### The envelope encoding -/

section
variable {W : AesGcm} (hW : W.Lawful) (key : W.Key) (iv : ℕ) (chunkData : Bytes)
  {metadata : MediaEnvelope}

omit hW in
/-- What is serialised within the bounds is accepted. -/
theorem accept_stringify {c : Chunk} (hid : c.transferId ≠ "") (hchunk : c.chunk ≠ "")
    (hseq : c.seq < c.total) (htotal : c.total ≤ MAX_CHUNKS) :
    accept (.text (MediaPayload.stringify
      ⟨some c.transferId, some c.seq, some c.total, some c.chunk⟩)) = some c := by
  simp only [accept, MediaPayload.parse_stringify, Option.bind_some, acceptFields,
    Option.bind_eq_bind]
  rw [if_neg, if_neg, if_neg]
  · rw [Int.toNat_natCast, Int.toNat_natCast]
  · omega
  · omega
  · rintro (h | h | h)
    · exact hid h
    · omega
    · exact hchunk h

include hW

theorem openEnvelope_encrypt :
    openEnvelope W key (encryptMediaEnvelope W key iv chunkData metadata) =
      some { metadata with data := some (Base64.encode chunkData) } := by
  rw [openEnvelope, encryptMediaEnvelope, hW.decrypt_encrypt, Option.bind_some,
    MediaEnvelope.parse_stringify]

/-- **The envelope's round trip.** -/
theorem decryptMediaEnvelope_encrypt (hdata : metadata.data = none) :
    decryptMediaEnvelope W key (encryptMediaEnvelope W key iv chunkData metadata) =
      some (chunkData, metadata) := by
  have hdecode : Base64.decodeForgiving (Base64.encode chunkData) = some chunkData := by
    rw [Base64.decodeForgiving, Base64.encode, String.toList_ofList,
      Base64.decodeForgivingChars_encodeChars]
  rw [decryptMediaEnvelope, openEnvelope_encrypt hW]
  simp only [Option.bind_eq_bind, Option.bind_some, hdecode]
  rw [← hdata]

end

/-! ### The chunks of a file -/

/-- The number of chunks of a file. -/
def File.total (file : File) : ℕ := Pieces.count CHUNK_SIZE file.size

def File.piece (file : File) (seq : ℕ) : Bytes := Pieces.piece CHUNK_SIZE file.bytes seq

def File.mimeType (file : File) : String := detectMimeType file.type file.bytes

theorem file_total_le {file : File} (h : file.size ≤ MAX_FILE_SIZE) : file.total ≤ MAX_CHUNKS := by
  refine (Pieces.count_le_iff (by decide)).mpr (h.trans ?_)
  decide

theorem file_total_pos {file : File} (h : 0 < file.size) : 0 < file.total :=
  Pieces.count_pos (by decide) h

theorem flatMap_filePieces (file : File) : (List.range file.total).flatMap file.piece = file.bytes :=
  Pieces.flatMap_pieces (by decide) file.bytes

theorem magicMime_ne_empty {bytes : Bytes} {mime : String} (h : magicMime bytes = some mime) :
    mime ≠ "" := by
  obtain ⟨⟨name, sig⟩, hentry, hsig⟩ := List.exists_of_findSome?_eq_some h
  have hname : mime = name := by
    cases sig with
    | none => cases hsig
    | some sig =>
        dsimp only at hsig
        split at hsig
        · exact (Option.some.inj hsig).symm
        · cases hsig
  have hall : ∀ entry ∈ MAGIC_BYTES, entry.1 ≠ "" := by decide
  exact hname ▸ hall _ hentry

theorem mimeType_ne_empty (file : File) : file.mimeType ≠ "" := by
  rw [File.mimeType, detectMimeType]
  split
  · assumption
  · split
    · next mime hmime => exact magicMime_ne_empty hmime
    · split <;> decide

theorem chunkMetadata_zero (file : File) :
    chunkMetadata file 0 = ⟨some file.mimeType, some file.name, some file.size, none⟩ := rfl

theorem chunkMetadata_ne {file : File} {seq : ℕ} (h : seq ≠ 0) : chunkMetadata file seq = {} :=
  if_neg h

/-- The metadata holds no data of its own. -/
theorem chunkMetadata_data (file : File) (seq : ℕ) : (chunkMetadata file seq).data = none := by
  rw [chunkMetadata]
  split <;> rfl

/-- What the bounds checks make of the message of a chunk. -/
def chunkOf (W : AesGcm) (key : W.Key) (file : File) (transferId : String) (ivs : ℕ → ℕ)
    (seq : ℕ) : Chunk where
  transferId := transferId
  seq := seq
  total := file.total
  chunk := encryptMediaEnvelope W key (ivs seq) (file.piece seq) (chunkMetadata file seq)

/-- The record of a transfer of which the chunks in `S` have arrived. -/
def gathered (file : File) (S : Finset ℕ) : Transfer where
  chunks seq := if seq ∈ S then some (file.piece seq) else none
  length := file.total
  received := S.card
  total := file.total
  mimeType := if 0 ∈ S then some file.mimeType else none
  fileName := if 0 ∈ S then some (sanitizeFileName (some file.name)) else none
  fileSize := if 0 ∈ S then some file.size else none

theorem gathered_empty (file : File) : gathered file ∅ = Transfer.new file.total := by
  simp [gathered, Transfer.new]

section
variable {file : File} {S : Finset ℕ} {seq : ℕ} {c : Chunk}

theorem chunks_gathered (hS : seq ∉ S) : (gathered file S).chunks seq = none := if_neg hS

theorem fill_gathered (hS : seq ∉ S) (hseq : seq < file.total) (hne : seq ≠ 0) :
    (gathered file S).fill seq (file.piece seq) = gathered file (insert seq S) := by
  have hchunks : Function.update (gathered file S).chunks seq (some (file.piece seq)) =
      (gathered file (insert seq S)).chunks := by
    ext1 k
    by_cases hk : k = seq
    · subst hk
      simp [gathered]
    · simp [gathered, hk]
  have hzero : 0 ∈ insert seq S ↔ 0 ∈ S := by simp [hne.symm]
  rw [Transfer.fill, hchunks]
  simp only [gathered, hzero, Finset.card_insert_of_notMem hS, Nat.max_eq_left hseq]

/-- The chunk with the metadata, whenever it arrives. -/
theorem fill_gathered_zero (hS : 0 ∉ S) (hfile : 0 < file.total) :
    ((gathered file S).describe (chunkMetadata file 0)).fill 0 (file.piece 0) =
      gathered file (insert 0 S) := by
  have hchunks : Function.update (gathered file S).chunks 0 (some (file.piece 0)) =
      (gathered file (insert 0 S)).chunks := by
    ext1 k
    by_cases hk : k = 0
    · subst hk
      simp [gathered]
    · simp [gathered, hk]
  rw [Transfer.fill, Transfer.describe, hchunks, chunkMetadata_zero]
  simp only [gathered, Finset.mem_insert_self, if_true, Finset.card_insert_of_notMem hS,
    Nat.max_eq_left hfile]

theorem storeChunk_gathered (hS : seq ∉ S) (hseq : seq < file.total) :
    (gathered file S).storeChunk seq (file.piece seq) (chunkMetadata file seq) =
      gathered file (insert seq S) := by
  rw [Transfer.storeChunk]
  by_cases hzero : seq = 0
  · subst hzero
    rw [if_pos, fill_gathered_zero hS hseq]
    refine ⟨if_neg hS, ?_⟩
    rw [chunkMetadata_zero]
    exact mimeType_ne_empty file
  · rw [if_neg, fill_gathered hS hseq hzero]
    rw [chunkMetadata_ne hzero]
    exact fun h => h.2 rfl

theorem storeChunk_described (hS : 0 ∉ S) (hfile : 0 < file.total) :
    ((gathered file S).describe (chunkMetadata file 0)).storeChunk 0 (file.piece 0)
        (chunkMetadata file 0) = gathered file (insert 0 S) := by
  rw [Transfer.storeChunk, if_neg, fill_gathered_zero hS hfile]
  rw [Transfer.describe, chunkMetadata_zero]
  exact fun h => Option.some_ne_none _ h.1

end

theorem slots_gathered (file : File) :
    (gathered file (Finset.range file.total)).slots =
      (List.range file.total).map (some ∘ file.piece) := by
  apply List.map_congr_left
  intro seq hseq
  exact if_pos (Finset.mem_range.mpr (List.mem_range.mp hseq))

theorem flatten_pieces (file : File) :
    ((List.range file.total).map file.piece).flatten = file.bytes := by
  rw [← List.flatMap_def, flatMap_filePieces]

theorem totalSize_gathered (file : File) :
    (gathered file (Finset.range file.total)).totalSize = file.size := by
  rw [Transfer.totalSize, slots_gathered, List.filterMap_map, Function.id_comp,
    List.filterMap_eq_map, flatten_pieces]
  rfl

theorem allSome_gathered (file : File) :
    (gathered file (Finset.range file.total)).slots.allSome =
      some ((List.range file.total).map file.piece) := by
  rw [slots_gathered, List.allSome]
  induction List.range file.total with
  | nil => rfl
  | cons k ks ih =>
      rw [List.map_cons, List.mapM_cons, ih]
      rfl

/-! ### One chunk after the other -/

namespace MediaAssembler

section
variable (file : File) (id : String)

/-- What an assembler holds of the transfer once the chunks in `S` have been handed
to it: nothing at the beginning and at the end. -/
structure Gathers (m : MediaAssembler) (S : Finset ℕ) : Prop where
  valid : Valid m
  find : m.find id = if S.Nonempty ∧ S ≠ Finset.range file.total then some (gathered file S) else none
  timers : ¬(S.Nonempty ∧ S ≠ Finset.range file.total) → id ∉ m.timers

end

variable {file : File} {id : String} {m : MediaAssembler} {S : Finset ℕ}

theorem gathers_new : Gathers file id new ∅ :=
  ⟨valid_new, by simp [new, MediaAssembler.find], fun _ => Finmap.notMem_empty⟩

theorem Gathers.frames {m' : MediaAssembler} (hm : Gathers file id m S) (h : Frames id m m') :
    Gathers file id m' S :=
  ⟨h.valid, h.find.trans hm.find, fun hS => mt h.timers.mp (hm.timers hS)⟩

theorem find_eq_some {t : Transfer} (h : m.find id = some t) :
    ∃ ref, m.transfers.lookup id = some ref ∧ m.objects ref = t :=
  Option.map_eq_some_iff.mp h

/-- The record for the next chunk, which has no chunk in its slot. -/
theorem record_chunk (hm : Gathers file id m S) {c : Chunk} (hid : c.transferId = id)
    (htotal : c.total = file.total) (hseq : c.seq < file.total) (hS : c.seq ∉ S)
    (hroom : S = ∅ → m.transfers.keys.card < MAX_CONCURRENT_TRANSFERS) (data : Option String) :
    ∃ m' ref, m.record c { chunkMetadata file c.seq with data := data } = some (m', ref) ∧
      Valid m' ∧ m'.transfers.lookup id = some ref ∧ ((m'.objects ref).chunks c.seq) = none ∧
      (m'.objects ref).storeChunk c.seq (file.piece c.seq) (chunkMetadata file c.seq) =
        gathered file (insert c.seq S) := by
  subst hid
  by_cases hempty : S = ∅
  · subst hempty
    have hlookup : m.transfers.lookup c.transferId = none := by
      simpa [MediaAssembler.find] using hm.find
    have hobject : (m.openTransfer c.transferId c.total).objects m.allocated = gathered file ∅ := by
      rw [gathered_empty, ← htotal]
      exact Function.update_self ..
    refine ⟨m.openTransfer c.transferId c.total, m.allocated, ?_, hm.valid.openTransfer _ _,
      Finmap.lookup_insert _, ?_, ?_⟩
    · simp only [record, hlookup]
      exact if_neg (Nat.not_le.mpr (hroom rfl))
    · rw [hobject, chunks_gathered hS]
    · rw [hobject, storeChunk_gathered hS hseq]
  · have hopen : S.Nonempty ∧ S ≠ Finset.range file.total := by
      refine ⟨Finset.nonempty_iff_ne_empty.mpr hempty, fun h => hS ?_⟩
      rw [h]
      exact Finset.mem_range.mpr hseq
    obtain ⟨ref, hlookup, hobject⟩ := find_eq_some (hm.find.trans (if_pos hopen))
    by_cases hzero : c.seq = 0
    · rw [hzero] at hS hseq ⊢
      have hdescribed : (m.setObject ref ((m.objects ref).describe (chunkMetadata file 0))).objects
          ref = (gathered file S).describe (chunkMetadata file 0) := by
        rw [← hobject]
        exact Function.update_self ..
      refine ⟨m.setObject ref ((m.objects ref).describe (chunkMetadata file 0)), ref, ?_,
        ⟨hm.valid.lt, hm.valid.injective⟩, hlookup, ?_, ?_⟩
      · simp only [record, hlookup]
        exact if_pos ⟨hzero, mimeType_ne_empty file⟩
      · rw [hdescribed]
        exact chunks_gathered hS
      · rw [hdescribed, storeChunk_described hS hseq]
    · refine ⟨m, ref, ?_, hm.valid, hlookup, ?_, ?_⟩
      · simp only [record, hlookup]
        exact if_neg fun h => hzero h.1
      · rw [hobject, chunks_gathered hS]
      · rw [hobject, storeChunk_gathered hS hseq]

theorem openSlot_of_record {c : Chunk} {inner : MediaEnvelope} {m' : MediaAssembler}
    {ref : TransferRef} (h : m.record c inner = some (m', ref))
    (hslot : (m'.objects ref).chunks c.seq = none) :
    m.openSlot c inner = (m'.resetTimer c.transferId, some ref) := by
  have hempty : ¬(((m'.resetTimer c.transferId).objects ref).chunks c.seq).isSome = true := by
    rw [show ((m'.resetTimer c.transferId).objects ref).chunks c.seq = none from hslot]
    simp
  rw [openSlot, h]
  exact if_neg hempty

/-- What a call returns for the next chunk. -/
def expected (file : File) (id : String) (S : Finset ℕ) (url : ℕ) : ChunkResult :=
  if S = Finset.range file.total then
    .complete id (validateMimeType (some file.mimeType) file.bytes)
      (some (sanitizeFileName (some file.name))) (some file.size) url file.bytes
  else .progress id S.card file.total

theorem reassemble_gathered (m : MediaAssembler) (c : Chunk) (hfile : 0 < file.total)
    (hsize : file.size ≤ MAX_FILE_SIZE) :
    m.reassemble c (gathered file (Finset.range file.total)) =
      ({ m.forget c.transferId with urls := m.urls + 1 },
        .returned (expected file c.transferId (Finset.range file.total) m.urls)) := by
  have hzero : 0 ∈ Finset.range file.total := Finset.mem_range.mpr hfile
  rw [reassemble, if_neg (Nat.not_lt.mpr (totalSize_gathered file ▸ hsize)), allSome_gathered,
    expected, if_pos rfl]
  simp only [flatten_pieces, gathered, if_pos hzero]

/-- The end of the call, in a slot that is empty. -/
theorem store_chunk (hm : Valid m) {c : Chunk} (hid : c.transferId = id)
    (hseq : c.seq < file.total) (hrange : S ⊆ Finset.range file.total)
    (hsize : file.size ≤ MAX_FILE_SIZE) {ref : TransferRef}
    (hlookup : m.transfers.lookup id = some ref)
    (hstore : (m.objects ref).storeChunk c.seq (file.piece c.seq) (chunkMetadata file c.seq) =
      gathered file (insert c.seq S)) :
    Gathers file id (m.store c ref (some (file.piece c.seq, chunkMetadata file c.seq))).1
        (insert c.seq S) ∧
      (m.store c ref (some (file.piece c.seq, chunkMetadata file c.seq))).2 =
        .returned (expected file id (insert c.seq S) m.urls) := by
  subst hid
  have hsubset : insert c.seq S ⊆ Finset.range file.total :=
    Finset.insert_subset (Finset.mem_range.mpr hseq) hrange
  have hcard : (insert c.seq S).card = file.total ↔ insert c.seq S = Finset.range file.total := by
    constructor
    · intro h
      exact Finset.eq_of_subset_of_card_le hsubset (by rw [h, Finset.card_range])
    · intro h
      rw [h, Finset.card_range]
  have hset : Valid (m.setObject ref (gathered file (insert c.seq S))) := ⟨hm.lt, hm.injective⟩
  rw [store]
  simp only [hstore]
  have hreceived : (gathered file (insert c.seq S)).received = (insert c.seq S).card := rfl
  have htotal : (gathered file (insert c.seq S)).total = file.total := rfl
  rw [hreceived, htotal]
  by_cases hfull : insert c.seq S = Finset.range file.total
  · have hfile : 0 < file.total := Nat.zero_lt_of_lt hseq
    rw [if_pos (hcard.mpr hfull), hfull, reassemble_gathered _ _ hfile hsize]
    have hforget := hset.forget c.transferId
    refine ⟨⟨⟨hforget.lt, hforget.injective⟩, ?_, fun _ h => ?_⟩, rfl⟩
    · rw [if_neg fun h => h.2 rfl]
      exact Option.map_eq_none_iff.mpr (Finmap.lookup_erase _ _)
    · exact (Finmap.mem_erase.mp h).1 rfl
  · rw [if_neg (mt hcard.mp hfull), expected, if_neg hfull]
    refine ⟨⟨⟨hm.lt, hm.injective⟩, ?_, fun h => absurd ⟨Finset.insert_nonempty _ _, hfull⟩ h⟩, rfl⟩
    rw [if_pos ⟨Finset.insert_nonempty _ _, hfull⟩]
    exact Option.map_eq_some_iff.mpr ⟨ref, hlookup, Function.update_self ..⟩

section
variable {W : AesGcm} (hW : W.Lawful) (key : W.Key) (room : String) (ivs : ℕ → ℕ)

/-- The payload of a chunk's message, as it arrives. -/
def chunkPayload (W : AesGcm) (key : W.Key) (room : String) (file : File) (id : String)
    (ivs : ℕ → ℕ) (seq : ℕ) : PayloadData :=
  .text (chunkMessage W key room file id ivs seq).payload

theorem payloadId_chunkPayload (seq : ℕ) :
    payloadId (chunkPayload W key room file id ivs seq) = some id := by
  simp [payloadId, chunkPayload, chunkMessage, MediaPayload.parse_stringify]

include hW

theorem accept_chunkPayload (hid : id ≠ "") (hsize : file.size ≤ MAX_FILE_SIZE) {seq : ℕ}
    (hseq : seq < file.total) :
    accept (chunkPayload W key room file id ivs seq) = some (chunkOf W key file id ivs seq) :=
  accept_stringify (c := chunkOf W key file id ivs seq) hid (hW.encrypt_ne_empty _ _ _) hseq
    (file_total_le hsize)

/-- **One chunk.** A chunk that has not arrived yet joins those that have. -/
theorem handleChunk_chunk (hm : Gathers file id m S) (hid : id ≠ "")
    (hsize : file.size ≤ MAX_FILE_SIZE) {seq : ℕ} (hseq : seq < file.total) (hS : seq ∉ S)
    (hrange : S ⊆ Finset.range file.total)
    (hroom : S = ∅ → m.transfers.keys.card < MAX_CONCURRENT_TRANSFERS) :
    Gathers file id (m.handleChunk W key (chunkPayload W key room file id ivs seq)).1
        (insert seq S) ∧
      ∃ url, (m.handleChunk W key (chunkPayload W key room file id ivs seq)).2 =
        .returned (expected file id (insert seq S) url) := by
  obtain ⟨m', ref, hrecord, hvalid, hlookup, hslot, hstore⟩ := record_chunk hm
    (c := chunkOf W key file id ivs seq) rfl rfl hseq hS hroom
    (some (Base64.encode (file.piece seq)))
  have hopen : openEnvelope W key (chunkOf W key file id ivs seq).chunk =
      some { chunkMetadata file seq with data := some (Base64.encode (file.piece seq)) } :=
    openEnvelope_encrypt hW key (ivs seq) (file.piece seq)
  have hdecrypt : decryptMediaEnvelope W key (chunkOf W key file id ivs seq).chunk =
      some (file.piece seq, chunkMetadata file seq) :=
    decryptMediaEnvelope_encrypt hW key (ivs seq) (file.piece seq) (chunkMetadata_data file seq)
  have hslotted : m.openSlot (chunkOf W key file id ivs seq)
      { chunkMetadata file seq with data := some (Base64.encode (file.piece seq)) } =
        (m'.resetTimer id, some ref) := openSlot_of_record hrecord hslot
  have hcall : m.handleChunk W key (chunkPayload W key room file id ivs seq) =
      (m'.resetTimer id).store (chunkOf W key file id ivs seq) ref
        (some (file.piece seq, chunkMetadata file seq)) := by
    rw [handleChunk, accept_chunkPayload hW key room ivs hid hsize hseq]
    dsimp only
    rw [hopen]
    dsimp only
    rw [hslotted]
    dsimp only
    rw [hdecrypt]
  rw [hcall]
  obtain ⟨hgathers, hresult⟩ := store_chunk (m := m'.resetTimer id)
    ⟨hvalid.lt, hvalid.injective⟩ (c := chunkOf W key file id ivs seq) rfl hseq hrange hsize
    hlookup hstore
  exact ⟨hgathers, _, hresult⟩

omit hW in
/-- A file within the limit is sent. -/
theorem sendMedia_ok (hsize : file.size ≤ MAX_FILE_SIZE) :
    sendMedia W key room file id ivs = .ok
      ((List.range file.total).map (chunkMessage W key room file id ivs),
        ⟨id, file.total, file.mimeType, file.name⟩) := by
  rw [sendMedia, if_neg (Nat.not_lt.mpr hsize)]
  rfl

omit hW in
/-- What `sendMedia` sends. -/
theorem messages_of_sendMedia {messages : List MediaMessage} {sent : SentMedia}
    (h : sendMedia W key room file id ivs = .ok (messages, sent)) :
    messages = (List.range file.total).map (chunkMessage W key room file id ivs) := by
  rw [sendMedia] at h
  split at h
  · cases h
  · cases h
    rfl

end

/-- A cipher that puts its key in front of the text. -/
def keyedText : AesGcm where
  Key := Char
  encrypt key _ text := String.ofList (key :: text.toList)
  decrypt key ciphertext :=
    match ciphertext.toList with
    | [] => none
    | k :: text => if k = key then some (String.ofList text) else none

theorem keyedText_lawful : keyedText.Lawful where
  decrypt_encrypt key iv text := by
    simp only [keyedText, String.toList_ofList]
    exact (if_pos rfl).trans (congrArg some String.ofList_toList)
  encrypt_ne_empty key iv text h := by
    have hlist := congrArg String.toList h
    simp [keyedText] at hlist

def smallFile : File := ⟨"a.bin", "", [1, 2, 3]⟩

end MediaAssembler

end TrapChat.Client
