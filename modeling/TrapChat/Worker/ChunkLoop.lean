import Mathlib.Algebra.Order.Floor.Div
import TrapChat.Worker.MediaChunk

/-!
The loop that cuts the payload of a `media:chunk` job: it goes through the bytes by
their offset, and numbers a chunk by how many there are already. It makes the chunks
that have been described by their number.
-/

namespace TrapChat.Worker

/-- What the loop pushes. -/
structure RawChunk where
  seq : ℕ
  data : String

/-- `subarray`, which ends with the buffer. -/
def subarray (rawBytes : List UInt8) (start stop : ℕ) : List UInt8 :=
  (rawBytes.drop start).take (stop - start)

/-- The loop, at the offset `i` and with the chunks that have been pushed. -/
def pushChunks (rawBytes : List UInt8) {chunkSize : ℕ} (hpos : 0 < chunkSize) (i : ℕ)
    (chunks : List RawChunk) : List RawChunk :=
  if i < rawBytes.length then
    pushChunks rawBytes hpos (i + chunkSize)
      (chunks ++ [⟨chunks.length, Base64.encode (subarray rawBytes i (i + chunkSize))⟩])
  else chunks
termination_by rawBytes.length - i

/-- `{ ...c, total, roomId, transferId, mimeType, fileName, fileSize }` -/
def describeChunk (data : MediaData) (total : ℕ) (c : RawChunk) : MediaChunk where
  seq := c.seq
  data := c.data
  total := total
  roomId := data.roomId
  transferId := data.transferId
  mimeType := data.mimeType
  fileName := data.fileName
  fileSize := data.fileSize

/-- The chunks of a payload. -/
def mediaChunks (data : MediaData) (rawBytes : List UInt8) {chunkSize : ℕ}
    (hpos : 0 < chunkSize) : List MediaChunk :=
  let chunks := pushChunks rawBytes hpos 0 []
  chunks.map (describeChunk data chunks.length)

/-- The chunks, in the order of their numbers, are the payload cut into pieces of one size, of
which only the last one may be shorter. -/
structure Lossless (rawBytes : List UInt8) (chunkSize : ℕ) (chunks : List MediaChunk) : Prop where
  length : chunks.length = rawBytes.length ⌈/⌉ chunkSize
  numbered : chunks.map MediaChunk.seq = List.range chunks.length
  total : ∀ chunk ∈ chunks, chunk.total = chunks.length
  sizes : ∀ chunk ∈ chunks, ∃ bytes, Base64.decode chunk.data = some bytes ∧ bytes ≠ [] ∧
    bytes.length ≤ chunkSize ∧ (chunk.seq + 1 < chunks.length → bytes.length = chunkSize)
  content : chunks.flatMap (fun chunk => (Base64.decode chunk.data).getD []) = rawBytes

/-! ### The loop -/

variable {rawBytes : List UInt8} {chunkSize : ℕ}

/-- **The loop** pushes the pieces that are left, from the one at its offset. -/
theorem pushChunks_eq (hpos : 0 < chunkSize) {left k : ℕ}
    (hleft : Pieces.count chunkSize rawBytes.length = k + left) {chunks : List RawChunk}
    (hlength : chunks.length = k) :
    pushChunks rawBytes hpos (k * chunkSize) chunks = chunks ++ (List.range' k left).map
      fun seq => ⟨seq, Base64.encode (Pieces.piece chunkSize rawBytes seq)⟩ := by
  induction left generalizing k chunks with
  | zero =>
      have hend : rawBytes.length ≤ k * chunkSize := (Pieces.count_le_iff hpos).mp hleft.le
      rw [pushChunks, if_neg (Nat.not_lt.mpr hend), List.range'_zero, List.map_nil, List.append_nil]
  | succ left ih =>
      have hmore : k * chunkSize < rawBytes.length := by
        rw [← Pieces.lt_count_iff hpos, hleft]
        omega
      have hnext : k * chunkSize + chunkSize = (k + 1) * chunkSize := (Nat.succ_mul _ _).symm
      have hpiece : subarray rawBytes (k * chunkSize) (k * chunkSize + chunkSize) =
          Pieces.piece chunkSize rawBytes k := by
        rw [subarray, Nat.add_sub_cancel_left, Pieces.piece]
      rw [pushChunks, if_pos hmore, hpiece, hnext, hlength, ih (by omega) (by simp [hlength]),
        List.range'_succ, List.map_cons, List.append_assoc, List.singleton_append]

/-- The chunks are those that have been described by their number. -/
theorem mediaChunks_eq (data : MediaData) (rawBytes : List UInt8) (hpos : 0 < chunkSize) :
    mediaChunks data rawBytes hpos = chunksOf data rawBytes chunkSize := by
  have hcount : Pieces.count chunkSize rawBytes.length =
      0 + Pieces.count chunkSize rawBytes.length := (Nat.zero_add _).symm
  have hloop := pushChunks_eq hpos hcount List.length_nil
  rw [Nat.zero_mul, List.nil_append, ← List.range_eq_range'] at hloop
  rw [mediaChunks, hloop, List.length_map, List.length_range, List.map_map]
  rfl

theorem length_chunksOf (data : MediaData) (rawBytes : List UInt8) (chunkSize : ℕ) :
    (chunksOf data rawBytes chunkSize).length = Pieces.count chunkSize rawBytes.length := by
  rw [chunksOf, List.length_map, List.length_range]

/-- **The chunks are the payload cut up.** -/
theorem lossless_chunksOf (hpos : 0 < chunkSize) (data : MediaData) (rawBytes : List UInt8) :
    Lossless rawBytes chunkSize (chunksOf data rawBytes chunkSize) := by
  have hlength := length_chunksOf data rawBytes chunkSize
  refine ⟨?_, ?_, fun chunk hchunk => ?_, fun chunk hchunk => ?_, chunksOf_data hpos data rawBytes⟩
  · rw [hlength, Pieces.count, Nat.ceilDiv_eq_add_pred_div, Nat.add_sub_assoc hpos]
  · rw [hlength, chunksOf, List.map_map]
    exact List.map_id _
  · obtain ⟨seq, -, rfl⟩ := List.mem_map.mp hchunk
    exact hlength.symm
  · obtain ⟨seq, hseq, rfl⟩ := List.mem_map.mp hchunk
    refine ⟨Pieces.piece chunkSize rawBytes seq, Base64.decode_encode _, ?_, ?_, ?_⟩
    · exact Pieces.piece_ne_nil hpos (List.mem_range.mp hseq)
    · exact Pieces.length_piece_le rawBytes seq
    · rw [hlength]
      exact Pieces.length_piece hpos

/-! ### The job -/

variable {ρ : Type} {node : NodeRuntime} {data : MediaData} {payload : String}

/-- **Cutting up a payload loses nothing.** The chunks of a payload are numbered from 0, full
but for the last one, and together the payload; and they are what the job resolves with, unless
the gateway that it is to post them to is not allowed. -/
theorem mediaChunks_lossless (hpos : 0 < chunkSize) (hpayload : truthy data.payload = some payload)
    (hsize : data.chunkSize = some (chunkSize : ℤ)) :
    Lossless (node.bufferFrom payload) chunkSize
        (mediaChunks data (node.bufferFrom payload) hpos) ∧
      ∀ (fetch : MediaChunk → FetchRequest → Except String ρ) (jobId : String),
        processMediaChunk node fetch jobId data =
            .ok (mediaChunks data (node.bufferFrom payload) hpos) ∨
          ∃ gatewayURL message, truthy data.gatewayURL = some gatewayURL ∧
            validateGatewayURL node gatewayURL = .error message ∧
            processMediaChunk node fetch jobId data = .error message := by
  rw [mediaChunks_eq]
  refine ⟨lossless_chunksOf hpos data _, fun fetch jobId => ?_⟩
  have hsplit : splitPayload node data =
      .ok (chunksOf data (node.bufferFrom payload) chunkSize) :=
    splitPayload_ok hpayload hsize (Int.natCast_pos.mpr hpos)
  cases hurl : truthy data.gatewayURL with
  | none =>
      refine .inl ?_
      simp only [processMediaChunk, hsplit, hurl]
      rfl
  | some gatewayURL =>
      cases hroom : truthy data.roomId with
      | none =>
          refine .inl ?_
          simp only [processMediaChunk, hsplit, hurl, hroom]
          rfl
      | some roomId =>
          cases hallowed : validateGatewayURL node gatewayURL with
          | ok parsed => exact .inl (processMediaChunk_ok fetch jobId hsplit hurl hroom hallowed)
          | error message =>
              refine .inr ⟨gatewayURL, message, rfl, hallowed, ?_⟩
              simp only [processMediaChunk, hsplit, hurl, hroom, hallowed]
              rfl

/-- A worker that may post to a gateway beside it. -/
def localNode : NodeRuntime where
  bufferFrom := fun text => (Base64.decodeForgiving text).getD []
  parseURL := fun _ => .ok ⟨"http:", "localhost", "8080", "localhost:8080"⟩
  allowedHosts := ["localhost", "127.0.0.1"]

/-- Ten bytes, four in a chunk. -/
def tenBytes : MediaData where
  payload := some "MDEyMzQ1Njc4OQ=="
  chunkSize := some 4
  roomId := some "r1"
  gatewayURL := none
  transferId := none
  mimeType := none
  fileName := none
  fileSize := none

theorem mediaChunks_lossless_tenBytes :
    Lossless (localNode.bufferFrom "MDEyMzQ1Njc4OQ==") 4
        (mediaChunks tenBytes (localNode.bufferFrom "MDEyMzQ1Njc4OQ==") (show 0 < 4 by decide)) ∧
      ∀ (fetch : MediaChunk → FetchRequest → Except String Unit) (jobId : String),
        processMediaChunk localNode fetch jobId tenBytes =
            .ok (mediaChunks tenBytes (localNode.bufferFrom "MDEyMzQ1Njc4OQ==")
              (show 0 < 4 by decide)) ∨
          ∃ gatewayURL message, truthy tenBytes.gatewayURL = some gatewayURL ∧
            validateGatewayURL localNode gatewayURL = .error message ∧
            processMediaChunk localNode fetch jobId tenBytes = .error message :=
  mediaChunks_lossless (by decide) (by decide) rfl

end TrapChat.Worker
