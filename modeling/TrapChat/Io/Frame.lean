import TrapChat.Library.BigEndian
import TrapChat.Library.Framing

/-!
The binary frame of the I/O crate: one byte of type, the payload's length in four
bytes, the payload. Everything is read off the front of a slice; a frame is
decoded whatever follows it. The decoder refuses type 0, the encoder writes it.
-/

namespace TrapChat.Io

open Framing

/-- 1 MB. -/
def maxFrameSize : ℕ := 1024 * 1024

/-- The kinds of `std::io::Error` the crate tells apart. -/
inductive ErrorKind
  | unexpectedEof
  | other
deriving DecidableEq, Repr

inductive IoError
  | frameTooLarge (size max : ℕ)
  | incompleteFrame (expected got : ℕ)
  | invalidFrameType (frameType : UInt8)
  | io (kind : ErrorKind)
deriving DecidableEq, Repr

structure Frame where
  frameType : UInt8
  payload : List UInt8
deriving DecidableEq, Repr

/-- `u32::to_be_bytes` of a `usize` cast to `u32`. -/
def toBeBytes (n : ℕ) : List UInt8 := BigEndian.toBytes 4 n

/-- `u32::from_be_bytes`. -/
def fromBeBytes (bs : List UInt8) : ℕ := BigEndian.ofBytes bs

def Frame.encode (f : Frame) : Except IoError (List UInt8) :=
  if f.payload.length > maxFrameSize then
    .error (.frameTooLarge f.payload.length maxFrameSize)
  else .ok (f.frameType :: toBeBytes f.payload.length ++ f.payload)

/-- The frame at the front of a slice and the number of bytes consumed. -/
def Frame.decode (data : List UInt8) : Except IoError (Frame × ℕ) :=
  match data with
  | frameType :: b₁ :: b₂ :: b₃ :: b₄ :: rest =>
      if frameType = 0 then .error (.invalidFrameType frameType)
      else
        let length := fromBeBytes [b₁, b₂, b₃, b₄]
        if length > maxFrameSize then .error (.frameTooLarge length maxFrameSize)
        else
          let total := 5 + length
          if data.length < total then .error (.incompleteFrame total data.length)
          else .ok (⟨frameType, rest.take length⟩, total)
  | _ => .error (.incompleteFrame 5 data.length)

/-- What the decoder asks of a frame: a type other than 0 and a payload within the limit. -/
def Frame.Valid (f : Frame) : Prop := f.frameType ≠ 0 ∧ f.payload.length ≤ maxFrameSize

instance (f : Frame) : Decidable f.Valid := by
  unfold Frame.Valid
  infer_instance

/-- The bytes of a frame: those the encoder writes, for a payload within the limit. -/
def Frame.bytes (f : Frame) : List UInt8 := f.frameType :: toBeBytes f.payload.length ++ f.payload

/-! ### The encoder -/

@[simp] theorem length_toBeBytes (n : ℕ) : (toBeBytes n).length = 4 :=
  BigEndian.length_toBytes 4 n

@[simp] theorem Frame.length_bytes (f : Frame) : f.bytes.length = 5 + f.payload.length := by
  rw [Frame.bytes, List.length_append, List.length_cons, length_toBeBytes]

theorem Frame.encode_eq_ok_iff {f : Frame} {b : List UInt8} :
    f.encode = .ok b ↔ f.payload.length ≤ maxFrameSize ∧ b = f.bytes := by
  rw [Frame.encode]
  split
  · next h => simp [Nat.not_le_of_gt h]
  · next h =>
      rw [Except.ok.injEq, Frame.bytes, eq_comm]
      exact (and_iff_right (Nat.le_of_not_gt h)).symm

theorem fromBeBytes_toBeBytes {n : ℕ} (h : n < 2 ^ 32) : fromBeBytes (toBeBytes n) = n := by
  apply BigEndian.ofBytes_toBytes
  omega

/-- **Five bytes are a header**: a type and the four bytes of a number. -/
theorem exists_header {d : List UInt8} (h : 5 ≤ d.length) :
    ∃ t n rest, n < 2 ^ 32 ∧ d = t :: toBeBytes n ++ rest := by
  match d, h with
  | t :: b₁ :: b₂ :: b₃ :: b₄ :: rest, _ =>
      have hlt : fromBeBytes [b₁, b₂, b₃, b₄] < 256 ^ 4 := BigEndian.ofBytes_lt [b₁, b₂, b₃, b₄]
      refine ⟨t, fromBeBytes [b₁, b₂, b₃, b₄], rest, by omega, ?_⟩
      have hback : toBeBytes (fromBeBytes [b₁, b₂, b₃, b₄]) = [b₁, b₂, b₃, b₄] :=
        BigEndian.toBytes_ofBytes [b₁, b₂, b₃, b₄]
      rw [hback]
      rfl

/-! ### The decoder -/

theorem Frame.decode_short {d : List UInt8} (h : d.length < 5) :
    Frame.decode d = .error (.incompleteFrame 5 d.length) := by
  match d, h with
  | [], _ | [_], _ | [_, _], _ | [_, _, _], _ | [_, _, _, _], _ => rfl
  | _ :: _ :: _ :: _ :: _ :: _, h =>
      simp only [List.length_cons] at h
      omega

/-- What is decoded after a header. -/
theorem Frame.decode_header (t : UInt8) {n : ℕ} (hn : n < 2 ^ 32) (rest : List UInt8) :
    Frame.decode (t :: toBeBytes n ++ rest) =
      if t = 0 then .error (.invalidFrameType t)
      else if n > maxFrameSize then .error (.frameTooLarge n maxFrameSize)
      else if rest.length < n then .error (.incompleteFrame (5 + n) (5 + rest.length))
      else .ok (⟨t, rest.take n⟩, 5 + n) := by
  obtain ⟨b₁, b₂, b₃, b₄, hb⟩ := List.length_eq_four.mp (length_toBeBytes n)
  have hlen : fromBeBytes [b₁, b₂, b₃, b₄] = n := by rw [← hb, fromBeBytes_toBeBytes hn]
  have hdata : (t :: b₁ :: b₂ :: b₃ :: b₄ :: rest).length = 5 + rest.length := by
    simp only [List.length_cons]
    omega
  rw [hb]
  simp only [List.cons_append, List.nil_append, Frame.decode, hlen, hdata, Nat.add_lt_add_iff_left]

/-- **The decoder reads what the bytes of a frame say**, whatever follows them. -/
theorem Frame.inverts_of_valid {f : Frame} (hf : f.Valid) : Inverts Frame.decode Frame.bytes f := by
  intro t
  obtain ⟨htype, hlen⟩ := hf
  have hn : f.payload.length < 2 ^ 32 := by
    rw [maxFrameSize] at hlen
    omega
  rw [Frame.bytes, List.append_assoc, Frame.decode_header _ hn, if_neg htype,
    if_neg (Nat.not_lt.mpr hlen), if_neg (by rw [List.length_append]; omega), List.take_left]
  rw [← Frame.bytes, Frame.length_bytes]

/-- **What a successful decoding says**: the frame is valid, and the bytes consumed
are its bytes. -/
theorem Frame.of_decode {d : List UInt8} {f : Frame} {n : ℕ} (h : Frame.decode d = .ok (f, n)) :
    f.Valid ∧ n = f.bytes.length ∧ n ≤ d.length ∧ f.bytes = d.take n := by
  rcases Nat.lt_or_ge d.length 5 with hd | hd
  · rw [Frame.decode_short hd] at h
    cases h
  · obtain ⟨t, len, rest, hlen, rfl⟩ := exists_header hd
    rw [Frame.decode_header t hlen] at h
    -- the checks of the decoder in their order
    split at h
    · cases h
    next htype =>
    split at h
    · cases h
    next hmax =>
    split at h
    · cases h
    next hrest =>
    cases h
    have hpayload : (rest.take len).length = len := List.length_take_of_le (Nat.le_of_not_lt hrest)
    refine ⟨⟨htype, by rw [hpayload]; exact Nat.le_of_not_gt hmax⟩, ?_, ?_, ?_⟩
    · rw [Frame.length_bytes, hpayload]
    · rw [List.length_append, List.length_cons, length_toBeBytes]
      omega
    · have hheader : (t :: toBeBytes len).length = 5 := by
        rw [List.length_cons, length_toBeBytes]
      rw [Frame.bytes, hpayload, ← hheader, List.take_length_add_append]

theorem Frame.advances_decode : Advances Frame.decode := by
  intro d f n h
  obtain ⟨-, hn, hle, -⟩ := Frame.of_decode h
  rw [Frame.length_bytes] at hn
  exact ⟨by omega, hle⟩

/-! ### Encoder and decoder together -/

/-- The encodings of a list of frames, laid end to end. -/
def encodeAll : List Frame → Except IoError (List UInt8)
  | [] => .ok []
  | f :: fs => do
      let b ← f.encode
      let bs ← encodeAll fs
      return b ++ bs

theorem encodeAll_eq_ok {fs : List Frame} {b : List UInt8} (h : encodeAll fs = .ok b) :
    (∀ f ∈ fs, f.payload.length ≤ maxFrameSize) ∧ b = fs.flatMap Frame.bytes := by
  induction fs generalizing b with
  | nil =>
      cases h
      exact ⟨by simp, rfl⟩
  | cons f fs ih =>
      rw [encodeAll] at h
      cases hf : f.encode with
      | error e =>
          rw [hf] at h
          cases h
      | ok b₁ =>
          obtain ⟨hlen, rfl⟩ := Frame.encode_eq_ok_iff.mp hf
          rw [hf] at h
          cases hfs : encodeAll fs with
          | error e =>
              rw [hfs] at h
              cases h
          | ok bs =>
              rw [hfs] at h
              cases h
              obtain ⟨hlens, rfl⟩ := ih hfs
              exact ⟨List.forall_mem_cons.mpr ⟨hlen, hlens⟩, rfl⟩

/-- The encoder writes what the decoder consumed. -/
theorem Frame.encode_of_decode {d : List UInt8} {f : Frame} {n : ℕ}
    (h : Frame.decode d = .ok (f, n)) : n ≤ d.length ∧ f.encode = .ok (d.take n) := by
  obtain ⟨hvalid, -, hle, hbytes⟩ := Frame.of_decode h
  exact ⟨hle, Frame.encode_eq_ok_iff.mpr ⟨hvalid.2, hbytes.symm⟩⟩

/-- A frame is read back unless the encoder takes it with type 0. -/
theorem Frame.decode_inverts_encode_iff (f : Frame) :
    (∀ b t, f.encode = .ok b → Frame.decode (b ++ t) = .ok (f, b.length)) ↔
      (f.payload.length ≤ maxFrameSize → f.frameType ≠ 0) := by
  constructor
  · intro h hlen
    have hdecode := h f.bytes [] (Frame.encode_eq_ok_iff.mpr ⟨hlen, rfl⟩)
    exact (Frame.of_decode hdecode).1.1
  · intro h b t hb
    obtain ⟨hlen, rfl⟩ := Frame.encode_eq_ok_iff.mp hb
    exact Frame.inverts_of_valid ⟨h hlen, hlen⟩ t

theorem Frame.same_frames_iff (f : Frame) :
    ((∃ b, f.encode = .ok b) ↔ ∃ d n, Frame.decode d = .ok (f, n)) ↔
      (f.payload.length ≤ maxFrameSize → f.frameType ≠ 0) := by
  constructor
  · intro h hlen
    obtain ⟨d, n, hd⟩ := h.mp ⟨f.bytes, Frame.encode_eq_ok_iff.mpr ⟨hlen, rfl⟩⟩
    exact (Frame.of_decode hd).1.1
  · intro h
    constructor
    · rintro ⟨b, hb⟩
      obtain ⟨hlen, rfl⟩ := Frame.encode_eq_ok_iff.mp hb
      exact ⟨f.bytes ++ [], f.bytes.length, Frame.inverts_of_valid ⟨h hlen, hlen⟩ []⟩
    · -- what is decoded is encoded again as the bytes consumed
      rintro ⟨d, n, hd⟩
      exact ⟨d.take n, (Frame.encode_of_decode hd).2⟩

theorem decodeMany_encodeAll_iff {fs : List Frame} {b : List UInt8} (h : encodeAll fs = .ok b) :
    (∀ t, decodeMany Frame.decode fs.length (b ++ t) = .ok (fs, b.length)) ↔
      ∀ f ∈ fs, f.frameType ≠ 0 := by
  obtain ⟨hlen, rfl⟩ := encodeAll_eq_ok h
  constructor
  · intro hall f hf
    obtain ⟨o, n, ho⟩ := exists_decode_of_mem (hall []) hf
    exact (Frame.of_decode ho).1.1
  · intro htypes t
    exact decodeMany_flatMap (fun f hf => Frame.inverts_of_valid ⟨htypes f hf, hlen f hf⟩) t

/-- **Inversion over the whole format.** The encoder writes exactly what the decoder
consumes; the decoder reads back what was encoded, one frame or many, exactly when
no frame of type 0 was. -/
theorem Frame.codec_inversion (f : Frame) (fs : List Frame) (d : List UInt8) (n : ℕ) :
    ((∀ b t, f.encode = .ok b → Frame.decode (b ++ t) = .ok (f, b.length)) ↔
      (f.payload.length ≤ maxFrameSize → f.frameType ≠ 0)) ∧
    (Frame.decode d = .ok (f, n) → n ≤ d.length ∧ f.encode = .ok (d.take n)) ∧
    (((∃ b, f.encode = .ok b) ↔ ∃ d n, Frame.decode d = .ok (f, n)) ↔
      (f.payload.length ≤ maxFrameSize → f.frameType ≠ 0)) ∧
    (∀ b, encodeAll fs = .ok b →
      ((∀ t, decodeMany Frame.decode fs.length (b ++ t) = .ok (fs, b.length)) ↔
        ∀ f ∈ fs, f.frameType ≠ 0)) :=
  ⟨Frame.decode_inverts_encode_iff f, Frame.encode_of_decode, Frame.same_frames_iff f,
    fun _ => decodeMany_encodeAll_iff⟩

/-- A frame of type 0 and no payload is written as five bytes that are refused. -/
theorem Frame.type_zero_encoded :
    ¬ ∀ f b t, Frame.encode f = .ok b → Frame.decode (b ++ t) = .ok (f, b.length) := by
  intro h
  have hdecode := h ⟨0, []⟩ [0, 0, 0, 0, 0] [] rfl
  exact absurd hdecode (by decide)

end TrapChat.Io
