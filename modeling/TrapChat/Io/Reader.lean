import TrapChat.Io.Frame

/-!
The frame reader over a source of bytes. Header and payload are read apart; the
payload goes through one buffer, which is resized for every frame and replaced
after a large one. What is read does not depend on the buffer: at every position
of the source the reader returns the frame that decoding the slice from there
returns.
-/

namespace TrapChat.Io

open Framing

/-- A `Vec<u8>`: its elements and the room allocated for them. -/
structure Buffer where
  items : List UInt8
  capacity : ℕ
deriving DecidableEq, Repr

def Buffer.withCapacity (capacity : ℕ) : Buffer := ⟨[], capacity⟩

/-- `Vec::resize` with zeros. How far a vector grows is the allocator's choice. -/
def Buffer.resize (grow : ℕ → ℕ → ℕ) (buf : Buffer) (length : ℕ) : Buffer where
  items := buf.items.take length ++ List.replicate (length - buf.items.length) 0
  capacity := if length ≤ buf.capacity then buf.capacity else grow buf.capacity length

/-- `read_exact` of a source into a slice: the slice is filled, or the source ends before. -/
def readExact (source slice : List UInt8) : Except ErrorKind Unit × List UInt8 × List UInt8 :=
  if source.length < slice.length then
    (.error .unexpectedEof, source ++ slice.drop source.length, [])
  else (.ok (), source.take slice.length, source.drop slice.length)

/-- The reader: what its source still holds, and the buffer. -/
structure FrameReader where
  reader : List UInt8
  buf : Buffer
deriving DecidableEq, Repr

def FrameReader.new (reader : List UInt8) : FrameReader where
  reader := reader
  buf := .withCapacity 4096

def shrinkThreshold : ℕ := 64 * 1024

/-- The buffer after a frame: back to its first size where a large frame inflated it. -/
def shrink (buf : Buffer) (length : ℕ) : Buffer :=
  if buf.capacity > shrinkThreshold ∧ length ≤ 4096 then .withCapacity 4096 else buf

/-- The payload of a frame whose header has been read. -/
def readPayload (grow : ℕ → ℕ → ℕ) (r : FrameReader) (frameType : UInt8) (length : ℕ) :
    Except IoError Frame × FrameReader :=
  let buf := r.buf.resize grow length
  match readExact r.reader (buf.items.take length) with
  | (.error e, filled, source) =>
      (.error (.io e), ⟨source, { buf with items := filled ++ buf.items.drop length }⟩)
  | (.ok (), filled, source) =>
      let read : Buffer := { buf with items := filled ++ buf.items.drop length }
      (.ok ⟨frameType, read.items.take length⟩, ⟨source, shrink read length⟩)

/-- The next frame of the source. -/
def readFrame (grow : ℕ → ℕ → ℕ) (r : FrameReader) : Except IoError Frame × FrameReader :=
  match readExact r.reader (List.replicate 5 0) with
  | (.error e, _, source) => (.error (.io e), { r with reader := source })
  | (.ok (), header, source) =>
      let frameType := header.headD 0
      if frameType = 0 then (.error (.invalidFrameType frameType), { r with reader := source })
      else
        let length := fromBeBytes header.tail
        if length > maxFrameSize then
          (.error (.frameTooLarge length maxFrameSize), { r with reader := source })
        else readPayload grow { r with reader := source } frameType length

/-- The frames `read_all` collects while `room` more fit its limit. -/
def readAllLoop (grow : ℕ → ℕ → ℕ) : (room : ℕ) → FrameReader → List (Except IoError Frame)
  | 0, _ => []
  | room + 1, r =>
      match readFrame grow r with
      | (.ok f, r') => .ok f :: readAllLoop grow room r'
      | (.error (.io .unexpectedEof), _) => []
      | (.error e, _) => [.error e]

def maxReadAllFrames : ℕ := 10000

def readAll (grow : ℕ → ℕ → ℕ) (r : FrameReader) : List (Except IoError Frame) :=
  readAllLoop grow maxReadAllFrames r

/-- One poll of `frame_stream`. -/
def poll (grow : ℕ → ℕ → ℕ) (r : FrameReader) : Option (Except IoError Frame × FrameReader) :=
  match readFrame grow r with
  | (.ok f, r') => some (.ok f, r')
  | (.error (.io .unexpectedEof), _) => none
  | (.error e, r') => some (.error e, r')

variable {grow : ℕ → ℕ → ℕ}

/-! ### One reading -/

theorem readExact_of_lt {source slice : List UInt8} (h : source.length < slice.length) :
    readExact source slice = (.error .unexpectedEof, source ++ slice.drop source.length, []) :=
  if_pos h

theorem readExact_append (front rest slice : List UInt8) (h : slice.length = front.length) :
    readExact (front ++ rest) slice = (.ok (), front, rest) := by
  rw [readExact, if_neg (by rw [List.length_append]; omega), h, List.take_left, List.drop_left]

@[simp] theorem Buffer.length_resize (buf : Buffer) (n : ℕ) :
    (buf.resize grow n).items.length = n := by
  rw [Buffer.resize, List.length_append, List.length_take, List.length_replicate]
  omega

/-- The payload is what the source holds, whatever the buffer held. -/
theorem readPayload_result (r : FrameReader) (t : UInt8) (n : ℕ) :
    ((readPayload grow r t n).1, (readPayload grow r t n).2.reader) =
      if r.reader.length < n then (.error (.io .unexpectedEof), [])
      else (.ok ⟨t, r.reader.take n⟩, r.reader.drop n) := by
  have hslice : ((r.buf.resize grow n).items.take n).length = n := by
    rw [List.length_take, Buffer.length_resize, Nat.min_self]
  split
  · next h =>
      simp only [readPayload, readExact_of_lt (hslice.symm ▸ h)]
  · next h =>
      have hfront : (r.reader.take n).length = n := List.length_take_of_le (Nat.le_of_not_lt h)
      have hread : readExact r.reader ((r.buf.resize grow n).items.take n) =
          (.ok (), r.reader.take n, r.reader.drop n) := by
        rw [← readExact_append (r.reader.take n) (r.reader.drop n) _ (hslice.trans hfront.symm),
          List.take_append_drop]
      simp only [readPayload, hread, List.take_append_of_le_length hfront.ge,
        List.take_of_length_le hfront.le]

theorem readFrame_short {r : FrameReader} (h : r.reader.length < 5) :
    readFrame grow r = (.error (.io .unexpectedEof), { r with reader := [] }) := by
  rw [readFrame, readExact_of_lt (by rw [List.length_replicate]; exact h)]

/-- What is read after a header. -/
theorem readFrame_header {r : FrameReader} {t : UInt8} {n : ℕ} (hn : n < 2 ^ 32)
    {rest : List UInt8} (h : r.reader = t :: toBeBytes n ++ rest) :
    ((readFrame grow r).1, (readFrame grow r).2.reader) =
      if t = 0 then (.error (.invalidFrameType t), rest)
      else if n > maxFrameSize then (.error (.frameTooLarge n maxFrameSize), rest)
      else if rest.length < n then (.error (.io .unexpectedEof), [])
      else (.ok ⟨t, rest.take n⟩, rest.drop n) := by
  have hread : readExact r.reader (List.replicate 5 0) = (.ok (), t :: toBeBytes n, rest) := by
    rw [h]
    apply readExact_append
    rw [List.length_replicate, List.length_cons, length_toBeBytes]
  simp only [readFrame, hread, List.headD_cons, List.tail_cons, fromBeBytes_toBeBytes hn]
  split
  · rfl
  split
  · rfl
  exact readPayload_result _ t n

/-! ### Reader and slice -/

/-- How the reader reports what the decoder of a slice reports: it cannot tell a
frame cut short from the end of the source. -/
def IoError.asRead : IoError → IoError
  | .incompleteFrame _ _ => .io .unexpectedEof
  | e => e

/-- The position in the source after a failed reading. -/
def afterError (d : List UInt8) : IoError → List UInt8
  | .incompleteFrame _ _ => []
  | _ => d.drop 5

/-- **One reading is one decoding**, whatever the buffer holds. -/
theorem readFrame_eq_decode (grow : ℕ → ℕ → ℕ) (r : FrameReader) :
    ((readFrame grow r).1, (readFrame grow r).2.reader) =
      match Frame.decode r.reader with
      | .ok (f, n) => (.ok f, r.reader.drop n)
      | .error e => (.error e.asRead, afterError r.reader e) := by
  rcases Nat.lt_or_ge r.reader.length 5 with h | h
  · rw [readFrame_short h, Frame.decode_short h]
    rfl
  · obtain ⟨t, n, rest, hn, hr⟩ := exists_header h
    have hdrop (k : ℕ) : r.reader.drop (5 + k) = rest.drop k := by
      have hheader : (t :: toBeBytes n).length = 5 := by rw [List.length_cons, length_toBeBytes]
      rw [hr, ← hheader, List.drop_length_add_append]
    have hzero : r.reader.drop 5 = rest := hdrop 0
    rw [readFrame_header hn hr, hr, Frame.decode_header t hn, ← hr]
    split
    · exact congrArg _ hzero.symm
    split
    · exact congrArg _ hzero.symm
    split
    · rfl
    · exact congrArg _ (hdrop n).symm

theorem readFrame_of_decode (grow : ℕ → ℕ → ℕ) {r : FrameReader} {f : Frame} {n : ℕ}
    (h : Frame.decode r.reader = .ok (f, n)) :
    (readFrame grow r).1 = .ok f ∧ (readFrame grow r).2.reader = r.reader.drop n := by
  have hread := readFrame_eq_decode grow r
  rw [h] at hread
  exact Prod.mk.inj hread

theorem readFrame_of_decode_error (grow : ℕ → ℕ → ℕ) {r : FrameReader} {e : IoError}
    (h : Frame.decode r.reader = .error e) :
    (readFrame grow r).1 = .error e.asRead ∧
      (readFrame grow r).2.reader = afterError r.reader e := by
  have hread := readFrame_eq_decode grow r
  rw [h] at hread
  exact Prod.mk.inj hread

/-- The reader follows the decoder of slices. -/
theorem follows_decode : Follows (readFrame grow) FrameReader.reader Frame.decode where
  item _ _ _ h := readFrame_of_decode grow h
  stuck _ e h := ⟨e.asRead, (readFrame_of_decode_error grow h).1⟩

/-- The decoder of slices reports no error of a source. -/
theorem Frame.decode_ne_io (d : List UInt8) (kind : ErrorKind) :
    Frame.decode d ≠ .error (.io kind) := by
  rcases Nat.lt_or_ge d.length 5 with h | h
  · rw [Frame.decode_short h]
    simp
  · obtain ⟨t, n, rest, hn, rfl⟩ := exists_header h
    rw [Frame.decode_header t hn]
    repeat' split
    all_goals simp

/-- A failure that is not the end of the source is the decoder's own. -/
theorem readFrame_error_iff {r : FrameReader} {e : IoError} (he : e.asRead = e)
    (hio : ∀ kind, e ≠ .io kind) :
    (readFrame grow r).1 = .error e ↔ Frame.decode r.reader = .error e := by
  constructor
  · intro h
    cases hd : Frame.decode r.reader with
    | ok x => rw [(readFrame_of_decode grow (f := x.1) (n := x.2) hd).1] at h; cases h
    | error e' =>
        rw [(readFrame_of_decode_error grow hd).1] at h
        cases e' with
        | incompleteFrame _ _ => exact absurd (Except.error.inj h).symm (hio _)
        | frameTooLarge _ _ | invalidFrameType _ | io _ =>
            exact congrArg Except.error (Except.error.inj h)
  · intro h
    rw [(readFrame_of_decode_error grow h).1, he]

/-- The end of the source is a frame that the slice holds only a part of. -/
theorem readFrame_eof_iff (grow : ℕ → ℕ → ℕ) {r : FrameReader} :
    (readFrame grow r).1 = .error (.io .unexpectedEof) ↔
      ∃ expected got, Frame.decode r.reader = .error (.incompleteFrame expected got) := by
  constructor
  · intro h
    cases hd : Frame.decode r.reader with
    | ok x => rw [(readFrame_of_decode grow (f := x.1) (n := x.2) hd).1] at h; cases h
    | error e' =>
        rw [(readFrame_of_decode_error grow hd).1] at h
        cases e' with
        | incompleteFrame expected got => exact ⟨expected, got, rfl⟩
        | frameTooLarge _ _ | invalidFrameType _ => cases h
        | io kind => exact absurd hd (Frame.decode_ne_io _ kind)
  · rintro ⟨expected, got, h⟩
    rw [(readFrame_of_decode_error grow h).1]
    rfl

/-- **The streaming decoder is the slice decoder.** After `k` frames the reader
stands where decoding `k` frames ends, and the next reading succeeds, is refused or
ends as the decoding of the slice from there does, for any buffer at the start. -/
theorem readMany_eq_decodeMany (grow : ℕ → ℕ → ℕ) (r r' : FrameReader) (k : ℕ)
    (frames : List Frame) (h : readMany (readFrame grow) k r = .ok (frames, r')) :
    ∃ offset, decodeMany Frame.decode k r.reader = .ok (frames, offset) ∧
      r'.reader = r.reader.drop offset ∧
      (∀ f, (readFrame grow r').1 = .ok f ↔
        ∃ n, Frame.decode (r.reader.drop offset) = .ok (f, n)) ∧
      (∀ f n, Frame.decode (r.reader.drop offset) = .ok (f, n) →
        (readFrame grow r').2.reader = r.reader.drop (offset + n)) ∧
      (∀ t, (readFrame grow r').1 = .error (.invalidFrameType t) ↔
        Frame.decode (r.reader.drop offset) = .error (.invalidFrameType t)) ∧
      (∀ size max, (readFrame grow r').1 = .error (.frameTooLarge size max) ↔
        Frame.decode (r.reader.drop offset) = .error (.frameTooLarge size max)) ∧
      ((readFrame grow r').1 = .error (.io .unexpectedEof) ↔
        ∃ expected got,
          Frame.decode (r.reader.drop offset) = .error (.incompleteFrame expected got)) := by
  obtain ⟨offset, hmany, hrest⟩ := follows_decode.decodeMany_of_readMany h
  refine ⟨offset, hmany, hrest, ?_⟩
  rw [← hrest]
  refine ⟨fun f => ?_, fun f n hd => ?_, fun t => ?_, fun size max => ?_, readFrame_eof_iff grow⟩
  · constructor
    · intro hread
      obtain ⟨n, hd, -⟩ := follows_decode.decode_of_read hread
      exact ⟨n, hd⟩
    · rintro ⟨n, hd⟩
      exact (readFrame_of_decode grow hd).1
  · rw [(readFrame_of_decode grow hd).2, hrest, List.drop_drop]
  · exact readFrame_error_iff rfl (by simp)
  · exact readFrame_error_iff rfl (by simp)

/-- Two frames are read; the third one is cut short. -/
theorem readMany_eq_decodeMany_two :
    ∃ offset, decodeMany Frame.decode 2 [1, 0, 0, 0, 1, 7, 2, 0, 0, 0, 0, 3] =
        .ok ([⟨1, [7]⟩, ⟨2, []⟩], offset) ∧
      (readFrame max ⟨[3], .withCapacity 4096⟩).1 = .error (.io .unexpectedEof) := by
  obtain ⟨offset, hmany, -, -, -, -, -, heof⟩ :=
    readMany_eq_decodeMany max (.new [1, 0, 0, 0, 1, 7, 2, 0, 0, 0, 0, 3])
      ⟨[3], .withCapacity 4096⟩ 2 [⟨1, [7]⟩, ⟨2, []⟩] (by decide +kernel)
  have heleven : decodeMany Frame.decode 2 [1, 0, 0, 0, 1, 7, 2, 0, 0, 0, 0, 3] =
      .ok ([⟨1, [7]⟩, ⟨2, []⟩], 11) := by
    decide +kernel
  cases hmany.symm.trans heleven
  exact ⟨11, hmany, heof.mpr ⟨5, 1, rfl⟩⟩

end TrapChat.Io
