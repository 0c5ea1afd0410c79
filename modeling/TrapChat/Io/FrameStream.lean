import TrapChat.Io.Reader

/-!
The two consumers of a frame reader, on a source of arbitrary bytes. The bytes
split into the frames they begin with and a rest at whose front there is no frame.
`read_all` stops at the first failure. `frame_stream` ends where the source ends
inside a frame, and goes on five bytes further after a refused header; the end of
the source inside a frame is reported by neither.
-/

namespace TrapChat.Io

open Framing

variable {grow : ℕ → ℕ → ℕ}

/-- The source ends inside the frame at the front, or before it. -/
def Truncated (d : List UInt8) : Prop :=
  ∃ expected got, Frame.decode d = .error (.incompleteFrame expected got)

/-- The header at the front is refused for its type or its length. -/
def Refused (d : List UInt8) : Prop := ∃ e, Frame.decode d = .error e ∧ e.asRead = e

/-- A failed decoding is one or the other. -/
theorem truncated_or_refused {d : List UInt8} {e : IoError} (h : Frame.decode d = .error e) :
    Truncated d ∨ Refused d := by
  cases e with
  | incompleteFrame expected got => exact .inl ⟨expected, got, h⟩
  | frameTooLarge _ _ | invalidFrameType _ => exact .inr ⟨_, h, rfl⟩
  | io kind => exact absurd h (Frame.decode_ne_io d kind)

theorem Truncated.not_refused {d : List UInt8} (h : Truncated d) : ¬ Refused d := by
  obtain ⟨expected, got, h⟩ := h
  rintro ⟨e, he, hread⟩
  cases h.symm.trans he
  cases hread

theorem truncated_nil : Truncated [] := ⟨5, 0, rfl⟩

/-! ### Polling -/

theorem poll_of_decode (grow : ℕ → ℕ → ℕ) {r : FrameReader} {f : Frame} {n : ℕ}
    (h : Frame.decode r.reader = .ok (f, n)) :
    ∃ r', poll grow r = some (.ok f, r') ∧ readFrame grow r = (.ok f, r') ∧
      r'.reader = r.reader.drop n := by
  obtain ⟨hread, hrest⟩ := readFrame_of_decode grow h
  have heq : readFrame grow r = (.ok f, (readFrame grow r).2) := Prod.ext hread rfl
  refine ⟨(readFrame grow r).2, ?_, heq, hrest⟩
  rw [poll, heq]

theorem poll_of_truncated {r : FrameReader} (h : Truncated r.reader) : poll grow r = none := by
  have hread := (readFrame_eof_iff grow).mpr h
  have heq : readFrame grow r = (.error (.io .unexpectedEof), (readFrame grow r).2) :=
    Prod.ext hread rfl
  rw [poll, heq]

theorem poll_of_refused (grow : ℕ → ℕ → ℕ) {r : FrameReader} {e : IoError} (h : Frame.decode r.reader = .error e)
    (he : e.asRead = e) :
    ∃ r', poll grow r = some (.error e, r') ∧ readFrame grow r = (.error e, r') ∧
      r'.reader = r.reader.drop 5 := by
  obtain ⟨hread, hrest⟩ := readFrame_of_decode_error grow h
  rw [he] at hread
  have heq : readFrame grow r = (.error e, (readFrame grow r).2) := Prod.ext hread rfl
  refine ⟨(readFrame grow r).2, ?_, heq, ?_⟩
  · rw [poll, heq]
    cases e with
    | io kind => exact absurd h (Frame.decode_ne_io _ kind)
    | frameTooLarge _ _ | invalidFrameType _ | incompleteFrame _ _ => rfl
  · rw [hrest]
    cases e with
    | incompleteFrame _ _ => cases he
    | frameTooLarge _ _ | invalidFrameType _ | io _ => rfl

/-- Every item takes bytes off the source, so the stream ends. -/
theorem poll_consumes {r r' : FrameReader} {item : Except IoError Frame}
    (h : poll grow r = some (item, r')) : r'.reader.length < r.reader.length := by
  cases hd : Frame.decode r.reader with
  | ok x =>
      obtain ⟨f, n⟩ := x
      obtain ⟨r₁, hpoll, -, hrest⟩ := poll_of_decode grow hd
      obtain ⟨hpos, hle⟩ := Frame.advances_decode _ _ _ hd
      cases hpoll.symm.trans h
      rw [hrest, List.length_drop]
      omega
  | error e =>
      rcases truncated_or_refused hd with htrunc | ⟨e', hd', he⟩
      · rw [poll_of_truncated htrunc] at h
        cases h
      · obtain ⟨r₁, hpoll, -, hrest⟩ := poll_of_refused grow hd' he
        cases hpoll.symm.trans h
        -- a header was there to be refused, and `read_frame` has consumed it
        have hheader : ¬ r.reader.length < 5 := by
          intro hshort
          rw [Frame.decode_short hshort] at hd'
          cases hd'
          cases he
        rw [hrest, List.length_drop]
        omega

/-- The items of `frame_stream`, up to its end. -/
def frameStream (grow : ℕ → ℕ → ℕ) (r : FrameReader) : List (Except IoError Frame) :=
  match _h : poll grow r with
  | none => []
  | some (item, r') => item :: frameStream grow r'
termination_by r.reader.length
decreasing_by exact poll_consumes _h

theorem frameStream_none {r : FrameReader} (h : poll grow r = none) : frameStream grow r = [] := by
  rw [frameStream]
  split
  · rfl
  · next h' => cases h.symm.trans h'

theorem frameStream_some {r r' : FrameReader} {item : Except IoError Frame}
    (h : poll grow r = some (item, r')) : frameStream grow r = item :: frameStream grow r' := by
  rw [frameStream]
  split
  · next h' => cases h.symm.trans h'
  · next h' =>
      cases h.symm.trans h'
      rfl

/-- The stream is over exactly where the source ends inside a frame. -/
theorem frameStream_eq_nil_iff (grow : ℕ → ℕ → ℕ) {r : FrameReader} :
    frameStream grow r = [] ↔ Truncated r.reader := by
  constructor
  · intro h
    cases hd : Frame.decode r.reader with
    | ok x =>
        obtain ⟨r', hpoll, -⟩ := poll_of_decode grow (f := x.1) (n := x.2) hd
        rw [frameStream_some hpoll] at h
        cases h
    | error e =>
        rcases truncated_or_refused hd with htrunc | ⟨e', hd', he⟩
        · exact htrunc
        · obtain ⟨r', hpoll, -⟩ := poll_of_refused grow hd' he
          rw [frameStream_some hpoll] at h
          cases h
  · intro h
    exact frameStream_none (poll_of_truncated h)

/-! ### The leading frames -/

/-- The frames a source begins with, and the rest. -/
def completeFrames (d : List UInt8) : List Frame := (leading Frame.decode d).1

def remainder (d : List UInt8) : List UInt8 := (leading Frame.decode d).2

theorem completeFrames_append_remainder (d : List UInt8) :
    (completeFrames d).flatMap Frame.bytes ++ remainder d = d :=
  flatMap_leading Frame.advances_decode (fun _ _ _ h => (Frame.of_decode h).2.2.2) d

/-- A concatenation of complete valid frames leaves no rest. -/
theorem remainder_flatMap {fs : List Frame} (h : ∀ f ∈ fs, f.Valid) :
    remainder (fs.flatMap Frame.bytes) = [] := by
  have hlead := leading_flatMap Frame.advances_decode
    (fun f hf => Frame.inverts_of_valid (h f hf)) ([] : List UInt8)
  have hnil : leading Frame.decode ([] : List UInt8) = ([], []) := leading_of_error rfl
  rw [List.append_nil, hnil] at hlead
  rw [remainder, hlead]

theorem valid_of_mem_completeFrames {d : List UInt8} {f : Frame} (hf : f ∈ completeFrames d) :
    f.Valid := by
  rw [completeFrames] at hf
  induction d using leading_induction Frame.advances_decode with
  | stuck d e h =>
      rw [leading_of_error h] at hf
      cases hf
  | item d a n h ih =>
      rw [leading_of_ok Frame.advances_decode h] at hf
      rcases List.mem_cons.mp hf with rfl | hf
      · exact (Frame.of_decode h).1
      · exact ih hf

/-- Both consumers take the leading frames first. -/
theorem consumers_leading (grow : ℕ → ℕ → ℕ) (d : List UInt8) :
    ∀ r : FrameReader, r.reader = d → ∃ r', r'.reader = remainder d ∧
      frameStream grow r = (completeFrames d).map .ok ++ frameStream grow r' ∧
      ∀ room, readAllLoop grow ((completeFrames d).length + room) r =
        (completeFrames d).map .ok ++ readAllLoop grow room r' := by
  unfold completeFrames remainder
  induction d using leading_induction Frame.advances_decode with
  | stuck d e h =>
      intro r hr
      rw [leading_of_error h]
      exact ⟨r, hr, rfl, fun room => by rw [List.length_nil, Nat.zero_add]; rfl⟩
  | item d f n h ih =>
      intro r hr
      -- one poll and one round of the loop take the same frame
      obtain ⟨r₁, hpoll, hread, hrest⟩ := poll_of_decode grow (hr.symm ▸ h)
      obtain ⟨r', hr', hstream, hall⟩ := ih r₁ (by rw [hrest, hr])
      rw [leading_of_ok Frame.advances_decode h]
      refine ⟨r', hr', ?_, fun room => ?_⟩
      · rw [frameStream_some hpoll, hstream]
        rfl
      · rw [List.length_cons, Nat.add_right_comm, readAllLoop, hread]
        dsimp only
        rw [hall room]
        rfl

/-! ### Both consumers on one source -/

/-- The two consumers reject what is malformed in the same way: the same items,
nothing after a failure, and no failure only where the source is a concatenation of
complete valid frames. -/
structure ConsumersAgree (grow : ℕ → ℕ → ℕ) (d : List UInt8) : Prop where
  same : frameStream grow (.new d) = readAll grow (.new d)
  stops : ∀ front e back, frameStream grow (.new d) = front ++ .error e :: back → back = []
  reports : (∀ e, .error e ∉ frameStream grow (.new d)) → (∀ e, .error e ∉ readAll grow (.new d)) →
    ∃ fs : List Frame, (∀ f ∈ fs, f.Valid) ∧ d = fs.flatMap Frame.bytes

/-- What they do with the rest, below the limit of `read_all`. -/
theorem consumers_rest (grow : ℕ → ℕ → ℕ) {d : List UInt8}
    (h : (completeFrames d).length < maxReadAllFrames) :
    ∃ r' room, r'.reader = remainder d ∧
      frameStream grow (.new d) = (completeFrames d).map .ok ++ frameStream grow r' ∧
      readAll grow (.new d) = (completeFrames d).map .ok ++ readAllLoop grow (room + 1) r' := by
  obtain ⟨r', hr', hstream, hall⟩ := consumers_leading grow d (.new d) rfl
  obtain ⟨room, hroom⟩ := Nat.exists_eq_add_of_lt h
  refine ⟨r', room, hr', hstream, ?_⟩
  rw [readAll, hroom, Nat.add_assoc]
  exact hall (room + 1)

theorem error_not_mem_map_ok (fs : List Frame) (e : IoError) :
    (.error e : Except IoError Frame) ∉ fs.map .ok := by
  simp

/-- Where the source ends inside a frame, both end in silence. -/
theorem consumersAgree_of_truncated {d : List UInt8}
    (h : (completeFrames d).length < maxReadAllFrames) (htrunc : Truncated (remainder d)) :
    ConsumersAgree grow d ↔ remainder d = [] := by
  obtain ⟨r', room, hr', hstream, hall⟩ := consumers_rest grow h
  rw [← hr'] at htrunc
  have heof := (readFrame_eof_iff grow).mpr htrunc
  have hread : readFrame grow r' = (.error (.io .unexpectedEof), (readFrame grow r').2) :=
    Prod.ext heof rfl
  rw [(frameStream_eq_nil_iff grow).mpr htrunc, List.append_nil] at hstream
  rw [readAllLoop, hread, List.append_nil] at hall
  constructor
  · -- neither reports a failure, so the source has to end with a frame
    intro hagree
    obtain ⟨fs, hvalid, rfl⟩ := hagree.reports
      (fun e => hstream ▸ error_not_mem_map_ok _ e) (fun e => hall ▸ error_not_mem_map_ok _ e)
    exact remainder_flatMap hvalid
  · intro hnil
    refine ⟨by rw [hstream, hall], fun front e back heq => ?_, fun _ _ => ?_⟩
    · have hmem : .error e ∈ frameStream grow (.new d) := by
        rw [heq]
        exact List.mem_append_right _ List.mem_cons_self
      exact absurd (hstream ▸ hmem) (error_not_mem_map_ok _ e)
    · refine ⟨completeFrames d, fun f hf => valid_of_mem_completeFrames hf, ?_⟩
      have hsplit := completeFrames_append_remainder d
      rw [hnil, List.append_nil] at hsplit
      exact hsplit.symm

/-- After a refused header the stream goes on where `read_all` stops. -/
theorem consumersAgree_of_refused {d : List UInt8}
    (h : (completeFrames d).length < maxReadAllFrames) (hrefused : Refused (remainder d)) :
    ConsumersAgree grow d ↔ Truncated ((remainder d).drop 5) := by
  obtain ⟨r', room, hr', hstream, hall⟩ := consumers_rest grow h
  obtain ⟨e, hdecode, he⟩ := hrefused
  rw [← hr'] at hdecode ⊢
  obtain ⟨r₁, hpoll, hread, hrest⟩ := poll_of_refused grow hdecode he
  rw [frameStream_some hpoll] at hstream
  -- `read_all` puts the failure at the end and breaks
  have hlast : readAllLoop grow (room + 1) r' = [.error e] := by
    rw [readAllLoop, hread]
    cases e with
    | io kind => exact absurd hdecode (Frame.decode_ne_io _ kind)
    | frameTooLarge _ _ | invalidFrameType _ | incompleteFrame _ _ => rfl
  rw [hlast] at hall
  rw [← hrest, ← frameStream_eq_nil_iff grow]
  constructor
  · intro hagree
    exact hagree.stops _ e _ hstream
  · intro hnil
    rw [hnil] at hstream
    refine ⟨by rw [hstream, hall], fun front e' back heq => ?_, fun hclean _ => ?_⟩
    · -- the failure is the last item, and the frames before it are none
      rw [hstream] at heq
      rcases List.append_eq_append_iff.mp heq with ⟨mid, rfl, hmid⟩ | ⟨mid, hmap, hmid⟩
      · cases mid with
        | nil => exact (List.cons.inj hmid).2.symm
        | cons x mid =>
            have hlen := congrArg List.length hmid
            simp at hlen
      · cases mid with
        | nil => exact (List.cons.inj hmid).2
        | cons x mid =>
            obtain ⟨rfl, -⟩ := List.cons.inj hmid
            refine absurd ?_ (error_not_mem_map_ok (completeFrames d) e')
            rw [hmap]
            exact List.mem_append_right _ List.mem_cons_self
    · refine absurd ?_ (hclean e)
      rw [hstream]
      exact List.mem_append_right _ List.mem_cons_self

/-- **The consumers agree exactly** where nothing follows the leading frames, or
where what follows is a refused header and then less than a frame. -/
theorem consumersAgree_iff (grow : ℕ → ℕ → ℕ) (d : List UInt8)
    (h : (completeFrames d).length < maxReadAllFrames) :
    ConsumersAgree grow d ↔
      remainder d = [] ∨ Refused (remainder d) ∧ Truncated ((remainder d).drop 5) := by
  obtain ⟨e, he⟩ := leading_rest_error Frame.advances_decode d
  rw [← remainder] at he
  rcases truncated_or_refused he with htrunc | hrefused
  · rw [consumersAgree_of_truncated h htrunc]
    exact (or_iff_left fun hr => Truncated.not_refused htrunc hr.1).symm
  · rw [consumersAgree_of_refused h hrefused]
    have hne : remainder d ≠ [] := by
      intro hnil
      rw [hnil] at hrefused
      exact truncated_nil.not_refused hrefused
    exact ((or_iff_right hne).trans (and_iff_right hrefused)).symm

/-- A frame and a lone byte after it. -/
theorem consumersAgree_lone_byte :
    (completeFrames [1, 0, 0, 0, 0, 3]).length < maxReadAllFrames ∧
      (ConsumersAgree max [1, 0, 0, 0, 0, 3] ↔ remainder [1, 0, 0, 0, 0, 3] = [] ∨
        Refused (remainder [1, 0, 0, 0, 0, 3]) ∧
          Truncated ((remainder [1, 0, 0, 0, 0, 3]).drop 5)) := by
  have hfront : Frame.decode [1, 0, 0, 0, 0, 3] = .ok (⟨1, []⟩, 5) := by decide +kernel
  have hrest : leading Frame.decode (([1, 0, 0, 0, 0, 3] : List UInt8).drop 5) = ([], [3]) :=
    leading_of_error rfl
  have hlen : (completeFrames [1, 0, 0, 0, 0, 3]).length < maxReadAllFrames := by
    rw [completeFrames, leading_of_ok Frame.advances_decode hfront, hrest]
    decide
  exact ⟨hlen, consumersAgree_iff max _ hlen⟩

/-- After a refused header the stream decodes what `read_all` never looks at. -/
theorem refused_header_passed :
    ¬ ∀ grow d, (completeFrames d).length < maxReadAllFrames → ConsumersAgree grow d := by
  intro hall
  have hdecode : Frame.decode [0, 0, 0, 0, 0, 1, 0, 0, 0, 0] = .error (.invalidFrameType 0) := rfl
  have hframes : leading Frame.decode [0, 0, 0, 0, 0, 1, 0, 0, 0, 0] = ([], _) :=
    leading_of_error hdecode
  have hlen : (completeFrames [0, 0, 0, 0, 0, 1, 0, 0, 0, 0]).length < maxReadAllFrames := by
    rw [completeFrames, hframes]
    decide
  have hrest : remainder [0, 0, 0, 0, 0, 1, 0, 0, 0, 0] = [0, 0, 0, 0, 0, 1, 0, 0, 0, 0] := by
    rw [remainder, hframes]
  have hrefused : Refused (remainder [0, 0, 0, 0, 0, 1, 0, 0, 0, 0]) := by
    rw [hrest]
    exact ⟨_, hdecode, rfl⟩
  have htrunc := (consumersAgree_of_refused hlen hrefused).mp (hall max _ hlen)
  rw [hrest] at htrunc
  obtain ⟨expected, got, htail⟩ := htrunc
  have hframe : Frame.decode [1, 0, 0, 0, 0] = .ok (⟨1, []⟩, 5) := by decide +kernel
  cases hframe.symm.trans htail

end TrapChat.Io
