import TrapChat.Client.MediaTransfer
import TrapChat.Library.Transition

/-!
Media messages as the page receives them: its listener starts a call of
`handleChunk` for every message and waits for none of them. A call is suspended
at two awaits, and any suspended call may be the next one to go on.

The record in which a call stores its chunk is the one that it found before its
second await. By then another call may have stored the same chunk, or the last
one, after which the transfer is no longer in the map.
-/

namespace TrapChat.Client

open Transition
open MediaAssembler (payloadId chunkPayload)

/-- A call of `handleChunk` at its first or at its second await. -/
inductive Call
  | opening (c : Chunk)
  | storing (c : Chunk) (ref : TransferRef)
  deriving DecidableEq

def Call.chunk : Call → Chunk
  | .opening c => c
  | .storing c _ => c

/-- The assembler with the calls that are suspended, and the outcomes of those that
have ended, each with the transfer that its message names. -/
structure Listener where
  assembler : MediaAssembler
  calls : List Call
  outcomes : List (Option String × Outcome)

/-- A stale timeout goes off, by its place in `running`. -/
inductive ListenerEvent
  | arrive (payload : PayloadData)
  | resume (call : ℕ)
  | stale (timer : ℕ)

namespace Listener

def start : Listener := ⟨.new, [], []⟩

/-- The call `n` of the list ends. -/
def finish (s : Listener) (n : ℕ) (c : Chunk) : MediaAssembler × Outcome → Listener
  | (m, outcome) => ⟨m, s.calls.eraseIdx n, s.outcomes ++ [(some c.transferId, outcome)]⟩

/-- The call `n` of the list goes on to its second await, or to its end. -/
def openCall (W : AesGcm) (key : W.Key) (s : Listener) (n : ℕ) (c : Chunk) : Listener :=
  match openEnvelope W key c.chunk with
  | none => s.finish n c (s.assembler, .returned (.error c.transferId keyMismatch))
  | some inner =>
      match s.assembler.openSlot c inner with
      | (m, none) => s.finish n c (m, .returned .ignored)
      | (m, some ref) => { s with assembler := m, calls := s.calls.eraseIdx n ++ [.storing c ref] }

def resume (W : AesGcm) (key : W.Key) (s : Listener) (n : ℕ) : Call → Listener
  | .opening c => s.openCall W key n c
  | .storing c ref =>
      s.finish n c (s.assembler.store c ref (decryptMediaEnvelope W key c.chunk))

/-- A message starts a call, which may end at once. -/
def receive (s : Listener) (payload : PayloadData) : Listener :=
  match accept payload with
  | none => { s with outcomes := s.outcomes ++ [(payloadId payload, .returned .ignored)] }
  | some c => { s with calls := s.calls ++ [.opening c] }


def expire (s : Listener) (n : ℕ) : TimeoutId × String → Listener
  | (_, transferId) =>
      { s with
        assembler :=
          { s.assembler.stale transferId with running := s.assembler.running.eraseIdx n } }

def step (W : AesGcm) (key : W.Key) (s : Listener) : ListenerEvent → Option Listener
  | .arrive payload => some (s.receive payload)
  | .resume n => s.calls[n]?.map (s.resume W key n)
  | .stale n => s.assembler.running[n]?.map (s.expire n)

/-- The record is the transfer's: it is in the map, or a call is about to store in
it. -/
def Holds (s : Listener) (id : String) (ref : TransferRef) : Prop :=
  s.assembler.transfers.lookup id = some ref ∨
    ∃ c, Call.storing c ref ∈ s.calls ∧ c.transferId = id

/-- The bytes of the complete results for the transfer. -/
def completed (s : Listener) (id : String) : List Bytes :=
  s.outcomes.filterMap fun
    | (_, .returned (.complete transferId _ _ _ _ blob)) =>
        if transferId = id then some blob else none
    | _ => none

end Listener

/-- The number of slots that are filled. -/
def Transfer.filled (t : Transfer) : ℕ := t.slots.countP Option.isSome

section
variable (file : File) (id : String)

/-- Around the step, every record of the transfer counts its filled slots, no call for
it has thrown, and it is complete at most once, with the bytes of the file. -/
structure Correct (s s' : Listener) : Prop where
  received : ∀ ref, s.Holds id ref ∨ s'.Holds id ref →
    (s'.assembler.objects ref).received = (s'.assembler.objects ref).filled
  thrown : (some id, Outcome.thrown) ∉ s'.outcomes
  completed : s'.completed id = [] ∨ s'.completed id = [file.bytes]

/-- The step does not store a chunk of the transfer in a slot that another call has
filled, nor in the last empty slot of a record once the transfer is complete. -/
def Fresh (s : Listener) : ListenerEvent → Prop
  | .resume n =>
      ∀ c ref, s.calls[n]? = some (.storing c ref) → c.transferId = id →
        (s.assembler.objects ref).chunks c.seq = none ∧
          (s.completed id ≠ [] →
            (s.assembler.objects ref).received + 1 < (s.assembler.objects ref).total)
  | _ => True

/-- The step does not lose the transfer, as the limit on open transfers and the stale
timeout do. -/
def Kept (s : Listener) : ListenerEvent → Prop
  | .resume n =>
      ∀ c, s.calls[n]? = some (.opening c) → c.transferId = id →
        s.assembler.transfers.lookup id = none →
          s.assembler.transfers.keys.card < MAX_CONCURRENT_TRANSFERS
  | .stale n => ∀ timer, s.assembler.running[n]? = some (timer, id) → s.completed id ≠ []
  | _ => True

end

/-! ### Records and their slots -/

/-- The record holds the chunks in `S` and no others. -/
structure Filled (file : File) (S : Finset ℕ) (t : Transfer) : Prop where
  chunks : t.chunks = (gathered file S).chunks
  subset : S ⊆ Finset.range file.total
  length : t.length = file.total
  total : t.total = file.total
  received : t.received = S.card

section
variable {file : File} {S : Finset ℕ} {t : Transfer} {seq : ℕ}

theorem filled_new (file : File) : Filled file ∅ (Transfer.new file.total) := by
  rw [← gathered_empty]
  exact ⟨rfl, Finset.empty_subset _, rfl, rfl, rfl⟩

theorem Filled.describe (h : Filled file S t) (e : MediaEnvelope) : Filled file S (t.describe e) :=
  ⟨h.chunks, h.subset, h.length, h.total, h.received⟩

theorem Filled.chunks_eq_none (h : Filled file S t) : t.chunks seq = none ↔ seq ∉ S := by
  rw [h.chunks]
  simp [gathered]

theorem chunks_insert (file : File) (S : Finset ℕ) (seq : ℕ) :
    Function.update (gathered file S).chunks seq (some (file.piece seq)) =
      (gathered file (insert seq S)).chunks := by
  ext1 k
  by_cases hk : k = seq
  · subst hk
    simp [gathered]
  · simp [gathered, hk]

/-- What a call stores, and how far it has counted then. -/
theorem Filled.storeChunk (h : Filled file S t) (hseq : seq < file.total) (e : MediaEnvelope) :
    (t.storeChunk seq (file.piece seq) e).chunks = (gathered file (insert seq S)).chunks ∧
      (t.storeChunk seq (file.piece seq) e).length = file.total ∧
      (t.storeChunk seq (file.piece seq) e).total = file.total ∧
      (t.storeChunk seq (file.piece seq) e).received = S.card + 1 := by
  obtain ⟨t', ht', hstore⟩ : ∃ t', Filled file S t' ∧
      t.storeChunk seq (file.piece seq) e = t'.fill seq (file.piece seq) := by
    rw [Transfer.storeChunk]
    split
    · exact ⟨_, h.describe e, rfl⟩
    · exact ⟨t, h, rfl⟩
  rw [hstore, Transfer.fill, ht'.chunks, chunks_insert, ht'.length, ht'.received]
  exact ⟨rfl, max_eq_left hseq, ht'.total, rfl⟩

theorem Filled.insert (h : Filled file S t) (hseq : seq < file.total) (hS : seq ∉ S)
    (e : MediaEnvelope) :
    Filled file (insert seq S) (t.storeChunk seq (file.piece seq) e) := by
  obtain ⟨hchunks, hlength, htotal, hreceived⟩ := h.storeChunk hseq e
  exact ⟨hchunks, Finset.insert_subset (Finset.mem_range.mpr hseq) h.subset, hlength, htotal,
    hreceived.trans (Finset.card_insert_of_notMem hS).symm⟩

theorem slots_of_chunks (hchunks : t.chunks = (gathered file S).chunks)
    (hlength : t.length = file.total) : t.slots = (gathered file S).slots := by
  rw [Transfer.slots, hchunks, hlength]
  rfl

/-- The filled slots are those of the chunks. -/
theorem filled_of_chunks (hS : S ⊆ Finset.range file.total)
    (hchunks : t.chunks = (gathered file S).chunks) (hlength : t.length = file.total) :
    t.filled = S.card := by
  rw [Transfer.filled, slots_of_chunks hchunks hlength, Transfer.slots, List.countP_map]
  have hfilled : (Option.isSome ∘ (gathered file S).chunks) = fun k => decide (k ∈ S) := by
    ext1 k
    by_cases hk : k ∈ S <;> simp [gathered, hk]
  rw [hfilled, List.countP_eq_length_filter, ← List.toFinset_card_of_nodup
    (List.nodup_range.filter _)]
  congr 1
  ext k
  have hk : k ∈ S → k < (gathered file S).length := fun hk => Finset.mem_range.mp (hS hk)
  simpa using hk

theorem Filled.filled (h : Filled file S t) : t.received = t.filled :=
  h.received.trans (filled_of_chunks h.subset h.chunks h.length).symm

theorem Filled.received_eq_total (h : Filled file S t) :
    t.received = t.total ↔ S = Finset.range file.total := by
  rw [h.received, h.total]
  constructor
  · intro hcard
    exact Finset.eq_of_subset_of_card_le h.subset (by rw [hcard, Finset.card_range])
  · intro hfull
    rw [hfull, Finset.card_range]

end

/-! ### What a step does to the other transfers -/

namespace MediaAssembler

variable {m m' : MediaAssembler} {c : Chunk} {inner : MediaEnvelope}

/-- The record is new, or it is the one in the map. -/
theorem record_cases {ref : TransferRef} (h : m.record c inner = some (m', ref)) :
    (m.transfers.lookup c.transferId = none ∧ m' = m.openTransfer c.transferId c.total ∧
        ref = m.allocated) ∨
      m.transfers.lookup c.transferId = some ref ∧
        (m' = m ∨ m' = m.setObject ref ((m.objects ref).describe inner)) := by
  rw [record] at h
  split at h
  · next hnone =>
    split at h
    · cases h
    · obtain ⟨rfl, rfl⟩ := Prod.mk.inj (Option.some.inj h)
      exact .inl ⟨hnone, rfl, rfl⟩
  · next r hr =>
    split at h
    · obtain ⟨rfl, rfl⟩ := Prod.mk.inj (Option.some.inj h)
      exact .inr ⟨hr, .inr rfl⟩
    · obtain ⟨rfl, rfl⟩ := Prod.mk.inj (Option.some.inj h)
      exact .inr ⟨hr, .inl rfl⟩

/-- A chunk is turned away at the limit, and a call ends where its slot is filled. -/
theorem openSlot_cases {ref : Option TransferRef} (h : m.openSlot c inner = (m', ref)) :
    (m.transfers.lookup c.transferId = none ∧ MAX_CONCURRENT_TRANSFERS ≤ m.transfers.keys.card ∧
        m' = m ∧ ref = none) ∨
      ∃ m₁ r, m.record c inner = some (m₁, r) ∧ m' = m₁.resetTimer c.transferId ∧
        (ref = none ∧ (m₁.objects r).chunks c.seq ≠ none ∨
          ref = some r ∧ (m₁.objects r).chunks c.seq = none) := by
  rw [openSlot] at h
  split at h
  · next hrecord =>
    obtain ⟨rfl, rfl⟩ := Prod.mk.inj h
    rw [record] at hrecord
    split at hrecord
    · next hnone =>
      split at hrecord
      · next hlimit => exact .inl ⟨hnone, hlimit, rfl, rfl⟩
      · cases hrecord
    · split at hrecord <;> cases hrecord
  · next m₁ r hrecord =>
    right
    refine ⟨m₁, r, hrecord, ?_⟩
    dsimp only at h
    split at h
    · next hslot =>
      obtain ⟨rfl, rfl⟩ := Prod.mk.inj h
      exact ⟨rfl, .inl ⟨rfl, Option.isSome_iff_ne_none.mp hslot⟩⟩
    · next hslot =>
      obtain ⟨rfl, rfl⟩ := Prod.mk.inj h
      exact ⟨rfl, .inr ⟨rfl, Option.not_isSome_iff_eq_none.mp hslot⟩⟩

/-- The end of a call writes its record and takes at most its transfer out of the
map. -/
theorem store_cases {ref : TransferRef} {opened : Option (Bytes × MediaEnvelope)} {o : Outcome}
    (h : m.store c ref opened = (m', o)) :
    m'.allocated = m.allocated ∧ (∀ r, r ≠ ref → m'.objects r = m.objects r) ∧
      (m'.transfers = m.transfers ∨ m'.transfers = m.transfers.erase c.transferId) ∧
      ∀ transferId mimeType fileName fileSize url blob,
        o = .returned (.complete transferId mimeType fileName fileSize url blob) →
          transferId = c.transferId := by
  rcases opened with _ | ⟨data, chunkMeta⟩
  · obtain ⟨rfl, rfl⟩ := Prod.mk.inj h
    exact ⟨rfl, fun _ _ => rfl, .inl rfl, by simp⟩
  · have hobjects : ∀ r, r ≠ ref → Function.update m.objects ref
        ((m.objects ref).storeChunk c.seq data chunkMeta) r = m.objects r :=
      fun r hr => Function.update_of_ne hr _ _
    rw [store] at h
    split at h
    · rw [reassemble] at h
      split at h
      · obtain ⟨rfl, rfl⟩ := Prod.mk.inj h
        exact ⟨rfl, hobjects, .inr rfl, by simp⟩
      · split at h
        · obtain ⟨rfl, rfl⟩ := Prod.mk.inj h
          exact ⟨rfl, hobjects, .inl rfl, by simp⟩
        · obtain ⟨rfl, rfl⟩ := Prod.mk.inj h
          refine ⟨rfl, hobjects, .inr rfl, fun _ _ _ _ _ _ hcomplete => ?_⟩
          simp only [Outcome.returned.injEq, ChunkResult.complete.injEq] at hcomplete
          exact hcomplete.1.symm
    · obtain ⟨rfl, rfl⟩ := Prod.mk.inj h
      exact ⟨rfl, hobjects, .inl rfl, by simp⟩

end MediaAssembler

namespace Listener

/-- Two transfers share no record. -/
structure Apart (s : Listener) : Prop where
  lt : ∀ id ref, s.Holds id ref → ref < s.assembler.allocated
  eq : ∀ id id' ref, s.Holds id ref → s.Holds id' ref → id = id'

theorem apart_start : start.Apart := by
  have hnone : ∀ id ref, ¬start.Holds id ref := by
    rintro id ref (h | ⟨c, h, -⟩)
    · simp [start, MediaAssembler.new] at h
    · exact absurd h List.not_mem_nil
  exact ⟨fun id ref h => absurd h (hnone id ref), fun id _ ref h => absurd h (hnone id ref)⟩

/-- The step is one of transfer `x`, with what it does to the rest. -/
structure Serves (x : Option String) (s s' : Listener) : Prop where
  allocated : s.assembler.allocated ≤ s'.assembler.allocated
  lookup : ∀ id ref, s'.assembler.transfers.lookup id = some ref →
    s.assembler.transfers.lookup id = some ref ∨
      x = some id ∧ ref = s.assembler.allocated ∧ s.assembler.allocated < s'.assembler.allocated
  other : ∀ id, x ≠ some id →
    s'.assembler.transfers.lookup id = s.assembler.transfers.lookup id
  objects : ∀ ref, ref < s.assembler.allocated → (∀ id, x = some id → ¬s.Holds id ref) →
    s'.assembler.objects ref = s.assembler.objects ref
  storing : ∀ c ref, Call.storing c ref ∈ s'.calls → Call.storing c ref ∈ s.calls ∨
    s'.assembler.transfers.lookup c.transferId = some ref
  calls : ∀ call : Call, x ≠ some call.chunk.transferId → (call ∈ s'.calls ↔ call ∈ s.calls)
  completed : ∀ id, x ≠ some id → s'.completed id = s.completed id
  thrown : ∀ id, x ≠ some id → (some id, Outcome.thrown) ∈ s'.outcomes →
    (some id, Outcome.thrown) ∈ s.outcomes

/-- The transfer that an event is for. -/
def target (s : Listener) : ListenerEvent → Option String
  | .arrive payload => payloadId payload
  | .resume n => s.calls[n]?.map fun call => call.chunk.transferId
  | .stale n => s.assembler.running[n]?.map Prod.snd

section
variable {x : Option String} {s s' : Listener} {W : AesGcm} {key : W.Key}

theorem Serves.holds (h : Serves x s s') {id : String} {ref : TransferRef}
    (hs : s'.Holds id ref) : s.Holds id ref ∨
      x = some id ∧ ref = s.assembler.allocated ∧
        s.assembler.allocated < s'.assembler.allocated := by
  have hmap : s'.assembler.transfers.lookup id = some ref → s.Holds id ref ∨
      x = some id ∧ ref = s.assembler.allocated ∧
        s.assembler.allocated < s'.assembler.allocated := by
    intro hlookup
    rcases h.lookup id ref hlookup with hold | hnew
    · exact .inl (.inl hold)
    · exact .inr hnew
  rcases hs with hlookup | ⟨c, hc, rfl⟩
  · exact hmap hlookup
  · rcases h.storing c ref hc with hold | hlookup
    · exact .inl (.inr ⟨c, hold, rfl⟩)
    · exact hmap hlookup

/-- **Records stay apart.** -/
theorem Serves.apart (h : Serves x s s') (hs : s.Apart) : s'.Apart := by
  refine ⟨fun id ref hid => ?_, fun id id' ref hid hid' => ?_⟩
  · rcases h.holds hid with hold | ⟨-, rfl, hlt⟩
    · exact (hs.lt id ref hold).trans_le h.allocated
    · exact hlt
  · rcases h.holds hid with hold | ⟨hx, hnew, -⟩ <;>
      rcases h.holds hid' with hold' | ⟨hx', hnew', -⟩
    · exact hs.eq id id' ref hold hold'
    · exact absurd hnew' (hs.lt id ref hold).ne
    · exact absurd hnew (hs.lt id' ref hold').ne
    · exact Option.some.inj (hx.symm.trans hx')

theorem mem_calls_iff {n : ℕ} {call : Call} (h : s.calls[n]? = some call) (call' : Call) :
    call' ∈ s.calls ↔ call' = call ∨ call' ∈ s.calls.eraseIdx n := by
  obtain ⟨hn, rfl⟩ := List.getElem?_eq_some_iff.mp h
  rw [← (List.getElem_cons_eraseIdx_perm hn).mem_iff, List.mem_cons]

/-- The calls of the other transfers stay when a call leaves the list. -/
theorem mem_eraseIdx_iff {n : ℕ} {call call' : Call} (h : s.calls[n]? = some call)
    (hne : call'.chunk.transferId ≠ call.chunk.transferId) :
    call' ∈ s.calls.eraseIdx n ↔ call' ∈ s.calls := by
  rw [mem_calls_iff h]
  exact ⟨.inr, fun h' => h'.resolve_left fun e => hne (e ▸ rfl)⟩

theorem completed_append (m : MediaAssembler) (calls : List Call)
    (outcomes outcomes' : List (Option String × Outcome)) (id : String) :
    completed ⟨m, calls, outcomes ++ outcomes'⟩ id =
      completed ⟨m, calls, outcomes⟩ id ++ completed ⟨m, calls, outcomes'⟩ id :=
  List.filterMap_append

/-- The end of a call of `c`, after a change to the assembler. -/
theorem serves_finish {n : ℕ} {call : Call} (h : s.calls[n]? = some call) {m : MediaAssembler}
    {o : Outcome}
    (hallocated : s.assembler.allocated ≤ m.allocated)
    (hlookup : ∀ id ref, m.transfers.lookup id = some ref →
      s.assembler.transfers.lookup id = some ref ∨ call.chunk.transferId = id ∧
        ref = s.assembler.allocated ∧ s.assembler.allocated < m.allocated)
    (hother : ∀ id, call.chunk.transferId ≠ id →
      m.transfers.lookup id = s.assembler.transfers.lookup id)
    (hobjects : ∀ ref, ref < s.assembler.allocated → ¬s.Holds call.chunk.transferId ref →
      m.objects ref = s.assembler.objects ref)
    (hcomplete : ∀ transferId mimeType fileName fileSize url blob,
      o = .returned (.complete transferId mimeType fileName fileSize url blob) →
        transferId = call.chunk.transferId) :
    Serves (some call.chunk.transferId) s (s.finish n call.chunk (m, o)) where
  allocated := hallocated
  lookup id ref hid := (hlookup id ref hid).imp_right fun hnew => ⟨congrArg some hnew.1, hnew.2⟩
  other id hid := hother id fun e => hid (congrArg some e)
  objects ref hlt href := hobjects ref hlt (href _ rfl)
  storing c ref hc := .inl ((mem_calls_iff h _).mpr (.inr hc))
  calls call' hne := mem_eraseIdx_iff h fun e => hne (congrArg some e.symm)
  completed id hid := by
    rw [finish, completed_append]
    refine (congrArg _ ?_).trans (List.append_nil _)
    rw [completed, List.filterMap_cons]
    split
    · rfl
    · next blob heq =>
      split at heq
      · next htag =>
        split at heq
        · next hname =>
          obtain ⟨-, rfl⟩ := Prod.mk.inj htag
          exact absurd (congrArg some ((hcomplete _ _ _ _ _ _ rfl).symm.trans hname)) hid
        · cases heq
      · cases heq
  thrown id hid hmem := by
    rcases List.mem_append.mp hmem with hold | hnew
    · exact hold
    · have htag := (Prod.mk.inj (List.mem_singleton.mp hnew)).1
      exact absurd htag.symm hid

/-- What a call does that has found its record. -/
theorem record_serves {c : Chunk} {inner : MediaEnvelope} {m : MediaAssembler}
    {ref : TransferRef} (h : s.assembler.record c inner = some (m, ref)) :
    s.assembler.allocated ≤ m.allocated ∧
      (∀ id r, m.transfers.lookup id = some r → s.assembler.transfers.lookup id = some r ∨
        c.transferId = id ∧ r = s.assembler.allocated ∧ s.assembler.allocated < m.allocated) ∧
      (∀ id, c.transferId ≠ id → m.transfers.lookup id = s.assembler.transfers.lookup id) ∧
      (∀ r, r < s.assembler.allocated → ¬s.Holds c.transferId r →
        m.objects r = s.assembler.objects r) ∧
      m.transfers.lookup c.transferId = some ref := by
  rcases MediaAssembler.record_cases h with ⟨hnone, rfl, rfl⟩ | ⟨hlookup, rfl | rfl⟩
  · refine ⟨Nat.le_succ _, fun id r hid => ?_, fun id hid => ?_, fun r hr _ => ?_,
      Finmap.lookup_insert _⟩
    · rw [MediaAssembler.lookup_openTransfer] at hid
      split at hid
      · next hx => exact .inr ⟨hx.symm, (Option.some.inj hid).symm, Nat.lt_succ_self _⟩
      · exact .inl hid
    · rw [MediaAssembler.lookup_openTransfer, if_neg hid.symm]
    · exact Function.update_of_ne hr.ne _ _
  · exact ⟨le_rfl, fun _ _ hid => .inl hid, fun _ _ => rfl, fun _ _ _ => rfl, hlookup⟩
  · refine ⟨le_rfl, fun _ _ hid => .inl hid, fun _ _ => rfl, fun r _ hr => ?_, hlookup⟩
    have hne : r ≠ ref := by
      rintro rfl
      exact hr (.inl hlookup)
    exact Function.update_of_ne hne _ _

theorem serves_openCall {n : ℕ} {c : Chunk} (h : s.calls[n]? = some (.opening c)) :
    Serves (some c.transferId) s (s.openCall W key n c) := by
  rw [openCall]
  split
  · exact serves_finish h le_rfl (fun _ _ hid => .inl hid) (fun _ _ => rfl) (fun _ _ _ => rfl)
      (by simp)
  · next inner _ =>
    split
    · next m hslotted =>
      rcases MediaAssembler.openSlot_cases hslotted with ⟨-, -, rfl, -⟩ | ⟨m₁, r, hrecord, rfl, -⟩
      · exact serves_finish h le_rfl (fun _ _ hid => .inl hid) (fun _ _ => rfl) (fun _ _ _ => rfl)
          (by simp)
      · obtain ⟨hallocated, hlookup, hother, hobjects, -⟩ := record_serves hrecord
        exact serves_finish h hallocated hlookup hother hobjects (by simp)
    · next m ref hslotted =>
      rcases MediaAssembler.openSlot_cases hslotted with ⟨-, -, -, hnone⟩ | ⟨m₁, r, hrecord, rfl, hslot⟩
      · cases hnone
      · obtain ⟨hallocated, hlookup, hother, hobjects, hmap⟩ := record_serves hrecord
        have hr : ref = r := by
          rcases hslot with ⟨hnone, -⟩ | ⟨hsome, -⟩
          · cases hnone
          · exact Option.some.inj hsome
        refine ⟨hallocated, fun id ref' hid => (hlookup id ref' hid).imp_right fun hnew =>
            ⟨congrArg some hnew.1, hnew.2⟩, fun id hid => hother id fun e => hid (congrArg some e),
          fun ref' hlt href => hobjects ref' hlt (href _ rfl), fun c' ref' hc' => ?_,
          fun call' hne => ?_, fun _ _ => rfl, fun _ _ hmem => hmem⟩
        · rcases List.mem_append.mp hc' with hold | hnew
          · exact .inl ((mem_calls_iff h _).mpr (.inr hold))
          · obtain ⟨rfl, rfl⟩ := Call.storing.inj (List.mem_singleton.mp hnew)
            rw [hr]
            exact .inr hmap
        · rw [List.mem_append, mem_eraseIdx_iff h fun e => hne (congrArg some e.symm),
            List.mem_singleton]
          exact ⟨fun h' => h'.resolve_right fun e => hne (e ▸ rfl), .inl⟩

theorem serves_store {n : ℕ} {c : Chunk} {ref : TransferRef}
    (h : s.calls[n]? = some (.storing c ref)) (opened : Option (Bytes × MediaEnvelope)) :
    Serves (some c.transferId) s (s.finish n c (s.assembler.store c ref opened)) := by
  obtain ⟨m, o, hstore⟩ : ∃ m o, s.assembler.store c ref opened = (m, o) := ⟨_, _, rfl⟩
  obtain ⟨hallocated, hobjects, htransfers, hcomplete⟩ := MediaAssembler.store_cases hstore
  have hheld : s.Holds c.transferId ref :=
    .inr ⟨c, (mem_calls_iff h _).mpr (.inl rfl), rfl⟩
  rw [hstore]
  refine serves_finish h hallocated.ge ?_ ?_ (fun r _ hr => hobjects r fun e => hr (e ▸ hheld))
    hcomplete
  · intro id r hid
    left
    rcases htransfers with hsame | herase
    · exact hsame ▸ hid
    · rw [herase] at hid
      by_cases hx : id = c.transferId
      · rw [hx, Finmap.lookup_erase] at hid
        cases hid
      · rwa [Finmap.lookup_erase_ne hx] at hid
  · intro id hid
    rcases htransfers with hsame | herase
    · rw [hsame]
    · rw [herase]
      exact Finmap.lookup_erase_ne (Ne.symm hid)

theorem serves_receive (s : Listener) (payload : PayloadData) :
    Serves (payloadId payload) s (s.receive payload) := by
  rw [receive]
  split
  · refine ⟨le_rfl, fun _ _ hid => .inl hid, fun _ _ => rfl, fun _ _ _ => rfl, fun _ _ hc => .inl hc,
      fun _ _ => .rfl, fun id _ => ?_, fun id _ hmem => ?_⟩
    · rw [completed_append]
      exact List.append_nil _
    · rcases List.mem_append.mp hmem with hold | hnew
      · exact hold
      · cases (Prod.mk.inj (List.mem_singleton.mp hnew)).2
  · next c hc =>
    rw [MediaAssembler.payloadId_of_accept hc]
    refine ⟨le_rfl, fun _ _ hid => .inl hid, fun _ _ => rfl, fun _ _ _ => rfl, fun c' ref hc' => ?_,
      fun call hne => ?_, fun _ _ => rfl, fun _ _ hmem => hmem⟩
    · rcases List.mem_append.mp hc' with hold | hnew
      · exact .inl hold
      · cases List.mem_singleton.mp hnew
    · rw [List.mem_append, List.mem_singleton]
      exact ⟨fun h => h.resolve_right fun e => hne (e ▸ rfl), .inl⟩

theorem serves_expire (s : Listener) (n : ℕ) (timer : TimeoutId × String) :
    Serves (some timer.2) s (s.expire n timer) := by
  have hlookup : ∀ id, (s.expire n timer).assembler.transfers.lookup id =
      if id = timer.2 then none else s.assembler.transfers.lookup id :=
    MediaAssembler.lookup_forget s.assembler timer.2
  refine ⟨le_rfl, fun id ref hid => ?_, fun id hid => ?_, fun _ _ _ => rfl, fun _ _ hc => .inl hc,
    fun _ _ => .rfl, fun _ _ => rfl, fun _ _ hmem => hmem⟩
  · rw [hlookup] at hid
    split at hid
    · cases hid
    · exact .inl hid
  · rw [hlookup, if_neg fun e => hid (congrArg some e.symm)]

/-- **A step leaves the other transfers alone.** -/
theorem serves_step {a : ListenerEvent} (h : step W key s a = some s') :
    Serves (s.target a) s s' := by
  cases a with
  | arrive payload =>
      cases h
      exact serves_receive s payload
  | resume n =>
      obtain ⟨call, hcall, rfl⟩ := Option.map_eq_some_iff.mp h
      rw [target, hcall]
      cases call with
      | opening c => exact serves_openCall hcall
      | storing c ref => exact serves_store hcall _
  | stale n =>
      obtain ⟨timer, htimer, rfl⟩ := Option.map_eq_some_iff.mp h
      rw [target, htimer]
      exact serves_expire s n timer

end

end Listener

/-! ### The transfer's own steps -/

namespace MediaAssembler

section
variable {file : File} {t : Transfer} {S : Finset ℕ} {m : MediaAssembler} {c : Chunk}

theorem reassemble_full (h : Filled file (Finset.range file.total) t)
    (hsize : file.size ≤ MAX_FILE_SIZE) :
    m.reassemble c t = ({ m.forget c.transferId with urls := m.urls + 1 },
      .returned (.complete c.transferId (validateMimeType t.mimeType file.bytes) t.fileName
        t.fileSize m.urls file.bytes)) := by
  have hslots := slots_of_chunks h.chunks h.length
  have hsum : t.totalSize = file.size := by
    rw [← totalSize_gathered, Transfer.totalSize, hslots, Transfer.totalSize]
  rw [reassemble, if_neg (Nat.not_lt.mpr (hsum ▸ hsize)), hslots, allSome_gathered]
  simp only [flatten_pieces]

/-- The end of a call for a chunk of the file. -/
theorem store_piece {ref : TransferRef} (hS : Filled file S (m.objects ref)) (hseq : c.seq < file.total)
    (hnew : c.seq ∉ S) (hsize : file.size ≤ MAX_FILE_SIZE) {e : MediaEnvelope} {m' : MediaAssembler}
    {o : Outcome} (h : m.store c ref (some (file.piece c.seq, e)) = (m', o)) :
    (insert c.seq S ≠ Finset.range file.total → m'.transfers = m.transfers ∧
        ∃ received, o = .returned (.progress c.transferId received file.total)) ∧
      (insert c.seq S = Finset.range file.total →
        m'.transfers = m.transfers.erase c.transferId ∧
        ∃ mimeType fileName fileSize url,
          o = .returned (.complete c.transferId mimeType fileName fileSize url file.bytes)) := by
  have hfilled := hS.insert hseq hnew e
  rw [store] at h
  constructor
  · intro hne
    rw [if_neg (mt hfilled.received_eq_total.mp hne)] at h
    obtain ⟨rfl, rfl⟩ := Prod.mk.inj h
    rw [hfilled.total]
    exact ⟨rfl, _, rfl⟩
  · intro hfull
    rw [if_pos (hfilled.received_eq_total.mpr hfull)] at h
    rw [hfull] at hfilled
    rw [reassemble_full hfilled hsize] at h
    obtain ⟨rfl, rfl⟩ := Prod.mk.inj h
    exact ⟨rfl, _, _, _, _, rfl⟩

/-- A call writes its record whatever it returns. -/
theorem objects_store (ref : TransferRef) (data : Bytes) (e : MediaEnvelope) :
    (m.store c ref (some (data, e))).1.objects =
      Function.update m.objects ref ((m.objects ref).storeChunk c.seq data e) := by
  rw [store]
  split
  · rw [reassemble]
    split
    · rfl
    · split <;> rfl
  · rfl

end

end MediaAssembler

section
variable {W : AesGcm} (hW : W.Lawful) {key : W.Key} {room : String} {file : File} {id : String}
  {ivs : ℕ → ℕ}

/-- The message is one of the file's, if it names the transfer. -/
def Genuine (W : AesGcm) (key : W.Key) (room : String) (file : File) (id : String)
    (ivs : ℕ → ℕ) : ListenerEvent → Prop
  | .arrive payload => payloadId payload = some id →
      ∃ seq < file.total, payload = chunkPayload W key room file id ivs seq
  | _ => True

/-- What holds of the transfer as long as every step is fresh. -/
structure Tracked (W : AesGcm) (key : W.Key) (file : File) (id : String) (ivs : ℕ → ℕ)
    (s : Listener) : Prop where
  apart : s.Apart
  genuine : ∀ call ∈ s.calls, call.chunk.transferId = id →
    ∃ seq < file.total, call.chunk = chunkOf W key file id ivs seq
  filled : ∀ ref, s.Holds id ref → ∃ S, Filled file S (s.assembler.objects ref) ∧
    (s.assembler.transfers.lookup id = some ref → S ≠ Finset.range file.total)
  thrown : (some id, Outcome.thrown) ∉ s.outcomes
  completed : s.completed id = [] ∨ s.completed id = [file.bytes]

theorem tracked_start : Tracked W key file id ivs .start where
  apart := Listener.apart_start
  genuine _ hcall := absurd hcall List.not_mem_nil
  filled ref h := absurd (Listener.apart_start.lt id ref h) (Nat.not_lt_zero _)
  thrown := List.not_mem_nil
  completed := .inl rfl

variable {s s' : Listener}

/-- A step of another transfer. -/
theorem Tracked.other {x : Option String} (hs : Tracked W key file id ivs s)
    (h : Listener.Serves x s s') (hx : x ≠ some id) :
    Tracked W key file id ivs s' ∧
      ∀ ref, s.Holds id ref → s'.assembler.objects ref = s.assembler.objects ref := by
  have hobjects : ∀ ref, s.Holds id ref → s'.assembler.objects ref = s.assembler.objects ref := by
    intro ref href
    refine h.objects ref (hs.apart.lt id ref href) fun id' hid' href' => hx ?_
    rw [hid', hs.apart.eq id id' ref href href']
  refine ⟨⟨h.apart hs.apart, fun call hcall hid => ?_, fun ref href => ?_, fun hmem => ?_, ?_⟩,
    hobjects⟩
  · subst hid
    exact hs.genuine call ((h.calls call hx).mp hcall) rfl
  · have hold : s.Holds id ref := (h.holds href).resolve_right fun hnew => hx hnew.1
    obtain ⟨S, hS, hmap⟩ := hs.filled ref hold
    rw [hobjects ref hold, h.other id hx]
    exact ⟨S, hS, hmap⟩
  · exact hs.thrown (h.thrown id hx hmem)
  · rw [h.completed id hx]
    exact hs.completed

include hW

/-- A message of the file is taken in. -/
theorem receive_chunk (hid : id ≠ "") (hsize : file.size ≤ MAX_FILE_SIZE) {seq : ℕ}
    (hseq : seq < file.total) (s : Listener) :
    s.receive (chunkPayload W key room file id ivs seq) =
      { s with calls := s.calls ++ [.opening (chunkOf W key file id ivs seq)] } := by
  rw [Listener.receive, MediaAssembler.accept_chunkPayload hW key room ivs hid hsize hseq]

theorem openEnvelope_chunk (seq : ℕ) :
    openEnvelope W key (chunkOf W key file id ivs seq).chunk =
      some { chunkMetadata file seq with data := some (Base64.encode (file.piece seq)) } :=
  openEnvelope_encrypt hW key (ivs seq) (file.piece seq)

theorem decryptMediaEnvelope_chunk (seq : ℕ) :
    decryptMediaEnvelope W key (chunkOf W key file id ivs seq).chunk =
      some (file.piece seq, chunkMetadata file seq) :=
  decryptMediaEnvelope_encrypt hW key (ivs seq) (file.piece seq) (chunkMetadata_data file seq)

omit hW in
/-- The records after a call has found its own. -/
theorem Tracked.record (hs : Tracked W key file id ivs s) {seq : ℕ} (hseq : seq < file.total)
    {inner : MediaEnvelope} {m : MediaAssembler} {ref : TransferRef}
    (h : s.assembler.record (chunkOf W key file id ivs seq) inner = some (m, ref)) :
    ∀ r, s.Holds id r ∨ m.transfers.lookup id = some r → ∃ S, Filled file S (m.objects r) ∧
      (m.transfers.lookup id = some r → S ≠ Finset.range file.total) := by
  rcases MediaAssembler.record_cases h with ⟨hnone, rfl, rfl⟩ | ⟨hlookup, rfl | rfl⟩
  · intro r hr
    have hname : id = (chunkOf W key file id ivs seq).transferId := rfl
    rw [MediaAssembler.lookup_openTransfer, if_pos hname] at hr ⊢
    by_cases hnew : r = s.assembler.allocated
    · subst hnew
      refine ⟨∅, ?_, fun _ hempty => ?_⟩
      · rw [MediaAssembler.openTransfer]
        simp only [Function.update_self]
        exact filled_new file
      · rw [eq_comm, Finset.range_eq_empty_iff] at hempty
        omega
    · have hold : s.Holds id r := hr.resolve_right fun e => hnew (Option.some.inj e).symm
      obtain ⟨S, hS, -⟩ := hs.filled r hold
      refine ⟨S, ?_, fun e => absurd (Option.some.inj e).symm hnew⟩
      rw [MediaAssembler.openTransfer]
      simp only [Function.update_of_ne hnew]
      exact hS
  · intro r hr
    exact hs.filled r (hr.elim (fun h => h) .inl)
  · intro r hr
    obtain ⟨S, hS, hmap⟩ := hs.filled r (hr.elim (fun h => h) .inl)
    refine ⟨S, ?_, hmap⟩
    rw [MediaAssembler.setObject]
    by_cases hrr : r = ref
    · subst hrr
      simp only [Function.update_self]
      exact hS.describe inner
    · simp only [Function.update_of_ne hrr]
      exact hS

omit hW in
/-- What a step of the transfer has to show. -/
theorem Tracked.keep (hs : Tracked W key file id ivs s) {x : Option String}
    (hserves : Listener.Serves x s s')
    (hgenuine : ∀ call ∈ s'.calls, call.chunk.transferId = id →
      ∃ seq < file.total, call.chunk = chunkOf W key file id ivs seq)
    (hfilled : ∀ r, s.Holds id r ∨ s'.assembler.transfers.lookup id = some r →
      ∃ S, Filled file S (s'.assembler.objects r) ∧
        (s'.assembler.transfers.lookup id = some r → S ≠ Finset.range file.total))
    (hthrown : (some id, Outcome.thrown) ∉ s'.outcomes)
    (hcompleted : s'.completed id = [] ∨ s'.completed id = [file.bytes]) :
    Tracked W key file id ivs s' ∧
      ∀ r, s.Holds id r → ∃ S, Filled file S (s'.assembler.objects r) := by
  refine ⟨⟨hserves.apart hs.apart, hgenuine, fun ref href => ?_, hthrown, hcompleted⟩,
    fun r hr => ?_⟩
  · refine hfilled ref ?_
    rcases href with hlookup | ⟨c, hc, rfl⟩
    · exact .inr hlookup
    · exact (hserves.storing c ref hc).imp (fun hold => .inr ⟨c, hold, rfl⟩) fun hlookup => hlookup
  · obtain ⟨S, hS, -⟩ := hfilled r (.inl hr)
    exact ⟨S, hS⟩

omit hW in
/-- The outcome that the end of a call adds. -/
theorem Listener.thrown_finish {n : ℕ} {c : Chunk} {m : MediaAssembler} {o : Outcome}
    (hs : (some id, Outcome.thrown) ∉ s.outcomes) (ho : o ≠ .thrown) :
    (some id, Outcome.thrown) ∉ (s.finish n c (m, o)).outcomes := by
  rw [Listener.finish, List.mem_append, not_or, List.mem_singleton]
  exact ⟨hs, fun e => ho (Prod.mk.inj e).2.symm⟩

omit hW in
theorem Tracked.genuine_finish (hs : Tracked W key file id ivs s) {n : ℕ} {c : Chunk} {call : Call}
    (h : s.calls[n]? = some call) (r : MediaAssembler × Outcome) :
    ∀ call' ∈ (s.finish n c r).calls, call'.chunk.transferId = id →
      ∃ seq < file.total, call'.chunk = chunkOf W key file id ivs seq :=
  fun call' hcall' => hs.genuine call' ((Listener.mem_calls_iff h _).mpr (.inr hcall'))

theorem Tracked.openCall (hs : Tracked W key file id ivs s) {n : ℕ} {c : Chunk}
    (hcall : s.calls[n]? = some (.opening c)) (hc : c.transferId = id) :
    Tracked W key file id ivs (s.openCall W key n c) ∧
      ∀ r, s.Holds id r → ∃ S, Filled file S ((s.openCall W key n c).assembler.objects r) := by
  have hmem : Call.opening c ∈ s.calls := (Listener.mem_calls_iff hcall _).mpr (.inl rfl)
  obtain ⟨seq, hseq, hchunk⟩ := hs.genuine _ hmem hc
  obtain rfl : c = chunkOf W key file id ivs seq := hchunk
  have hserves : Listener.Serves _ s (s.openCall W key n _) := Listener.serves_openCall hcall
  rw [Listener.openCall, openEnvelope_chunk hW] at hserves ⊢
  dsimp only at hserves ⊢
  split at hserves
  · next m hslotted =>
    refine hs.keep hserves (hs.genuine_finish hcall _) ?_
      (Listener.thrown_finish hs.thrown (by simp)) ?_
    · rcases MediaAssembler.openSlot_cases hslotted with ⟨-, -, rfl, -⟩ | ⟨m₁, r, hrecord, rfl, -⟩
      · exact fun r hr => hs.filled r (hr.elim (fun h => h) .inl)
      · have hrecords := hs.record hseq hrecord
        exact hrecords
    · rw [Listener.finish, Listener.completed_append]
      exact (List.append_nil _).symm ▸ hs.completed
  · next m ref hslotted =>
    refine hs.keep hserves (fun call' hcall' hid => ?_) ?_ hs.thrown hs.completed
    · rcases List.mem_append.mp hcall' with hold | hnew
      · exact hs.genuine call' ((Listener.mem_calls_iff hcall _).mpr (.inr hold)) hid
      · rw [List.mem_singleton.mp hnew]
        exact ⟨seq, hseq, rfl⟩
    · rcases MediaAssembler.openSlot_cases hslotted with ⟨-, -, -, hnone⟩ | ⟨m₁, r, hrecord, rfl, -⟩
      · cases hnone
      · have hrecords := hs.record hseq hrecord
        exact hrecords

/-- The call stores its chunk in an empty slot, and not to complete the transfer
again. -/
theorem Tracked.store (hs : Tracked W key file id ivs s) (hsize : file.size ≤ MAX_FILE_SIZE)
    {n : ℕ} {c : Chunk} {ref : TransferRef} (hcall : s.calls[n]? = some (.storing c ref))
    (hc : c.transferId = id) (hslot : (s.assembler.objects ref).chunks c.seq = none)
    (honce : s.completed id ≠ [] →
      (s.assembler.objects ref).received + 1 < (s.assembler.objects ref).total) :
    Tracked W key file id ivs (s.resume W key n (.storing c ref)) ∧
      ∀ r, s.Holds id r →
        ∃ S, Filled file S ((s.resume W key n (.storing c ref)).assembler.objects r) := by
  have hmem : Call.storing c ref ∈ s.calls := (Listener.mem_calls_iff hcall _).mpr (.inl rfl)
  obtain ⟨seq, hseq, hchunk⟩ := hs.genuine _ hmem hc
  obtain rfl : c = chunkOf W key file id ivs seq := hchunk
  obtain ⟨S, hS, -⟩ := hs.filled ref (.inr ⟨_, hmem, hc⟩)
  have hnew : seq ∉ S := hS.chunks_eq_none.mp hslot
  have hserves := Listener.serves_store hcall
    (some (file.piece seq, chunkMetadata file seq))
  rw [Listener.resume, decryptMediaEnvelope_chunk hW]
  have hobjects := MediaAssembler.objects_store (m := s.assembler)
    (c := chunkOf W key file id ivs seq) ref (file.piece seq) (chunkMetadata file seq)
  obtain ⟨m, o, hstore⟩ : ∃ m o, s.assembler.store (chunkOf W key file id ivs seq) ref
      (some (file.piece seq, chunkMetadata file seq)) = (m, o) := ⟨_, _, rfl⟩
  obtain ⟨hprogress, hcomplete⟩ := MediaAssembler.store_piece hS hseq hnew hsize hstore
  rw [hstore] at hserves hobjects ⊢
  have hinsert := hS.insert hseq hnew (chunkMetadata file seq)
  have hkept : m.transfers.lookup id = s.assembler.transfers.lookup id ∧
        insert seq S ≠ Finset.range file.total ∨ m.transfers.lookup id = none := by
    by_cases hfull : insert seq S = Finset.range file.total
    · right
      rw [(hcomplete hfull).1, ← hc]
      exact Finmap.lookup_erase _ _
    · exact .inl ⟨by rw [(hprogress hfull).1], hfull⟩
  refine hs.keep hserves (hs.genuine_finish hcall _) (fun r hr => ?_) ?_ ?_
  · have hlookup : m.transfers.lookup id = some r →
        s.assembler.transfers.lookup id = some r ∧ insert seq S ≠ Finset.range file.total := by
      intro h
      rcases hkept with ⟨hsame, hfull⟩ | hnone
      · exact ⟨hsame ▸ h, hfull⟩
      · exact absurd (hnone.symm.trans h) (Option.some_ne_none r).symm
    show ∃ T, Filled file T (m.objects r) ∧ (m.transfers.lookup id = some r → _)
    rw [hobjects]
    by_cases hrr : r = ref
    · subst hrr
      rw [Function.update_self]
      exact ⟨_, hinsert, fun h => (hlookup h).2⟩
    · rw [Function.update_of_ne hrr]
      obtain ⟨T, hT, hmap⟩ := hs.filled r (hr.elim (fun h => h) fun h => .inl (hlookup h).1)
      exact ⟨T, hT, fun h => hmap (hlookup h).1⟩
  · refine Listener.thrown_finish hs.thrown ?_
    by_cases hfull : insert seq S = Finset.range file.total
    · obtain ⟨-, _, _, _, _, rfl⟩ := hcomplete hfull
      simp
    · obtain ⟨-, _, rfl⟩ := hprogress hfull
      simp
  · rw [Listener.finish, Listener.completed_append]
    by_cases hfull : insert seq S = Finset.range file.total
    · obtain ⟨-, _, _, _, _, rfl⟩ := hcomplete hfull
      have hnone : s.completed id = [] := by
        by_contra hne
        have hcard := honce hne
        rw [hS.received, hS.total, ← Finset.card_insert_of_notMem hnew, hfull,
          Finset.card_range] at hcard
        exact lt_irrefl _ hcard
      right
      rw [show Listener.completed ⟨m, s.calls.eraseIdx n, s.outcomes⟩ id = [] from hnone]
      simp [Listener.completed, hc]
    · obtain ⟨-, _, rfl⟩ := hprogress hfull
      exact (List.append_nil _).symm ▸ hs.completed

theorem Tracked.receive (hs : Tracked W key file id ivs s) (hid : id ≠ "")
    (hsize : file.size ≤ MAX_FILE_SIZE) {payload : PayloadData}
    (hpayload : ∃ seq < file.total, payload = chunkPayload W key room file id ivs seq) :
    Tracked W key file id ivs (s.receive payload) ∧
      ∀ r, s.Holds id r → ∃ S, Filled file S ((s.receive payload).assembler.objects r) := by
  have hserves := s.serves_receive payload
  obtain ⟨seq, hseq, rfl⟩ := hpayload
  rw [receive_chunk hW hid hsize hseq] at hserves ⊢
  refine hs.keep hserves (fun call hcall hname => ?_)
    (fun r hr => hs.filled r (hr.elim (fun h => h) .inl)) hs.thrown hs.completed
  rcases List.mem_append.mp hcall with hold | hnew
  · exact hs.genuine call hold hname
  · rw [List.mem_singleton.mp hnew]
    exact ⟨seq, hseq, rfl⟩

omit hW in
theorem Tracked.expire (hs : Tracked W key file id ivs s) (n : ℕ) (timer : TimeoutId × String) :
    Tracked W key file id ivs (s.expire n timer) ∧
      ∀ r, s.Holds id r → ∃ S, Filled file S ((s.expire n timer).assembler.objects r) := by
  refine hs.keep (s.serves_expire n timer) hs.genuine (fun r hr => ?_) hs.thrown hs.completed
  have hlookup : (s.expire n timer).assembler.transfers.lookup id = some r →
      s.assembler.transfers.lookup id = some r := by
    intro h
    rw [show (s.expire n timer).assembler.transfers.lookup id =
      if id = timer.2 then none else s.assembler.transfers.lookup id from
        MediaAssembler.lookup_forget s.assembler timer.2 id] at h
    split at h
    · cases h
    · exact h
  obtain ⟨S, hS, hmap⟩ := hs.filled r (hr.elim (fun h => h) fun h => .inl (hlookup h))
  exact ⟨S, hS, fun h => hmap (hlookup h)⟩

/-- **A fresh step keeps track of the transfer.** -/
theorem Tracked.step (hs : Tracked W key file id ivs s) (hid : id ≠ "")
    (hsize : file.size ≤ MAX_FILE_SIZE) {a : ListenerEvent}
    (hgenuine : Genuine W key room file id ivs a) (hfresh : Fresh id s a)
    (h : Listener.step W key s a = some s') :
    Tracked W key file id ivs s' ∧
      ∀ r, s.Holds id r → ∃ S, Filled file S (s'.assembler.objects r) := by
  by_cases htarget : s.target a = some id
  · cases a with
    | arrive payload =>
        cases h
        exact hs.receive hW hid hsize (hgenuine htarget)
    | resume n =>
        obtain ⟨call, hcall, rfl⟩ := Option.map_eq_some_iff.mp h
        rw [Listener.target, hcall] at htarget
        have hname := Option.some.inj htarget
        cases call with
        | opening c => exact hs.openCall hW hcall hname
        | storing c ref =>
            obtain ⟨hslot, honce⟩ := hfresh c ref hcall hname
            exact hs.store hW hsize hcall hname hslot honce
    | stale n =>
        obtain ⟨timer, -, rfl⟩ := Option.map_eq_some_iff.mp h
        exact hs.expire n timer
  · obtain ⟨htracked, hobjects⟩ := hs.other (Listener.serves_step h) htarget
    refine ⟨htracked, fun r hr => ?_⟩
    obtain ⟨S, hS, -⟩ := hs.filled r hr
    exact ⟨S, hobjects r hr ▸ hS⟩

omit hW in
theorem Tracked.correct (hs : Tracked W key file id ivs s')
    (hheld : ∀ r, s.Holds id r → ∃ S, Filled file S (s'.assembler.objects r)) :
    Correct file id s s' := by
  refine ⟨fun r hr => ?_, hs.thrown, hs.completed⟩
  rcases hr with hold | hnew
  · obtain ⟨S, hS⟩ := hheld r hold
    exact hS.filled
  · obtain ⟨S, hS, -⟩ := hs.filled r hnew
    exact hS.filled

/-- **A step that is not fresh goes wrong.** The chunk is counted a second time, or the
transfer is complete a second time. -/
theorem Tracked.fresh_of_correct (hs : Tracked W key file id ivs s)
    (hsize : file.size ≤ MAX_FILE_SIZE) {a : ListenerEvent}
    (h : Listener.step W key s a = some s') (hcorrect : Correct file id s s') :
    Fresh id s a := by
  cases a with
  | arrive payload => trivial
  | stale n => trivial
  | resume n =>
      intro c ref hcall hc
      have hstep : s' = s.resume W key n (.storing c ref) := by
        rw [Listener.step, hcall] at h
        exact (Option.some.inj h).symm
      have hmem : Call.storing c ref ∈ s.calls := (Listener.mem_calls_iff hcall _).mpr (.inl rfl)
      obtain ⟨seq, hseq, hchunk⟩ := hs.genuine _ hmem hc
      obtain rfl : c = chunkOf W key file id ivs seq := hchunk
      have hheld : s.Holds id ref := .inr ⟨_, hmem, hc⟩
      obtain ⟨S, hS, -⟩ := hs.filled ref hheld
      rw [Listener.resume, decryptMediaEnvelope_chunk hW] at hstep
      obtain ⟨hchunks, hlength, -, hreceived⟩ := hS.storeChunk hseq (chunkMetadata file seq)
      have hrange : insert seq S ⊆ Finset.range file.total :=
        Finset.insert_subset (Finset.mem_range.mpr hseq) hS.subset
      have hreport := hcorrect.received ref (.inl hheld)
      rw [hstep, Listener.finish, MediaAssembler.objects_store, Function.update_self] at hreport
      have hcount : S.card + 1 = (insert seq S).card :=
        hreceived.symm.trans (hreport.trans (filled_of_chunks hrange hchunks hlength))
      have hnew : seq ∉ S := by
        intro hold
        rw [Finset.insert_eq_of_mem hold] at hcount
        omega
      refine ⟨hS.chunks_eq_none.mpr hnew, fun hne => ?_⟩
      have hone : s.completed id = [file.bytes] := hs.completed.resolve_left hne
      by_contra hlast
      rw [hS.received, hS.total] at hlast
      have hfull : insert seq S = Finset.range file.total := by
        apply Finset.eq_of_subset_of_card_le hrange
        rw [Finset.card_range]
        omega
      obtain ⟨m, o, hstore⟩ : ∃ m o, s.assembler.store (chunkOf W key file id ivs seq) ref
          (some (file.piece seq, chunkMetadata file seq)) = (m, o) := ⟨_, _, rfl⟩
      obtain ⟨-, hcomplete⟩ := MediaAssembler.store_piece hS hseq hnew hsize hstore
      obtain ⟨-, _, _, _, _, rfl⟩ := hcomplete hfull
      have htwo : s'.completed id = [file.bytes, file.bytes] := by
        rw [hstep, hstore, Listener.finish, Listener.completed_append,
          show Listener.completed ⟨m, s.calls.eraseIdx n, s.outcomes⟩ id = [file.bytes] from hone]
        simp [Listener.completed, hc]
      rcases hcorrect.completed with hnone | hone'
      · simp [htwo] at hnone
      · simp [htwo] at hone'

/-! ### The transfer is not lost -/

/-- Until the transfer is complete, every chunk that has arrived is in its record or in
a call, and the calls are about to store in that record. -/
structure Awaits (W : AesGcm) (key : W.Key) (file : File) (id : String) (ivs : ℕ → ℕ)
    (A : Set ℕ) (s : Listener) : Prop where
  storing : ∀ c ref, Call.storing c ref ∈ s.calls → c.transferId = id →
    s.assembler.transfers.lookup id = some ref
  arrived : ∀ seq ∈ A, (∃ call ∈ s.calls, call.chunk = chunkOf W key file id ivs seq) ∨
    ∃ ref, s.assembler.transfers.lookup id = some ref ∧
      (s.assembler.objects ref).chunks seq ≠ none

/-- The chunk that an event brings. -/
def arrivals (W : AesGcm) (key : W.Key) (room : String) (file : File) (id : String)
    (ivs : ℕ → ℕ) (a : ListenerEvent) : Set ℕ :=
  {seq | seq < file.total ∧ a = .arrive (chunkPayload W key room file id ivs seq)}

variable {A : Set ℕ}

omit hW in
theorem awaits_start : Awaits W key file id ivs ∅ .start where
  storing _ _ h := absurd h List.not_mem_nil
  arrived _ h := absurd h (Set.notMem_empty _)

omit hW in
/-- Outcomes are only added. -/
theorem Listener.completed_prefix {a : ListenerEvent} (h : Listener.step W key s a = some s') :
    s.completed id <+: s'.completed id := by
  have houtcomes : s.outcomes <+: s'.outcomes := by
    cases a with
    | arrive payload =>
        cases h
        rw [Listener.receive]
        split
        · exact List.prefix_append _ _
        · exact List.prefix_rfl
    | resume n =>
        obtain ⟨call, -, rfl⟩ := Option.map_eq_some_iff.mp h
        cases call with
        | opening c =>
            rw [Listener.resume, Listener.openCall]
            split
            · exact List.prefix_append _ _
            · split
              · exact List.prefix_append _ _
              · exact List.prefix_rfl
        | storing c ref => exact List.prefix_append _ _
    | stale n =>
        obtain ⟨timer, -, rfl⟩ := Option.map_eq_some_iff.mp h
        exact List.prefix_rfl
  exact houtcomes.filterMap _

omit hW in
theorem Awaits.other (hs : Awaits W key file id ivs A s) (htracked : Tracked W key file id ivs s)
    {x : Option String} (h : Listener.Serves x s s') (hx : x ≠ some id) :
    Awaits W key file id ivs A s' := by
  refine ⟨fun c ref hc hid => ?_, fun seq hseq => ?_⟩
  · subst hid
    rw [h.other _ hx]
    exact hs.storing c ref ((h.calls (.storing c ref) hx).mp hc) rfl
  · rcases hs.arrived seq hseq with ⟨call, hcall, hchunk⟩ | ⟨ref, hlookup, hslot⟩
    · have hname : call.chunk.transferId = id := by rw [hchunk]; rfl
      exact .inl ⟨call, (h.calls call (hname ▸ hx)).mpr hcall, hchunk⟩
    · right
      rw [h.other id hx]
      exact ⟨ref, hlookup, (htracked.other h hx).2 ref (.inl hlookup) ▸ hslot⟩

omit hW in
/-- A record that is in the map stays there, with its chunks. -/
theorem MediaAssembler.record_found {m m' : MediaAssembler} {c : Chunk} {inner : MediaEnvelope}
    {ref r : TransferRef} (h : m.record c inner = some (m', ref))
    (hr : m.transfers.lookup c.transferId = some r) :
    m'.transfers.lookup c.transferId = some r ∧ (m'.objects r).chunks = (m.objects r).chunks := by
  rcases MediaAssembler.record_cases h with ⟨hnone, -⟩ | ⟨hlookup, rfl | rfl⟩
  · cases hnone.symm.trans hr
  · exact ⟨hr, rfl⟩
  · obtain rfl : ref = r := Option.some.inj (hlookup.symm.trans hr)
    refine ⟨hr, ?_⟩
    rw [MediaAssembler.setObject]
    simp only [Function.update_self]
    rfl

theorem Awaits.openCall (hs : Awaits W key file id ivs A s)
    (htracked : Tracked W key file id ivs s) {n : ℕ} {c : Chunk}
    (hcall : s.calls[n]? = some (.opening c)) (hc : c.transferId = id)
    (hkept : s.assembler.transfers.lookup id = none →
      s.assembler.transfers.keys.card < MAX_CONCURRENT_TRANSFERS) :
    Awaits W key file id ivs A (s.openCall W key n c) := by
  have hmem : Call.opening c ∈ s.calls := (Listener.mem_calls_iff hcall _).mpr (.inl rfl)
  obtain ⟨seq, hseq, hchunk⟩ := htracked.genuine _ hmem hc
  obtain rfl : c = chunkOf W key file id ivs seq := hchunk
  rw [Listener.openCall, openEnvelope_chunk hW]
  obtain ⟨m, ref, hslotted⟩ : ∃ m ref, s.assembler.openSlot (chunkOf W key file id ivs seq)
      { chunkMetadata file seq with data := some (Base64.encode (file.piece seq)) } = (m, ref) :=
    ⟨_, _, rfl⟩
  dsimp only
  rw [hslotted]
  rcases MediaAssembler.openSlot_cases hslotted with ⟨hnone, hlimit, -⟩ | ⟨m₁, r, hrecord, rfl, hslot⟩
  · exact absurd (hkept hnone) (Nat.not_lt.mpr hlimit)
  have hmap := (Listener.record_serves (s := s) hrecord).2.2.2.2
  -- The calls that stay, and the chunks that are not those of this call.
  have hstoring : ∀ c' ref', Call.storing c' ref' ∈ s.calls.eraseIdx n → c'.transferId = id →
      m₁.transfers.lookup id = some ref' := fun c' ref' hc' hid =>
    (MediaAssembler.record_found hrecord
      (hs.storing c' ref' ((Listener.mem_calls_iff hcall _).mpr (.inr hc')) hid)).1
  have harrived : ∀ k ∈ A, k = seq ∨
      (∃ call ∈ s.calls.eraseIdx n, call.chunk = chunkOf W key file id ivs k) ∨
      ∃ ref', m₁.transfers.lookup id = some ref' ∧ (m₁.objects ref').chunks k ≠ none := by
    intro k hk
    rcases hs.arrived k hk with ⟨call, hmem', hchunk'⟩ | ⟨ref', hlookup, hfilled⟩
    · rcases (Listener.mem_calls_iff hcall _).mp hmem' with rfl | hold
      · exact .inl (congrArg Chunk.seq hchunk').symm
      · exact .inr (.inl ⟨call, hold, hchunk'⟩)
    · obtain ⟨hlookup', hchunks⟩ := MediaAssembler.record_found hrecord hlookup
      exact .inr (.inr ⟨ref', hlookup', hchunks ▸ hfilled⟩)
  rcases hslot with ⟨rfl, hfilled⟩ | ⟨rfl, -⟩
  · refine ⟨hstoring, fun k hk => ?_⟩
    rcases harrived k hk with rfl | hrest
    · exact .inr ⟨r, hmap, hfilled⟩
    · exact hrest
  · refine ⟨fun c' ref' hc' hid => ?_, fun k hk => ?_⟩
    · rcases List.mem_append.mp hc' with hold | hnew
      · exact hstoring c' ref' hold hid
      · obtain ⟨-, rfl⟩ := Call.storing.inj (List.mem_singleton.mp hnew)
        exact hmap
    · rcases harrived k hk with rfl | ⟨call, hold, hchunk'⟩ | hrest
      · exact .inl ⟨_, List.mem_append_right _ (List.mem_singleton.mpr rfl), rfl⟩
      · exact .inl ⟨call, List.mem_append_left _ hold, hchunk'⟩
      · exact .inr hrest

theorem Awaits.store (hs : Awaits W key file id ivs A s)
    (htracked : Tracked W key file id ivs s) (hsize : file.size ≤ MAX_FILE_SIZE) {n : ℕ}
    {c : Chunk} {ref : TransferRef} (hcall : s.calls[n]? = some (.storing c ref))
    (hc : c.transferId = id) (hslot : (s.assembler.objects ref).chunks c.seq = none)
    (hnone : (s.resume W key n (.storing c ref)).completed id = []) :
    Awaits W key file id ivs A (s.resume W key n (.storing c ref)) := by
  have hmem : Call.storing c ref ∈ s.calls := (Listener.mem_calls_iff hcall _).mpr (.inl rfl)
  obtain ⟨seq, hseq, hchunk⟩ := htracked.genuine _ hmem hc
  obtain rfl : c = chunkOf W key file id ivs seq := hchunk
  have hmap : s.assembler.transfers.lookup id = some ref := hs.storing _ ref hmem hc
  obtain ⟨S, hS, -⟩ := htracked.filled ref (.inl hmap)
  have hnew : seq ∉ S := hS.chunks_eq_none.mp hslot
  have hinsert := hS.insert hseq hnew (chunkMetadata file seq)
  rw [Listener.resume, decryptMediaEnvelope_chunk hW] at hnone ⊢
  have hobjects := MediaAssembler.objects_store (m := s.assembler)
    (c := chunkOf W key file id ivs seq) ref (file.piece seq) (chunkMetadata file seq)
  obtain ⟨m, o, hstore⟩ : ∃ m o, s.assembler.store (chunkOf W key file id ivs seq) ref
      (some (file.piece seq, chunkMetadata file seq)) = (m, o) := ⟨_, _, rfl⟩
  obtain ⟨hprogress, hcomplete⟩ := MediaAssembler.store_piece hS hseq hnew hsize hstore
  rw [hstore] at hnone hobjects ⊢
  have hnotfull : insert seq S ≠ Finset.range file.total := by
    intro hfull
    obtain ⟨-, _, _, _, _, rfl⟩ := hcomplete hfull
    rw [Listener.finish, Listener.completed_append] at hnone
    simp [Listener.completed, hc] at hnone
  obtain ⟨htransfers, -⟩ := hprogress hnotfull
  refine ⟨fun c' ref' hc' hid => ?_, fun k hk => ?_⟩
  · show m.transfers.lookup id = some ref'
    rw [htransfers]
    exact hs.storing c' ref' ((Listener.mem_calls_iff hcall _).mpr (.inr hc')) hid
  · -- The slots of the record are those of `insert seq S` now.
    have hslots : ∀ k', k' ∈ insert seq S → (m.objects ref).chunks k' ≠ none := by
      intro k' hk'
      rw [hobjects, Function.update_self]
      exact fun h => hinsert.chunks_eq_none.mp h hk'
    have hlookup : m.transfers.lookup id = some ref := htransfers ▸ hmap
    rcases hs.arrived k hk with ⟨call, hmem', hchunk'⟩ | ⟨ref', hlookup', hfilled⟩
    · rcases (Listener.mem_calls_iff hcall _).mp hmem' with rfl | hold
      · obtain rfl : seq = k := congrArg Chunk.seq hchunk'
        exact .inr ⟨ref, hlookup, hslots seq (Finset.mem_insert_self _ _)⟩
      · exact .inl ⟨call, hold, hchunk'⟩
    · obtain rfl : ref = ref' := Option.some.inj (hmap.symm.trans hlookup')
      refine .inr ⟨ref, hlookup, hslots k (Finset.mem_insert_of_mem ?_)⟩
      by_contra hk'
      exact hfilled (hS.chunks_eq_none.mpr hk')

/-- **A step that does not lose the transfer.** -/
theorem Awaits.step (hs : s.completed id = [] → Awaits W key file id ivs A s)
    (htracked : Tracked W key file id ivs s) (hid : id ≠ "") (hsize : file.size ≤ MAX_FILE_SIZE)
    {a : ListenerEvent} (hgenuine : Genuine W key room file id ivs a) (hfresh : Fresh id s a)
    (hkept : Kept id s a) (h : Listener.step W key s a = some s') (hnone : s'.completed id = []) :
    Awaits W key file id ivs (arrivals W key room file id ivs a ∪ A) s' := by
  have hbefore : s.completed id = [] := by
    have hprefix : s.completed id <+: s'.completed id := Listener.completed_prefix h
    rw [hnone] at hprefix
    exact List.prefix_nil.mp hprefix
  have hawaits := hs hbefore
  have harrivals : (∀ payload, a ≠ .arrive payload) →
      arrivals W key room file id ivs a ∪ A = A := fun hne =>
    Set.union_eq_right.mpr fun k hk => absurd hk.2 (hne _)
  by_cases htarget : s.target a = some id
  · cases a with
    | arrive payload =>
        cases h
        refine ⟨fun c ref hc hname => ?_, ?_⟩
        · obtain ⟨seq, hseq, rfl⟩ := hgenuine htarget
          rw [receive_chunk hW hid hsize hseq] at hc ⊢
          rcases List.mem_append.mp hc with hold | hnew
          · exact hawaits.storing c ref hold hname
          · cases List.mem_singleton.mp hnew
        · rintro k (⟨hk, hpayload⟩ | hk)
          · obtain rfl := ListenerEvent.arrive.inj hpayload
            rw [receive_chunk hW hid hsize hk]
            exact .inl ⟨_, List.mem_append_right _ (List.mem_singleton.mpr rfl), rfl⟩
          · obtain ⟨seq, hseq, rfl⟩ := hgenuine htarget
            rw [receive_chunk hW hid hsize hseq]
            exact (hawaits.arrived k hk).imp_left fun ⟨call, hcall, hchunk⟩ =>
              ⟨call, List.mem_append_left _ hcall, hchunk⟩
    | resume n =>
        obtain ⟨call, hcall, rfl⟩ := Option.map_eq_some_iff.mp h
        rw [Listener.target, hcall] at htarget
        have hname := Option.some.inj htarget
        rw [harrivals (by simp)]
        cases call with
        | opening c => exact hawaits.openCall hW htracked hcall hname (hkept c hcall hname)
        | storing c ref =>
            exact hawaits.store hW htracked hsize hcall hname (hfresh c ref hcall hname).1 hnone
    | stale n =>
        obtain ⟨timer, htimer, rfl⟩ := Option.map_eq_some_iff.mp h
        rw [Listener.target, htimer] at htarget
        have hname : timer.2 = id := Option.some.inj htarget
        exact absurd hbefore (hkept timer.1 (hname ▸ htimer))
  · have hno : ∀ k, k ∉ arrivals W key room file id ivs a := by
      rintro k ⟨-, rfl⟩
      rw [Listener.target, MediaAssembler.payloadId_chunkPayload] at htarget
      exact htarget rfl
    rw [Set.eq_empty_of_forall_notMem hno, Set.empty_union]
    exact hawaits.other htracked (Listener.serves_step h) htarget

/-- The run that does not lose the transfer. -/
theorem awaits_run (hid : id ≠ "") (hsize : file.size ≤ MAX_FILE_SIZE)
    {as : List ListenerEvent} {t : Listener}
    (hs : s.completed id = [] → Awaits W key file id ivs A s)
    (htracked : Tracked W key file id ivs s)
    (hgenuine : ∀ a ∈ as, Genuine W key room file id ivs a)
    (hfresh : Along (Listener.step W key) (fun s a _ => Fresh id s a) s as)
    (hkept : Along (Listener.step W key) (fun s a _ => Kept id s a) s as)
    (h : exec (Listener.step W key) s as = some t) :
    Tracked W key file id ivs t ∧ (t.completed id = [] → Awaits W key file id ivs
      ({seq | seq < file.total ∧ .arrive (chunkPayload W key room file id ivs seq) ∈ as} ∪ A) t) := by
  induction as generalizing s A with
  | nil =>
      cases h
      exact ⟨htracked, by simpa using hs⟩
  | cons a as ih =>
      obtain ⟨s₁, hstep, hrest⟩ := Option.bind_eq_some_iff.mp h
      obtain ⟨hfresh₁, hfreshs⟩ := (along_cons hstep).mp hfresh
      obtain ⟨hkept₁, hkepts⟩ := (along_cons hstep).mp hkept
      have hgenuine₁ := hgenuine a List.mem_cons_self
      have hstep₁ := Awaits.step hW hs htracked hid hsize hgenuine₁ hfresh₁ hkept₁ hstep
      obtain ⟨htracked₁, -⟩ := htracked.step hW hid hsize hgenuine₁ hfresh₁ hstep
      obtain ⟨htracked', hawaits⟩ := ih hstep₁ htracked₁
        (fun a' ha' => hgenuine a' (List.mem_cons_of_mem _ ha')) hfreshs hkepts hrest
      refine ⟨htracked', fun hnone => ?_⟩
      convert hawaits hnone using 1
      rw [← Set.union_assoc]
      congr 1
      ext k
      simp [arrivals, and_or_left, or_comm, eq_comm]

/-- **Media assembly under redelivery and overlap.** -/
theorem mediaRaces_iff (hid : id ≠ "") (hpos : 1 ≤ file.size) (hsize : file.size ≤ MAX_FILE_SIZE)
    {as : List ListenerEvent} (hgenuine : ∀ a ∈ as, Genuine W key room file id ivs a) :
    (Along (Listener.step W key) (fun s _ s' => Correct file id s s') .start as ↔
        Along (Listener.step W key) (fun s a _ => Fresh id s a) .start as) ∧
      (Along (Listener.step W key) (fun s a _ => Fresh id s a) .start as →
        Along (Listener.step W key) (fun s a _ => Kept id s a) .start as →
        ∀ t, exec (Listener.step W key) .start as = some t →
          (∀ call ∈ t.calls, call.chunk.transferId ≠ id) →
          (∀ seq < file.total, .arrive (chunkPayload W key room file id ivs seq) ∈ as) →
          t.completed id = [file.bytes]) := by
  constructor
  · have hiff : Along (Listener.step W key)
          (fun s a s' => Genuine W key room file id ivs a ∧ Correct file id s s') .start as ↔
        Along (Listener.step W key)
          (fun s a _ => Genuine W key room file id ivs a ∧ Fresh id s a) .start as :=
      along_congr (I := Tracked W key file id ivs)
        (fun s a s' hs hQ h => (hs.step hW hid hsize hQ.1 hQ.2 h).1)
        (fun s a s' hs h => and_congr_right fun hg => ⟨hs.fresh_of_correct hW hsize h, fun hfresh =>
          (hs.step hW hid hsize hg hfresh h).1.correct (hs.step hW hid hsize hg hfresh h).2⟩)
        tracked_start
    rw [along_and, along_and, and_congr_right_iff] at hiff
    exact hiff (along_of_forall hgenuine)
  · intro hfresh hkept t ht hended harrived
    obtain ⟨htracked, hawaits⟩ := awaits_run hW hid hsize (fun _ => awaits_start) tracked_start
      hgenuine hfresh hkept ht
    refine htracked.completed.resolve_left fun hnone => ?_
    -- Every chunk is in the record by now, but the record in the map is not full.
    have hslots : ∀ k < file.total, ∃ ref, t.assembler.transfers.lookup id = some ref ∧
        (t.assembler.objects ref).chunks k ≠ none := by
      intro k hk
      refine ((hawaits hnone).arrived k (.inl ⟨hk, harrived k hk⟩)).resolve_left ?_
      rintro ⟨call, hcall, hchunk⟩
      exact hended call hcall (by rw [hchunk]; rfl)
    obtain ⟨ref, hlookup, -⟩ := hslots 0 (file_total_pos hpos)
    obtain ⟨S, hS, hopen⟩ := htracked.filled ref (.inl hlookup)
    refine hopen hlookup (Finset.Subset.antisymm hS.subset fun k hk => ?_)
    obtain ⟨ref', hlookup', hfilled⟩ := hslots k (Finset.mem_range.mp hk)
    obtain rfl : ref = ref' := Option.some.inj (hlookup.symm.trans hlookup')
    by_contra hk'
    exact hfilled (hS.chunks_eq_none.mpr hk')

/-- A file of one chunk is complete at the end of every call that nothing interrupts,
also where it has been complete before. -/
theorem oneChunk_steps (key : W.Key) (room : String) (ivs : ℕ → ℕ) (hid : id ≠ "")
    (hsize : file.size ≤ MAX_FILE_SIZE) (htotal : file.total = 1)
    (hcalls : s.calls = []) (hnone : s.assembler.transfers.lookup id = none)
    (hroom : s.assembler.transfers.keys.card < MAX_CONCURRENT_TRANSFERS) :
    ∃ s₁ s₂ s₃, Listener.step W key s (.arrive (chunkPayload W key room file id ivs 0)) = some s₁ ∧
      s₁.calls = [.opening (chunkOf W key file id ivs 0)] ∧ s₁.assembler = s.assembler ∧
      Listener.step W key s₁ (.resume 0) = some s₂ ∧
      s₂.calls = [.storing (chunkOf W key file id ivs 0) s.assembler.allocated] ∧
      (s₂.assembler.objects s.assembler.allocated).chunks 0 = none ∧
      s₂.completed id = s.completed id ∧
      Listener.step W key s₂ (.resume 0) = some s₃ ∧ s₃.calls = [] ∧
      s₃.assembler.transfers = (s.assembler.transfers.insert id s.assembler.allocated).erase id ∧
      s₃.completed id = s.completed id ++ [file.bytes] := by
  have hseq : 0 < file.total := htotal ▸ Nat.one_pos
  obtain ⟨m, calls, outcomes⟩ := s
  obtain rfl : calls = [] := hcalls
  have hobject : (m.openTransfer id file.total).objects m.allocated = Transfer.new file.total :=
    Function.update_self ..
  have hslotted : m.openSlot (chunkOf W key file id ivs 0)
      { chunkMetadata file 0 with data := some (Base64.encode (file.piece 0)) } =
        ((m.openTransfer id file.total).resetTimer id, some m.allocated) := by
    refine MediaAssembler.openSlot_of_record ?_ (by rw [hobject]; rfl)
    rw [MediaAssembler.record]
    simp only [show m.transfers.lookup (chunkOf W key file id ivs 0).transferId = none from hnone]
    exact if_neg (Nat.not_le.mpr hroom)
  have hfilled : Filled file ∅
      (((m.openTransfer id file.total).resetTimer id).objects m.allocated) := by
    rw [show ((m.openTransfer id file.total).resetTimer id).objects m.allocated =
      Transfer.new file.total from hobject]
    exact filled_new file
  obtain ⟨m', o, hstore⟩ : ∃ m' o, ((m.openTransfer id file.total).resetTimer id).store
      (chunkOf W key file id ivs 0) m.allocated (some (file.piece 0, chunkMetadata file 0)) =
        (m', o) := ⟨_, _, rfl⟩
  obtain ⟨-, hcomplete⟩ := MediaAssembler.store_piece hfilled hseq (Finset.notMem_empty _) hsize
    hstore
  have hfull : insert 0 ∅ = Finset.range file.total := by rw [htotal]; rfl
  obtain ⟨htransfers, mimeType, fileName, fileSize, url, rfl⟩ := hcomplete hfull
  refine ⟨⟨m, [.opening (chunkOf W key file id ivs 0)], outcomes⟩,
    ⟨(m.openTransfer id file.total).resetTimer id,
      [.storing (chunkOf W key file id ivs 0) m.allocated], outcomes⟩,
    ⟨m', [], outcomes ++
      [(some id, .returned (.complete id mimeType fileName fileSize url file.bytes))]⟩,
    ?_, rfl, rfl, ?_, rfl, hfilled.chunks_eq_none.mpr (Finset.notMem_empty 0), rfl, ?_, rfl,
    htransfers, ?_⟩
  · rw [Listener.step, receive_chunk hW hid hsize hseq]
    rfl
  · rw [Listener.step, List.getElem?_cons_zero, Option.map_some, Listener.resume, Listener.openCall,
      openEnvelope_chunk hW]
    dsimp only
    rw [hslotted]
    rfl
  · rw [Listener.step, List.getElem?_cons_zero, Option.map_some, Listener.resume,
      decryptMediaEnvelope_chunk hW, hstore]
    rfl
  · rw [Listener.completed_append]
    simp [Listener.completed]

end

/-- The message of a file of one chunk. -/
def smallPayload : PayloadData :=
  chunkPayload MediaAssembler.keyedText 'k' "r" MediaAssembler.smallFile "t" id 0

/-- It arrives once, and its call runs to its end. -/
def delivery : List ListenerEvent := [.arrive smallPayload, .resume 0, .resume 0]

theorem mediaRaces_iff_delivery :
    ∃ t, exec (Listener.step MediaAssembler.keyedText 'k') .start delivery = some t ∧
      t.calls = [] ∧ t.completed "t" = [[1, 2, 3]] := by
  have hid : "t" ≠ "" := by decide
  have hpos : 1 ≤ MediaAssembler.smallFile.size := by decide
  have hsize : MediaAssembler.smallFile.size ≤ MAX_FILE_SIZE := by decide
  have htotal : MediaAssembler.smallFile.total = 1 := by decide
  have hgenuine : ∀ a ∈ delivery,
      Genuine MediaAssembler.keyedText 'k' "r" MediaAssembler.smallFile "t" id a := by
    intro a ha
    simp only [delivery, List.mem_cons, List.not_mem_nil, or_false] at ha
    rcases ha with rfl | rfl | rfl
    · exact fun _ => ⟨0, htotal ▸ Nat.one_pos, rfl⟩
    · trivial
    · trivial
  obtain ⟨-, hcomplete⟩ := mediaRaces_iff (W := MediaAssembler.keyedText)
    MediaAssembler.keyedText_lawful hid hpos hsize hgenuine
  obtain ⟨s₁, s₂, s₃, h₁, hcalls₁, hsame, h₂, hcalls₂, hslot, hnone, h₃, hcalls₃, -⟩ :=
    oneChunk_steps MediaAssembler.keyedText_lawful 'k' "r" id (s := .start) hid hsize htotal rfl rfl
      (by decide)
  have hfresh : Along (Listener.step MediaAssembler.keyedText 'k') (fun s a _ => Fresh "t" s a)
      .start delivery := by
    refine (along_cons h₁).mpr ⟨trivial, (along_cons h₂).mpr ⟨?_, (along_cons h₃).mpr ⟨?_, trivial⟩⟩⟩
    · intro c ref hcall
      simp [hcalls₁] at hcall
    · intro c ref hcall _
      rw [hcalls₂] at hcall
      obtain ⟨rfl, rfl⟩ := Call.storing.inj (Option.some.inj hcall)
      exact ⟨hslot, fun hne => absurd hnone hne⟩
  have hkept : Along (Listener.step MediaAssembler.keyedText 'k') (fun s a _ => Kept "t" s a)
      .start delivery := by
    refine (along_cons h₁).mpr ⟨trivial, (along_cons h₂).mpr ⟨?_, (along_cons h₃).mpr ⟨?_, trivial⟩⟩⟩
    · intro c _ _ _
      rw [hsame]
      decide
    · intro c hcall
      simp [hcalls₂] at hcall
  have hrun : exec (Listener.step MediaAssembler.keyedText 'k') .start delivery = some s₃ :=
    exec_of_step h₁ (exec_of_step h₂ (exec_of_step h₃ (exec_nil s₃)))
  refine ⟨s₃, hrun, hcalls₃, hcomplete hfresh hkept s₃ hrun (by simp [hcalls₃]) ?_⟩
  intro seq hseq
  obtain rfl : seq = 0 := by omega
  exact List.mem_cons_self

/-- It arrives a second time. -/
def redelivery : List ListenerEvent := delivery ++ delivery

theorem redelivery_completes_twice :
    ∃ t, exec (Listener.step MediaAssembler.keyedText 'k') .start redelivery = some t ∧
      t.calls = [] ∧ t.completed "t" = [[1, 2, 3], [1, 2, 3]] := by
  have hid : "t" ≠ "" := by decide
  have hsize : MediaAssembler.smallFile.size ≤ MAX_FILE_SIZE := by decide
  have htotal : MediaAssembler.smallFile.total = 1 := by decide
  obtain ⟨s₁, s₂, s₃, h₁, -, -, h₂, -, -, -, h₃, hcalls₃, htransfers, hcompleted⟩ :=
    oneChunk_steps MediaAssembler.keyedText_lawful 'k' "r" id (s := .start) hid hsize htotal rfl rfl
      (by decide)
  obtain ⟨t₁, t₂, t₃, h₁', -, -, h₂', -, -, -, h₃', hcalls₃', -, hcompleted'⟩ :=
    oneChunk_steps MediaAssembler.keyedText_lawful 'k' "r" id (s := s₃) hid hsize htotal hcalls₃
      (by rw [htransfers]; exact Finmap.lookup_erase _ _) (by rw [htransfers]; decide)
  refine ⟨t₃, ?_, hcalls₃', by rw [hcompleted', hcompleted]; rfl⟩
  exact exec_of_step h₁ (exec_of_step h₂ (exec_of_step h₃
    (exec_of_step h₁' (exec_of_step h₂' (exec_of_step h₃' (exec_nil t₃))))))

end TrapChat.Client
