import Mathlib.Tactic.NormNum.Basic
import TrapChat.Client.Media
import TrapChat.Library.JsValue
import TrapChat.Library.Transition

/-!
What a `MediaAssembler` makes of any input. Payloads and the contents of envelopes are
arbitrary values of JSON, and the calls of `handleChunk` are made one after the other; in
between stale timeouts run. A call that is suspended while the timeout of a transfer runs
leaves what it would have left had the timeout run after it.

A value of JSON that is no text or number can be a transfer id, too. One that is an array or
an object is the same as no other one, unless a caller hands over the same object twice.
-/

namespace TrapChat.Client.MediaInput

open JsValue Transition

/-- What the assembler runs on: `JSON.parse`, the decryption of a chunk, which may be any value,
and the names that an array inherits properties under. `none` is where these throw. -/
structure Engine where
  Key : Type
  numerals : Numerals
  parse : Text → Option Json
  decrypt : Key → Json → Option Text
  base64ToUint8 : Text → Option Bytes
  inherited : Text → Bool

/-- A message: its payload, if it has one, and which object a transfer id is that is one. -/
structure Message where
  payload : Option Json
  transferRef : ℕ

/-- What a `Map` takes for the same key. -/
inductive MapKey
  | bool (b : Bool)
  | num (n : Number)
  | str (s : Text)
  | ref (n : ℕ)
  deriving DecidableEq

def mapKey (ref : ℕ) : Json → MapKey
  | .bool b => .bool b
  | .num n => .num n
  | .str s => .str s
  | _ => .ref ref

structure Chunk where
  transferId : Json
  key : MapKey
  seq : Json
  total : Json
  chunk : Json

/-! ### Checks -/

section
variable (E : Engine)

/-- The payload, parsed if it is a text; `none` if it does not parse. The value may be
undefined. -/
def metaOf (payload : Option Json) : Option (Option Json) :=
  match payload with
  | some (.str s) => (E.parse s).map some
  | value => some value

/-- The fields, unless one is missing or falsy. -/
def fieldsOf (ref : ℕ) (value : Json) : Option Chunk := do
  let transferId ← value.get (text "transferId")
  let seq ← value.get (text "seq")
  let total ← value.get (text "total")
  let chunk ← value.get (text "chunk")
  if transferId.truthy && total.truthy && chunk.truthy then
    some ⟨transferId, mapKey ref transferId, seq, total, chunk⟩
  else none

/-- `total > MAX_CHUNKS || total <= 0` -/
def totalOutOfBounds (total : Json) : Bool :=
  Json.less E.numerals (.num (.finite MAX_CHUNKS)) total = some true ||
    Json.less E.numerals (.num (.finite 0)) total = some false

/-- `seq < 0 || seq >= total` -/
def seqOutOfBounds (seq total : Json) : Bool :=
  Json.less E.numerals seq (.num (.finite 0)) = some true ||
    Json.less E.numerals seq total = some false

inductive Accepted
  | thrown
  | ignored
  | chunk (c : Chunk)

/-- Bounds checks to prevent memory abuse. -/
def checkBounds (c : Chunk) : Accepted :=
  match c.total.toPrimitive E.numerals with
  | none => .thrown
  | some total =>
    if totalOutOfBounds E total then .ignored
    else
      match c.seq.toPrimitive E.numerals with
      | none => .thrown
      | some seq => if seqOutOfBounds E seq total then .ignored else .chunk c

/-- `handleChunk` up to its first await. -/
def accept (msg : Message) : Accepted :=
  match metaOf E msg.payload with
  | none => .ignored
  | some none => .thrown
  | some (some .null) => .thrown
  | some (some value) =>
    match fieldsOf msg.transferRef value with
    | none => .ignored
    | some c => checkBounds E c

/-- `decrypt` and `JSON.parse`. -/
def openEnvelope (key : E.Key) (chunk : Json) : Option Json :=
  (E.decrypt key chunk).bind E.parse

/-- The chunk's bytes and the metadata. -/
def decryptMediaEnvelope (key : E.Key) (chunk : Json) : Option (Bytes × Json) := do
  let parsed ← openEnvelope E key chunk
  match parsed.get (text "data") with
  | some (.str data) =>
    let chunkData ← E.base64ToUint8 data
    some (chunkData, parsed)
  | _ => none

end

/-! ### Transfers -/

/-- The removal of every `..`, from left to right. -/
def dropDotDot : Text → Text
  | 0x2E :: 0x2E :: rest => dropDotDot rest
  | unit :: rest => unit :: dropDotDot rest
  | [] => []

/-- Strip path separators, null bytes, and collapse '..' to prevent path traversal. -/
def sanitizeFileName (name : Option Json) : Text :=
  match name with
  | some (.str name) =>
    let kept := (dropDotDot name).map fun unit =>
      if unit ∈ [0x2F, 0x5C, 0x3A, 0x00] then 0x5F else unit
    if kept.take 255 = [] then text "file" else kept.take 255
  | _ => text "file"

/-- The record of a transfer. Its array has slots, up to its length, and may get other properties
by name. A total that is no number is itself the element of its array. -/
structure Transfer where
  length : ℕ
  slots : ℕ → Option Bytes
  named : Text → Bool
  received : ℕ
  total : Json
  mimeType : Json
  fileName : Option Text
  fileSize : Option Json

namespace Transfer

def ofLength (length : ℕ) (total : Json) : Transfer where
  length := length
  slots := fun _ => none
  named := fun _ => false
  received := 0
  total := total
  mimeType := .null
  fileName := none
  fileSize := some .null

/-- The record with `new Array(total)`, which throws on a number that is no length. -/
def new (total : Json) : Option Transfer :=
  match total with
  | .num (.finite n) =>
    if n.den = 1 ∧ 0 ≤ n.num ∧ n.num < 4294967296 then some (ofLength n.num.toNat total) else none
  | .num _ => none
  | _ => some (ofLength 1 total)

/-- The slot of the array holds something. -/
def filledAt (t : Transfer) (i : ℕ) : Bool := (t.slots i).isSome || (i = 0 && !t.total.isNumber)

/-- How many slots are filled. -/
def filled (t : Transfer) : ℕ := ((Finset.range t.length).filter fun i => t.filledAt i).card

/-- `transfer.chunks[seq]` is truthy. -/
def has (E : Engine) (t : Transfer) (name : Text) : Bool :=
  match arrayIndex name with
  | some i => t.filledAt i || E.inherited name
  | none => (name = text "length" && t.length ≠ 0) || t.named name || E.inherited name

def describe (t : Transfer) (mimeType source : Json) : Transfer :=
  { t with
    mimeType := mimeType
    fileName := some (sanitizeFileName (source.get (text "fileName")))
    fileSize := source.get (text "fileSize") }

/-- The metadata of a value that has a type. -/
def describeFrom (t : Transfer) (source : Json) : Transfer :=
  match source.get (text "mimeType") with
  | some mimeType => if mimeType.truthy then t.describe mimeType source else t
  | none => t

/-- Stores a chunk and counts it. -/
def fill (t : Transfer) (name : Text) (data : Bytes) : Transfer :=
  match arrayIndex name with
  | some i =>
    { t with
      slots := Function.update t.slots i (some data)
      length := max t.length (i + 1)
      received := t.received + 1 }
  | none => { t with named := Function.update t.named name true, received := t.received + 1 }

/-- The chunk in its slot, with the metadata of the first chunk that has it. -/
def storeChunk (t : Transfer) (name : Text) (data : Bytes) (chunkMeta : Json) : Transfer :=
  (if t.mimeType.isNull then t.describeFrom chunkMeta else t).fill name data

/-- The slots in their order. A transfer whose array has another element never completes. -/
def chunks (t : Transfer) : List (Option Bytes) := (List.range t.length).map t.slots

/-- What the slots that are filled hold together. -/
def content (t : Transfer) : Bytes := (t.chunks.filterMap id).flatten

/-- `reduce` skips the holes of the array. -/
def totalSize (t : Transfer) : ℕ := t.content.length

end Transfer

/-- `none` where a claimed type that is no text is asked how it starts. -/
def validateMimeType (claimedMime : Json) (bytes : Bytes) : Option Text :=
  if !claimedMime.truthy || bytes.length < 8 then some (text "application/octet-stream")
  else
    match magicMime bytes with
    | some mime => some (text mime)
    | none =>
      if isMp4 bytes then some (text "video/mp4")
      else
        match claimedMime with
        | .str claimed =>
          if SAFE_NO_MAGIC.any fun safe => (text safe).isPrefixOf claimed then some claimed
          else some (text "application/octet-stream")
        | _ => none

/-! ### The assembler -/

/-- What a call returns; `ignored` is `null`. -/
inductive ChunkResult
  | ignored
  | error (transferId : Json) (message : String)
  | progress (transferId : Json) (received : ℕ) (total : Json)
  | complete (transferId : Json) (mimeType : Text) (fileName : Option Text)
      (fileSize : Option Json) (blob : Bytes)

inductive Outcome
  | returned (result : ChunkResult)
  | thrown

def Outcome.isThrown : Outcome → Bool
  | .returned _ => false
  | .thrown => true

/-- The assembler, the stale timeouts that are running, and its calls of `onProgress`. -/
structure MediaAssembler where
  transfers : Finmap fun _ : MapKey => Transfer
  timers : MapKey → Option TimeoutId
  running : List (TimeoutId × MapKey)
  timersSet : ℕ
  progressed : List (Json × ℕ × Json)

namespace MediaAssembler

def new : MediaAssembler where
  transfers := ∅
  timers := fun _ => none
  running := []
  timersSet := 0
  progressed := []

def hold (m : MediaAssembler) (key : MapKey) (t : Transfer) : MediaAssembler :=
  { m with transfers := m.transfers.insert key t }

/-- `clearTimeout(this.#timers.get(transferId))` -/
def cleared (m : MediaAssembler) (key : MapKey) : List (TimeoutId × MapKey) :=
  match m.timers key with
  | none => m.running
  | some timer => m.running.filter (·.1 ≠ timer)

/-- Reset stale timeout on each chunk. -/
def resetTimer (m : MediaAssembler) (key : MapKey) : MediaAssembler :=
  { m with
    timers := Function.update m.timers key (some m.timersSet)
    running := (m.timersSet, key) :: m.cleared key
    timersSet := m.timersSet + 1 }

/-- The cleanup of a transfer that has ended. -/
def forget (m : MediaAssembler) (key : MapKey) : MediaAssembler :=
  { m with
    transfers := m.transfers.erase key
    timers := Function.update m.timers key none
    running := m.cleared key }

/-- A stale timeout runs. -/
def stale (m : MediaAssembler) (timer : TimeoutId) (key : MapKey) : MediaAssembler :=
  { m with
    transfers := m.transfers.erase key
    timers := Function.update m.timers key none
    running := m.running.filter (·.1 ≠ timer) }

/-- The record for a chunk, made or brought up to date, or how the call ends here. -/
def record (m : MediaAssembler) (c : Chunk) (inner : Json) : Except Outcome Transfer :=
  match m.transfers.lookup c.key with
  | none =>
    if MAX_CONCURRENT_TRANSFERS ≤ m.transfers.keys.card then .error (.returned .ignored)
    else
      match Transfer.new c.total with
      | none => .error .thrown
      | some t => .ok t
  | some t =>
    if c.seq.equalsNumber 0 then
      -- First chunk arrived out of order — update metadata
      if inner.isNull then .error .thrown else .ok (t.describeFrom inner)
    else .ok t

/-- The end of a call whose chunk is the last one. A hole in the array throws. -/
def reassemble (m : MediaAssembler) (c : Chunk) (t : Transfer) : MediaAssembler × Outcome :=
  if MAX_FILE_SIZE < t.totalSize then
    (m.forget c.key, .returned (.error c.transferId mediaRejected))
  else
    match t.chunks.allSome with
    | none => (m, .thrown)
    | some chunks =>
      match validateMimeType t.mimeType chunks.flatten with
      | none => (m.forget c.key, .thrown)
      | some mimeType =>
        (m.forget c.key,
          .returned (.complete c.transferId mimeType t.fileName t.fileSize chunks.flatten))

/-- The call of `onProgress`. -/
def report (m : MediaAssembler) (c : Chunk) (t : Transfer) : MediaAssembler :=
  { m with progressed := m.progressed ++ [(c.transferId, t.received, t.total)] }

/-- From the second await on. -/
def store (m : MediaAssembler) (c : Chunk) (t : Transfer) : MediaAssembler × Outcome :=
  let m := (m.hold c.key t).report c t
  if t.total.equalsNumber t.received then m.reassemble c t
  else (m, .returned (.progress c.transferId t.received t.total))

section
variable (E : Engine) (key : E.Key)

/-- With the record of the transfer, and its timeout reset. -/
def fillSlot (m : MediaAssembler) (c : Chunk) (t : Transfer) : MediaAssembler × Outcome :=
  match c.seq.toText E.numerals with
  | none => (m, .thrown)
  | some name =>
    if t.has E name then (m, .returned .ignored) -- duplicate
    else
      match decryptMediaEnvelope E key c.chunk with
      | none => (m, .returned (.error c.transferId keyMismatch))
      | some (data, chunkMeta) => m.store c (t.storeChunk name data chunkMeta)

/-- From the first await on. -/
def decryptChunk (m : MediaAssembler) (accepted : Accepted) : MediaAssembler × Outcome :=
  match accepted with
  | .thrown => (m, .thrown)
  | .ignored => (m, .returned .ignored)
  | .chunk c =>
    match openEnvelope E key c.chunk with
    | none => (m, .returned (.error c.transferId keyMismatch))
    | some inner =>
      match m.record c inner with
      | .error outcome => (m, outcome)
      | .ok t => ((m.hold c.key t).resetTimer c.key).fillSlot E key c t

def handleChunk (m : MediaAssembler) (msg : Message) : MediaAssembler × Outcome :=
  m.decryptChunk E key (accept E msg)

end

end MediaAssembler

/-! ### What is asked of the transfers -/

/-- The record of a transfer that is open: as many slots as its total, and fewer of them filled. -/
structure Transfer.Sound (t : Transfer) : Prop where
  total : ∃ n : ℕ, t.total = .num (.finite n) ∧ 1 ≤ n ∧ n ≤ MAX_CHUNKS ∧ t.length = n ∧
    t.received < n
  received : t.received = t.filled

namespace MediaAssembler

/-- At most ten transfers, each sound and with one stale timeout. -/
structure Sound (m : MediaAssembler) : Prop where
  size : m.transfers.keys.card ≤ MAX_CONCURRENT_TRANSFERS
  held : ∀ key t, m.transfers.lookup key = some t → t.Sound
  timer : ∀ key ∈ m.transfers, m.running.countP (·.2 = key) = 1

/-- The timers are those of the transfers, and the timeouts that run are theirs. -/
structure Wired (m : MediaAssembler) : Prop where
  held : ∀ key, (m.timers key).isSome ↔ key ∈ m.transfers
  running : ∀ key timer, m.timers key = some timer ↔ (timer, key) ∈ m.running
  nodup : (m.running.map Prod.fst).Nodup
  fresh : ∀ entry ∈ m.running, entry.1 < m.timersSet

variable {m : MediaAssembler} {key other : MapKey} {timer : TimeoutId} {t : Transfer}

theorem wired_new : Wired new := by
  refine ⟨fun key => ?_, fun key timer => ?_, List.nodup_nil, nofun⟩
  · exact iff_of_false Bool.false_ne_true (Finmap.notMem_empty)
  · exact iff_of_false nofun List.not_mem_nil

/-- The timeouts that run after one is cleared are those of the other transfers. -/
theorem Wired.mem_cleared (h : Wired m) :
    (timer, other) ∈ m.cleared key ↔ other ≠ key ∧ (timer, other) ∈ m.running := by
  rw [cleared]
  cases hkey : m.timers key with
  | none =>
      refine ⟨fun hmem => ⟨?_, hmem⟩, And.right⟩
      rintro rfl
      rw [← h.running, hkey] at hmem
      cases hmem
  | some held =>
      have hheld : (held, key) ∈ m.running := (h.running key held).mp hkey
      rw [List.mem_filter]
      refine and_comm.trans (and_congr_left fun hmem => ?_)
      rw [decide_eq_true_eq]
      constructor
      · rintro hne rfl
        have htimer := (h.running other timer).mpr hmem
        exact hne (Option.some.inj (htimer.symm.trans hkey))
      · rintro hne rfl
        exact hne (congrArg Prod.snd (List.inj_on_of_nodup_map h.nodup hmem hheld rfl))

theorem cleared_sublist (m : MediaAssembler) (key : MapKey) :
    (m.cleared key).Sublist m.running := by
  rw [cleared]
  split
  · exact List.Sublist.refl _
  · exact List.filter_sublist

/-- A transfer is held, with its timeout set. -/
theorem Wired.resetTimer (h : Wired m) (key : MapKey) (t : Transfer) :
    Wired ((m.hold key t).resetTimer key) := by
  have hclear : (m.hold key t).cleared key = m.cleared key := rfl
  have hsublist := cleared_sublist m key
  have hfresh : ∀ entry ∈ m.cleared key, entry.1 < m.timersSet := fun entry hentry =>
    h.fresh entry (hsublist.subset hentry)
  refine ⟨fun other => ?_, fun other timer => ?_, ?_, fun entry hentry => ?_⟩
  · show (Function.update m.timers key (some m.timersSet) other).isSome ↔
      other ∈ m.transfers.insert key t
    rw [Function.update_apply, Finmap.mem_insert]
    split
    · next hother => exact iff_of_true rfl (.inl hother)
    · next hother =>
      rw [h.held]
      exact ⟨.inr, fun hmem => hmem.resolve_left hother⟩
  · show Function.update m.timers key (some m.timersSet) other = some timer ↔
      (timer, other) ∈ (m.timersSet, key) :: m.cleared key
    rw [Function.update_apply, List.mem_cons, h.mem_cleared, ← h.running, Prod.mk.injEq]
    split
    · next hother =>
      rw [Option.some_inj]
      exact ⟨fun htimer => .inl ⟨htimer.symm, hother⟩, fun hmem =>
        (hmem.resolve_right fun hmem => hmem.1 hother).1.symm⟩
    · next hother =>
      exact ⟨fun htimer => .inr ⟨hother, htimer⟩, fun hmem =>
        (hmem.resolve_left fun hmem => hother hmem.2).2⟩
  · show (m.timersSet :: (m.cleared key).map Prod.fst).Nodup
    refine List.nodup_cons.mpr ⟨fun hmem => ?_, h.nodup.sublist (hsublist.map _)⟩
    obtain ⟨entry, hentry, heq⟩ := List.mem_map.mp hmem
    exact (hfresh entry hentry).ne heq
  · obtain rfl | hentry := List.mem_cons.mp hentry
    · exact Nat.lt_succ_self _
    · exact (hfresh entry hentry).trans (Nat.lt_succ_self _)

/-- A transfer ends. -/
theorem Wired.forget (h : Wired m) (key : MapKey) : Wired (m.forget key) := by
  have hsublist := cleared_sublist m key
  refine ⟨fun other => ?_, fun other timer => ?_, h.nodup.sublist (hsublist.map _),
    fun entry hentry => h.fresh entry (hsublist.subset hentry)⟩
  · show (Function.update m.timers key none other).isSome ↔ other ∈ m.transfers.erase key
    rw [Function.update_apply, Finmap.mem_erase]
    split
    · next hother => exact iff_of_false Bool.false_ne_true fun hmem => hmem.1 hother
    · next hother =>
      rw [h.held]
      exact (and_iff_right hother).symm
  · show Function.update m.timers key none other = some timer ↔ (timer, other) ∈ m.cleared key
    rw [Function.update_apply, h.mem_cleared, ← h.running]
    split
    · next hother => exact iff_of_false nofun fun hmem => hmem.1 hother
    · next hother => exact (and_iff_right hother).symm

/-- A stale timeout ends its transfer. -/
theorem Wired.stale_eq (h : Wired m) (hmem : (timer, key) ∈ m.running) :
    m.stale timer key = m.forget key := by
  rw [stale, MediaAssembler.forget, cleared, (h.running key timer).mpr hmem]

/-- The one timeout of a transfer. -/
theorem Wired.countP_running (h : Wired m) (hkey : key ∈ m.transfers) :
    m.running.countP (·.2 = key) = 1 := by
  obtain ⟨timer, htimer⟩ := Option.isSome_iff_exists.mp ((h.held key).mpr hkey)
  have hmem := (h.running key timer).mp htimer
  have hcount : m.running.count (timer, key) = 1 :=
    List.count_eq_one_of_mem (List.Nodup.of_map _ h.nodup) hmem
  rw [← hcount, List.count]
  refine List.countP_congr fun entry hentry => ?_
  rw [decide_eq_true_eq, beq_iff_eq]
  constructor
  · intro heq
    obtain ⟨other, key'⟩ := entry
    obtain rfl : key' = key := heq
    have hother := (h.running key' other).mpr hentry
    rw [Option.some.inj (hother.symm.trans htimer)]
  · rintro rfl
    rfl

theorem sound_iff (h : Wired m) : m.Sound ↔
    m.transfers.keys.card ≤ MAX_CONCURRENT_TRANSFERS ∧
      ∀ key t, m.transfers.lookup key = some t → t.Sound :=
  ⟨fun hm => ⟨hm.size, hm.held⟩, fun hm => ⟨hm.1, hm.2, fun _ hkey => h.countP_running hkey⟩⟩

/-- All is well but for the transfer at `key`. -/
structure Apart (key : MapKey) (m : MediaAssembler) : Prop where
  wired : Wired m
  size : m.transfers.keys.card ≤ MAX_CONCURRENT_TRANSFERS
  others : ∀ other t, other ≠ key → m.transfers.lookup other = some t → t.Sound

/-- Then all is well if that one is sound. -/
theorem Apart.sound_iff (h : Apart key m) (hkey : m.transfers.lookup key = some t) :
    m.Sound ↔ t.Sound := by
  refine ⟨fun hm => hm.held key t hkey, fun ht => (MediaAssembler.sound_iff h.wired).mpr
    ⟨h.size, fun other t' hother => ?_⟩⟩
  by_cases heq : other = key
  · rw [heq, hkey] at hother
    exact Option.some.inj hother ▸ ht
  · exact h.others other t' heq hother

/-- Without that one, all is well. -/
theorem Apart.forget (h : Apart key m) : (m.forget key).Sound := by
  refine (MediaAssembler.sound_iff (h.wired.forget key)).mpr ⟨?_, fun other t hother => ?_⟩
  · rw [MediaAssembler.forget, Finmap.keys_erase]
    exact Finset.card_erase_le.trans h.size
  · have hne : other ≠ key := by
      rintro rfl
      rw [MediaAssembler.forget, Finmap.lookup_erase] at hother
      cases hother
    rw [MediaAssembler.forget, Finmap.lookup_erase_ne hne] at hother
    exact h.others other t hne hother

theorem keys_hold (m : MediaAssembler) (key : MapKey) (t : Transfer) :
    (m.hold key t).transfers.keys = insert key m.transfers.keys := by
  ext other
  rw [hold, Finmap.mem_keys, Finmap.mem_insert, Finset.mem_insert, Finmap.mem_keys]

theorem keys_hold_of_mem (hkey : key ∈ m.transfers) (t : Transfer) :
    (m.hold key t).transfers.keys = m.transfers.keys := by
  rw [keys_hold, Finset.insert_eq_self.mpr (Finmap.mem_keys.mpr hkey)]

theorem Wired.hold (h : Wired m) (hkey : key ∈ m.transfers) (t : Transfer) :
    Wired (m.hold key t) := by
  refine ⟨fun other => (h.held other).trans ?_, h.running, h.nodup, h.fresh⟩
  rw [← Finmap.mem_keys, ← Finmap.mem_keys, keys_hold_of_mem hkey]

/-- A transfer is held in its place. -/
theorem Apart.hold (h : Apart key m) (hkey : key ∈ m.transfers) (t : Transfer) :
    Apart key (m.hold key t) := by
  refine ⟨h.wired.hold hkey t, ?_, fun other t' hne hother => ?_⟩
  · rw [keys_hold_of_mem hkey]
    exact h.size
  · rw [MediaAssembler.hold, Finmap.lookup_insert_of_ne _ hne] at hother
    exact h.others other t' hne hother

theorem lookup_hold (m : MediaAssembler) (key : MapKey) (t : Transfer) :
    (m.hold key t).transfers.lookup key = some t :=
  Finmap.lookup_insert _

/-- A transfer is made or brought up to date, where there is room for it. -/
theorem apart_resetTimer (hw : Wired m) (hm : m.Sound)
    (hroom : key ∈ m.transfers ∨ m.transfers.keys.card < MAX_CONCURRENT_TRANSFERS)
    (t : Transfer) : Apart key ((m.hold key t).resetTimer key) := by
  refine ⟨hw.resetTimer key t, ?_, fun other t' hne hother => ?_⟩
  · show (m.hold key t).transfers.keys.card ≤ _
    obtain hmem | hlt := hroom
    · rw [keys_hold_of_mem hmem]
      exact hm.size
    · rw [keys_hold]
      exact (Finset.card_insert_le _ _).trans hlt
  · rw [MediaAssembler.resetTimer, MediaAssembler.hold, Finmap.lookup_insert_of_ne _ hne] at hother
    exact hm.held other t' hother

end MediaAssembler

/-! ### Storing a chunk -/

namespace Transfer

variable {t : Transfer} {name : Text} {data : Bytes} {source : Json}

/-- What metadata does not change. -/
structure SameSlots (t t' : Transfer) : Prop where
  length : t'.length = t.length
  slots : t'.slots = t.slots
  received : t'.received = t.received
  total : t'.total = t.total

theorem sameSlots_describeFrom (t : Transfer) (source : Json) :
    SameSlots t (t.describeFrom source) := by
  rw [describeFrom]
  split
  · split
    · exact ⟨rfl, rfl, rfl, rfl⟩
    · exact ⟨rfl, rfl, rfl, rfl⟩
  · exact ⟨rfl, rfl, rfl, rfl⟩

theorem SameSlots.filledAt {t' : Transfer} (h : SameSlots t t') : t'.filledAt = t.filledAt := by
  funext i
  rw [Transfer.filledAt, Transfer.filledAt, h.slots, h.total]

theorem SameSlots.sound {t' : Transfer} (h : SameSlots t t') (ht : t.Sound) : t'.Sound := by
  obtain ⟨htotal, hreceived⟩ := ht
  refine ⟨?_, ?_⟩
  · rw [h.total, h.length, h.received]
    exact htotal
  · rw [h.received, hreceived, filled, filled, h.length, h.filledAt]

/-- The name is that of a slot of the array. -/
def InRange (t : Transfer) (name : Text) : Prop := ∃ i < t.length, arrayIndex name = some i

instance (t : Transfer) (name : Text) : Decidable (InRange t name) :=
  inferInstanceAs (Decidable (∃ i < t.length, arrayIndex name = some i))

/-- What storing a chunk does to the array. -/
inductive Stored (t : Transfer) (name : Text) (data : Bytes) (t' : Transfer) : Prop
  | slot {i : ℕ} (hi : i < t.length) (hindex : arrayIndex name = some i)
      (hlength : t'.length = t.length)
      (hslots : t'.slots = Function.update t.slots i (some data))
  | outside (hout : ¬InRange t name) (hlength : t.length ≤ t'.length)
      (hslots : ∀ i < t.length, t'.slots i = t.slots i)
      (hmore : t'.length = t.length ∨ t.length < t'.length)

theorem stored_fill (t : Transfer) (name : Text) (data : Bytes) :
    Stored t name data (t.fill name data) := by
  rw [fill]
  cases hindex : arrayIndex name with
  | none =>
      refine .outside ?_ le_rfl (fun i _ => rfl) (.inl rfl)
      rintro ⟨i, -, hi⟩
      rw [hindex] at hi
      cases hi
  | some i =>
      by_cases hi : i < t.length
      · exact .slot hi hindex (Nat.max_eq_left hi) rfl
      · have hlt : t.length < max t.length (i + 1) :=
          (Nat.lt_succ_of_le (Nat.le_of_not_lt hi)).trans_le (Nat.le_max_right _ _)
        refine .outside ?_ hlt.le (fun j hj => ?_) (.inr hlt)
        · rintro ⟨j, hj, hj'⟩
          rw [hindex] at hj'
          exact hi (Option.some.inj hj' ▸ hj)
        · exact Function.update_of_ne (by omega) _ _

theorem SameSlots.stored {u t' : Transfer} (h : SameSlots t u) (hs : Stored u name data t') :
    Stored t name data t' := by
  obtain ⟨hlength, hslots, -, -⟩ := h
  cases hs with
  | slot hi hindex hlength' hslots' =>
      exact .slot (hlength ▸ hi) hindex (hlength'.trans hlength) (hslots ▸ hslots')
  | outside hout hlength' hslots' hmore =>
      rw [InRange, hlength] at hout
      rw [hlength] at hlength' hslots' hmore
      exact .outside hout hlength' (fun i hi => (hslots' i hi).trans (congrFun hslots i)) hmore

/-- Storing a chunk counts it, wherever it goes. -/
theorem storeChunk_spec (t : Transfer) (name : Text) (data : Bytes) (source : Json) :
    (t.storeChunk name data source).received = t.received + 1 ∧
      (t.storeChunk name data source).total = t.total ∧
      Stored t name data (t.storeChunk name data source) := by
  rw [storeChunk]
  have hsame : SameSlots t (if t.mimeType.isNull then t.describeFrom source else t) := by
    split
    · exact sameSlots_describeFrom t source
    · exact ⟨rfl, rfl, rfl, rfl⟩
  generalize (if t.mimeType.isNull then t.describeFrom source else t) = u at hsame
  refine ⟨?_, ?_, hsame.stored (stored_fill u name data)⟩
  · rw [← hsame.received, fill]
    split <;> rfl
  · rw [← hsame.total, fill]
    split <;> rfl

/-- In a transfer with a number for its total, what is filled has been stored. -/
theorem filledAt_eq {n : Number} (h : t.total = .num n) (i : ℕ) :
    t.filledAt i = (t.slots i).isSome := by
  rw [filledAt, h]
  show ((t.slots i).isSome || (i = 0 && false)) = _
  rw [Bool.and_false, Bool.or_false]

/-- A chunk in a slot of its own fills one slot more. -/
theorem filled_slot {t' : Transfer} {n : Number} {i : ℕ} (htotal : t.total = .num n)
    (htotal' : t'.total = .num n) (hi : i < t.length) (hempty : t.slots i = none)
    (hlength : t'.length = t.length) (hslots : t'.slots = Function.update t.slots i (some data)) :
    t'.filled = t.filled + 1 := by
  have hfilter : ((Finset.range t'.length).filter fun j => t'.filledAt j) =
      insert i ((Finset.range t.length).filter fun j => t.filledAt j) := by
    ext j
    rw [Finset.mem_insert, Finset.mem_filter, Finset.mem_filter, hlength, filledAt_eq htotal',
      filledAt_eq htotal, hslots, Finset.mem_range]
    by_cases hj : j = i
    · rw [hj, Function.update_self]
      exact iff_of_true ⟨hi, rfl⟩ (.inl rfl)
    · rw [Function.update_of_ne hj]
      exact (or_iff_right hj).symm
  rw [filled, hfilter, Finset.card_insert_of_notMem, filled]
  rw [Finset.mem_filter, filledAt_eq htotal, hempty]
  exact fun hmem => Bool.false_ne_true hmem.2

/-- The slots are all filled, or one of them is a hole. -/
theorem filled_eq_length {n : Number} (htotal : t.total = .num n) :
    t.filled = t.length ↔ ∀ i < t.length, (t.slots i).isSome := by
  have hall : ((Finset.range t.length).filter fun i => t.filledAt i).card =
      (Finset.range t.length).card ↔ ∀ i ∈ Finset.range t.length, t.filledAt i = true :=
    Finset.card_filter_eq_iff
  rw [Finset.card_range] at hall
  rw [filled, hall]
  simp only [Finset.mem_range, filledAt_eq htotal]

/-- The place where a chunk goes that is no duplicate. -/
theorem slots_of_not_has {E : Engine} (h : t.has E name = false) {i : ℕ}
    (hindex : arrayIndex name = some i) : t.slots i = none := by
  rw [has, hindex] at h
  obtain ⟨hfilled, -⟩ := Bool.or_eq_false_iff.mp h
  rw [filledAt] at hfilled
  exact Option.isNone_iff_eq_none.mp
    (Option.isSome_eq_false_iff.mp (Bool.or_eq_false_iff.mp hfilled).1)

theorem equalsNumber_iff {value : Json} {n : ℕ} :
    value.equalsNumber n = true ↔ value = .num (.finite n) := by
  cases value <;> simp [Json.equalsNumber]

theorem natCast_inj {n m : ℕ} (h : Json.num (.finite n) = .num (.finite m)) : n = m := by
  rw [Json.num.injEq, Number.finite.injEq, Nat.cast_inj] at h
  exact h

variable {E : Engine}

/-- **A chunk that is not the last one** leaves the record sound exactly where it goes into a
slot. -/
theorem sound_storeChunk (ht : t.Sound) (hnew : t.has E name = false)
    (hmore : t.total.equalsNumber (t.received + 1) = false) :
    (t.storeChunk name data source).Sound ↔ t.InRange name := by
  obtain ⟨⟨n, htotal, hpos, hle, hlength, hlt⟩, hreceived⟩ := ht
  obtain ⟨hreceived', htotal', hstored⟩ := storeChunk_spec t name data source
  generalize t.storeChunk name data source = t' at hreceived' htotal' hstored
  have hnum := htotal'.trans htotal
  have hlast : t.received + 1 ≠ n := by
    rintro rfl
    rw [equalsNumber_iff.mpr htotal] at hmore
    cases hmore
  cases hstored with
  | @slot i hi hindex hlength' hslots =>
      refine iff_of_true ⟨⟨n, hnum, hpos, hle, hlength'.trans hlength, ?_⟩, ?_⟩ ⟨i, hi, hindex⟩
      · omega
      · rw [hreceived', hreceived]
        exact (filled_slot htotal hnum hi (slots_of_not_has hnew hindex) hlength' hslots).symm
  | outside hout hlength' hslots hmore' =>
      refine iff_of_false (fun hsound => ?_) hout
      obtain ⟨⟨n', hn', -, -, hn, -⟩, hfilled'⟩ := hsound
      obtain rfl := natCast_inj (hn'.symm.trans hnum)
      obtain hsame | hmore'' := hmore'
      · have hfilled : t'.filled = t.filled := by
          rw [filled, filled, hsame]
          refine congrArg Finset.card (Finset.filter_congr fun i hi => ?_)
          rw [filledAt_eq hnum, filledAt_eq htotal, hslots i (Finset.mem_range.mp hi)]
        omega
      · omega

theorem allSome_of_forall {l : List (Option Bytes)} (h : ∀ x ∈ l, x.isSome) :
    l.allSome = some (l.filterMap id) := by
  rw [List.allSome]
  induction l with
  | nil => rfl
  | cons x l ih =>
      obtain ⟨hx, hl⟩ := List.forall_mem_cons.mp h
      obtain ⟨bytes, rfl⟩ := Option.isSome_iff_exists.mp hx
      rw [List.mapM_cons, ih hl]
      rfl

theorem allSome_of_not_forall {l : List (Option Bytes)} (h : ¬∀ x ∈ l, x.isSome) :
    l.allSome = none := by
  rw [List.allSome]
  induction l with
  | nil => exact absurd nofun h
  | cons x l ih =>
      rw [List.mapM_cons]
      cases x with
      | none => rfl
      | some bytes =>
          have hl : ¬∀ x ∈ l, x.isSome := fun hall => h (List.forall_mem_cons.mpr ⟨rfl, hall⟩)
          rw [ih hl]
          rfl

/-- **The last chunk** completes the array exactly where it goes into a slot. -/
theorem allSome_storeChunk (ht : t.Sound) (hnew : t.has E name = false)
    (hlast : t.total.equalsNumber (t.received + 1) = true) :
    (t.storeChunk name data source).chunks.allSome =
      if t.InRange name then some ((t.storeChunk name data source).chunks.filterMap id)
      else none := by
  obtain ⟨⟨n, htotal, hpos, hle, hlength, hlt⟩, hreceived⟩ := ht
  obtain ⟨-, htotal', hstored⟩ := storeChunk_spec t name data source
  generalize t.storeChunk name data source = t' at htotal' hstored
  have hn : t.received + 1 = n := natCast_inj ((equalsNumber_iff.mp hlast).symm.trans htotal)
  have hall : (∀ x ∈ t'.chunks, x.isSome) ↔ ∀ i < t'.length, (t'.slots i).isSome := by
    rw [chunks, List.forall_mem_map]
    exact forall_congr' fun i => imp_congr_left List.mem_range
  cases hstored with
  | @slot i hi hindex hlength' hslots =>
      have hfull : t'.filled = t'.length := by
        rw [filled_slot htotal (htotal'.trans htotal) hi (slots_of_not_has hnew hindex) hlength'
          hslots]
        omega
      rw [if_pos ⟨i, hi, hindex⟩]
      exact allSome_of_forall (hall.mpr ((filled_eq_length (htotal'.trans htotal)).mp hfull))
  | outside hout hlength' hslots hmore =>
      rw [if_neg hout]
      refine allSome_of_not_forall fun hsome => ?_
      have hfull := hall.mp hsome
      have hfull' : t.filled = t.length := (filled_eq_length htotal).mpr fun i hi => by
        rw [← hslots i hi]
        exact hfull i (hi.trans_le hlength')
      omega

end Transfer

/-! ### Harmless input -/

/-- A claimed type that is asked how it starts is a text. -/
def MimeHarmless (mimeType : Json) (bytes : Bytes) : Prop :=
  mimeType.truthy = true → mimeType.isString = true ∨ bytes.length < 8 ∨
    (magicMime bytes).isSome = true ∨ isMp4 bytes = true

theorem isSome_validateMimeType (mimeType : Json) (bytes : Bytes) :
    (validateMimeType mimeType bytes).isSome = true ↔ MimeHarmless mimeType bytes := by
  unfold validateMimeType MimeHarmless
  by_cases hplain : (!mimeType.truthy || bytes.length < 8) = true
  · rw [if_pos hplain]
    refine iff_of_true rfl fun htruthy => .inr (.inl ?_)
    rw [htruthy] at hplain
    exact of_decide_eq_true hplain
  · rw [if_neg hplain]
    rw [Bool.or_eq_true, not_or, Bool.not_eq_true', Bool.not_eq_false, decide_eq_true_eq] at hplain
    obtain ⟨htruthy, hlength⟩ := hplain
    cases hmagic : magicMime bytes with
    | some mime => exact iff_of_true rfl fun _ => .inr (.inr (.inl rfl))
    | none =>
        by_cases hmp4 : isMp4 bytes = true
        · rw [if_pos hmp4]
          exact iff_of_true rfl fun _ => .inr (.inr (.inr hmp4))
        · rw [if_neg hmp4]
          have hother : ¬(bytes.length < 8 ∨ (none : Option String).isSome = true ∨
              isMp4 bytes = true) := by
            rintro (h | h | h)
            · exact hlength h
            · cases h
            · exact hmp4 h
          cases mimeType with
          | str claimed =>
              refine iff_of_true ?_ fun _ => .inl rfl
              dsimp only
              split <;> rfl
          | _ =>
              refine iff_of_false Bool.false_ne_true fun h => ?_
              exact (h htruthy).elim Bool.false_ne_true hother

/-- A chunk that is stored goes into a slot; and after the last one the claimed type is harmless,
unless the file is too large. -/
def StoreHarmless (t : Transfer) (name : Text) (data : Bytes) (chunkMeta : Json) : Prop :=
  if t.total.equalsNumber (t.received + 1) = true then
    MAX_FILE_SIZE < (t.storeChunk name data chunkMeta).totalSize ∨
      t.InRange name ∧ MimeHarmless (t.storeChunk name data chunkMeta).mimeType
        (t.storeChunk name data chunkMeta).content
  else t.InRange name

section
variable (E : Engine) (key : E.Key)

/-- The chunk is a duplicate, or it does not open, or storing it is harmless. -/
def FillHarmless (c : Chunk) (t : Transfer) : Prop :=
  ∀ name, c.seq.toText E.numerals = some name → t.has E name = false →
    ∀ opened ∈ decryptMediaEnvelope E key c.chunk, StoreHarmless t name opened.1 opened.2

/-- A new transfer has a whole number for its total, unless there are ten already; and what
brings the metadata of an open one is not null. -/
def RecordHarmless (m : MediaAssembler) (c : Chunk) (inner : Json) : Prop :=
  match m.transfers.lookup c.key with
  | none => MAX_CONCURRENT_TRANSFERS ≤ m.transfers.keys.card ∨
      ∃ n : ℕ, c.total = .num (.finite n) ∧ FillHarmless E key c (Transfer.ofLength n c.total)
  | some t =>
    if c.seq.equalsNumber 0 = true then
      inner.isNull = false ∧ FillHarmless E key c (t.describeFrom inner)
    else FillHarmless E key c t

/-- The total can be compared, and the number of the chunk, if the total is within its bounds;
and a chunk within its own bounds has a harmless record, if it opens. -/
def ChunkHarmless (m : MediaAssembler) (c : Chunk) : Prop :=
  ∃ total, c.total.toPrimitive E.numerals = some total ∧
    (totalOutOfBounds E total = false → ∃ seq, c.seq.toPrimitive E.numerals = some seq ∧
      (seqOutOfBounds E seq total = false → ∀ inner ∈ openEnvelope E key c.chunk,
        RecordHarmless E key m c inner))

/-- The payload does not parse, or is a value that has members, and any chunk it makes is
harmless. -/
def Harmless (m : MediaAssembler) (msg : Message) : Prop :=
  match metaOf E msg.payload with
  | none => True
  | some none => False
  | some (some value) =>
    value.isNull = false ∧ ∀ c ∈ fieldsOf msg.transferRef value, ChunkHarmless E key m c

end

theorem fillHarmless_iff {E : Engine} {key : E.Key} {c : Chunk} {t : Transfer} {name : Text}
    {data : Bytes} {chunkMeta : Json} (hname : c.seq.toText E.numerals = some name)
    (hnew : t.has E name = false)
    (hopened : decryptMediaEnvelope E key c.chunk = some (data, chunkMeta)) :
    FillHarmless E key c t ↔ StoreHarmless t name data chunkMeta := by
  constructor
  · intro hall
    exact hall name hname hnew (data, chunkMeta) hopened
  · intro hdata name' hname' _ opened hmem
    obtain rfl : name = name' := Option.some.inj (hname.symm.trans hname')
    obtain rfl : (data, chunkMeta) = opened := Option.some.inj (hopened.symm.trans hmem)
    exact hdata

/-- The call returns, and leaves everything sound. -/
def Fine (res : MediaAssembler × Outcome) : Prop := res.2.isThrown = false ∧ res.1.Sound

theorem not_fine_thrown (m : MediaAssembler) : ¬Fine (m, .thrown) := by
  rintro ⟨hreturns, -⟩
  cases hreturns

theorem fine_returned {m : MediaAssembler} (hm : m.Sound) (result : ChunkResult) :
    Fine (m, .returned result) :=
  ⟨rfl, hm⟩

namespace MediaAssembler

variable {m : MediaAssembler} {c : Chunk} {t : Transfer}

theorem Apart.report (h : Apart c.key m) (hkey : c.key ∈ m.transfers) (t : Transfer) :
    Apart c.key ((m.hold c.key t).report c t) :=
  have hheld := h.hold hkey t
  ⟨⟨hheld.wired.held, hheld.wired.running, hheld.wired.nodup, hheld.wired.fresh⟩, hheld.size,
    hheld.others⟩

/-- **The end of a call** that has stored its chunk. -/
theorem fine_store (h : Apart c.key m) (hkey : c.key ∈ m.transfers) (t : Transfer) :
    Fine (m.store c t) ↔
      if t.total.equalsNumber t.received = true then
        MAX_FILE_SIZE < t.totalSize ∨
          ∃ chunks, t.chunks.allSome = some chunks ∧ MimeHarmless t.mimeType chunks.flatten
      else t.Sound := by
  have hreport := h.report hkey t
  rw [store]
  split
  · rw [reassemble]
    split
    · next hlarge => exact iff_of_true (fine_returned hreport.forget _) (.inl hlarge)
    · next hsmall =>
      split
      · next hhole =>
        refine iff_of_false (not_fine_thrown _) ?_
        rintro (hlarge | ⟨chunks, hchunks, -⟩)
        · exact hsmall hlarge
        · rw [hhole] at hchunks
          cases hchunks
      · next chunks hchunks =>
        split
        · next hmime =>
          refine iff_of_false (not_fine_thrown _) ?_
          rintro (hlarge | ⟨chunks', hchunks', hharmless⟩)
          · exact hsmall hlarge
          · rw [hchunks] at hchunks'
            cases hchunks'
            have hsome := (isSome_validateMimeType _ _).mpr hharmless
            rw [hmime] at hsome
            cases hsome
        · next mime hmime =>
          refine iff_of_true (fine_returned hreport.forget _) (.inr ⟨chunks, hchunks, ?_⟩)
          rw [← isSome_validateMimeType, hmime]
          rfl
  · rw [Fine, hreport.sound_iff (lookup_hold m c.key t)]
    exact and_iff_right rfl

/-- **A chunk of a sound transfer.** -/
theorem fine_fillSlot {E : Engine} {key : E.Key} (h : Apart c.key m)
    (hkey : m.transfers.lookup c.key = some t) (ht : t.Sound)
    (htext : (c.seq.toText E.numerals).isSome = true) :
    Fine (m.fillSlot E key c t) ↔ FillHarmless E key c t := by
  have hmem : c.key ∈ m.transfers := Finmap.mem_of_lookup_eq_some hkey
  have hsound : m.Sound := (h.sound_iff hkey).mpr ht
  obtain ⟨name, hname⟩ := Option.isSome_iff_exists.mp htext
  rw [fillSlot, hname]
  dsimp only
  split
  · next hhas =>
    refine iff_of_true (fine_returned hsound _) fun name' hname' hnew => ?_
    rw [Option.some.inj (hname'.symm.trans hname), hhas] at hnew
    cases hnew
  · next hnew =>
    rw [Bool.not_eq_true] at hnew
    split
    · next hclosed =>
      refine iff_of_true (fine_returned hsound _) fun _ _ _ opened hopened => ?_
      rw [hclosed] at hopened
      cases hopened
    · next data chunkMeta hopened =>
      obtain ⟨hreceived', htotal', -⟩ := t.storeChunk_spec name data chunkMeta
      rw [fillHarmless_iff hname hnew hopened, fine_store h hmem, htotal', hreceived',
        StoreHarmless]
      split
      · next hlast =>
        rw [Transfer.allSome_storeChunk ht hnew hlast]
        refine or_congr_right ?_
        by_cases hin : t.InRange name
        · rw [if_pos hin]
          constructor
          · rintro ⟨chunks, hchunks, hmime⟩
            cases hchunks
            exact ⟨hin, hmime⟩
          · rintro ⟨-, hmime⟩
            exact ⟨_, rfl, hmime⟩
        · rw [if_neg hin]
          refine iff_of_false ?_ fun hboth => hin hboth.1
          rintro ⟨chunks, hchunks, -⟩
          cases hchunks
      · next hmore =>
        exact Transfer.sound_storeChunk ht hnew (Bool.eq_false_iff.mpr hmore)

/-- A total that is no number is never reached, and its transfer never sound. -/
theorem not_fine_fillSlot {E : Engine} {key : E.Key} (hkey : m.transfers.lookup c.key = some t)
    (ht : t.total.isNumber = false) : ¬Fine (m.fillSlot E key c t) := by
  have hunsound : ∀ t' : Transfer, t'.total = t.total → ¬t'.Sound := by
    rintro t' htotal ⟨⟨n, hn, -⟩, -⟩
    rw [← htotal, hn] at ht
    cases ht
  have hheld : ¬m.Sound := fun hm => hunsound t rfl (hm.held c.key t hkey)
  rw [fillSlot]
  split
  · exact not_fine_thrown m
  · next name hname =>
    split
    · exact fun hfine => hheld hfine.2
    · split
      · exact fun hfine => hheld hfine.2
      · next data chunkMeta hopened =>
        obtain ⟨-, htotal', -⟩ := t.storeChunk_spec name data chunkMeta
        have hnumber : (t.storeChunk name data chunkMeta).total.equalsNumber
            (t.storeChunk name data chunkMeta).received = false := by
          rw [htotal']
          cases hvalue : t.total with
          | num n =>
              rw [hvalue] at ht
              cases ht
          | _ => rfl
        rw [store, hnumber, if_neg Bool.false_ne_true]
        intro hfine
        exact hunsound _ htotal' (hfine.2.held c.key _ (lookup_hold m c.key _))

end MediaAssembler

/-! ### One call -/

section
variable {E : Engine} {key : E.Key}

theorem bounds_of_number {q : ℚ} (h : totalOutOfBounds E (.num (.finite q)) = false) :
    0 < q ∧ q ≤ MAX_CHUNKS := by
  obtain ⟨hmax, hzero⟩ := Bool.or_eq_false_iff.mp h
  have hmax' : ¬some (decide ((MAX_CHUNKS : ℚ) < q)) = some true := of_decide_eq_false hmax
  have hzero' : ¬some (decide (0 < q)) = some false := of_decide_eq_false hzero
  rw [Option.some_inj, decide_eq_true_eq, not_lt] at hmax'
  rw [Option.some_inj, decide_eq_false_iff_not, not_not] at hzero'
  exact ⟨hzero', hmax'⟩

/-- A whole number within the bounds. -/
theorem natCast_bounds {c : Chunk} {n : ℕ} {total : Json} (hn : c.total = .num (.finite n))
    (htotal : c.total.toPrimitive E.numerals = some total)
    (hbounds : totalOutOfBounds E total = false) : 1 ≤ n ∧ n ≤ MAX_CHUNKS := by
  rw [hn] at htotal
  obtain rfl : Json.num (.finite n) = total := Option.some.inj htotal
  obtain ⟨hpos, hle⟩ := bounds_of_number hbounds
  exact ⟨Nat.cast_pos.mp hpos, Nat.cast_le.mp hle⟩

/-- What `new Array(total)` is. -/
theorem Transfer.new_cases (total : Json) :
    (Transfer.new total = none ∧ ∀ n : ℕ, n < 4294967296 → total ≠ .num (.finite n)) ∨
      (∃ n : ℕ, total = .num (.finite n) ∧ Transfer.new total = some (ofLength n total)) ∨
      (total.isNumber = false ∧ Transfer.new total = some (ofLength 1 total)) := by
  cases total with
  | num n =>
      cases n with
      | finite q =>
          by_cases hlength : q.den = 1 ∧ 0 ≤ q.num ∧ q.num < 4294967296
          · refine .inr (.inl ⟨q.num.toNat, ?_, if_pos hlength⟩)
            have hnum : ((q.num.toNat : ℤ) : ℚ) = q := by
              rw [Int.toNat_of_nonneg hlength.2.1]
              exact Rat.coe_int_num_of_den_eq_one hlength.1
            rw [Int.cast_natCast] at hnum
            rw [hnum]
          · refine .inl ⟨if_neg hlength, ?_⟩
            rintro n hn ⟨⟩
            exact hlength ⟨Rat.den_natCast n, by rw [Rat.num_natCast]; omega,
              by rw [Rat.num_natCast]; omega⟩
      | nan => exact .inl ⟨rfl, fun n _ => nofun⟩
      | infinite negative => exact .inl ⟨rfl, fun n _ => nofun⟩
  | _ => exact .inr (.inr ⟨rfl, rfl⟩)

theorem Transfer.sound_ofLength {n : ℕ} (hpos : 1 ≤ n) (hle : n ≤ MAX_CHUNKS) :
    (ofLength n (.num (.finite n))).Sound := by
  refine ⟨⟨n, rfl, hpos, hle, rfl, hpos⟩, ?_⟩
  rw [filled, Finset.filter_false_of_mem]
  · rfl
  · intro i _
    rw [filledAt_eq rfl]
    exact Bool.false_ne_true

variable {m : MediaAssembler} {c : Chunk}

theorem MediaAssembler.lookup_resetTimer (m : MediaAssembler) (key : MapKey) (t : Transfer) :
    ((m.hold key t).resetTimer key).transfers.lookup key = some t :=
  m.lookup_hold key t

/-- **A chunk that opens**, within its bounds. -/
theorem fine_opened (hw : m.Wired) (hm : m.Sound) {total : Json}
    (htotal : c.total.toPrimitive E.numerals = some total)
    (hbounds : totalOutOfBounds E total = false)
    (htext : (c.seq.toText E.numerals).isSome = true) {inner : Json}
    (hinner : openEnvelope E key c.chunk = some inner) :
    Fine (m.decryptChunk E key (.chunk c)) ↔ RecordHarmless E key m c inner := by
  rw [MediaAssembler.decryptChunk, hinner]
  dsimp only
  rw [MediaAssembler.record, RecordHarmless]
  cases hlookup : m.transfers.lookup c.key with
  | none =>
      dsimp only
      by_cases hfull : MAX_CONCURRENT_TRANSFERS ≤ m.transfers.keys.card
      · rw [if_pos hfull]
        exact iff_of_true (fine_returned hm _) (.inl hfull)
      rw [if_neg hfull, or_iff_right hfull]
      have hapart : ∀ t, MediaAssembler.Apart c.key ((m.hold c.key t).resetTimer c.key) :=
        MediaAssembler.apart_resetTimer hw hm (.inr (Nat.lt_of_not_le hfull))
      obtain ⟨hnone, hno⟩ | ⟨n, hn, hnew⟩ | ⟨hvalue, hnew⟩ := Transfer.new_cases c.total
      · rw [hnone]
        refine iff_of_false (not_fine_thrown _) ?_
        rintro ⟨n, hn, -⟩
        obtain ⟨-, hle⟩ := natCast_bounds hn htotal hbounds
        exact hno n (hle.trans_lt (by decide)) hn
      · obtain ⟨hpos, hle⟩ := natCast_bounds hn htotal hbounds
        have hsound : (Transfer.ofLength n c.total).Sound := by
          rw [hn]
          exact Transfer.sound_ofLength hpos hle
        have hunique : (∃ n : ℕ, c.total = .num (.finite n) ∧
            FillHarmless E key c (Transfer.ofLength n c.total)) ↔
              FillHarmless E key c (Transfer.ofLength n c.total) := by
          refine ⟨?_, fun hharmless => ⟨n, hn, hharmless⟩⟩
          rintro ⟨n', hn', hharmless⟩
          obtain rfl := Transfer.natCast_inj (hn.symm.trans hn')
          exact hharmless
        rw [hnew, hunique]
        exact MediaAssembler.fine_fillSlot (hapart _) (m.lookup_resetTimer _ _) hsound htext
      · rw [hnew]
        refine iff_of_false (MediaAssembler.not_fine_fillSlot (m.lookup_resetTimer _ _) hvalue) ?_
        rintro ⟨n, hn, -⟩
        rw [hn] at hvalue
        cases hvalue
  | some t =>
      have hmem : c.key ∈ m.transfers := Finmap.mem_of_lookup_eq_some hlookup
      have hapart : ∀ t, MediaAssembler.Apart c.key ((m.hold c.key t).resetTimer c.key) :=
        MediaAssembler.apart_resetTimer hw hm (.inl hmem)
      have ht := hm.held c.key t hlookup
      dsimp only
      by_cases hzero : c.seq.equalsNumber 0 = true
      · rw [if_pos hzero, if_pos hzero]
        cases hnull : inner.isNull with
        | true =>
            refine iff_of_false (not_fine_thrown _) fun hharmless => ?_
            cases hharmless.1
        | false =>
            rw [and_iff_right rfl]
            exact MediaAssembler.fine_fillSlot (hapart _) (m.lookup_resetTimer _ _)
              ((t.sameSlots_describeFrom inner).sound ht) htext
      · rw [if_neg hzero, if_neg hzero]
        exact MediaAssembler.fine_fillSlot (hapart t) (m.lookup_resetTimer _ _) ht htext

/-- **A chunk.** -/
theorem fine_checkBounds (hw : m.Wired) (hm : m.Sound) (c : Chunk) :
    Fine (m.decryptChunk E key (checkBounds E c)) ↔ ChunkHarmless E key m c := by
  rw [checkBounds, ChunkHarmless]
  cases htotal : c.total.toPrimitive E.numerals with
  | none =>
      refine iff_of_false (not_fine_thrown _) ?_
      rintro ⟨total, ⟨⟩, -⟩
  | some total =>
      simp only [Option.some.injEq, exists_eq_left']
      cases hbounds : totalOutOfBounds E total with
      | true => exact iff_of_true (fine_returned hm _) nofun
      | false =>
          rw [if_neg Bool.false_ne_true, imp_iff_right rfl]
          cases hseq : c.seq.toPrimitive E.numerals with
          | none =>
              refine iff_of_false (not_fine_thrown _) ?_
              rintro ⟨seq, ⟨⟩, -⟩
          | some seq =>
              simp only [Option.some.injEq, exists_eq_left']
              cases hseqBounds : seqOutOfBounds E seq total with
              | true => exact iff_of_true (fine_returned hm _) nofun
              | false =>
                  rw [if_neg Bool.false_ne_true, imp_iff_right rfl]
                  cases hinner : openEnvelope E key c.chunk with
                  | none =>
                      rw [MediaAssembler.decryptChunk, hinner]
                      exact iff_of_true (fine_returned hm _) nofun
                  | some inner =>
                      rw [fine_opened hw hm htotal hbounds (isSome_toText hseq) hinner]
                      refine ⟨fun hrecord inner' hinner' => ?_, fun hall => hall inner rfl⟩
                      obtain rfl : inner = inner' := Option.some.inj hinner'
                      exact hrecord

theorem accept_of_not_null {msg : Message} {value : Json}
    (hmeta : metaOf E msg.payload = some (some value)) (hnull : value.isNull = false) :
    accept E msg =
      match fieldsOf msg.transferRef value with
      | none => .ignored
      | some c => checkBounds E c := by
  rw [accept, hmeta]
  cases value with
  | null => cases hnull
  | _ => rfl

/-- **One call** is fine exactly where its message is harmless. -/
theorem fine_handleChunk (hw : m.Wired) (hm : m.Sound) (msg : Message) :
    Fine (m.handleChunk E key msg) ↔ Harmless E key m msg := by
  rw [MediaAssembler.handleChunk, Harmless]
  cases hmeta : metaOf E msg.payload with
  | none =>
      rw [accept, hmeta]
      exact iff_of_true (fine_returned hm _) trivial
  | some value =>
      cases value with
      | none =>
          rw [accept, hmeta]
          exact iff_of_false (not_fine_thrown _) not_false
      | some value =>
          dsimp only
          cases hnull : value.isNull with
          | true =>
              have hvalue : value = .null := by
                cases value with
                | null => rfl
                | _ => cases hnull
              rw [accept, hmeta, hvalue]
              exact iff_of_false (not_fine_thrown _) fun hharmless => nomatch hharmless.1
          | false =>
              rw [and_iff_right rfl, accept_of_not_null hmeta hnull]
              cases hfields : fieldsOf msg.transferRef value with
              | none => exact iff_of_true (fine_returned hm _) nofun
              | some c =>
                  refine (fine_checkBounds hw hm c).trans ⟨fun hchunk c' hc' => ?_,
                    fun hall => hall c rfl⟩
                  obtain rfl : c = c' := Option.some.inj hc'
                  exact hchunk

/-- A call leaves the timers wired, whatever it gets. -/
theorem wired_fillSlot (hw : m.Wired) (hkey : c.key ∈ m.transfers) (t : Transfer) :
    (m.fillSlot E key c t).1.Wired := by
  have hstore : ∀ t', (m.store c t').1.Wired := by
    intro t'
    have hheld := hw.hold hkey t'
    have hreport : ((m.hold c.key t').report c t').Wired :=
      ⟨hheld.held, hheld.running, hheld.nodup, hheld.fresh⟩
    rw [MediaAssembler.store]
    split
    · rw [MediaAssembler.reassemble]
      split
      · exact hreport.forget c.key
      · split
        · exact hreport
        · split
          · exact hreport.forget c.key
          · exact hreport.forget c.key
    · exact hreport
  rw [MediaAssembler.fillSlot]
  split
  · exact hw
  · split
    · exact hw
    · split
      · exact hw
      · exact hstore _

theorem wired_handleChunk (hw : m.Wired) (msg : Message) : (m.handleChunk E key msg).1.Wired := by
  rw [MediaAssembler.handleChunk]
  cases accept E msg with
  | thrown => exact hw
  | ignored => exact hw
  | chunk c =>
      rw [MediaAssembler.decryptChunk]
      split
      · exact hw
      · split
        · exact hw
        · next t _ =>
          refine wired_fillSlot (hw.resetTimer c.key t) ?_ t
          exact Finmap.mem_of_lookup_eq_some (m.lookup_resetTimer c.key t)

end

/-! ### Runs -/

/-- The assembler, and whether its last call has thrown. -/
structure Intake where
  assembler : MediaAssembler
  threw : Bool

/-- A message with the key of the call, or a stale timeout. -/
inductive IntakeEvent (E : Engine)
  | message (key : E.Key) (msg : Message)
  | stale (timer : TimeoutId) (transfer : MapKey)

namespace Intake

def start : Intake := ⟨.new, false⟩

variable (E : Engine)

def step (s : Intake) : IntakeEvent E → Option Intake
  | .message key msg =>
    let res := s.assembler.handleChunk E key msg
    some ⟨res.1, res.2.isThrown⟩
  | .stale timer transfer =>
    if (timer, transfer) ∈ s.assembler.running then
      some ⟨s.assembler.stale timer transfer, false⟩
    else none

/-- No call throws, and everything is sound. -/
def Tolerates (s : Intake) : Prop := s.threw = false ∧ s.assembler.Sound

/-- What arrives is harmless. A timeout always is. -/
def HarmlessEvent (s : Intake) : IntakeEvent E → Prop
  | .message key msg => Harmless E key s.assembler msg
  | .stale _ _ => True

variable {E} {s s' : Intake} {e : IntakeEvent E}

theorem wired_step (hw : s.assembler.Wired) (hstep : s.step E e = some s') :
    s'.assembler.Wired := by
  cases e with
  | message key msg =>
      obtain rfl := (Option.some.inj hstep).symm
      exact wired_handleChunk hw msg
  | stale timer transfer =>
      rw [step] at hstep
      split at hstep
      · next hmem =>
        obtain rfl := (Option.some.inj hstep).symm
        show (s.assembler.stale timer transfer).Wired
        rw [hw.stale_eq hmem]
        exact hw.forget transfer
      · cases hstep

theorem tolerates_step (hw : s.assembler.Wired) (hs : s.assembler.Sound)
    (hstep : s.step E e = some s') : s'.Tolerates ↔ HarmlessEvent E s e := by
  cases e with
  | message key msg =>
      obtain rfl := (Option.some.inj hstep).symm
      exact fine_handleChunk hw hs msg
  | stale timer transfer =>
      rw [step] at hstep
      split at hstep
      · next hmem =>
        obtain rfl := (Option.some.inj hstep).symm
        refine iff_of_true ⟨rfl, ?_⟩ trivial
        show (s.assembler.stale timer transfer).Sound
        rw [hw.stale_eq hmem]
        have hapart : s.assembler.Apart transfer := ⟨hw, hs.size, fun other t _ => hs.held other t⟩
        exact hapart.forget
      · cases hstep

theorem sound_new : MediaAssembler.new.Sound := by
  refine ⟨Nat.zero_le _, fun transfer t hlookup => ?_, fun transfer hmem => ?_⟩
  · rw [MediaAssembler.new, Finmap.lookup_empty] at hlookup
    cases hlookup
  · exact absurd hmem Finmap.notMem_empty

/-- **The assembler tolerates its input** exactly where that is harmless, in every run. -/
theorem tolerates_iff_harmless (E : Engine) (events : List (IntakeEvent E)) :
    Along (step E) (fun _ _ s' => s'.Tolerates) start events ↔
      Along (step E) (fun s e _ => HarmlessEvent E s e) start events := by
  refine along_congr (I := fun s => s.assembler.Wired ∧ s.assembler.Sound) ?_ ?_ ?_
  · exact fun s e s' hs he hstep =>
      ⟨wired_step hs.1 hstep, ((tolerates_step hs.1 hs.2 hstep).mpr he).2⟩
  · exact fun s e s' hs hstep => tolerates_step hs.1 hs.2 hstep
  · exact ⟨MediaAssembler.wired_new, sound_new⟩

/-- What reads the text `null`, and nothing else. -/
def nullEngine : Engine where
  Key := Unit
  numerals := ⟨fun _ => [], fun _ => .nan⟩
  parse := fun s => if s = text "null" then some .null else none
  decrypt := fun _ _ => none
  base64ToUint8 := fun _ => none
  inherited := fun _ => false

/-- A payload that is the text `null`. -/
theorem threw_null :
    ¬∀ (E : Engine) (events : List (IntakeEvent E)),
      Along (step E) (fun _ _ s' => s'.Tolerates) start events := by
  intro hall
  have hrun := hall nullEngine [.message () ⟨some (.str (text "null")), 0⟩]
  obtain ⟨⟨hreturns, -⟩, -⟩ := hrun _ rfl
  exact absurd hreturns (by decide)

end Intake

end TrapChat.Client.MediaInput
