import TrapChat.Client.MediaTransfer
import TrapChat.Client.RoomPage
import TrapChat.Library.Transition

/-!
Incoming media and the rooms. A chat message is decrypted with the key of the room
that it names, and appended to that room. A media message is decrypted with
`activeKeyRef`, whatever room it names, and appended to the room that was active
when the handlers were made. As handlers are made with the first join, when no room
is active yet, that is a room that does not exist.
-/

namespace TrapChat.Client

open Storage Transition

namespace RoomPage

/-- A call of `handleMediaChunk`: the key it hands to the assembler and the room that its
`appendMessage` closes over. -/
structure MediaCall (Key : Type) where
  key : Option Key
  room : RoomName

section
variable {Key : Type}

/-- The start of `handleMediaChunk`, for a message of any room. -/
def handleMediaChunk (s : RoomPage Key) : Option (MediaCall Key) :=
  s.installed.map fun room => ⟨s.activeKeyRef, room⟩

end

/-- `handleChunk` with a key that may be null, which decrypts nothing. -/
def handleChunk (W : AesGcm) (key : Option W.Key) (payload : PayloadData) (m : MediaAssembler) :
    MediaAssembler × Outcome :=
  match key with
  | some key => m.handleChunk W key payload
  | none =>
      match accept payload with
      | none => (m, .returned .ignored)
      | some c => (m, .returned (.error c.transferId keyMismatch))

/-- The message that a result makes. -/
def mediaMessage : Outcome → Option RoomMessage
  | .returned (.error _ message) => some { text := message, error := true }
  | .returned (.complete _ mimeType fileName fileSize url _) =>
      some { media := some ⟨url, mimeType, fileName, fileSize⟩ }
  | .returned .ignored | .returned (.progress _ _ _) | .thrown => none

/-- The rest of `handleMediaChunk`. -/
def MediaCall.finish {Key : Type} (call : MediaCall Key) (o : Outcome) (s : RoomPage Key) :
    RoomPage Key :=
  match mediaMessage o with
  | none => s
  | some msg => s.appendMessageToRoom call.room msg

/-- The rooms after a message that is appended to `room`, if there is one. -/
def appended {Key : Type} (room : RoomName) (msg : Option RoomMessage) (s : RoomPage Key) :
    Finmap fun _ : RoomName => RoomState :=
  match msg with
  | none => s.rooms
  | some msg => (s.appendMessageToRoom room msg).rooms

section
variable (W : AesGcm)

/-- **Isolation of incoming media.** A media message of the room is decrypted with the
room's key, and what comes of it is appended to the room and to no other, whatever
rooms there are and whichever is active when the call ends. -/
def MediaIsolated (s : RoomPage W.Key) (room : RoomName) : Prop :=
  ∃ call, s.handleMediaChunk = some call ∧ call.key = s.keyRefs room ∧
    ∀ (payload : PayloadData) (m : MediaAssembler) (s' : RoomPage W.Key), room ∈ s'.rooms →
      let o := (handleChunk W call.key payload m).2
      (call.finish o s').rooms = appended room (mediaMessage o) s'

end

/-! ### What a message is appended to -/

section
variable {Key : Type} {s : RoomPage Key} {room : RoomName}

theorem lookup_appendMessageToRoom (msg : RoomMessage) (room' : RoomName) :
    (s.appendMessageToRoom room msg).rooms.lookup room' =
      (s.rooms.lookup room').map fun current =>
        if room' = room then appendMessage current msg (room = s.activeRoomRef) else current := by
  rw [appendMessageToRoom]
  split
  · next hnone =>
    by_cases h : room' = room
    · rw [h, hnone]
      rfl
    · simp only [if_neg h]
      exact Option.map_id'.symm
  · next current hcurrent =>
    by_cases h : room' = room
    · rw [h, hcurrent, Option.map_some, if_pos rfl]
      exact Finmap.lookup_insert _
    · simp only [if_neg h]
      rw [Finmap.lookup_insert_of_ne _ h]
      exact Option.map_id'.symm

/-- The other rooms are left alone. -/
theorem lookup_append_ne (msg : RoomMessage) {room' : RoomName} (h : room' ≠ room) :
    (s.appendMessageToRoom room msg).rooms.lookup room' = s.rooms.lookup room' := by
  rw [lookup_appendMessageToRoom]
  simp only [if_neg h]
  exact Option.map_id'

/-- A page with one room, which has no messages. -/
def oneRoom (room : RoomName) : RoomPage Key :=
  { new with rooms := Finmap.singleton room defaultRoomState }

theorem mem_oneRoom : room ∈ (oneRoom room : RoomPage Key).rooms :=
  (Finmap.mem_singleton room room defaultRoomState).mpr rfl

/-- A message for another room is seen to be missing. -/
theorem room_of_appended {room' : RoomName} {msg : RoomMessage}
    (h : ((oneRoom room : RoomPage Key).appendMessageToRoom room' msg).rooms =
      ((oneRoom room : RoomPage Key).appendMessageToRoom room msg).rooms) : room' = room := by
  by_contra hne
  have hlookup := congrArg (Finmap.lookup room) h
  have hroom : (oneRoom room : RoomPage Key).rooms.lookup room = some defaultRoomState :=
    Finmap.lookup_singleton_eq
  rw [lookup_append_ne msg (Ne.symm hne), lookup_appendMessageToRoom, hroom, Option.map_some,
    if_pos rfl] at hlookup
  have hmessages := congrArg RoomState.messages (Option.some.inj hlookup)
  simp [defaultRoomState, appendMessage, MAX_MESSAGES] at hmessages

end

section
variable {W : AesGcm} (hW : W.Lawful) {s : RoomPage W.Key} {room : RoomName}

include hW

/-- Under any key there is a call that makes a message. -/
theorem exists_mediaMessage (key : Option W.Key) : ∃ payload,
    (mediaMessage (handleChunk W key payload .new).2).isSome := by
  cases key with
  | none => exact ⟨.object ⟨some "t", some 0, some 1, some "c"⟩, rfl⟩
  | some key =>
      have hsize : MediaAssembler.smallFile.size ≤ MAX_FILE_SIZE := by decide
      have htotal : MediaAssembler.smallFile.total = 1 := by decide
      have hnew : MediaAssembler.Gathers MediaAssembler.smallFile "t" .new ∅ :=
        MediaAssembler.gathers_new
      have hpos : 0 < MediaAssembler.smallFile.total := htotal ▸ Nat.one_pos
      obtain ⟨-, url, hresult⟩ := MediaAssembler.handleChunk_chunk (W := W) hW key "" (fun seq => seq)
        hnew (by decide) hsize hpos (Finset.notMem_empty 0) (Finset.empty_subset _)
        fun _ => by decide
      have hfull : insert 0 (∅ : Finset ℕ) = Finset.range MediaAssembler.smallFile.total := by
        rw [htotal]
        rfl
      refine ⟨MediaAssembler.chunkPayload W key "" MediaAssembler.smallFile "t" (fun seq => seq) 0,
        ?_⟩
      simp only [handleChunk]
      rw [hresult, hfull, MediaAssembler.expected, if_pos rfl]
      rfl

/-- The handlers close over the room. -/
theorem MediaIsolated.installed (h : MediaIsolated W s room) : s.installed = some room := by
  obtain ⟨call, hcall, -, hfinish⟩ := h
  obtain ⟨closed, hinstalled, rfl⟩ := Option.map_eq_some_iff.mp hcall
  obtain ⟨payload, hsome⟩ := exists_mediaMessage hW s.activeKeyRef
  obtain ⟨msg, hmsg⟩ := Option.isSome_iff_exists.mp hsome
  have happended := hfinish payload .new (oneRoom room) mem_oneRoom
  simp only [MediaCall.finish, appended, hmsg] at happended
  rw [hinstalled, room_of_appended happended]

/-- **Isolation of incoming media, exactly.** -/
theorem mediaIsolated_iff : MediaIsolated W s room ↔
    s.installed = some room ∧ s.activeKeyRef = s.keyRefs room := by
  constructor
  · intro h
    refine ⟨h.installed hW, ?_⟩
    obtain ⟨call, hcall, hkey, -⟩ := h
    obtain ⟨closed, -, rfl⟩ := Option.map_eq_some_iff.mp hcall
    exact hkey
  · rintro ⟨hinstalled, hkey⟩
    refine ⟨⟨s.activeKeyRef, room⟩, ?_, hkey, fun payload m s' _ => ?_⟩
    · rw [handleMediaChunk, hinstalled]
      rfl
    · dsimp only
      simp only [MediaCall.finish, appended]
      split <;> rfl

end

/-- A page whose handlers were made while the room was active, which it still is. -/
def madeInRoom : RoomPage MediaAssembler.keyedText.Key :=
  { oneRoom "a" with
    keyRefs := fun room => if room = "a" then some 'k' else none
    activeKeyRef := some 'k'
    installed := some "a" }

theorem mediaIsolated_madeInRoom : MediaIsolated MediaAssembler.keyedText madeInRoom "a" :=
  (mediaIsolated_iff MediaAssembler.keyedText_lawful).mpr ⟨rfl, rfl⟩

/-- A page on which one room is joined. -/
def joinOne : List (RoomAction Char) :=
  [.submit "a", .keyed 0 (some 'k'), .connected 0, .render]

theorem media_lost : ∃ s, exec step (new : RoomPage Char) joinOne = some s ∧ "a" ∈ s.rooms ∧
    s.activeRoom = "a" ∧ s.keyRefs "a" = some 'k' ∧ s.activeKeyRef = some 'k' ∧
    ¬MediaIsolated MediaAssembler.keyedText s "a" := by
  have hruns : (exec step (new : RoomPage Char) joinOne).isSome = true := by decide +kernel
  have hend : ∀ s ∈ exec step (new : RoomPage Char) joinOne, "a" ∈ s.rooms ∧ s.activeRoom = "a" ∧
      s.keyRefs "a" = some 'k' ∧ s.activeKeyRef = some 'k' ∧ s.installed = some "" := by
    decide +kernel
  obtain ⟨s, hs⟩ := Option.isSome_iff_exists.mp hruns
  obtain ⟨hroom, hactive, hkey, hactiveKey, hinstalled⟩ := hend s hs
  refine ⟨s, hs, hroom, hactive, hkey, hactiveKey, fun h => ?_⟩
  have hclosed := h.installed MediaAssembler.keyedText_lawful
  rw [hinstalled] at hclosed
  exact absurd (Option.some.inj hclosed) (by decide)

/-! ### The handlers of every run -/

section
variable {Key : Type} {s s' : RoomPage Key} {room : RoomName}

/-- The handlers close over no room, and until they are installed there is none. -/
structure Closed (s : RoomPage Key) : Prop where
  joining : ∀ room first, RoomTask.keying room first ∈ s.tasks ∨
    RoomTask.connecting room first ∈ s.tasks → room ≠ "" ∧ (s.installed = none → first = true)
  unnamed : "" ∉ s.rooms
  listed : ∀ room ∈ s.renderedRooms, room ∈ s.rooms
  installed : ∀ room, s.installed = some room → room = ""
  uninstalled : s.installed = none → s.activeRoom = "" ∧ s.activeRoomRef = "" ∧
    ∀ room, room ∉ s.rooms

theorem closed_new : (new : RoomPage Key).Closed where
  joining _ _ h := h.elim (absurd · List.not_mem_nil) (absurd · List.not_mem_nil)
  unnamed := Finmap.notMem_empty
  listed _ h := absurd h (Finset.notMem_empty _)
  installed _ h := absurd h (Option.some_ne_none _).symm
  uninstalled _ := ⟨rfl, rfl, fun _ => Finmap.notMem_empty⟩

/-- The step neither joins a room, nor renders, nor changes the active room. -/
structure Stays (s s' : RoomPage Key) : Prop where
  joining : ∀ room first, RoomTask.keying room first ∈ s'.tasks ∨
      RoomTask.connecting room first ∈ s'.tasks →
    RoomTask.keying room first ∈ s.tasks ∨ RoomTask.connecting room first ∈ s.tasks
  rooms : ∀ room, room ∈ s'.rooms ↔ room ∈ s.rooms
  renderedRooms : s'.renderedRooms = s.renderedRooms
  activeRoom : s'.activeRoom = s.activeRoom
  activeRoomRef : s'.activeRoomRef = s.activeRoomRef
  installed : s'.installed = s.installed

theorem Stays.refl (s : RoomPage Key) : Stays s s :=
  ⟨fun _ _ h => h, fun _ => .rfl, rfl, rfl, rfl, rfl⟩

theorem Stays.trans {s'' : RoomPage Key} (h : Stays s s') (h' : Stays s' s'') : Stays s s'' :=
  ⟨fun room first hj => h.joining room first (h'.joining room first hj),
    fun room => (h'.rooms room).trans (h.rooms room), h'.renderedRooms.trans h.renderedRooms,
    h'.activeRoom.trans h.activeRoom, h'.activeRoomRef.trans h.activeRoomRef,
    h'.installed.trans h.installed⟩

theorem Closed.stays (hs : s.Closed) (h : Stays s s') : s'.Closed where
  joining room first hj := by
    rw [h.installed]
    exact hs.joining room first (h.joining room first hj)
  unnamed := mt (h.rooms "").mp hs.unnamed
  listed room hmem := (h.rooms room).mpr (hs.listed room (h.renderedRooms ▸ hmem))
  installed room hi := hs.installed room (h.installed ▸ hi)
  uninstalled hnone := by
    obtain ⟨hactive, hrendered, hrooms⟩ := hs.uninstalled (h.installed ▸ hnone)
    exact ⟨h.activeRoom.trans hactive, h.activeRoomRef.trans hrendered, fun room =>
      mt (h.rooms room).mp (hrooms room)⟩

theorem stays_append (room : RoomName) (msg : RoomMessage) :
    Stays s (s.appendMessageToRoom room msg) := by
  have hrooms : ∀ room', room' ∈ (s.appendMessageToRoom room msg).rooms ↔ room' ∈ s.rooms := by
    intro room'
    rw [Finmap.mem_iff, Finmap.mem_iff]
    simp only [lookup_appendMessageToRoom, Option.map_eq_some_iff]
    constructor
    · rintro ⟨_, current, hcurrent, -⟩
      exact ⟨current, hcurrent⟩
    · rintro ⟨current, hcurrent⟩
      exact ⟨_, current, hcurrent, rfl⟩
  have hsame : ∀ f : RoomPage Key → Prop, f s → (∀ rooms, f { s with rooms := rooms, dirty := true }) →
      f (s.appendMessageToRoom room msg) := by
    intro f hf hset
    rw [appendMessageToRoom]
    split
    · exact hf
    · exact hset _
  refine ⟨fun room' first => ?_, hrooms, ?_, ?_, ?_, ?_⟩
  · exact hsame (fun t => RoomTask.keying room' first ∈ t.tasks ∨
      RoomTask.connecting room' first ∈ t.tasks → _) (fun h => h) fun _ h => h
  · exact hsame (fun t => t.renderedRooms = s.renderedRooms) rfl fun _ => rfl
  · exact hsame (fun t => t.activeRoom = s.activeRoom) rfl fun _ => rfl
  · exact hsame (fun t => t.activeRoomRef = s.activeRoomRef) rfl fun _ => rfl
  · exact hsame (fun t => t.installed = s.installed) rfl fun _ => rfl

theorem stays_appendClosed (msg : RoomMessage) : Stays s (s.appendClosed msg) := by
  rw [appendClosed]
  split
  · exact .refl s
  · exact stays_append _ msg

/-- A handler that is not a join is suspended. -/
theorem stays_addTask {task : RoomTask Key}
    (h : ∀ room first, task ≠ .keying room first ∧ task ≠ .connecting room first) :
    Stays s (s.addTask task) := by
  refine ⟨fun room first hj => ?_, fun _ => .rfl, rfl, rfl, rfl, rfl⟩
  rw [addTask] at hj
  simp only [List.mem_append, List.mem_singleton] at hj
  rcases hj with (hj | hj) | (hj | hj)
  · exact .inl hj
  · exact absurd hj.symm (h room first).1
  · exact .inr hj
  · exact absurd hj.symm (h room first).2

theorem stays_dropTask (n : ℕ) : Stays s (s.dropTask n) :=
  ⟨fun _ _ hj => hj.imp List.mem_of_mem_eraseIdx List.mem_of_mem_eraseIdx, fun _ => .rfl, rfl, rfl,
    rfl, rfl⟩

/-- What is neither a room nor a join. -/
theorem stays_of_same (htasks : s'.tasks = s.tasks) (hrooms : s'.rooms = s.rooms)
    (hrendered : s'.renderedRooms = s.renderedRooms) (hactive : s'.activeRoom = s.activeRoom)
    (href : s'.activeRoomRef = s.activeRoomRef) (hinstalled : s'.installed = s.installed) :
    Stays s s' :=
  ⟨fun _ _ h => htasks ▸ h, fun _ => hrooms ▸ .rfl, hrendered, hactive, href, hinstalled⟩

theorem stays_broadcast (oldKey : Option Key) (newKey : Key) :
    Stays s (s.broadcast oldKey newKey) := by
  unfold broadcast
  apply Stays.trans _ (stays_appendClosed _)
  split
  · exact stays_of_same rfl rfl rfl rfl rfl rfl
  · exact .refl s

theorem stays_keyRotation (payload : Sealed Key) : Stays s (s.keyRotation room payload) := by
  rw [keyRotation]
  split
  · split
    · exact stays_addTask (by simp)
    · exact stays_addTask (by simp)
  · split
    · exact stays_addTask (by simp)
    · exact .refl s

theorem stays_accepted (newKey : Key) : Stays s (s.accepted room newKey) := by
  unfold accepted
  apply Stays.trans _ (stays_appendClosed _)
  exact stays_of_same rfl rfl rfl rfl rfl rfl

theorem stays_replaced (newKey : Key) : Stays s (s.replaced room newKey) := by
  unfold replaced
  apply Stays.trans _ (stays_append _ _)
  exact stays_of_same rfl rfl rfl rfl rfl rfl

theorem Closed.addJoin (hs : s.Closed) {task : RoomTask Key} {first : Bool} (hname : room ≠ "")
    (hfirst : s.installed = none → first = true)
    (htask : task = .keying room first ∨ task = .connecting room first) :
    (s.addTask task).Closed := by
  refine ⟨fun room' first' hj => ?_, hs.unnamed, hs.listed, hs.installed, hs.uninstalled⟩
  have hmem : (RoomTask.keying room' first' ∈ s.tasks ∨ RoomTask.connecting room' first' ∈ s.tasks) ∨
      room' = room ∧ first' = first := by
    rw [addTask] at hj
    simp only [List.mem_append, List.mem_singleton] at hj
    rcases htask with rfl | rfl <;> grind
  rcases hmem with hold | ⟨rfl, rfl⟩
  · exact hs.joining room' first' hold
  · exact ⟨hname, hfirst⟩

theorem Closed.installed_of_mem (hs : s.Closed) (hroom : room ∈ s.rooms) : s.installed ≠ none :=
  fun hnone => (hs.uninstalled hnone).2.2 room hroom

theorem Closed.submit (hs : s.Closed) : (s.submit room).Closed := by
  rw [RoomPage.submit]
  split
  · exact hs
  · next hok =>
    rw [refusesJoin, not_or] at hok
    refine hs.addJoin hok.1 (fun hnone => ?_) (.inl rfl)
    have hlisted : s.renderedRooms = ∅ := Finset.eq_empty_of_forall_notMem fun room' hmem =>
      (hs.uninstalled hnone).2.2 room' (hs.listed room' hmem)
    exact decide_eq_true hlisted

theorem Closed.switchRoom (hs : s.Closed) (hroom : room ∈ s.renderedRooms) :
    (s.switchRoom room).Closed := by
  have hmem : room ∈ s.rooms := hs.listed room hroom
  have hsame : ∀ value room', room' ∈ s.rooms.insert room value ↔ room' ∈ s.rooms :=
    fun value room' => Finmap.mem_insert.trans
      ⟨fun h' => h'.elim (fun e => e ▸ hmem) fun h' => h', .inr⟩
  exact ⟨hs.joining, mt (hsame _ _).mp hs.unnamed,
    fun room' h => (hsame _ room').mpr (hs.listed room' h), hs.installed,
    fun hnone => absurd hnone (hs.installed_of_mem hmem)⟩

theorem Closed.render (hs : s.Closed) : s.render.Closed where
  joining := hs.joining
  unnamed := hs.unnamed
  listed _ hmem := Finmap.mem_keys.mp hmem
  installed := hs.installed
  uninstalled hnone := ⟨(hs.uninstalled hnone).1, (hs.uninstalled hnone).1,
    (hs.uninstalled hnone).2.2⟩

/-- **The end of a join.** The first one finds no room rendered. -/
theorem Closed.joined (hs : s.Closed) {first : Bool} (hname : room ≠ "")
    (hfirst : s.installed = none → first = true) : (s.joined room first).Closed := by
  have hmem : ∀ value room', room' ∈ s.rooms.insert room value ↔ room' = room ∨ room' ∈ s.rooms :=
    fun value room' => Finmap.mem_insert
  have hunnamed : ∀ value, "" ∉ s.rooms.insert room value := fun value h =>
    ((hmem value "").mp h).elim hname.symm hs.unnamed
  rw [RoomPage.joined]
  by_cases hnone : s.installed = none
  · simp only [updateRoomState, setupGlobalHandlers, RoomPage.setActiveRoom, hfirst hnone, hnone,
      and_self, if_true, (hs.uninstalled hnone).2.1]
    exact ⟨fun room' first' hj => ⟨(hs.joining room' first' hj).1, by simp⟩, hunnamed _,
      fun room' h => (hmem _ room').mpr (.inr (hs.listed room' h)),
      fun room' h => (Option.some.inj h).symm, by simp⟩
  · have hno : ¬(first = true ∧ (s.updateRoomState room id).installed = none) :=
      fun h' => hnone h'.2
    rw [if_neg hno]
    exact ⟨hs.joining, hunnamed _, fun room' h => (hmem _ room').mpr (.inr (hs.listed room' h)),
      hs.installed, fun h => absurd h hnone⟩

variable [DecidableEq Key]

theorem stays_decrypted {task : RoomTask Key} (h : s.decrypted task = some s') : Stays s s' := by
  unfold decrypted at h
  split at h
  · split at h
    · exact Option.some.inj h ▸ stays_addTask (by simp)
    · exact Option.some.inj h ▸ stays_addTask (by simp)
    · exact Option.some.inj h ▸ stays_appendClosed _
  · split at h
    · exact Option.some.inj h ▸ stays_addTask (by simp)
    · exact Option.some.inj h ▸ stays_append _ _
  · cases h

/-- A suspended handler goes on. -/
theorem Closed.resume (hs : s.Closed) {a : RoomAction Key} {task : RoomTask Key}
    (hjoin : ∀ room first, task = .keying room first ∨ task = .connecting room first →
      room ≠ "" ∧ (s.installed = none → first = true)) (h : s.resume a task = some s') :
    s'.Closed := by
  unfold RoomPage.resume at h
  split at h
  · next key room first =>
    obtain ⟨hname, hfirst⟩ := hjoin room first (.inl rfl)
    cases key with
    | none =>
        rw [RoomPage.keyed] at h
        split at h
        · exact Option.some.inj h ▸ hs.addJoin hname hfirst (.inr rfl)
        · cases h
    | some key =>
        have hset : Stays s (s.setKey room key) := stays_of_same rfl rfl rfl rfl rfl rfl
        exact Option.some.inj h ▸ (hs.stays hset).addJoin hname hfirst (.inr rfl)
  · next room first =>
    obtain ⟨hname, hfirst⟩ := hjoin room first (.inr rfl)
    exact Option.some.inj h ▸ hs.joined hname hfirst
  · exact Option.some.inj h ▸ hs
  · exact Option.some.inj h ▸ hs
  · next key oldKey =>
    have hset : Stays s (s.withRotator fun r => { r with currentKey := some key }) :=
      stays_of_same rfl rfl rfl rfl rfl rfl
    exact Option.some.inj h ▸ hs.stays (hset.trans (stays_addTask (by simp)))
  · have hset : Stays s s.onRotate := stays_of_same rfl rfl rfl rfl rfl rfl
    exact Option.some.inj h ▸ hs.stays (hset.trans (stays_addTask (by simp)))
  · exact Option.some.inj h ▸ hs.stays (stays_broadcast _ _)
  · exact hs.stays (stays_decrypted h)
  · exact Option.some.inj h ▸ hs.stays (stays_accepted _)
  · exact Option.some.inj h ▸ hs.stays (stays_replaced _)
  · cases h

theorem Closed.resumeAt (hs : s.Closed) {a : RoomAction Key} {n : ℕ}
    (h : s.resumeAt a n = some s') : s'.Closed := by
  obtain ⟨task, htask, h⟩ := Option.bind_eq_some_iff.mp h
  have hmem := List.mem_of_getElem? htask
  refine (hs.stays (stays_dropTask n)).resume (fun room first hj => ?_) h
  apply hs.joining room first
  rcases hj with rfl | rfl
  · exact .inl hmem
  · exact .inr hmem

theorem Closed.step (hs : s.Closed) {a : RoomAction Key} (h : s.step a = some s') : s'.Closed := by
  cases a with
  | submit room => exact Option.some.inj h ▸ hs.submit
  | switchRoom room =>
      rw [RoomPage.step] at h
      split at h
      · next hroom => exact Option.some.inj h ▸ hs.switchRoom hroom
      · cases h
  | rederived room key =>
      rw [RoomPage.step] at h
      split at h
      · cases h
      · exact Option.some.inj h ▸ hs.stays (stays_of_same rfl rfl rfl rfl rfl rfl)
  | rotationTimer =>
      rw [RoomPage.step] at h
      split at h
      · next r _ =>
        split at h
        · have hset : Stays s { s with rotator := some { r with previousKey := r.currentKey } } :=
            stays_of_same rfl rfl rfl rfl rfl rfl
          exact Option.some.inj h ▸ hs.stays (hset.trans (stays_addTask (by simp)))
        · cases h
      · cases h
  | graceExpired =>
      rw [RoomPage.step] at h
      split at h
      · split at h
        · exact Option.some.inj h ▸ hs.stays (stays_of_same rfl rfl rfl rfl rfl rfl)
        · cases h
      · cases h
  | keyRotation room payload =>
      rw [RoomPage.step] at h
      split at h
      · cases h
      · exact Option.some.inj h ▸ hs.stays (stays_keyRotation payload)
  | append room msg => exact Option.some.inj h ▸ hs.stays (stays_append room msg)
  | render =>
      rw [RoomPage.step] at h
      split at h
      · exact Option.some.inj h ▸ hs.render
      · cases h
  | _ => exact hs.resumeAt h

end

/-- **No run of the page isolates a joined room's media.** -/
theorem not_isolated_of_reachable {W : AesGcm} [DecidableEq W.Key] (hW : W.Lawful)
    {s : RoomPage W.Key} (hs : Reachable step new s) {room : RoomName} (hroom : room ∈ s.rooms) :
    ¬MediaIsolated W s room := by
  have hclosed : s.Closed := hs.invariant closed_new fun _ _ _ h _ hstep => h.step hstep
  intro h
  exact hclosed.unnamed (hclosed.installed room (h.installed hW) ▸ hroom)

end RoomPage

end TrapChat.Client
