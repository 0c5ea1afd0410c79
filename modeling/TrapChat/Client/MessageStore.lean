import TrapChat.Client.RoomPage
import TrapChat.Library.InsertionOrder
import TrapChat.Library.Placement
import TrapChat.Library.Transition

/-!
What the page keeps of its rooms: `appendMessageToRoom`, `updateRoomState`, `switchRoom` and
`removeRoom` of `useRoomManager`, and the receipts that `App` collects. A room holds the last
500 messages. The object URL of a message's media is revoked when the message goes, by eviction
or with its room; one that is appended to a room that the page does not have is never revoked.
-/

namespace TrapChat.Client

open Storage Transition

/-- An object URL. -/
abbrev Blob := ℕ

/-- A message. A URL of its media that is no object URL is left out. -/
structure ChatMessage where
  id : String
  blob : Option Blob
  deriving DecidableEq

structure RoomLog where
  messages : List ChatMessage
  unreadCount : ℕ
  messageReceipts : String → Option String

def defaultRoomLog : RoomLog := ⟨[], 0, fun _ => none⟩

def blobs (messages : List ChatMessage) : List Blob := messages.filterMap ChatMessage.blob

structure MessageStore where
  rooms : RoomName → Option RoomLog
  activeRoom : RoomName
  activeRoomRef : RoomName
  revoked : Blob → Bool
  /-- The URLs that have been made, and those whose message no room took. -/
  made : Blob → Bool
  orphaned : Blob → Bool
  /-- The messages and the receipts that a room has got since it is there. -/
  log : RoomName → List ChatMessage
  receipts : RoomName → List (String × String)

inductive StoreAction
  /-- A message, with a new URL if it has one. -/
  | append (room : RoomName) (msg : ChatMessage)
  /-- An update of the other fields of a room. -/
  | updateRoomState (room : RoomName)
  | switchRoom (room : RoomName)
  | setActiveRoom (room : RoomName)
  | render
  | receipt (room : RoomName) (messageId status : String)
  | removeRoom (room : RoomName)

namespace MessageStore

def new : MessageStore where
  rooms := fun _ => none
  activeRoom := ""
  activeRoomRef := ""
  revoked := fun _ => false
  made := fun _ => false
  orphaned := fun _ => false
  log := fun _ => []
  receipts := fun _ => []

/-- A set of URLs with those of a list. -/
def including (set : Blob → Bool) (urls : List Blob) : Blob → Bool :=
  fun u => set u || decide (u ∈ urls)

def put (room : RoomName) (log : RoomLog) (s : MessageStore) : MessageStore :=
  { s with rooms := Function.update s.rooms room (some log) }

/-- `next.get(roomName) || defaultRoomState()`, where the room begins if it is not there. -/
def ensure (room : RoomName) (s : MessageStore) : MessageStore :=
  match s.rooms room with
  | some _ => s
  | none =>
    { s.put room defaultRoomLog with
      log := Function.update s.log room []
      receipts := Function.update s.receipts room [] }

def appendMessageToRoom (room : RoomName) (msg : ChatMessage) (s : MessageStore) : MessageStore :=
  let s := { s with made := including s.made msg.blob.toList }
  match s.rooms room with
  | none => { s with orphaned := including s.orphaned msg.blob.toList }
  | some current =>
    let messages := current.messages ++ [msg]
    let evicted := messages.take (messages.length - MAX_MESSAGES)
    { s.put room { current with
        messages := messages.drop (messages.length - MAX_MESSAGES)
        unreadCount :=
          if room = s.activeRoomRef then current.unreadCount else current.unreadCount + 1 } with
      revoked := including s.revoked (blobs evicted)
      log := Function.update s.log room (s.log room ++ [msg]) }

/-- `switchRoom`, which looks at the room. -/
def switchRoom (room : RoomName) (s : MessageStore) : MessageStore :=
  let s := { s with activeRoom := room }.ensure room
  match s.rooms room with
  | some current => s.put room { current with unreadCount := 0 }
  | none => s

/-- The handler of a receipt. Who has read a message has got it. -/
def handleReceipt (room : RoomName) (messageId status : String) (s : MessageStore) :
    MessageStore :=
  if messageId = "" ∨ status = "" ∨ room = "" then s
  else
    match s.rooms room with
    | none => s
    | some current =>
      let s := { s with
        receipts := Function.update s.receipts room (s.receipts room ++ [(messageId, status)]) }
      if current.messageReceipts messageId = some "read" then s
      else s.put room { current with
        messageReceipts := Function.update current.messageReceipts messageId (some status) }

def removeRoom (room : RoomName) (s : MessageStore) : MessageStore :=
  { s with
    revoked := including s.revoked (blobs (((s.rooms room).map RoomLog.messages).getD []))
    rooms := Function.update s.rooms room none }

def step (s : MessageStore) : StoreAction → Option MessageStore
  | .append room msg =>
    if ∀ u ∈ msg.blob, s.made u = false then some (s.appendMessageToRoom room msg) else none
  | .updateRoomState room => some (s.ensure room)
  | .switchRoom room => some (s.switchRoom room)
  | .setActiveRoom room => some { s with activeRoom := room }
  | .render => some { s with activeRoomRef := s.activeRoom }
  | .receipt room messageId status => some (s.handleReceipt room messageId status)
  | .removeRoom room => some (s.removeRoom room)

/-! ### Object URLs -/

/-- The URLs that a room shows. -/
def shown (s : MessageStore) (room : RoomName) : List Blob :=
  blobs (((s.rooms room).map RoomLog.messages).getD [])

/-- The URLs are in their places. -/
def Tidy (s : MessageStore) : Prop :=
  Placed s.shown {u | s.made u = true} {u | s.revoked u = true} {u | s.orphaned u = true}

variable {s s' : MessageStore} {room : RoomName}

theorem blobs_append (l m : List ChatMessage) : blobs (l ++ m) = blobs l ++ blobs m :=
  List.filterMap_append

theorem blobs_singleton (msg : ChatMessage) : blobs [msg] = msg.blob.toList := by
  cases h : msg.blob <;> simp [blobs, h]

theorem mem_including {set : Blob → Bool} {urls : List Blob} {u : Blob} :
    u ∈ {v | including set urls v = true} ↔ u ∈ {v | set v = true} ∨ u ∈ urls := by
  rw [Set.mem_ofPred_eq, Set.mem_ofPred_eq, including, Bool.or_eq_true, decide_eq_true_iff]

/-- What a room shows that is written. -/
theorem shown_of_rooms {log : RoomLog}
    (h : s'.rooms = Function.update s.rooms room (some log)) :
    s'.shown = Function.update s.shown room (blobs log.messages) := by
  funext r
  rw [shown, h]
  by_cases hr : r = room
  · subst hr
    simp
  · simp [shown, hr]

theorem shown_removeRoom (room : RoomName) (s : MessageStore) :
    (s.removeRoom room).shown = Function.update s.shown room [] := by
  funext r
  by_cases hr : r = room
  · subst hr
    simp [shown, removeRoom, blobs]
  · simp [shown, removeRoom, hr]

/-- A room that shows what it has shown. -/
theorem update_shown_self {log : RoomLog} (h : blobs log.messages = s.shown room) :
    Function.update s.shown room (blobs log.messages) = s.shown := by
  rw [h, Function.update_eq_self]

theorem shown_ensure (room : RoomName) (s : MessageStore) : (s.ensure room).shown = s.shown := by
  rw [ensure]
  split
  · rfl
  · rename_i hnone
    have hempty : blobs defaultRoomLog.messages = s.shown room := by
      rw [shown, hnone]
      rfl
    exact (shown_of_rooms rfl).trans (update_shown_self hempty)

theorem shown_of_some {current : RoomLog} (h : s.rooms room = some current) :
    s.shown room = blobs current.messages := by
  rw [shown, h]
  rfl

theorem appendMessageToRoom_of_none {msg : ChatMessage} (h : s.rooms room = none) :
    s.appendMessageToRoom room msg =
      { s with
        made := including s.made msg.blob.toList
        orphaned := including s.orphaned msg.blob.toList } := by
  rw [appendMessageToRoom]
  simp only [h]

/-- A message comes to a room, and the first ones go. -/
theorem appendMessageToRoom_of_some {msg : ChatMessage} {current : RoomLog}
    (h : s.rooms room = some current) : ∃ evicted log,
      current.messages ++ [msg] = evicted ++ log.messages ∧
      log.messages = (current.messages ++ [msg]).rtake MAX_MESSAGES ∧
      log.messageReceipts = current.messageReceipts ∧
      s.appendMessageToRoom room msg =
        { s with
          rooms := Function.update s.rooms room (some log)
          made := including s.made msg.blob.toList
          revoked := including s.revoked (blobs evicted)
          log := Function.update s.log room (s.log room ++ [msg]) } := by
  rw [appendMessageToRoom]
  simp only [h]
  -- with the number itself, `rfl` would count up to it
  generalize MAX_MESSAGES = n
  refine ⟨_, _, ?_, ?_, ?_, rfl⟩
  · exact (List.take_append_drop _ _).symm
  · rfl
  · rfl

theorem Tidy.of_eq (hs : s.Tidy) (hshown : s'.shown = s.shown) (hmade : s'.made = s.made)
    (hrevoked : s'.revoked = s.revoked) (horphaned : s'.orphaned = s.orphaned) : s'.Tidy := by
  rw [Tidy, hshown, hmade, hrevoked, horphaned]
  exact hs

theorem Tidy.append (hs : s.Tidy) {msg : ChatMessage} (hnew : ∀ u ∈ msg.blob, s.made u = false) :
    (s.appendMessageToRoom room msg).Tidy := by
  have hfresh : ∀ u ∈ msg.blob.toList, u ∉ {v | s.made v = true} := by
    intro u hu hmade
    rw [Set.mem_ofPred_eq, hnew u (Option.mem_toList.mp hu)] at hmade
    cases hmade
  cases hroom : s.rooms room with
  | none =>
      rw [appendMessageToRoom_of_none hroom]
      exact hs.lose hfresh (fun _ => mem_including) fun _ => mem_including
  | some current =>
      obtain ⟨evicted, log, hsplit, -, -, happend⟩ :=
        appendMessageToRoom_of_some hroom
      have hnodup : msg.blob.toList.Nodup := by
        cases msg.blob with
        | none => exact List.nodup_nil
        | some u => exact List.nodup_singleton u
      have hblobs : s.shown room ++ msg.blob.toList = blobs evicted ++ blobs log.messages := by
        rw [shown_of_some hroom, ← blobs_singleton, ← blobs_append, hsplit, blobs_append]
      have hshown : (s.appendMessageToRoom room msg).shown =
          Function.update s.shown room (blobs log.messages) := by
        rw [happend]
        exact shown_of_rooms rfl
      rw [Tidy, hshown, happend]
      exact hs.replace hfresh hnodup hblobs (fun _ => mem_including) fun _ => mem_including

theorem Tidy.removeRoom (hs : s.Tidy) (room : RoomName) : (s.removeRoom room).Tidy := by
  have hsplit : s.shown room ++ [] = s.shown room ++ [] := rfl
  have hmade : ∀ u, u ∈ {v | s.made v = true} ↔ u ∈ {v | s.made v = true} ∨ u ∈ ([] : List Blob) :=
    fun u => by simp
  have hplaced := hs.replace (fun u hu => absurd hu List.not_mem_nil) List.nodup_nil hsplit hmade
    fun _ => mem_including
  rw [Tidy, shown_removeRoom]
  exact hplaced

theorem Tidy.ensure (hs : s.Tidy) (room : RoomName) : (s.ensure room).Tidy := by
  have hsame : (s.ensure room).made = s.made ∧ (s.ensure room).revoked = s.revoked ∧
      (s.ensure room).orphaned = s.orphaned := by
    rw [MessageStore.ensure]
    split <;> exact ⟨rfl, rfl, rfl⟩
  exact hs.of_eq (s.shown_ensure room) hsame.1 hsame.2.1 hsame.2.2

/-- A room is written, and its messages stay. -/
theorem Tidy.write (hs : s.Tidy) {current log : RoomLog}
    (hrooms : s'.rooms = Function.update s.rooms room (some log))
    (hroom : s.rooms room = some current) (hmessages : log.messages = current.messages)
    (hmade : s'.made = s.made)
    (hrevoked : s'.revoked = s.revoked) (horphaned : s'.orphaned = s.orphaned) : s'.Tidy := by
  have hshown : blobs log.messages = s.shown room := by
    rw [hmessages, shown_of_some hroom]
  exact hs.of_eq ((shown_of_rooms hrooms).trans (update_shown_self hshown)) hmade hrevoked
    horphaned

theorem Tidy.step {a : StoreAction} (hs : s.Tidy) (h : s.step a = some s') : s'.Tidy := by
  cases a with
  | append room msg =>
      rw [MessageStore.step] at h
      split at h
      · cases h
        exact hs.append ‹_›
      · cases h
  | updateRoomState room =>
      cases h
      exact hs.ensure room
  | switchRoom room =>
      cases h
      have hthere : Tidy { s with activeRoom := room } := hs
      rw [switchRoom]
      split
      · rename_i current hcurrent
        exact (hthere.ensure room).write rfl hcurrent rfl rfl rfl rfl
      · exact hthere.ensure room
  | setActiveRoom room | render =>
      cases h
      exact hs
  | receipt room messageId status =>
      cases h
      rw [handleReceipt]
      split
      · exact hs
      · cases hroom : s.rooms room with
        | none => exact hs
        | some current =>
            dsimp only
            split
            · exact hs
            · exact hs.write rfl hroom rfl rfl rfl rfl
  | removeRoom room =>
      cases h
      exact hs.removeRoom room

theorem tidy_new : new.Tidy := by
  constructor <;> simp [new, shown, blobs]

/-! ### Messages and receipts -/

/-- What a list of receipts says of a message. -/
def statuses (receipts : List (String × String)) (messageId : String) : List String :=
  (receipts.filter fun r => r.1 = messageId).map Prod.snd

theorem statuses_append (receipts : List (String × String)) (messageId status id : String) :
    statuses (receipts ++ [(messageId, status)]) id =
      statuses receipts id ++ if messageId = id then [status] else [] := by
  by_cases h : messageId = id <;> simp [statuses, List.filter_append, h]

/-- What was read stays so; for another message the last status counts. -/
def mark (statuses : List String) : Option String :=
  if "read" ∈ statuses then some "read" else statuses.getLast?

theorem mark_eq_read {statuses : List String} :
    mark statuses = some "read" ↔ "read" ∈ statuses := by
  rw [mark]
  split
  · exact ⟨fun _ => ‹_›, fun _ => rfl⟩
  · exact ⟨fun h => List.mem_of_getLast? h, fun h => absurd h ‹_›⟩

theorem mark_append_of_unread {statuses : List String} (status : String)
    (h : "read" ∉ statuses) : mark (statuses ++ [status]) = some status := by
  rw [mark, List.getLast?_concat]
  split
  · rename_i hread
    rcases List.mem_append.mp hread with hold | hnew
    · exact absurd hold h
    · rw [List.mem_singleton.mp hnew]
  · rfl

/-- A room keeps the last of the messages that it has got, and what the receipts say. -/
structure Keeps (current : RoomLog) (messages : List ChatMessage)
    (receipts : List (String × String)) : Prop where
  messages : current.messages = messages.rtake MAX_MESSAGES
  receipts : ∀ id, current.messageReceipts id = mark (statuses receipts id)

def Faithful (s : MessageStore) : Prop :=
  ∀ room current, s.rooms room = some current → Keeps current (s.log room) (s.receipts room)

theorem Keeps.append {current log : RoomLog} {messages : List ChatMessage}
    {receipts : List (String × String)} {msg : ChatMessage} (h : Keeps current messages receipts)
    (hmessages : log.messages = (current.messages ++ [msg]).rtake MAX_MESSAGES)
    (hreceipts : log.messageReceipts = current.messageReceipts) :
    Keeps log (messages ++ [msg]) receipts where
  messages := by rw [hmessages, h.messages, InsertionOrder.rtake_rtake_concat]
  receipts := by
    rw [hreceipts]
    exact h.receipts

theorem Keeps.receipt {current log : RoomLog} {messages : List ChatMessage}
    {receipts : List (String × String)} {messageId status : String}
    (h : Keeps current messages receipts) (hmessages : log.messages = current.messages)
    (hreceipts : log.messageReceipts =
      if current.messageReceipts messageId = some "read" then current.messageReceipts
      else Function.update current.messageReceipts messageId (some status)) :
    Keeps log messages (receipts ++ [(messageId, status)]) where
  messages := hmessages.trans h.messages
  receipts := by
    intro id
    have hread := h.receipts messageId
    rw [hreceipts, statuses_append]
    by_cases hid : messageId = id
    · subst hid
      rw [if_pos rfl]
      split
      · rename_i hmarked
        have hin := mark_eq_read.mp (hread.symm.trans hmarked)
        rw [hmarked, mark, if_pos (List.mem_append_left _ hin)]
      · rename_i hunread
        rw [Function.update_self, mark_append_of_unread]
        exact fun hin => hunread (hread.trans (mark_eq_read.mpr hin))
    · rw [if_neg hid, List.append_nil, ← h.receipts id]
      split
      · rfl
      · exact Function.update_of_ne (Ne.symm hid) _ _

theorem Faithful.write (hs : s.Faithful) {log : RoomLog} {messages : List ChatMessage}
    {receipts : List (String × String)}
    (hrooms : s'.rooms = Function.update s.rooms room (some log))
    (hlog : s'.log = Function.update s.log room messages)
    (hreceipts : s'.receipts = Function.update s.receipts room receipts)
    (hkeeps : Keeps log messages receipts) : s'.Faithful := by
  intro r current hcurrent
  rw [hrooms] at hcurrent
  rw [hlog, hreceipts]
  by_cases hr : r = room
  · subst hr
    rw [Function.update_self] at hcurrent ⊢
    rw [Function.update_self]
    cases hcurrent
    exact hkeeps
  · rw [Function.update_of_ne hr] at hcurrent ⊢
    rw [Function.update_of_ne hr]
    exact hs r current hcurrent

theorem Faithful.ensure (hs : s.Faithful) (room : RoomName) : (s.ensure room).Faithful := by
  rw [MessageStore.ensure]
  split
  · exact hs
  · exact hs.write rfl rfl rfl ⟨rfl, fun _ => rfl⟩

theorem Faithful.append (hs : s.Faithful) (room : RoomName) (msg : ChatMessage) :
    (s.appendMessageToRoom room msg).Faithful := by
  cases hroom : s.rooms room with
  | none =>
      rw [appendMessageToRoom_of_none hroom]
      exact hs
  | some current =>
      obtain ⟨evicted, log, -, hmessages, hreceipts, happend⟩ :=
        appendMessageToRoom_of_some hroom
      rw [happend]
      exact hs.write rfl rfl (Function.update_eq_self room _).symm
        ((hs room current hroom).append hmessages hreceipts)

theorem Faithful.handleReceipt (hs : s.Faithful) (room : RoomName) (messageId status : String) :
    (s.handleReceipt room messageId status).Faithful := by
  rw [MessageStore.handleReceipt]
  split
  · exact hs
  · cases hroom : s.rooms room with
    | none => exact hs
    | some current =>
        have hkeeps := hs room current hroom
        dsimp only
        split
        · rename_i hread
          have hsame : s.rooms = Function.update s.rooms room (some current) := by
            rw [← hroom, Function.update_eq_self]
          exact hs.write hsame (Function.update_eq_self room _).symm rfl
            (hkeeps.receipt rfl (if_pos hread).symm)
        · rename_i hread
          exact hs.write rfl (Function.update_eq_self room _).symm rfl
            (hkeeps.receipt rfl (if_neg hread).symm)

theorem Faithful.step {a : StoreAction} (hs : s.Faithful) (h : s.step a = some s') :
    s'.Faithful := by
  cases a with
  | append room msg =>
      rw [MessageStore.step] at h
      split at h
      · cases h
        exact hs.append room msg
      · cases h
  | updateRoomState room =>
      cases h
      exact hs.ensure room
  | switchRoom room =>
      cases h
      have hthere : Faithful (MessageStore.ensure room { s with activeRoom := room }) :=
        Faithful.ensure (s := { s with activeRoom := room }) hs room
      rw [switchRoom]
      split
      · rename_i current hcurrent
        have hkeeps := hthere room current hcurrent
        exact hthere.write rfl (Function.update_eq_self room _).symm
          (Function.update_eq_self room _).symm ⟨hkeeps.messages, hkeeps.receipts⟩
      · exact hthere
  | setActiveRoom room | render =>
      cases h
      exact hs
  | receipt room messageId status =>
      cases h
      exact hs.handleReceipt room messageId status
  | removeRoom room =>
      cases h
      intro r current hcurrent
      by_cases hr : r = room
      · subst hr
        simp [MessageStore.removeRoom] at hcurrent
      · simp only [MessageStore.removeRoom, Function.update_of_ne hr] at hcurrent
        exact hs r current hcurrent

theorem faithful_new : new.Faithful := by
  intro room current hcurrent
  cases hcurrent

/-- **A URL is revoked once no room shows it.** In every run of the page, of the URLs that have
been made, those of the messages that the rooms show are not revoked, and no URL stands in two
places; of the others all are revoked, those apart whose message came to a room that was not
there. -/
theorem urls_revoked {s : MessageStore} (hs : Reachable step new s) :
    (∀ u, s.made u = true →
      (s.revoked u = false ↔ (∃ room, u ∈ s.shown room) ∨ s.orphaned u = true)) ∧
    (∀ room, ∀ u ∈ s.shown room, s.made u = true ∧ s.orphaned u = false) ∧
    (∀ room, (s.shown room).Nodup) ∧
    ∀ room other u, u ∈ s.shown room → u ∈ s.shown other → room = other := by
  have htidy : s.Tidy := hs.invariant tidy_new fun _ _ _ hI _ hstep => hI.step hstep
  refine ⟨fun u hmade => ⟨fun hlive => ?_, ?_⟩, fun room u hu => ?_, htidy.nodup, htidy.once⟩
  · rcases htidy.kept u hmade with hrevoked | horphaned | hshown
    · exact absurd (hrevoked.symm.trans hlive) (by decide)
    · exact .inr horphaned
    · exact .inl hshown
  · rintro (⟨room, hshown⟩ | horphaned)
    · exact eq_false_of_ne_true (htidy.live room u hshown).2.1
    · exact eq_false_of_ne_true fun hrevoked => (htidy.released u hrevoked).2 horphaned
  · obtain ⟨hmade, -, hlost⟩ := htidy.live room u hu
    exact ⟨hmade, eq_false_of_ne_true hlost⟩

/-- A message with media, one for a room that is not there, and a room that goes. -/
def oneLeft : List StoreAction :=
  [.updateRoomState "a", .append "a" ⟨"1", some 1⟩, .append "b" ⟨"2", some 2⟩, .updateRoomState "b",
    .append "b" ⟨"3", some 3⟩, .removeRoom "a"]

theorem urls_revoked_oneLeft : ∃ s, exec step new oneLeft = some s ∧ s.revoked 1 = true ∧
    (s.revoked 2 = false ↔ (∃ room, 2 ∈ s.shown room) ∨ s.orphaned 2 = true) := by
  have hrun : (exec step new oneLeft).isSome = true := by decide
  exact ⟨_, (Option.some_get hrun).symm, rfl, (urls_revoked (reachable_get hrun)).1 2 rfl⟩

/-- **A room keeps the last 500 messages and the best of its receipts.** In every run the
messages of a room are the last 500 of those that it has got since it is there, in their order;
a message is marked as read from the first receipt that says so, whatever comes after it, and
before that it has the status of its last receipt. -/
theorem room_keeps {s : MessageStore} (hs : Reachable step new s) {room : RoomName}
    {current : RoomLog} (hroom : s.rooms room = some current) :
    current.messages = (s.log room).rtake MAX_MESSAGES ∧
    ∀ id, (current.messageReceipts id = some "read" ↔ (id, "read") ∈ s.receipts room) ∧
      ((id, "read") ∉ s.receipts room →
        current.messageReceipts id = (statuses (s.receipts room) id).getLast?) := by
  have hkeeps : s.Faithful := hs.invariant faithful_new fun _ _ _ hI _ hstep => hI.step hstep
  obtain ⟨hmessages, hreceipts⟩ := hkeeps room current hroom
  have hread : ∀ id, "read" ∈ statuses (s.receipts room) id ↔ (id, "read") ∈ s.receipts room := by
    intro id
    simp [statuses]
  refine ⟨hmessages, fun id => ⟨?_, fun hunread => ?_⟩⟩
  · rw [hreceipts, mark_eq_read, hread]
  · rw [hreceipts, mark, if_neg (mt (hread id).mp hunread)]

/-- Who has read a message is heard to have got it. -/
def readFirst : List StoreAction :=
  [.updateRoomState "a", .append "a" ⟨"1", none⟩, .receipt "a" "1" "read",
    .receipt "a" "1" "delivered", .receipt "a" "2" "delivered"]

theorem room_keeps_readFirst : ∃ s current, exec step new readFirst = some s ∧
    s.rooms "a" = some current ∧
    (current.messageReceipts "1" = some "read" ↔ ("1", "read") ∈ s.receipts "a") := by
  have hrun : (exec step new readFirst).isSome = true := by decide
  have hroom : (((exec step new readFirst).get hrun).rooms "a").isSome = true := rfl
  exact ⟨_, _, (Option.some_get hrun).symm, (Option.some_get hroom).symm,
    ((room_keeps (reachable_get hrun) (Option.some_get hroom).symm).2 "1").1⟩

end MessageStore

end TrapChat.Client
