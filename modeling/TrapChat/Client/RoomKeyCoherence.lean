import TrapChat.Client.RoomPage
import TrapChat.Library.Transition

/-!
The keys of a room agree as long as the rotation timer does not go off. The
handlers are installed before the first room is rendered, so the rotator starts
without a key and opens no `key_rotation` message for the active room: until the
timer, `keyRefs` is the only place where a room's key changes, and the next render
copies it.

A rotation writes `activeKeyRef` and the rotator, but not `keyRefs`.
-/

namespace TrapChat.Client

open Storage Transition

namespace RoomPage

variable {Key : Type}

/-! ### The keys that are used for a room -/

/-- What `sendMessage` encrypts with. -/
def sendKey (s : RoomPage Key) (room : RoomName) : Option Key := s.keyRefs room

/-- What `decryptAndAppendChat` tries first. -/
def chatKey (s : RoomPage Key) (room : RoomName) : Option Key :=
  (s.keyRefs room).or s.rotatorKey

/-- What media is encrypted and decrypted with. -/
def mediaKey (s : RoomPage Key) : Option Key := s.activeKeyRef

/-- The room's keys are all `key`. -/
structure KeysAre (s : RoomPage Key) (room : RoomName) (key : Key) : Prop where
  sent : s.sendKey room = some key
  chat : s.chatKey room = some key
  media : room = s.activeRoom → s.mediaKey = some key
  rotator : room ∈ s.rotated → s.rotatorKey = some key

/-- No handler is suspended, and no render is due. -/
def Quiescent (s : RoomPage Key) : Prop := s.tasks = [] ∧ s.dirty = false

/-- **Room-key coherence.** -/
def Coherent (s : RoomPage Key) : Prop :=
  s.Quiescent → ∀ room ∈ s.rooms, ∃ key, s.KeysAre room key

/-- The rotation timer does not go off, and no join fails to connect after it has
replaced the key of the active room. -/
def Unrotated (s : RoomPage Key) : RoomAction Key → Prop
  | .rotationTimer => False
  | .failed n =>
      ∀ first, s.tasks[n]? = some (.connecting s.activeRoom first) →
        s.dirty = true ∨ s.activeKeyRef = s.keyRefs s.activeRoom
  | _ => True

/-! ### What holds until the timer goes off -/

/-- A handler that can be suspended before the first rotation. -/
def TaskOk (s : RoomPage Key) : RoomTask Key → Prop
  | .keying room first => room ≠ "" ∧ (s.installed = none → first = true)
  | .connecting room first =>
      room ≠ "" ∧ (s.keyRefs room).isSome ∧ (s.installed = none → first = true)
  | .decrypting _ _ key _ => key = none
  | .opening room _ _ | .replacing room _ => room ≠ ""
  | _ => False

structure Keyless (s : RoomPage Key) : Prop where
  tasks : ∀ task ∈ s.tasks, s.TaskOk task
  keys : ∀ room ∈ s.rooms, (s.keyRefs room).isSome
  unnamed : s.keyRefs "" = none
  active : s.activeRoom = "" ∨ s.activeRoom ∈ s.rooms
  rendered : s.activeRoomRef = "" ∨ s.activeRoomRef ∈ s.rooms
  listed : ∀ room ∈ s.renderedRooms, room ∈ s.rooms
  rotator : ∀ r, s.rotator = some r → r.currentKey = none ∧ r.previousKey = none
  installed : s.installed ≠ none → s.rotator ≠ none
  uninstalled : s.installed = none → s.activeRoomRef = "" ∧ s.activeKeyRef = none ∧ s.rooms = ∅ ∧
    s.rotator = none
  rotated : s.rotated = ∅
  current : s.dirty = true ∨ s.activeKeyRef = s.keyRefs s.activeRoom ∨
    ∃ first, RoomTask.connecting s.activeRoom first ∈ s.tasks

theorem keyless_new : (new : RoomPage Key).Keyless where
  tasks _ h := absurd h List.not_mem_nil
  keys _ h := absurd h Finmap.notMem_empty
  unnamed := rfl
  active := .inl rfl
  rendered := .inl rfl
  listed _ h := absurd h (Finset.notMem_empty _)
  rotator _ h := absurd h (Option.some_ne_none _).symm
  installed h := absurd rfl h
  uninstalled _ := ⟨rfl, rfl, rfl, rfl⟩
  rotated := rfl
  current := .inr (.inl rfl)

variable {s : RoomPage Key} {room : RoomName} {key : Key}

theorem Keyless.rotatorKey (h : s.Keyless) : s.rotatorKey = none := by
  rw [RoomPage.rotatorKey]
  cases hr : s.rotator with
  | none => rfl
  | some r => exact (h.rotator r hr).1

/-- **The keys agree.** -/
theorem Keyless.coherent (h : s.Keyless) : s.Coherent := by
  rintro ⟨htasks, hdirty⟩ room hroom
  obtain ⟨key, hkey⟩ := Option.isSome_iff_exists.mp (h.keys room hroom)
  refine ⟨key, hkey, ?_, ?_, fun hrotated => ?_⟩
  · rw [chatKey, hkey]
    rfl
  · rintro rfl
    rcases h.current with hd | hcurrent | ⟨first, hmem⟩
    · rw [hdirty] at hd
      cases hd
    · exact hcurrent.trans hkey
    · rw [htasks] at hmem
      cases hmem
  · rw [h.rotated] at hrotated
    cases hrotated

theorem Keyless.addTask (h : s.Keyless) {task : RoomTask Key} (htask : s.TaskOk task) :
    (s.addTask task).Keyless where
  tasks task' hmem := by
    rcases List.mem_append.mp hmem with hold | hnew
    · exact h.tasks task' hold
    · rw [List.mem_singleton.mp hnew]
      exact htask
  keys := h.keys
  unnamed := h.unnamed
  active := h.active
  rendered := h.rendered
  listed := h.listed
  rotator := h.rotator
  installed := h.installed
  uninstalled := h.uninstalled
  rotated := h.rotated
  current := by
    rcases h.current with hd | hcurrent | ⟨first, hmem⟩
    · exact .inl hd
    · exact .inr (.inl hcurrent)
    · exact .inr (.inr ⟨first, List.mem_append_left _ hmem⟩)

/-- A handler leaves the list that is not a join of the active room, or nothing
hangs on it. -/
theorem Keyless.dropTask (h : s.Keyless) {n : ℕ}
    (hjoin : ∀ first, s.tasks[n]? = some (.connecting s.activeRoom first) →
      s.dirty = true ∨ s.activeKeyRef = s.keyRefs s.activeRoom) : (s.dropTask n).Keyless where
  tasks task' hmem := h.tasks task' (List.mem_of_mem_eraseIdx hmem)
  keys := h.keys
  unnamed := h.unnamed
  active := h.active
  rendered := h.rendered
  listed := h.listed
  rotator := h.rotator
  installed := h.installed
  uninstalled := h.uninstalled
  rotated := h.rotated
  current := by
    rcases h.current with hd | hcurrent | ⟨first, hmem⟩
    · exact .inl hd
    · exact .inr (.inl hcurrent)
    · obtain ⟨i, hi⟩ := List.mem_iff_getElem?.mp hmem
      by_cases hn : i = n
      · subst hn
        exact (hjoin first hi).imp_right .inl
      · exact .inr (.inr ⟨first, List.mem_eraseIdx_iff_getElem?.mpr ⟨i, hn, hi⟩⟩)

/-! ### The writers -/

theorem mem_insertRoom {rooms : Finmap fun _ : RoomName => RoomState} {room' : RoomName}
    {value : RoomState} : room' ∈ rooms.insert room value ↔ room' = room ∨ room' ∈ rooms :=
  Finmap.mem_insert

/-- A change of the rooms' messages. -/
theorem Keyless.setRooms (h : s.Keyless) (value : RoomState) (hroom : room ∈ s.rooms) :
    ({ s with rooms := s.rooms.insert room value, dirty := true } : RoomPage Key).Keyless := by
  have hsame : ∀ room', room' ∈ s.rooms.insert room value ↔ room' ∈ s.rooms := fun room' =>
    mem_insertRoom.trans ⟨fun h' => h'.elim (fun e => e ▸ hroom) fun h' => h', .inr⟩
  refine ⟨h.tasks, fun room' hmem => h.keys room' ((hsame room').mp hmem), h.unnamed,
    h.active.imp_right (hsame _).mpr, h.rendered.imp_right (hsame _).mpr,
    fun room' hmem => (hsame room').mpr (h.listed room' hmem), h.rotator, h.installed,
    fun hnone => ?_, h.rotated, .inl rfl⟩
  rw [(h.uninstalled hnone).2.2.1] at hroom
  exact absurd hroom Finmap.notMem_empty

theorem Keyless.appendMessageToRoom (h : s.Keyless) (msg : RoomMessage) :
    (s.appendMessageToRoom room msg).Keyless := by
  rw [RoomPage.appendMessageToRoom]
  split
  · exact h
  · next current hlookup => exact h.setRooms _ (Finmap.mem_of_lookup_eq_some hlookup)

theorem Keyless.appendClosed (h : s.Keyless) (msg : RoomMessage) :
    (s.appendClosed msg).Keyless := by
  rw [RoomPage.appendClosed]
  split
  · exact h
  · exact h.appendMessageToRoom msg

theorem Keyless.render (h : s.Keyless) : s.render.Keyless where
  tasks := h.tasks
  keys := h.keys
  unnamed := h.unnamed
  active := h.active
  rendered := h.active
  listed _ hmem := Finmap.mem_keys.mp hmem
  rotator := h.rotator
  installed := h.installed
  uninstalled hnone := by
    obtain ⟨-, -, hrooms, hrotator⟩ := h.uninstalled hnone
    have hactive : s.activeRoom = "" := h.active.resolve_right fun hmem => by
      rw [hrooms] at hmem
      exact Finmap.notMem_empty hmem
    exact ⟨hactive, (congrArg s.keyRefs hactive).trans h.unnamed, hrooms, hrotator⟩
  rotated := h.rotated
  current := .inr (.inl rfl)

/-- A key for a room that is not the active one, or with a render or a join to
come. -/
theorem Keyless.setKey (h : s.Keyless) (hname : room ≠ "")
    (hcurrent : (s.setKey room key).dirty = true ∨
      (s.setKey room key).activeKeyRef = (s.setKey room key).keyRefs s.activeRoom ∨
      ∃ first, RoomTask.connecting s.activeRoom first ∈ s.tasks) :
    (s.setKey room key).Keyless := by
  have hmono : ∀ room', (s.keyRefs room').isSome →
      (Function.update s.keyRefs room (some key) room').isSome := by
    intro room' h'
    by_cases he : room' = room
    · rw [he, Function.update_self]
      rfl
    · rwa [Function.update_of_ne he]
  refine ⟨fun task hmem => ?_, fun room' hmem => hmono room' (h.keys room' hmem), ?_, h.active,
    h.rendered, h.listed, h.rotator, h.installed, h.uninstalled, h.rotated, hcurrent⟩
  · have hok := h.tasks task hmem
    cases task with
    | connecting room' first => exact ⟨hok.1, hmono room' hok.2.1, hok.2.2⟩
    | _ => exact hok
  · rw [RoomPage.setKey]
    exact (Function.update_of_ne hname.symm _ _).trans h.unnamed

/-- A room that is not there is not the active one. -/
theorem Keyless.ne_active (h : s.Keyless) (hname : room ≠ "") (hroom : room ∉ s.rooms) :
    s.activeRoom ≠ room := by
  rintro rfl
  exact h.active.elim hname hroom

theorem Keyless.replaced (h : s.Keyless) (hname : room ≠ "") : (s.replaced room key).Keyless := by
  rw [RoomPage.replaced]
  cases hlookup : s.rooms.lookup room with
  | none =>
      have hne : s.activeRoom ≠ room := h.ne_active hname (Finmap.lookup_eq_none.mp hlookup)
      apply Keyless.appendMessageToRoom
      apply h.setKey hname
      rw [RoomPage.setKey]
      simp only [Function.update_of_ne hne]
      exact h.current
  | some current =>
      have hroom : room ∈ s.rooms := Finmap.mem_of_lookup_eq_some hlookup
      have hdirty := h.setRooms (RoomPage.appendMessage current keyRotatedByPeer
        (room = s.activeRoomRef)) hroom
      rw [RoomPage.appendMessageToRoom]
      simp only [RoomPage.setKey, hlookup]
      exact hdirty.setKey hname (.inl rfl)

/-- With a render to come, `activeKeyRef` does not matter. -/
theorem Keyless.setActiveKey (h : s.Keyless) (hinstalled : s.installed ≠ none)
    (activeKey : Option Key) :
    ({ s with activeKeyRef := activeKey, dirty := true } : RoomPage Key).Keyless :=
  ⟨h.tasks, h.keys, h.unnamed, h.active, h.rendered, h.listed, h.rotator, h.installed,
    fun hnone => absurd hnone hinstalled, h.rotated, .inl rfl⟩

theorem Keyless.installed_of_mem (h : s.Keyless) (hroom : room ∈ s.rooms) :
    s.installed ≠ none := by
  intro hnone
  rw [(h.uninstalled hnone).2.2.1] at hroom
  exact Finmap.notMem_empty hroom

theorem Keyless.rederived (h : s.Keyless) (hname : room ≠ "") :
    (s.rederived room key).Keyless := by
  rw [RoomPage.rederived]
  cases hlookup : s.rooms.lookup room with
  | none =>
      have hroom : room ∉ s.rooms := Finmap.lookup_eq_none.mp hlookup
      have hrendered : room ≠ s.activeRoomRef := by
        rintro rfl
        exact h.rendered.elim hname hroom
      have hset : (s.setKey room key).Keyless := by
        apply h.setKey hname
        rw [RoomPage.setKey]
        simp only [Function.update_of_ne (h.ne_active hname hroom)]
        exact h.current
      have hdirty : (s.dirty || (none : Option RoomState).isSome) = s.dirty := Bool.or_false _
      rw [hdirty, if_neg hrendered]
      exact hset
  | some current =>
      have hroom : room ∈ s.rooms := Finmap.mem_of_lookup_eq_some hlookup
      have hdirty : (s.dirty || (some current).isSome) = true := Bool.or_true _
      rw [hdirty]
      exact (h.setActiveKey (h.installed_of_mem hroom) _).setKey hname (.inl rfl)

theorem Keyless.switchRoom (h : s.Keyless) (hroom : room ∈ s.renderedRooms) :
    (s.switchRoom room).Keyless := by
  have hmem : room ∈ s.rooms := h.listed room hroom
  have hactive : ({ s with activeRoom := room, dirty := true } : RoomPage Key).Keyless :=
    ⟨h.tasks, h.keys, h.unnamed, .inr hmem, h.rendered, h.listed, h.rotator, h.installed,
      h.uninstalled, h.rotated, .inl rfl⟩
  exact (hactive.setRooms { (s.rooms.lookup room).getD defaultRoomState with
    unreadCount := 0 } hmem).setActiveKey (h.installed_of_mem hmem) (s.keyRefs room)

theorem Keyless.submit (h : s.Keyless) : (s.submit room).Keyless := by
  rw [RoomPage.submit]
  split
  · exact h
  · next hok =>
    rw [refusesJoin, not_or] at hok
    apply h.addTask
    refine ⟨hok.1, fun hnone => ?_⟩
    obtain ⟨-, -, hrooms, -⟩ := h.uninstalled hnone
    have hlisted : s.renderedRooms = ∅ := by
      rw [Finset.eq_empty_iff_forall_notMem]
      intro room' hmem
      have hmem' := h.listed room' hmem
      rw [hrooms] at hmem'
      exact Finmap.notMem_empty hmem'
    simpa using hlisted

theorem Keyless.keyed (h : s.Keyless) {first : Bool} {entry : Option Key} {s' : RoomPage Key}
    (hok : s.TaskOk (.keying room first)) (hs : s.keyed room first entry = some s') :
    s'.Keyless := by
  cases entry with
  | none =>
      rw [RoomPage.keyed] at hs
      split at hs
      · next hkey =>
        obtain rfl := Option.some.inj hs
        exact h.addTask ⟨hok.1, hkey, hok.2⟩
      · cases hs
  | some key =>
      obtain rfl := Option.some.inj hs
      have htask : (s.setKey room key).TaskOk (.connecting room first) := by
        refine ⟨hok.1, ?_, hok.2⟩
        simp only [RoomPage.setKey, Function.update_self, Option.isSome_some]
      by_cases hactive : room = s.activeRoom
      · -- The join of the active room is in the list now.
        have hmem : room ∈ s.rooms := hactive ▸ h.active.resolve_left (hactive ▸ hok.1)
        have hfirst : s.TaskOk (.connecting room first) := ⟨hok.1, h.keys room hmem, hok.2⟩
        apply (h.addTask hfirst).setKey hok.1
        exact .inr (.inr ⟨first, List.mem_append_right _ (hactive ▸ List.mem_singleton.mpr rfl)⟩)
      · have hset : (s.setKey room key).Keyless := by
          apply h.setKey hok.1
          rw [RoomPage.setKey]
          simp only [Function.update_of_ne (Ne.symm hactive)]
          exact h.current
        exact hset.addTask htask

/-- **The end of a join.** -/
theorem Keyless.joined (h : s.Keyless) {first : Bool}
    (hok : s.TaskOk (.connecting room first)) : (s.joined room first).Keyless := by
  obtain ⟨hname, hkey, hfirst⟩ := hok
  have hkeys : ∀ value, ∀ room' ∈ s.rooms.insert room value, (s.keyRefs room').isSome := by
    intro value room' hmem
    rcases mem_insertRoom.mp hmem with rfl | hold
    · exact hkey
    · exact h.keys room' hold
  have hgrow : ∀ value room', room' ∈ s.rooms → room' ∈ s.rooms.insert room value :=
    fun value room' hold => mem_insertRoom.mpr (.inr hold)
  rw [RoomPage.joined]
  by_cases hnone : s.installed = none
  · obtain ⟨hrendered, hactive, -, -⟩ := h.uninstalled hnone
    simp only [RoomPage.updateRoomState, RoomPage.setupGlobalHandlers, RoomPage.setActiveRoom,
      hfirst hnone, hnone, and_self, if_true, hrendered, hactive]
    refine ⟨fun task hmem => ?_, hkeys _, h.unnamed, .inr (mem_insertRoom.mpr (.inl rfl)),
      .inl rfl, fun room' hmem => hgrow _ _ (h.listed room' hmem), fun r hr => ?_, by simp, by simp,
      h.rotated, .inl rfl⟩
    · have hok := h.tasks task hmem
      cases task with
      | keying room' first => exact ⟨hok.1, by simp⟩
      | connecting room' first => exact ⟨hok.1, hok.2.1, by simp⟩
      | _ => exact hok
    · obtain rfl := Option.some.inj hr
      exact ⟨rfl, rfl⟩
  · have hno : ¬(first = true ∧ (s.updateRoomState room id).installed = none) :=
      fun h' => hnone h'.2
    rw [if_neg hno]
    exact ⟨h.tasks, hkeys _, h.unnamed, .inr (mem_insertRoom.mpr (.inl rfl)),
      h.rendered.imp_right (hgrow _ _), fun room' hmem => hgrow _ _ (h.listed room' hmem),
      h.rotator, h.installed, fun h' => absurd h' hnone, h.rotated, .inl rfl⟩

/-- A message for the active room meets a rotator without a key. -/
theorem Keyless.keyRotation (h : s.Keyless) (hname : room ≠ "") (hinstalled : s.installed ≠ none)
    (payload : Sealed Key) : (s.keyRotation room payload).Keyless := by
  rw [RoomPage.keyRotation]
  split
  · split
    · next r hr => exact h.addTask (h.rotator r hr).1
    · next hr => exact absurd hr (h.installed hinstalled)
  · split
    · exact h.addTask hname
    · exact h

theorem Keyless.graceExpired (h : s.Keyless) :
    (s.withRotator KeyRotator.graceExpired).Keyless := by
  refine ⟨h.tasks, h.keys, h.unnamed, h.active, h.rendered, h.listed, fun r hr => ?_,
    fun hne hnone => h.installed hne (Option.map_eq_none_iff.mp hnone),
    fun hnone => ?_, h.rotated, h.current⟩
  · obtain ⟨r', hr', rfl⟩ := Option.map_eq_some_iff.mp hr
    exact ⟨(h.rotator r' hr').1, rfl⟩
  · obtain ⟨hrendered, hkey, hrooms, hrotator⟩ := h.uninstalled hnone
    exact ⟨hrendered, hkey, hrooms, Option.map_eq_none_iff.mpr hrotator⟩

variable [DecidableEq Key]

/-- Nothing opens without a key. -/
theorem Keyless.decrypted (h : s.Keyless) {task : RoomTask Key} (hok : s.TaskOk task)
    {s' : RoomPage Key} (hs : s.decrypted task = some s') : s'.Keyless := by
  cases task with
  | decrypting room payload key last =>
      obtain rfl : key = none := hok
      have hfails : decrypt none payload = none := if_neg (Option.some_ne_none _).symm
      have hprevious : s.rotator.bind KeyRotator.previousKey = none := by
        cases hr : s.rotator with
        | none => rfl
        | some r => exact (h.rotator r hr).2
      simp only [RoomPage.decrypted, hfails, hprevious, Option.some.injEq] at hs
      exact hs ▸ h.appendClosed _
  | opening room payload roomKey =>
      rw [RoomPage.decrypted] at hs
      split at hs
      · obtain rfl := Option.some.inj hs
        exact h.addTask hok
      · obtain rfl := Option.some.inj hs
        exact h.appendMessageToRoom _
  | _ => cases hs

/-- A suspended handler goes on that is not a join about to end. -/
theorem Keyless.resume (h : s.Keyless) {a : RoomAction Key} {task : RoomTask Key}
    (hok : s.TaskOk task) (htask : ∀ room first, task ≠ .connecting room first)
    {s' : RoomPage Key} (hs : s.resume a task = some s') : s'.Keyless := by
  cases task with
  | keying room first =>
      cases a with
      | keyed n key => exact h.keyed hok hs
      | failed n => exact Option.some.inj hs ▸ h
      | _ => cases hs
  | connecting room first => exact absurd rfl (htask room first)
  | decrypting room payload key last =>
      cases a with
      | decrypted n => exact h.decrypted hok hs
      | _ => cases hs
  | opening room payload roomKey =>
      cases a with
      | decrypted n => exact h.decrypted hok hs
      | _ => cases hs
  | replacing room newKey =>
      cases a with
      | imported n => exact Option.some.inj hs ▸ h.replaced hok
      | _ => cases hs
  | _ => exact hok.elim

theorem Keyless.resumeAt (h : s.Keyless) {a : RoomAction Key} {n : ℕ} {s' : RoomPage Key}
    (hs : s.resumeAt a n = some s')
    (hfailed : a = .failed n → ∀ first, s.tasks[n]? = some (.connecting s.activeRoom first) →
      s.dirty = true ∨ s.activeKeyRef = s.keyRefs s.activeRoom) (ha : ∀ m, a = .failed m → m = n) :
    s'.Keyless := by
  obtain ⟨task, htask, hs⟩ := Option.bind_eq_some_iff.mp hs
  have hok := h.tasks task (List.mem_of_getElem? htask)
  by_cases hconnecting : ∃ room first, task = .connecting room first
  · obtain ⟨room, first, rfl⟩ := hconnecting
    cases a with
    | connected m =>
        -- A render is to come, so nothing hangs on the join that ends.
        have hdirty : ({ s with dirty := true } : RoomPage Key).Keyless :=
          ⟨h.tasks, h.keys, h.unnamed, h.active, h.rendered, h.listed, h.rotator, h.installed,
            h.uninstalled, h.rotated, .inl rfl⟩
        have hdrop := hdirty.dropTask (n := n) fun _ _ => .inl rfl
        exact Option.some.inj hs ▸ hdrop.joined hok
    | failed m =>
        obtain rfl := ha m rfl
        exact Option.some.inj hs ▸ h.dropTask (hfailed rfl)
    | _ => cases hs
  · have hne : ∀ room first, task ≠ .connecting room first := fun room first e =>
      hconnecting ⟨room, first, e⟩
    have hdrop := h.dropTask (n := n) fun first hn =>
      absurd (Option.some.inj (htask.symm.trans hn)) (hne _ _)
    exact hdrop.resume hok hne hs

/-- **A step without a rotation.** -/
theorem Keyless.step (h : s.Keyless) {a : RoomAction Key} (ha : s.Unrotated a) {s' : RoomPage Key}
    (hs : s.step a = some s') : s'.Keyless := by
  cases a with
  | submit room => exact Option.some.inj hs ▸ h.submit
  | switchRoom room =>
      rw [RoomPage.step] at hs
      split at hs
      · next hroom => exact Option.some.inj hs ▸ h.switchRoom hroom
      · cases hs
  | rederived room key =>
      rw [RoomPage.step] at hs
      split at hs
      · cases hs
      · next hname => exact Option.some.inj hs ▸ h.rederived hname
  | rotationTimer => exact ha.elim
  | graceExpired =>
      rw [RoomPage.step] at hs
      split at hs
      · split at hs
        · exact Option.some.inj hs ▸ h.graceExpired
        · cases hs
      · cases hs
  | keyRotation room payload =>
      rw [RoomPage.step] at hs
      split at hs
      · cases hs
      · next hok =>
        rw [not_or] at hok
        exact Option.some.inj hs ▸ h.keyRotation hok.2 hok.1 payload
  | append room msg => exact Option.some.inj hs ▸ h.appendMessageToRoom msg
  | render =>
      rw [RoomPage.step] at hs
      split at hs
      · exact Option.some.inj hs ▸ h.render
      · cases hs
  | failed n => exact h.resumeAt hs (fun _ => ha) fun m e => (RoomAction.failed.inj e).symm
  | _ => exact h.resumeAt hs (fun e => by cases e) fun m e => by cases e

/-- **Until the rotation timer goes off, every joined room has one key.** -/
theorem coherent_of_reachable (hs : ReachableVia step Unrotated new s) : s.Coherent :=
  Keyless.coherent (hs.invariant keyless_new fun _ _ _ h ha hstep => h.step ha hstep)

instance (s : RoomPage Key) : (a : RoomAction Key) → Decidable (s.Unrotated a)
  | .rotationTimer => .isFalse id
  | .failed n => inferInstanceAs (Decidable (∀ first : Bool,
      s.tasks[n]? = some (.connecting s.activeRoom first) →
        s.dirty = true ∨ s.activeKeyRef = s.keyRefs s.activeRoom))
  | .submit _ | .keyed _ _ | .connected _ | .switchRoom _ | .rederived _ _ | .generated _ _
  | .exported _ | .broadcast _ | .graceExpired | .keyRotation _ _ | .decrypted _ | .imported _
  | .append _ _ | .render => .isTrue trivial

/-- Two rooms are joined, and a peer rotates the key of the one in the background. -/
def backgroundRotation : List (RoomAction ℕ) :=
  [.submit "a", .keyed 0 (some 1), .connected 0, .render, .submit "b", .keyed 0 (some 2),
    .connected 0, .render, .keyRotation "a" ⟨1, 3⟩, .decrypted 0, .imported 0, .render,
    .switchRoom "a", .render]

theorem backgroundRotation_runs : (execVia step Unrotated new backgroundRotation).isSome = true := by
  decide +kernel

theorem coherent_backgroundRotation :
    ((execVia step Unrotated new backgroundRotation).get backgroundRotation_runs).Coherent :=
  coherent_of_reachable (reachableVia_get backgroundRotation_runs)

/-- A room is joined, and the rotation timer goes off. -/
def timedRotation : List (RoomAction ℕ) :=
  [.submit "a", .keyed 0 (some 1), .connected 0, .render, .rotationTimer, .generated 0 2,
    .exported 0, .broadcast 0]

theorem timedRotation_disagrees : ∃ s, exec step (new : RoomPage ℕ) timedRotation = some s ∧
    s.sendKey "a" = some 1 ∧ s.mediaKey = some 2 ∧ ¬s.Coherent := by
  have hruns : (exec step (new : RoomPage ℕ) timedRotation).isSome = true := by decide +kernel
  have hend : ∀ s ∈ exec step (new : RoomPage ℕ) timedRotation,
      (s.tasks = [] ∧ s.dirty = false) ∧ "a" ∈ s.rooms ∧ s.activeRoom = "a" ∧
        s.sendKey "a" = some 1 ∧ s.mediaKey = some 2 := by
    decide +kernel
  obtain ⟨s, hs⟩ := Option.isSome_iff_exists.mp hruns
  obtain ⟨hquiescent, hroom, hactive, hsend, hmedia⟩ := hend s hs
  refine ⟨s, hs, hsend, hmedia, fun hcoherent => ?_⟩
  obtain ⟨key, hkey⟩ := hcoherent hquiescent "a" hroom
  have hone := hsend.symm.trans hkey.sent
  have htwo := hmedia.symm.trans (hkey.media hactive.symm)
  simp only [Option.some.injEq] at hone htwo
  omega

end RoomPage

end TrapChat.Client
