import TrapChat.Gateway.Goroutines
import TrapChat.Library.Transition

/-!
What a goroutine may still have to do, by where it is. The operations of a
handler that reads messages concern its own peer, and only the first of them
does anything but send; a cleanup ends with closing the queue; the operations of
a request, of a relay reader and of the TTL loop are those of `disconnectAllPeers`
and of `broadcast`.
-/

namespace TrapChat.Gateway

open Storage Protocol

/-- Operations that read the state and lead to sends. -/
def Op.sends : Op → Bool
  | .presencePeers _ | .presenceTTL _ | .presenceSalt _ | .broadcastPeers _ _ _
  | .broadcastConns _ _ | .signalTarget _ | .enqueue _ _ | .forward _ => true
  | _ => false

/-- The peer whose handler, before its cleanup, an operation belongs to. -/
def Op.owner : Op → Option PeerID
  | .register p | .deferCleanup p | .joinCount p _ | .joinRoomCount p _ | .joinLimit p _
  | .addRoom p _ | .storeJoin p _ _ _ | .setNickname p _ _ | .leaveRoom p _ | .removeRoom p _
  | .allow p _ | .member p _ | .roomList p => some p
  | _ => none

/-- Operations a peer's handler makes for a message. -/
def Op.message (p : PeerID) : Op → Bool
  | .register _ | .deferCleanup _ => false
  | op => op.sends || op.owner == some p

/-- Operations that come after the first one that a message leads to. -/
def Op.late : Op → Bool
  | .setNickname _ _ _ | .roomList _ => true
  | op => op.sends

/-- Operations of the cleanup's loop. -/
def Op.walk (p : PeerID) : Op → Bool
  | .leaveStore _ q => q == p
  | op => op.sends

/-- Operations of the other goroutines. -/
def Op.service : Op → Bool
  | .roomPeers _ | .detach _ _ | .leaveStore _ _ | .sweep _ _ | .closeSend _ | .expiredRooms => true
  | op => op.sends

def Op.leaves : Op → Bool
  | .leaveStore _ _ => true
  | _ => false

variable {rt : GoRuntime} {s s' : Server} {order : List String} {now : Time} {op : Op}
  {ops : List Op} {p q : PeerID} {room : RoomName}

/-! ### What an operation leads to -/

/-- The operations of a handler that deals with a message. -/
def Messages (p : PeerID) (code : List Op) : Prop :=
  (∀ o ∈ code, o.message p = true) ∧ ∀ o ∈ code.tail, o.late = true

theorem messages_nil : Messages p [] := ⟨by simp, by simp⟩

theorem messages_single (h : op.message p = true) : Messages p [op] := ⟨by simpa using h, by simp⟩

theorem messages_enqueue (env : Envelope) : Messages p [.enqueue q env] := messages_single rfl

theorem Messages.append {code rest : List Op} (h : Messages p code)
    (hrest : ∀ o ∈ rest, o.message p = true ∧ o.late = true) : Messages p (code ++ rest) := by
  refine ⟨?_, ?_⟩
  · intro o ho
    rcases List.mem_append.mp ho with ho | ho
    · exact h.1 o ho
    · exact (hrest o ho).1
  · intro o ho
    cases code with
    | nil => exact (hrest o (List.mem_of_mem_tail ho)).2
    | cons a code =>
        rcases List.mem_append.mp ho with ho | ho
        · exact h.2 o ho
        · exact (hrest o ho).2

theorem late_of_sends (h : op.sends = true) : op.late = true := by
  cases op <;> first | rfl | exact absurd h (by simp [Op.sends])

theorem message_of_sends (h : op.sends = true) : op.message p = true := by
  cases op <;> first | rfl | exact absurd h (by simp [Op.sends])

theorem messages_routeCode (env : Envelope) : Messages p (routeCode p env) := by
  unfold routeCode
  split <;> exact ⟨by simp [Op.message, Op.sends], by simp [Op.late, Op.sends]⟩

theorem messages_announce (type : MessageType) : Messages p (announce type room p now) :=
  ⟨by simp [announce, Op.message, Op.sends, Op.owner], by simp [announce, Op.late, Op.sends]⟩

theorem messages_saltCode (env : Envelope) : Messages p (saltCode rt p env now) := by
  unfold saltCode
  dsimp only
  split
  · exact messages_enqueue _
  · exact messages_single (by simp [Op.message, Op.owner])

theorem messages_acceptCode (env : Envelope) : Messages p (acceptCode p env now) := by
  unfold acceptCode
  split <;> first
    | exact messages_routeCode _
    | exact ⟨by simp [Op.message, Op.sends, Op.owner], by simp [Op.late, Op.sends]⟩

theorem messages_allowCode (env : Envelope) : Messages p (allowCode s p env now).2 := by
  unfold allowCode
  split
  · dsimp only
    split
    · exact messages_single rfl
    · exact messages_nil
  · dsimp only
    split
    · split
      · exact messages_enqueue _
      · exact messages_routeCode _
    · exact messages_nil
  · dsimp only
    split
    · exact messages_single (by simp [Op.message, Op.owner])
    · exact messages_enqueue _

theorem enqueue_routeCode {env e : Envelope} : .enqueue q e ∉ routeCode p env := by
  unfold routeCode
  split <;> simp

theorem enqueue_acceptCode {env e : Envelope} : .enqueue q e ∉ acceptCode p env now := by
  unfold acceptCode
  split <;> first
    | exact enqueue_routeCode
    | simp

theorem enqueue_saltCode {env e : Envelope} (h : .enqueue q e ∈ saltCode rt p env now) :
    q = p := by
  unfold saltCode at h
  dsimp only at h
  split at h <;> simp_all

theorem enqueue_allowCode {env e : Envelope} (h : .enqueue q e ∈ (allowCode s p env now).2) :
    q = p := by
  unfold allowCode at h
  split at h
  · dsimp only at h
    split at h <;> simp at h
  · dsimp only at h
    split at h
    · split at h
      · simp_all
      · exact absurd h enqueue_routeCode
    · simp at h
  · dsimp only at h
    split at h <;> simp_all

/-- The operations that open the handling of a client message. -/
inductive Opening (p : PeerID) : Op → Prop
  | enqueue (env : Envelope) : Opening p (.enqueue p env)
  | joinCount (env : Envelope) : Opening p (.joinCount p env)
  | leaveRoom (room : RoomName) : Opening p (.leaveRoom p room)
  | allow (env : Envelope) : Opening p (.allow p env)
  | member (env : Envelope) : Opening p (.member p env)

/-- **What a client message starts**: nothing, or one operation of the sender's own handler. -/
theorem frameCode_cases (rt : GoRuntime) (p : PeerID) (frame : Option Envelope) (now : Time) :
    frameCode rt p frame now = [] ∨
      ∃ o, frameCode rt p frame now = [o] ∧ Opening p o := by
  cases frame with
  | none => exact .inr ⟨_, rfl, .enqueue _⟩
  | some env =>
      simp only [frameCode]
      split
      · exact .inr ⟨_, rfl, .enqueue _⟩
      · split
        case h_1 => exact .inr ⟨_, rfl, .joinCount env⟩
        case h_2 => exact .inr ⟨_, rfl, .leaveRoom env.room⟩
        case h_12 => exact .inl rfl
        case h_13 => exact .inr ⟨_, rfl, .enqueue _⟩
        all_goals first
          | exact .inr ⟨_, rfl, .allow env⟩
          | exact .inr ⟨_, rfl, .member env⟩

theorem opening_of_mem_frameCode {frame : Option Envelope} {o : Op}
    (ho : o ∈ frameCode rt p frame now) : Opening p o := by
  obtain hnone | ⟨o', hone, hopening⟩ := frameCode_cases rt p frame now
  · rw [hnone] at ho
    cases ho
  · rw [hone] at ho
    rw [List.mem_singleton.mp ho]
    exact hopening

theorem messages_frameCode (frame : Option Envelope) :
    Messages p (frameCode rt p frame now) := by
  obtain hnone | ⟨o, hone, hopening⟩ := frameCode_cases rt p frame now
  · rw [hnone]
    exact messages_nil
  · rw [hone]
    cases hopening with
    | enqueue env => exact messages_enqueue _
    | _ => exact messages_single (by simp [Op.message, Op.owner])

theorem enqueue_frameCode {frame : Option Envelope} {e : Envelope}
    (h : .enqueue q e ∈ frameCode rt p frame now) : q = p := by
  cases opening_of_mem_frameCode h
  rfl

theorem sends_of_execute (h : execute rt s order now op = some (s', ops)) (hop : op.sends = true) :
    ∀ o ∈ ops, o.sends = true := by
  cases op with
  | broadcastConns peers env =>
      obtain ⟨-, h⟩ := Option.ite_none_right_eq_some.mp h
      cases h
      simp [Op.sends]
  | signalTarget env =>
      cases h
      intro o ho
      split at ho <;> simp_all [Op.sends]
  | presencePeers room => cases h; simp [Op.sends]
  | presenceTTL pp => cases h; simp [Op.sends]
  | presenceSalt pp => cases h; simp [Op.sends]
  | broadcastPeers room env exclude => cases h; simp [Op.sends]
  | forward env => cases h; simp
  | enqueue p env => cases h
  | _ => cases hop

/-- What else an operation leads to. -/
inductive Op.Leads (s : Server) : Op → Op → Prop
  | joinRoomCount (p : PeerID) (env : Envelope) : Leads s (.joinCount p env) (.joinRoomCount p env)
  | joinCount (p : PeerID) (env : Envelope) : Leads s (.joinCount p env) (.joinLimit p env)
  | joinLimit (p : PeerID) (env : Envelope) : Leads s (.joinRoomCount p env) (.joinLimit p env)
  | addRoom (p : PeerID) (env : Envelope) : Leads s (.joinLimit p env) (.addRoom p env)
  | storeJoin (p : PeerID) (env : Envelope) (jp : JoinPayload) (salt : List UInt8) :
      Leads s (.addRoom p env) (.storeJoin p env.room jp salt)
  | setNickname (p : PeerID) (room : RoomName) (jp : JoinPayload) (salt : List UInt8)
      (nick : String) : Leads s (.storeJoin p room jp salt) (.setNickname p room nick)
  | joined (p : PeerID) (room : RoomName) (jp : JoinPayload) (salt : List UInt8) :
      Leads s (.storeJoin p room jp salt) (.roomList p)
  | removeRoom (p : PeerID) (room : RoomName) : Leads s (.leaveRoom p room) (.removeRoom p room)
  | left (p : PeerID) (room : RoomName) : Leads s (.removeRoom p room) (.roomList p)
  | member (p : PeerID) (env : Envelope) : Leads s (.allow p env) (.member p env)
  | allow (p : PeerID) (env : Envelope) : Leads s (.member p env) (.allow p env)
  | leaveStore (p : PeerID) (room : RoomName) (h : room ∈ s.roomsOf p) :
      Leads s (.dropPeer p) (.leaveStore room p)
  | detach (room : RoomName) (p : PeerID) : Leads s (.roomPeers room) (.detach room p)
  | detached (room : RoomName) (p : PeerID) : Leads s (.detach room p) (.leaveStore room p)
  | closeSend (room : RoomName) (p : PeerID) (h : s.lastRoom room p) :
      Leads s (.detach room p) (.closeSend p)
  | roomPeers (room : RoomName) : Leads s .expiredRooms (.roomPeers room)
  | sweep (room : RoomName) (dummy : PeerID) : Leads s .expiredRooms (.sweep room dummy)

theorem sends_routeCode {env : Envelope} {o : Op} (ho : o ∈ routeCode p env) : o.sends = true := by
  unfold routeCode at ho
  split at ho <;> simp only [List.mem_cons, List.not_mem_nil, or_false] at ho
  · rw [ho]
    rfl
  · obtain rfl | rfl := ho <;> rfl

/-- **What an operation leads to**, case by case. -/
theorem leads_of_execute {o : Op} (h : execute rt s order now op = some (s', ops)) (ho : o ∈ ops) :
    o.sends = true ∨ op.Leads s o := by
  cases op with
  | joinCount q env =>
      cases h
      split at ho <;> obtain rfl := List.mem_singleton.mp ho
      · exact .inr (.joinRoomCount q env)
      · exact .inr (.joinCount q env)
  | joinRoomCount q env =>
      cases h
      split at ho <;> obtain rfl := List.mem_singleton.mp ho
      · exact .inl rfl
      · exact .inr (.joinLimit q env)
  | joinLimit q env =>
      cases h
      split at ho <;> obtain rfl := List.mem_singleton.mp ho
      · exact .inl rfl
      · exact .inr (.addRoom q env)
  | addRoom q env =>
      cases h
      unfold saltCode at ho
      dsimp only at ho
      split at ho <;> obtain rfl := List.mem_singleton.mp ho
      · exact .inl rfl
      · exact .inr (.storeJoin q env _ _)
  | storeJoin q room jp salt =>
      cases h
      split at ho <;> simp only [announce, List.mem_cons, List.not_mem_nil, or_false] at ho
      · obtain rfl | rfl | rfl := ho
        · exact .inl rfl
        · exact .inr (.joined q room jp salt)
        · exact .inl rfl
      · obtain rfl | rfl | rfl | rfl := ho
        · exact .inr (.setNickname q room jp salt _)
        · exact .inl rfl
        · exact .inr (.joined q room jp salt)
        · exact .inl rfl
  | leaveRoom q room =>
      cases h
      obtain rfl := List.mem_singleton.mp ho
      exact .inr (.removeRoom q room)
  | removeRoom q room =>
      cases h
      simp only [announce, List.mem_cons, List.not_mem_nil, or_false] at ho
      obtain rfl | rfl | rfl := ho
      · exact .inl rfl
      · exact .inr (.left q room)
      · exact .inl rfl
  | allow q env =>
      obtain rfl : (allowCode s q env now).2 = ops := congrArg Prod.snd (Option.some.inj h)
      unfold allowCode at ho
      split at ho <;> dsimp only at ho <;> split at ho
      · obtain rfl := List.mem_singleton.mp ho
        exact .inl rfl
      · cases ho
      · split at ho
        · obtain rfl := List.mem_singleton.mp ho
          exact .inl rfl
        · exact .inl (sends_routeCode ho)
      · cases ho
      · obtain rfl := List.mem_singleton.mp ho
        exact .inr (.member q env)
      · obtain rfl := List.mem_singleton.mp ho
        exact .inl rfl
  | member q env =>
      cases h
      split at ho
      · unfold acceptCode at ho
        split at ho
        · obtain rfl := List.mem_singleton.mp ho
          exact .inr (.allow q env)
        · obtain rfl := List.mem_singleton.mp ho
          exact .inr (.allow q env)
        · obtain rfl := List.mem_singleton.mp ho
          exact .inl rfl
        · exact .inl (sends_routeCode ho)
        · exact .inl (sends_routeCode ho)
        · exact .inl (sends_routeCode ho)
        · simp only [List.mem_cons, List.not_mem_nil, or_false] at ho
          obtain rfl | rfl := ho <;> exact .inl rfl
      · obtain rfl := List.mem_singleton.mp ho
        exact .inl rfl
  | roomList q =>
      cases h
      obtain rfl := List.mem_singleton.mp ho
      exact .inl rfl
  | dropPeer q =>
      obtain ⟨henum, h⟩ := Option.ite_none_right_eq_some.mp h
      cases h
      obtain ⟨room, hroom, ho⟩ := List.mem_flatMap.mp ho
      simp only [leaveCode, List.mem_cons, List.not_mem_nil, or_false] at ho
      obtain rfl | rfl | rfl := ho
      · exact .inr (.leaveStore q room (henum.mem_iff.mp hroom))
      · exact .inl rfl
      · exact .inl rfl
  | roomPeers room =>
      obtain ⟨-, h⟩ := Option.ite_none_right_eq_some.mp h
      cases h
      obtain ⟨q, -, rfl⟩ := List.mem_map.mp ho
      exact .inr (.detach room q)
  | detach room q =>
      cases h
      split at ho <;> simp only [List.mem_cons, List.not_mem_nil, or_false] at ho
      · obtain rfl | rfl := ho
        · exact .inr (.detached room q)
        · next hlast => exact .inr (.closeSend room q hlast)
      · rw [ho]
        exact .inr (.detached room q)
  | expiredRooms =>
      obtain ⟨-, h⟩ := Option.ite_none_right_eq_some.mp h
      cases h
      obtain ⟨room, -, ho⟩ := List.mem_flatMap.mp ho
      simp only [expireCode, List.mem_cons, List.not_mem_nil, or_false] at ho
      obtain rfl | rfl | rfl := ho
      · exact .inl rfl
      · exact .inr (.roomPeers room)
      · exact .inr (.sweep room _)
  | register q => cases h; cases ho
  | setNickname q room nick => cases h; cases ho
  | forget limiter q => cases h; cases ho
  | leaveStore room q => cases h; cases ho
  | sweep room dummy => cases h; cases ho
  | deferCleanup q => cases h
  | handlerReturn q => cases h
  | closeSend q => cases h
  | _ => exact .inl (sends_of_execute h rfl o ho)

theorem message_iff :
    op.message p = true ↔ op.sends = true ∨ (op.owner = some p ∧ ∀ q, op ≠ .register q ∧
      op ≠ .deferCleanup q) := by
  cases op <;> simp [Op.message, Op.sends, Op.owner]

theorem messages_of_execute (h : execute rt s order now op = some (s', ops))
    (hop : op.message p = true) : Messages p ops := by
  obtain hsend | ⟨howner, hne⟩ := message_iff.mp hop
  · have hall := sends_of_execute h hsend
    exact ⟨fun o ho => message_of_sends (hall o ho),
      fun o ho => late_of_sends (hall o (List.mem_of_mem_tail ho))⟩
  cases op with
  | joinCount q env =>
      cases h
      cases howner
      split <;> exact messages_single (by simp [Op.message, Op.owner])
  | joinRoomCount q env =>
      cases h
      cases howner
      split
      · exact messages_enqueue _
      · exact messages_single (by simp [Op.message, Op.owner])
  | joinLimit q env =>
      cases h
      cases howner
      split
      · exact messages_enqueue _
      · exact messages_single (by simp [Op.message, Op.owner])
  | addRoom q env =>
      cases h
      cases howner
      exact messages_saltCode env
  | storeJoin q room jp salt =>
      cases h
      cases howner
      split
      · exact messages_announce _
      · exact ⟨by simp [announce, Op.message, Op.sends, Op.owner],
          by simp [announce, Op.late, Op.sends]⟩
  | setNickname q room nick => cases h; exact messages_nil
  | leaveRoom q room =>
      cases h
      cases howner
      exact messages_single (by simp [Op.message, Op.owner])
  | removeRoom q room =>
      cases h
      cases howner
      exact messages_announce _
  | allow q env =>
      cases howner
      obtain rfl : (allowCode s p env now).2 = ops := congrArg Prod.snd (Option.some.inj h)
      exact messages_allowCode env
  | member q env =>
      cases h
      cases howner
      split
      · exact messages_acceptCode env
      · exact messages_enqueue _
  | roomList q => cases h; exact messages_enqueue _
  | register q => exact absurd rfl (hne q).1
  | deferCleanup q => exact absurd rfl (hne q).2
  | _ => cases howner

/-- The operations of a cleanup's loop lead to sends only. -/
theorem walk_of_execute (h : execute rt s order now op = some (s', ops))
    (hop : op.walk p = true) : ∀ o ∈ ops, o.walk p = true := by
  have hwalk : ∀ o : Op, o.sends = true → o.walk p = true := by
    intro o ho
    cases o <;> first | rfl | exact absurd ho (by simp [Op.sends])
  cases op with
  | leaveStore room q => cases h; simp
  | _ => exact fun o ho => hwalk o (sends_of_execute h hop o ho)

/-- The loop that a cleanup goes into. -/
theorem walk_leaveCode {o : Op} (ho : o ∈ leaveCode p now room) : o.walk p = true := by
  simp only [leaveCode, List.mem_cons, List.not_mem_nil, or_false] at ho
  obtain rfl | rfl | rfl := ho
  · simp [Op.walk]
  · rfl
  · rfl

/-- The operations of a goroutine that is not a connection's handler. -/
def Services (code : List Op) : Prop :=
  (∀ o ∈ code, o.service = true) ∧ ∀ o ∈ code.tail, o.leaves = false

theorem services_of_execute (h : execute rt s order now op = some (s', ops))
    (hop : op.service = true) : Services ops := by
  have hsends : ∀ o : Op, o.sends = true → o.service = true ∧ o.leaves = false := by
    intro o ho
    cases o <;> first | exact ⟨rfl, rfl⟩ | exact absurd ho (by simp [Op.sends])
  cases op with
  | roomPeers room =>
      obtain ⟨-, h⟩ := Option.ite_none_right_eq_some.mp h
      cases h
      refine ⟨by simp [Op.service], fun o ho => ?_⟩
      obtain ⟨q, -, rfl⟩ := List.mem_map.mp (List.mem_of_mem_tail ho)
      rfl
  | detach room q =>
      cases h
      split <;> exact ⟨by simp [Op.service], by simp [Op.leaves]⟩
  | leaveStore room q => cases h; exact ⟨by simp, by simp⟩
  | sweep room dummy => cases h; exact ⟨by simp, by simp⟩
  | closeSend q => cases h
  | expiredRooms =>
      obtain ⟨-, h⟩ := Option.ite_none_right_eq_some.mp h
      cases h
      have hall : ∀ o ∈ order.flatMap (expireCode now), o.service = true ∧ o.leaves = false := by
        intro o ho
        obtain ⟨room, -, ho⟩ := List.mem_flatMap.mp ho
        simp only [expireCode, List.mem_cons, List.not_mem_nil, or_false] at ho
        obtain rfl | rfl | rfl := ho <;> exact ⟨rfl, rfl⟩
      exact ⟨fun o ho => (hall o ho).1, fun o ho => (hall o (List.mem_of_mem_tail ho)).2⟩
  | _ =>
      have hall := sends_of_execute h hop
      exact ⟨fun o ho => (hsends o (hall o ho)).1,
        fun o ho => (hsends o (hall o (List.mem_of_mem_tail ho))).2⟩

/-- Something is sent to peers that are registered, or to a handler's own peer. -/
theorem enqueue_of_execute {env : Envelope} (h : execute rt s order now op = some (s', ops))
    (hq : .enqueue q env ∈ ops) : q ∈ s.conns ∨ op.owner = some q := by
  cases op with
  | broadcastConns peers e =>
      obtain ⟨henum, h⟩ := Option.ite_none_right_eq_some.mp h
      cases h
      obtain ⟨r, hr, heq⟩ := List.mem_map.mp hq
      cases heq
      exact .inl (Finset.mem_inter.mp (henum.mem_iff.mp hr)).2
  | signalTarget e =>
      cases h
      split at hq
      · rename_i htarget
        simp only [List.mem_singleton, Op.enqueue.injEq] at hq
        exact .inl (hq.1 ▸ htarget.1)
      · simp at hq
  | dropPeer r =>
      obtain ⟨-, h⟩ := Option.ite_none_right_eq_some.mp h
      cases h
      simp [leaveCode] at hq
  | roomPeers r =>
      obtain ⟨-, h⟩ := Option.ite_none_right_eq_some.mp h
      cases h
      simp at hq
  | expiredRooms =>
      obtain ⟨-, h⟩ := Option.ite_none_right_eq_some.mp h
      cases h
      simp [expireCode] at hq
  | allow r e =>
      obtain rfl : (allowCode s r e now).2 = ops := congrArg Prod.snd (Option.some.inj h)
      exact .inr (congrArg some (enqueue_allowCode hq).symm)
  | addRoom r e =>
      cases h
      exact .inr (congrArg some (enqueue_saltCode hq).symm)
  | member r e =>
      cases h
      split at hq
      · exact absurd hq enqueue_acceptCode
      · simp_all [Op.owner]
  | storeJoin r room jp salt =>
      cases h
      split at hq <;> simp [announce] at hq
  | removeRoom r room => cases h; simp [announce] at hq
  | enqueue r e => cases h
  | closeSend r => cases h
  | deferCleanup r => cases h
  | handlerReturn r => cases h
  | _ =>
      cases h
      first
        | (split at hq <;> simp_all [Op.owner])
        | simp_all [Op.owner]

/-- Only `disconnectAllPeers` comes to close a queue, for the last room of a
connected peer. -/
theorem closeSend_of_execute (h : execute rt s order now op = some (s', ops))
    (hq : .closeSend q ∈ ops) : ∃ room, op = .detach room q ∧ s.lastRoom room q := by
  obtain hsend | hleads := leads_of_execute h hq
  · cases hsend
  · cases hleads with
    | closeSend room _ hlast => exact ⟨room, rfl, hlast⟩

/-! ### What an operation changes -/

/-- The membership records that the invariants are about. -/
structure Server.SameRecords (s s' : Server) : Prop where
  conns : s'.conns = s.conns
  peerRooms : s'.peerRooms = s.peerRooms
  peers : ∀ room, s'.store.peers room = s.store.peers room

theorem Server.SameRecords.refl (s : Server) : s.SameRecords s := ⟨rfl, rfl, fun _ => rfl⟩

theorem sameRecords_allowCode (env : Envelope) : s.SameRecords (allowCode s p env now).1 := by
  unfold allowCode
  split <;> exact ⟨rfl, rfl, fun _ => rfl⟩

theorem sameRecords_forgetBucket (limiter : Limiter) : s.SameRecords (s.forgetBucket p limiter) := by
  cases limiter <;> exact ⟨rfl, rfl, fun _ => rfl⟩

/-- Operations with an effect on the records. -/
def Op.records : Op → Bool
  | .register _ | .addRoom _ _ | .storeJoin _ _ _ _ | .leaveRoom _ _ | .removeRoom _ _
  | .dropPeer _ | .detach _ _ | .leaveStore _ _ | .sweep _ _ => true
  | _ => false

theorem sameRecords_of_execute (h : execute rt s order now op = some (s', ops))
    (hop : op.records = false) : s.SameRecords s' := by
  cases op with
  | allow p env =>
      obtain rfl : (allowCode s p env now).1 = s' := congrArg Prod.fst (Option.some.inj h)
      exact sameRecords_allowCode env
  | forget limiter p => cases h; exact sameRecords_forgetBucket limiter
  | setNickname p room nick =>
      cases h
      exact ⟨rfl, rfl, fun room' => s.store.peers_setNickname room room' p nick⟩
  | roomPeers room =>
      obtain ⟨-, h⟩ := Option.ite_none_right_eq_some.mp h
      cases h
      exact .refl _
  | expiredRooms =>
      obtain ⟨-, h⟩ := Option.ite_none_right_eq_some.mp h
      cases h
      exact .refl _
  | broadcastConns peers env =>
      obtain ⟨-, h⟩ := Option.ite_none_right_eq_some.mp h
      cases h
      exact .refl _
  | enqueue p env => cases h
  | closeSend p => cases h
  | deferCleanup p => cases h
  | handlerReturn p => cases h
  | _ => first | (cases h; exact .refl _) | cases hop

theorem conns_of_execute (h : execute rt s order now op = some (s', ops)) (hq : q ∈ s'.conns) :
    q ∈ s.conns ∨ op = .register q := by
  cases hop : op.records with
  | false => exact .inl ((sameRecords_of_execute h hop).conns ▸ hq)
  | true =>
      cases op with
      | register p =>
          cases h
          obtain rfl | hq := Finset.mem_insert.mp hq
          · exact .inr rfl
          · exact .inl hq
      | dropPeer p =>
          obtain ⟨-, h⟩ := Option.ite_none_right_eq_some.mp h
          cases h
          exact .inl (Finset.mem_of_mem_erase hq)
      | detach room p => cases h; exact .inl (Server.mem_conns_detach.mp hq).1
      | removeRoom p room => cases h; exact .inl (by simpa using hq)
      | addRoom p env => cases h; exact .inl hq
      | storeJoin p room jp salt => cases h; exact .inl hq
      | leaveRoom p room => cases h; exact .inl hq
      | leaveStore room p => cases h; exact .inl hq
      | sweep room dummy => cases h; exact .inl hq
      | _ => cases hop

/-- A peer without a room set gets one from its own join only. -/
theorem peerRooms_of_execute (h : execute rt s order now op = some (s', ops))
    (hq : s.peerRooms q = none) : s'.peerRooms q = none ∨ ∃ env, op = .addRoom q env := by
  cases hop : op.records with
  | false => exact .inl ((sameRecords_of_execute h hop).peerRooms ▸ hq)
  | true =>
      cases op with
      | addRoom p env =>
          cases h
          by_cases hp : q = p
          · exact .inr ⟨env, by rw [hp]⟩
          · refine .inl ?_
            show Function.update s.peerRooms p _ q = none
            rwa [Function.update_of_ne hp]
      | dropPeer p =>
          obtain ⟨-, h⟩ := Option.ite_none_right_eq_some.mp h
          cases h
          exact .inl (Server.peerRooms_dropPeer_eq_none hq)
      | detach room p => cases h; exact .inl (Server.peerRooms_detach_eq_none hq)
      | removeRoom p room => cases h; exact .inl (Server.peerRooms_removeRoom_eq_none hq)
      | register p => cases h; exact .inl hq
      | storeJoin p room jp salt => cases h; exact .inl hq
      | leaveRoom p room => cases h; exact .inl hq
      | leaveStore room p => cases h; exact .inl hq
      | sweep room dummy => cases h; exact .inl hq
      | _ => cases hop

/-- What takes a room out of a peer's set. -/
theorem roomsOf_of_execute (h : execute rt s order now op = some (s', ops))
    (hq : room ∈ s.roomsOf q) : room ∈ s'.roomsOf q ∨ op = .removeRoom q room ∨
      op = .detach room q ∨ op = .dropPeer q := by
  have hsame : s'.peerRooms = s.peerRooms → room ∈ s'.roomsOf q := by
    intro heq
    rw [Server.roomsOf, heq]
    exact hq
  cases hop : op.records with
  | false => exact .inl (hsame (sameRecords_of_execute h hop).peerRooms)
  | true =>
      cases op with
      | addRoom p env => cases h; exact .inl (Server.mem_roomsOf_addRoom.mpr (.inr hq))
      | removeRoom p r =>
          cases h
          by_cases hp : q = p ∧ room = r
          · exact .inr (.inl (by rw [hp.1, hp.2]))
          · exact .inl (Server.mem_roomsOf_removeRoom.mpr ⟨hp, hq⟩)
      | detach r p =>
          cases h
          by_cases hp : q = p ∧ room = r
          · exact .inr (.inr (.inl (by rw [hp.1, hp.2])))
          · exact .inl (Server.mem_roomsOf_detach.mpr ⟨fun hall => hp ⟨hall.1, hall.2.1⟩, hq⟩)
      | dropPeer p =>
          obtain ⟨-, h⟩ := Option.ite_none_right_eq_some.mp h
          cases h
          by_cases hp : q = p
          · exact .inr (.inr (.inr (by rw [hp])))
          · exact .inl (Server.mem_roomsOf_dropPeer.mpr ⟨hp, hq⟩)
      | register p => cases h; exact .inl hq
      | storeJoin p r jp salt => cases h; exact .inl hq
      | leaveRoom p r => cases h; exact .inl hq
      | leaveStore r p => cases h; exact .inl hq
      | sweep r dummy => cases h; exact .inl hq
      | _ => cases hop

/-- Only a join puts a peer into a room of the store. -/
theorem peers_of_execute (h : execute rt s order now op = some (s', ops))
    (hq : q ∈ s'.store.peers room) : q ∈ s.store.peers room ∨
      ∃ jp salt, op = .storeJoin q room jp salt := by
  cases hop : op.records with
  | false => exact .inl ((sameRecords_of_execute h hop).peers room ▸ hq)
  | true =>
      cases op with
      | storeJoin p r jp salt =>
          cases h
          obtain ⟨rfl, rfl⟩ | hq := Store.mem_peers_joinWithTTL.mp hq
          · exact .inr ⟨jp, salt, rfl⟩
          · exact .inl hq
      | leaveRoom p r => cases h; exact .inl (Store.mem_peers_leave.mp hq).2
      | leaveStore r p => cases h; exact .inl (Store.mem_peers_leave.mp hq).2
      | sweep r dummy => cases h; exact .inl (Store.mem_peers_leave.mp hq).2
      | detach r p => cases h; exact .inl (by simpa using hq)
      | removeRoom p r => cases h; exact .inl (by simpa using hq)
      | dropPeer p =>
          obtain ⟨-, h⟩ := Option.ite_none_right_eq_some.mp h
          cases h
          exact .inl hq
      | register p => cases h; exact .inl hq
      | addRoom p env => cases h; exact .inl hq
      | _ => cases hop

/-! ### What a step does -/

/-- The operations that a goroutine is given to start with. -/
def Op.starts : Task → Op → Bool
  | .handler _, .register _ | .handler _, .enqueue .. | .handler _, .deferCleanup _
  | .handler _, .joinCount .. | .handler _, .leaveRoom .. | .handler _, .allow ..
  | .handler _, .member .. | .handler _, .forget .. | .handler _, .dropPeer _
  | .handler _, .closeSend _ | .handler _, .handlerReturn _ => true
  | .relayReader _, .broadcastPeers .. => true
  | .http _, .roomPeers _ | .http _, .sweep .. | .http _, .broadcastPeers .. => true
  | .ttlLoop, .expiredRooms => true
  | _, _ => false

theorem starts_frameCode {frame : Option Envelope} {o : Op} (ho : o ∈ frameCode rt p frame now) :
    o.starts (.handler p) = true := by
  cases opening_of_mem_frameCode ho <;> rfl

theorem starts_cleanupCode {o : Op} (ho : o ∈ cleanupCode p) : o.starts (.handler p) = true := by
  simp only [cleanupCode, List.mem_cons, List.not_mem_nil, or_false] at ho
  obtain rfl | rfl | rfl | rfl | rfl | rfl := ho <;> rfl

/-- The operations of a goroutine after it has been given others. -/
theorem mem_setCode {s : Process} {t t' : Task} {code : List Op} {o : Op}
    (ho : o ∈ (s.setCode t code).code t') : o ∈ s.code t' ∨ t' = t ∧ o ∈ code := by
  change o ∈ Function.update s.code t code t' at ho
  by_cases ht : t' = t
  · rw [ht, Function.update_self] at ho
    exact .inr ⟨ht, ho⟩
  · rw [Function.update_of_ne ht] at ho
    exact .inl ho

theorem mem_panics {s : Process} {t t' : Task} {o : Op} (ho : o ∈ (s.panics t).code t') :
    o ∈ s.code t' ∨ o.starts t' = true := by
  unfold Process.panics at ho
  split at ho
  · split at ho
    · obtain hold | ⟨rfl, hnew⟩ := mem_setCode ho
      · exact .inl hold
      · exact .inr (starts_cleanupCode hnew)
    · exact .inl ((mem_setCode ho).resolve_right fun h => nomatch h.2)
  · exact .inl ((mem_setCode ho).resolve_right fun h => nomatch h.2)
  · exact .inl ho

theorem code_setCode_of_ne {s : Process} {t t' : Task} {code : List Op} (ht : t' ≠ t) :
    (s.setCode t code).code t' = s.code t' := Function.update_of_ne ht _ _

theorem code_setCode_self {s : Process} {t : Task} {code : List Op} :
    (s.setCode t code).code t = code := Function.update_self _ _ _

theorem code_panics_of_ne {s : Process} {t t' : Task} (ht : t' ≠ t) :
    (s.panics t).code t' = s.code t' := by
  unfold Process.panics
  split
  · split
    · exact code_setCode_of_ne ht
    · exact code_setCode_of_ne ht
  · exact code_setCode_of_ne ht
  · rfl

theorem server_panics (s : Process) (t : Task) : (s.panics t).server = s.server := by
  unfold Process.panics
  split
  · split <;> rfl
  · rfl
  · rfl

/-- A step that leaves the server alone, or the critical section of an operation. -/
def ActCases (rt : GoRuntime) (s : Process) (a : Action) (s' : Process) : Prop :=
  (s'.server = s.server ∧ ∀ t o, o ∈ s'.code t → o ∈ s.code t ∨ o.starts t = true) ∨
  ∃ t order now op rest server ops, a = .run t order now ∧ s.code t = op :: rest ∧
    execute rt s.server order now op = some (server, ops) ∧
    s' = { s with server := server }.setCode t (ops ++ rest)

theorem cases_of_act {s s' : Process} {a : Action} (h : act rt s a = some s') :
    ActCases rt s a s' := by
  have hgiven : ∀ {s'' : Process} {t : Task} {code : List Op}, s''.server = s.server →
      s''.code = s.code → (∀ o ∈ code, o ∈ s.code t ∨ o.starts t = true) →
      ActCases rt s a (s''.setCode t code) := by
    intro s'' t code hserver hcode hnew
    refine .inl ⟨hserver, fun t' o ho => ?_⟩
    obtain hold | ⟨rfl, hcode'⟩ := mem_setCode ho
    · exact .inl (hcode ▸ hold)
    · exact hnew o hcode'
  have hpanics : ∀ {s'' : Process} {t : Task}, s''.server = s.server → s''.code = s.code →
      ActCases rt s a (s''.panics t) := by
    intro s'' t hserver hcode
    refine .inl ⟨(server_panics s'' t).trans hserver, fun t' o ho => ?_⟩
    exact (mem_panics ho).imp_left fun ho => hcode ▸ ho
  cases a with
  | connect p now =>
      simp only [Gateway.act, Option.ite_none_right_eq_some, Option.some.injEq] at h
      obtain ⟨-, rfl⟩ := h
      refine hgiven rfl rfl fun o ho => .inr ?_
      simp only [List.mem_cons, List.not_mem_nil, or_false] at ho
      obtain rfl | rfl | rfl := ho <;> rfl
  | frame p frame now =>
      simp only [Gateway.act, Option.ite_none_right_eq_some, Option.some.injEq] at h
      obtain ⟨-, rfl⟩ := h
      exact hgiven rfl rfl fun o ho => .inr (starts_frameCode ho)
  | readError p =>
      simp only [Gateway.act, Option.ite_none_right_eq_some, Option.some.injEq] at h
      obtain ⟨-, rfl⟩ := h
      exact hgiven rfl rfl fun o ho => .inr (starts_cleanupCode ho)
  | cleanupRequest n room =>
      simp only [Gateway.act, Option.ite_none_right_eq_some, Option.some.injEq] at h
      obtain ⟨-, rfl⟩ := h
      refine hgiven rfl rfl fun o ho => .inr ?_
      simp only [List.mem_cons, List.not_mem_nil, or_false] at ho
      obtain rfl | rfl := ho <;> rfl
  | broadcastRequest n room type payload now =>
      simp only [Gateway.act, Option.ite_none_right_eq_some, Option.some.injEq] at h
      obtain ⟨-, rfl⟩ := h
      exact hgiven rfl rfl fun o ho => .inr (List.mem_singleton.mp ho ▸ rfl)
  | tick =>
      simp only [Gateway.act, Option.ite_none_right_eq_some, Option.some.injEq] at h
      obtain ⟨-, rfl⟩ := h
      exact hgiven rfl rfl fun o ho => .inr (List.mem_singleton.mp ho ▸ rfl)
  | relayed i env =>
      simp only [Gateway.act, Option.ite_none_right_eq_some, Option.some.injEq] at h
      obtain ⟨-, rfl⟩ := h
      exact hgiven rfl rfl fun o ho => .inr (List.mem_singleton.mp ho ▸ rfl)
  | run t order now =>
      cases hcode : s.code t with
      | nil => simp [Gateway.act, hcode] at h
      | cons op rest =>
          simp only [Gateway.act, hcode] at h
          have hrest : ∀ o ∈ rest, o ∈ s.code t ∨ o.starts t = true := fun o ho =>
            .inl (hcode ▸ List.mem_cons_of_mem _ ho)
          cases op with
          | enqueue q env =>
              simp only [Gateway.runOp] at h
              split at h <;> obtain rfl := Option.some.inj h
              · exact hgiven rfl rfl hrest
              · exact hpanics rfl rfl
          | closeSend q =>
              simp only [Gateway.runOp] at h
              split at h <;> obtain rfl := Option.some.inj h
              · exact hgiven rfl rfl hrest
              · exact hpanics rfl rfl
          | deferCleanup q =>
              obtain rfl := Option.some.inj h
              exact hgiven rfl rfl hrest
          | handlerReturn q =>
              obtain rfl := Option.some.inj h
              exact hgiven rfl rfl hrest
          | _ =>
              simp only [Gateway.runOp, Option.map_eq_some_iff] at h
              obtain ⟨⟨server, ops⟩, hexec, rfl⟩ := h
              exact .inr ⟨t, order, now, _, rest, server, ops, rfl, hcode, hexec, rfl⟩

/-- A goroutine's operation leaves the code of the others alone. -/
theorem code_of_run {s s' : Process} {t t' : Task} (ht : t' ≠ t)
    (h : act rt s (.run t order now) = some s') : s'.code t' = s.code t' := by
  cases hcode : s.code t with
  | nil => simp [Gateway.act, hcode] at h
  | cons op rest =>
      simp only [Gateway.act, hcode] at h
      cases op with
      | enqueue q env | closeSend q =>
          simp only [Gateway.runOp] at h
          split at h <;> obtain rfl := Option.some.inj h
          · exact code_setCode_of_ne ht
          · exact code_panics_of_ne ht
      | deferCleanup q | handlerReturn q =>
          obtain rfl := Option.some.inj h
          exact code_setCode_of_ne ht
      | _ =>
          simp only [Gateway.runOp, Option.map_eq_some_iff] at h
          obtain ⟨⟨server, ops⟩, -, rfl⟩ := h
          exact code_setCode_of_ne ht

/-! ### The shape of every goroutine -/

/-- A peer in neither of the gateway's two maps. -/
def Server.Gone (s : Server) (p : PeerID) : Prop := p ∉ s.conns ∧ s.peerRooms p = none

/-- A peer that has left the maps comes back by its own operations only. -/
theorem Server.Gone.of_execute (hgone : s.Gone p)
    (h : execute rt s order now op = some (s', ops)) (howner : op.owner ≠ some p) :
    s'.Gone p := by
  refine ⟨fun hconn => ?_, ?_⟩
  · obtain hconn | rfl := conns_of_execute h hconn
    · exact hgone.1 hconn
    · exact howner rfl
  · obtain hrooms | ⟨env, rfl⟩ := peerRooms_of_execute h hgone.2
    · exact hrooms
    · exact absurd rfl howner

/-- The deferred cleanup up to the section that takes the peer out of the maps. -/
def prologue (p : PeerID) : List Op :=
  [.forget .rl p, .forget .typingRL p, .forget .signalRL p, .dropPeer p]

def epilogue (p : PeerID) : List Op := [.closeSend p, .handlerReturn p]

/-- What a connection's handler has still to do in each of its phases. -/
inductive HandlerShape (s : Server) (p : PeerID) : Phase → List Op → Prop
  | absent : HandlerShape s p .absent []
  | register (env : Envelope) :
      HandlerShape s p .starting [.register p, .enqueue p env, .deferCleanup p]
  | welcome (env : Envelope) : HandlerShape s p .starting [.enqueue p env, .deferCleanup p]
  | deferCleanup : HandlerShape s p .starting [.deferCleanup p]
  | running {code : List Op} (h : Messages p code) : HandlerShape s p .running code
  | leaving {op : Op} {pre : List Op} (h : op :: pre <:+ prologue p) :
      HandlerShape s p .cleanup (op :: pre ++ epilogue p)
  | walking {walk : List Op} (h : ∀ o ∈ walk, o.walk p = true) (hgone : s.Gone p) :
      HandlerShape s p .cleanup (walk ++ epilogue p)
  | closed (hgone : s.Gone p) : HandlerShape s p .cleanup [.handlerReturn p]
  | returned (hgone : s.Gone p) : HandlerShape s p .returned []

theorem HandlerShape.gone {phase : Phase} {code : List Op} (h : HandlerShape s p phase code)
    (hphase : phase = .returned ∨ phase = .cleanup ∧ code = [.handlerReturn p]) : s.Gone p := by
  cases h with
  | closed hg => exact hg
  | returned hg => exact hg
  | walking hwalk hg => exact hg
  | leaving hpre => simp [epilogue] at hphase
  | _ => simp at hphase

/-- What a goroutine has still to do. -/
def Shape (server : Server) (phase : PeerID → Phase) (code : List Op) : Task → Prop
  | .handler p => HandlerShape server p (phase p) code
  | _ => Services code

/-- Before its handler reads messages. -/
def Phase.early : Phase → Bool
  | .absent | .starting => true
  | _ => false

structure Formed (s : Process) : Prop where
  shape : ∀ t, Shape s.server s.phase (s.code t) t
  quiet : ∀ t ∉ s.tasks, s.code t = []
  /-- A peer that has not read a message yet is in no room, and nobody closes its
  queue. -/
  early : ∀ p, (s.phase p).early = true →
    s.server.peerRooms p = none ∧ s.closes p = 0 ∧ ∀ t, .closeSend p ∉ s.code t

theorem HandlerShape.mono {phase : Phase} {code : List Op} (h : HandlerShape s p phase code)
    (hgone : phase = .cleanup ∨ phase = .returned → s.Gone p → s'.Gone p) :
    HandlerShape s' p phase code := by
  cases h with
  | absent => exact .absent
  | register env => exact .register env
  | welcome env => exact .welcome env
  | deferCleanup => exact .deferCleanup
  | running h => exact .running h
  | leaving h => exact .leaving h
  | walking h hg => exact .walking h (hgone (.inl rfl) hg)
  | closed hg => exact .closed (hgone (.inl rfl) hg)
  | returned hg => exact .returned (hgone (.inr rfl) hg)

theorem Services.of_cons {code : List Op} (h : Services (op :: code)) : Services code :=
  ⟨fun o ho => h.1 o (List.mem_cons_of_mem _ ho), fun o ho => h.2 o (List.mem_of_mem_tail ho)⟩

theorem Services.append {code rest : List Op} (h : Services code)
    (hrest : Services (op :: rest)) : Services (code ++ rest) := by
  refine ⟨?_, ?_⟩
  · intro o ho
    rcases List.mem_append.mp ho with ho | ho
    · exact h.1 o ho
    · exact hrest.1 o (List.mem_cons_of_mem _ ho)
  · intro o ho
    cases code with
    | nil => exact hrest.2 o (List.mem_of_mem_tail ho)
    | cons a code =>
        rcases List.mem_append.mp ho with ho | ho
        · exact h.2 o ho
        · exact hrest.2 o ho

theorem owner_of_sends (h : op.sends = true) : op.owner = none := by
  cases op <;> first | rfl | exact absurd h (by simp [Op.sends])

theorem owner_of_walk (h : op.walk p = true) : op.owner = none := by
  cases op with
  | leaveStore room q => rfl
  | _ => exact owner_of_sends h

theorem owner_of_service (h : op.service = true) : op.owner = none := by
  cases op with
  | roomPeers room => rfl
  | detach room q => rfl
  | leaveStore room q => rfl
  | sweep room dummy => rfl
  | closeSend q => rfl
  | expiredRooms => rfl
  | _ => exact owner_of_sends h

theorem owner_of_cleanupCode (h : op ∈ prologue p ++ epilogue p) : op.owner = none := by
  simp only [prologue, epilogue, List.cons_append, List.nil_append, List.mem_cons,
    List.not_mem_nil, or_false] at h
  obtain rfl | rfl | rfl | rfl | rfl | rfl := h <;> rfl

/-- An operation that belongs to a handler before its cleanup is that handler's,
and it is there. -/
theorem HandlerShape.owner {phase : Phase} {code : List Op} (h : HandlerShape s p phase code)
    (hop : op ∈ code) (hq : op.owner = some q) :
    q = p ∧ (phase = .running ∨ phase = .starting ∧ op.message p = false) := by
  have hnone : op.owner ≠ none := by
    rw [hq]
    exact Option.some_ne_none q
  cases h with
  | absent => cases hop
  | register env =>
      simp only [List.mem_cons, List.not_mem_nil, or_false] at hop
      obtain rfl | rfl | rfl := hop
      · exact ⟨(Option.some.inj hq).symm, .inr ⟨rfl, rfl⟩⟩
      · cases hq
      · exact ⟨(Option.some.inj hq).symm, .inr ⟨rfl, rfl⟩⟩
  | welcome env =>
      simp only [List.mem_cons, List.not_mem_nil, or_false] at hop
      obtain rfl | rfl := hop
      · cases hq
      · exact ⟨(Option.some.inj hq).symm, .inr ⟨rfl, rfl⟩⟩
  | deferCleanup =>
      obtain rfl := List.mem_singleton.mp hop
      exact ⟨(Option.some.inj hq).symm, .inr ⟨rfl, rfl⟩⟩
  | running h =>
      obtain hsend | ⟨howner, -⟩ := message_iff.mp (h.1 op hop)
      · exact absurd (owner_of_sends hsend) hnone
      · exact ⟨Option.some.inj (hq.symm.trans howner), .inl rfl⟩
  | leaving hpre =>
      rcases List.mem_append.mp hop with hop | hop
      · exact absurd (owner_of_cleanupCode (List.mem_append_left _ (hpre.subset hop))) hnone
      · exact absurd (owner_of_cleanupCode (List.mem_append_right _ hop)) hnone
  | walking hwalk hgone =>
      rcases List.mem_append.mp hop with hop | hop
      · exact absurd (owner_of_walk (hwalk op hop)) hnone
      · exact absurd (owner_of_cleanupCode (List.mem_append_right _ hop)) hnone
  | closed hgone =>
      obtain rfl := List.mem_singleton.mp hop
      cases hq
  | returned hgone => cases hop

/-- A handler's outstanding `Leave` is its own peer's, in its cleanup. -/
theorem HandlerShape.of_leaveStore {phase : Phase} {code : List Op}
    (h : HandlerShape s p phase code) (hop : .leaveStore room q ∈ code) :
    q = p ∧ phase = .cleanup := by
  cases h with
  | running h => cases h.1 _ hop
  | leaving hpre =>
      rcases List.mem_append.mp hop with hop | hop
      · have hmem := hpre.subset hop
        simp [prologue] at hmem
      · simp [epilogue] at hop
  | walking hwalk hg =>
      rcases List.mem_append.mp hop with hop | hop
      · exact ⟨by simpa [Op.walk] using hwalk _ hop, rfl⟩
      · simp [epilogue] at hop
  | _ => simp at hop

/-- What a handler has to do: sends, operations of its own, or, in the cleanup,
what that is made of. -/
theorem HandlerShape.mem {phase : Phase} {code : List Op} (h : HandlerShape s p phase code)
    (hop : op ∈ code) : op.sends = true ∨ op.owner = some p ∨
      phase = .cleanup ∧ (op ∈ prologue p ++ epilogue p ∨ ∃ room, op = .leaveStore room p) := by
  cases h with
  | absent => cases hop
  | register env =>
      simp only [List.mem_cons, List.not_mem_nil, or_false] at hop
      obtain rfl | rfl | rfl := hop
      · exact .inr (.inl rfl)
      · exact .inl rfl
      · exact .inr (.inl rfl)
  | welcome env =>
      simp only [List.mem_cons, List.not_mem_nil, or_false] at hop
      obtain rfl | rfl := hop
      · exact .inl rfl
      · exact .inr (.inl rfl)
  | deferCleanup =>
      obtain rfl := List.mem_singleton.mp hop
      exact .inr (.inl rfl)
  | running h => exact (message_iff.mp (h.1 op hop)).imp_right fun howner => .inl howner.1
  | leaving hpre =>
      refine .inr (.inr ⟨rfl, .inl ?_⟩)
      exact (List.mem_append.mp hop).elim (fun hop => List.mem_append_left _ (hpre.subset hop))
        (List.mem_append_right _)
  | walking hwalk hgone =>
      rcases List.mem_append.mp hop with hop | hop
      · have hwalks := hwalk op hop
        cases op with
        | leaveStore room q =>
            obtain rfl : q = p := by simpa [Op.walk] using hwalks
            exact .inr (.inr ⟨rfl, .inr ⟨room, rfl⟩⟩)
        | _ => exact .inl hwalks
      · exact .inr (.inr ⟨rfl, .inl (List.mem_append_right _ hop)⟩)
  | closed hgone =>
      obtain rfl := List.mem_singleton.mp hop
      exact .inr (.inr ⟨rfl, .inl (by simp [epilogue])⟩)
  | returned hgone => cases hop

theorem HandlerShape.messages {code : List Op} (h : HandlerShape s p .running code) :
    Messages p code := by
  cases h with
  | running h => exact h

/-- What a handler comes to have to do after an operation. -/
theorem HandlerShape.of_execute {phase : Phase} {rest : List Op}
    (h : HandlerShape s p phase (op :: rest)) (hexec : execute rt s order now op = some (s', ops)) :
    HandlerShape s' p phase (ops ++ rest) := by
  generalize hcode : op :: rest = code at h
  cases h with
  | absent => cases hcode
  | register env =>
      obtain ⟨rfl, rfl⟩ := List.cons.inj hcode
      cases hexec
      exact .welcome env
  | welcome env =>
      obtain ⟨rfl, rfl⟩ := List.cons.inj hcode
      cases hexec
  | deferCleanup =>
      obtain ⟨rfl, rfl⟩ := List.cons.inj hcode
      cases hexec
  | running h =>
      subst hcode
      refine .running ((messages_of_execute hexec (h.1 op List.mem_cons_self)).append ?_)
      exact fun o ho => ⟨h.1 o (List.mem_cons_of_mem _ ho), h.2 o ho⟩
  | leaving hpre =>
      obtain ⟨rfl, rfl⟩ := List.cons.inj hcode
      simp only [prologue, List.suffix_cons_iff, List.cons.injEq, List.suffix_nil,
        reduceCtorEq, or_false] at hpre
      obtain ⟨rfl, rfl⟩ | ⟨rfl, rfl⟩ | ⟨rfl, rfl⟩ | ⟨rfl, rfl⟩ := hpre
      · cases hexec
        exact .leaving (List.suffix_cons _ _)
      · cases hexec
        exact .leaving ((List.suffix_cons _ _).trans (List.suffix_cons _ _))
      · cases hexec
        exact .leaving (((List.suffix_cons _ _).trans (List.suffix_cons _ _)).trans
          (List.suffix_cons _ _))
      · obtain ⟨-, hexec⟩ := Option.ite_none_right_eq_some.mp hexec
        cases hexec
        refine .walking (fun o ho => ?_) ⟨by simp, by simp [Server.dropPeer]⟩
        obtain ⟨room, -, ho⟩ := List.mem_flatMap.mp ho
        exact walk_leaveCode ho
  | walking hwalk hg =>
      rename_i walk
      cases walk with
      | nil =>
          obtain ⟨rfl, rfl⟩ := List.cons.inj hcode
          cases hexec
      | cons o walk =>
          obtain ⟨rfl, rfl⟩ := List.cons.inj hcode
          have hop := hwalk op List.mem_cons_self
          have hg' := hg.of_execute hexec (by simp [owner_of_walk hop])
          show HandlerShape s' p .cleanup (ops ++ (walk ++ epilogue p))
          rw [← List.append_assoc]
          refine .walking (fun o ho => ?_) hg'
          rcases List.mem_append.mp ho with ho | ho
          · exact walk_of_execute hexec hop o ho
          · exact hwalk o (List.mem_cons_of_mem _ ho)
  | closed hg =>
      obtain ⟨rfl, rfl⟩ := List.cons.inj hcode
      cases hexec
  | returned hg => cases hcode

/-- What any goroutine comes to have to do after an operation. -/
theorem Shape.of_execute {phase : PeerID → Phase} {t : Task} {rest : List Op}
    (h : Shape s phase (op :: rest) t) (hexec : execute rt s order now op = some (s', ops)) :
    Shape s' phase (ops ++ rest) t := by
  cases t with
  | handler p => exact HandlerShape.of_execute h hexec
  | relayReader i => exact (services_of_execute hexec (h.1 op List.mem_cons_self)).append h
  | http n => exact (services_of_execute hexec (h.1 op List.mem_cons_self)).append h
  | ttlLoop => exact (services_of_execute hexec (h.1 op List.mem_cons_self)).append h

/-! ### Every step keeps the shape -/

section
variable {s s' : Process} {t : Task} {rest : List Op}

theorem Formed.owner (hs : Formed s) (hop : op ∈ s.code t) (hq : op.owner = some q) :
    t = .handler q ∧
      (s.phase q = .running ∨ s.phase q = .starting ∧ op.message q = false) := by
  have hshape := hs.shape t
  cases t with
  | handler p =>
      obtain ⟨rfl, hphase⟩ := HandlerShape.owner hshape hop hq
      exact ⟨rfl, hphase⟩
  | relayReader i => exact absurd (owner_of_service (hshape.1 op hop)) (by simp [hq])
  | http n => exact absurd (owner_of_service (hshape.1 op hop)) (by simp [hq])
  | ttlLoop => exact absurd (owner_of_service (hshape.1 op hop)) (by simp [hq])

theorem Formed.mem_tasks (hs : Formed s) (h : op ∈ s.code t) : t ∈ s.tasks := by
  by_contra ht
  rw [hs.quiet t ht] at h
  cases h

/-- One goroutine is given something to do. -/
theorem Formed.assign (hs : Formed s) {phase : PeerID → Phase} {code : List Op}
    (hphase : ∀ p, .handler p ≠ t → phase p = s.phase p) (hself : Shape s.server phase code t)
    (hearly : ∀ p, (phase p).early = true → (s.phase p).early = true ∧ .closeSend p ∉ code) :
    Formed ({ s with phase := phase }.setCode t code) where
  shape := by
    intro t'
    show Shape s.server phase (Function.update s.code t code t') t'
    by_cases ht : t' = t
    · rw [ht, Function.update_self]
      exact hself
    · rw [Function.update_of_ne ht]
      have hshape := hs.shape t'
      cases t' with
      | handler p =>
          show HandlerShape s.server p (phase p) _
          rw [hphase p ht]
          exact hshape
      | relayReader i => exact hshape
      | http n => exact hshape
      | ttlLoop => exact hshape
  quiet := by
    intro t' ht'
    have hne : t' ∉ insert t s.tasks := ht'
    rw [Finset.mem_insert, not_or] at hne
    exact (Function.update_of_ne hne.1 _ _).trans (hs.quiet t' hne.2)
  early := by
    intro p hp
    obtain ⟨hold, hcode⟩ := hearly p hp
    obtain ⟨hrooms, hcloses, hnone⟩ := hs.early p hold
    refine ⟨hrooms, hcloses, fun t' => ?_⟩
    show .closeSend p ∉ Function.update s.code t code t'
    by_cases ht : t' = t
    · rwa [ht, Function.update_self]
    · rw [Function.update_of_ne ht]
      exact hnone t'

/-- A goroutine that keeps its phase is given something to do. -/
theorem Formed.setCode (hs : Formed s) {code : List Op}
    (hself : Shape s.server s.phase code t)
    (hclose : ∀ p, .closeSend p ∈ code → (s.phase p).early = false) : Formed (s.setCode t code) := by
  refine hs.assign (fun _ _ => rfl) hself fun p hp => ⟨hp, fun hmem => ?_⟩
  rw [hclose p hmem] at hp
  cases hp

/-- A handler goes into another phase. -/
theorem Formed.setPhase (hs : Formed s) {phase : Phase} {code : List Op}
    (hself : HandlerShape s.server p phase code)
    (hearly : phase.early = true → (s.phase p).early = true)
    (hclose : ∀ q, .closeSend q ∈ code → q = p ∧ phase.early = false) :
    Formed ((s.setPhase p phase).setCode (.handler p) code) := by
  show Formed ({ s with phase := Function.update s.phase p phase }.setCode (.handler p) code)
  apply hs.assign
  · intro q hq
    exact Function.update_of_ne (fun h => hq (by rw [h])) _ _
  · show HandlerShape s.server p (Function.update s.phase p phase p) code
    rwa [Function.update_self]
  · intro q hq
    by_cases hqp : q = p
    · subst hqp
      rw [Function.update_self] at hq
      refine ⟨hearly hq, fun hmem => ?_⟩
      rw [(hclose q hmem).2] at hq
      cases hq
    · rw [Function.update_of_ne hqp] at hq
      exact ⟨hq, fun hmem => hqp (hclose q hmem).1⟩

/-- A queue is closed by a goroutine that was about to. -/
theorem Formed.close (hs : Formed s) (hop : .closeSend p ∈ s.code t) : Formed (s.close p) where
  shape := hs.shape
  quiet := hs.quiet
  early := by
    intro q hq
    obtain ⟨hrooms, hcloses, hnone⟩ := hs.early q hq
    have hqp : q ≠ p := by
      rintro rfl
      exact hnone t hop
    exact ⟨hrooms, (Function.update_of_ne hqp _ _).trans hcloses, hnone⟩

theorem Formed.not_early (hs : Formed s) (h : .closeSend p ∈ s.code t) :
    (s.phase p).early = false := by
  cases hearly : (s.phase p).early with
  | false => rfl
  | true => exact absurd h ((hs.early p hearly).2.2 t)

/-- A goroutine makes an operation on the gateway's state. -/
theorem Formed.serve (hs : Formed s) {server : Server} (hcode : s.code t = op :: rest)
    (hexec : execute rt s.server order now op = some (server, ops)) :
    Formed ({ s with server := server }.setCode t (ops ++ rest)) := by
  have hop : op ∈ s.code t := by
    rw [hcode]
    exact List.mem_cons_self
  have hserver : Formed { s with server := server } := by
    refine ⟨fun t' => ?_, hs.quiet, fun p hp => ?_⟩
    · have hshape := hs.shape t'
      cases t' with
      | handler p =>
          refine HandlerShape.mono hshape fun hphase hgone => ?_
          refine hgone.of_execute hexec fun howner => ?_
          -- an operation of the peer's own handler is made before its cleanup
          obtain ⟨-, hrun | ⟨hrun, -⟩⟩ := hs.owner hop howner <;> simp [hrun] at hphase
      | relayReader i => exact hshape
      | http n => exact hshape
      | ttlLoop => exact hshape
    · obtain ⟨hrooms, hcloses, hnone⟩ := hs.early p hp
      refine ⟨?_, hcloses, hnone⟩
      obtain h | ⟨env, rfl⟩ := peerRooms_of_execute hexec hrooms
      · exact h
      · have hrun := (hs.owner hop (q := p) rfl).2
        simp only [Op.message, Op.owner, beq_self_eq_true, Bool.or_true, Bool.true_eq_false,
          and_false, or_false] at hrun
        rw [show s.phase p = .running from hrun] at hp
        cases hp
  have hshape : Shape s.server s.phase (op :: rest) t := hcode ▸ hs.shape t
  refine hserver.setCode (hshape.of_execute hexec) fun p hp => ?_
  show (s.phase p).early = false
  rcases List.mem_append.mp hp with hp | hp
  · -- the room was the last one of a peer that has rooms
    obtain ⟨room, -, hlast⟩ := closeSend_of_execute hexec hp
    cases hearly : (s.phase p).early with
    | false => rfl
    | true =>
        have hsome := hlast.2
        rw [(hs.early p hearly).1] at hsome
        cases hsome
  · refine hs.not_early (t := t) ?_
    rw [hcode]
    exact List.mem_cons_of_mem _ hp

/-- A handler that has sent a message. -/
theorem HandlerShape.of_enqueue {server : Server} {phase : Phase} {env : Envelope}
    (h : HandlerShape server p phase (.enqueue q env :: rest)) :
    HandlerShape server p phase rest ∧ (phase = .running ∨ phase = .starting ∧ q = p ∨
      server.Gone p) := by
  generalize hcode : Op.enqueue q env :: rest = code at h
  cases h with
  | absent => cases hcode
  | register env => cases hcode
  | welcome env =>
      obtain ⟨heq, rfl⟩ := List.cons.inj hcode
      cases heq
      exact ⟨.deferCleanup, .inr (.inl ⟨rfl, rfl⟩)⟩
  | deferCleanup => cases hcode
  | running h =>
      subst hcode
      refine ⟨.running ⟨fun o ho => h.1 o (List.mem_cons_of_mem _ ho), fun o ho => ?_⟩, .inl rfl⟩
      exact h.2 o (List.mem_of_mem_tail ho)
  | leaving hpre =>
      obtain ⟨rfl, rfl⟩ := List.cons.inj hcode
      simp [prologue, List.suffix_cons_iff] at hpre
  | walking hwalk hg =>
      rename_i walk
      cases walk with
      | nil => cases hcode
      | cons o walk =>
          obtain ⟨rfl, rfl⟩ := List.cons.inj hcode
          exact ⟨.walking (fun o ho => hwalk o (List.mem_cons_of_mem _ ho)) hg, .inr (.inr hg)⟩
  | closed hg => cases hcode
  | returned hg => cases hcode

/-- The operations between the phases of a handler are about its own peer, and stand at the
end of what it has still to do. -/
theorem HandlerShape.of_turn {server : Server} {phase : Phase} {op : Op}
    (h : HandlerShape server p phase (op :: rest))
    (hop : op = .deferCleanup q ∨ op = .closeSend q ∨ op = .handlerReturn q) :
    op = .deferCleanup p ∧ rest = [] ∨
      (op = .closeSend p ∧ rest = [.handlerReturn p] ∨ op = .handlerReturn p ∧ rest = []) ∧
        phase = .cleanup ∧ server.Gone p := by
  generalize hcode : op :: rest = code at h
  cases h with
  | absent => cases hcode
  | register env =>
      obtain ⟨rfl, -⟩ := List.cons.inj hcode
      simp at hop
  | welcome env =>
      obtain ⟨rfl, -⟩ := List.cons.inj hcode
      simp at hop
  | deferCleanup =>
      obtain ⟨rfl, rfl⟩ := List.cons.inj hcode
      exact .inl ⟨rfl, rfl⟩
  | running h =>
      subst hcode
      have hmessage := h.1 _ List.mem_cons_self
      obtain rfl | rfl | rfl := hop <;> cases hmessage
  | leaving hpre =>
      obtain ⟨rfl, rfl⟩ := List.cons.inj hcode
      obtain rfl | rfl | rfl := hop <;> simp [prologue, List.suffix_cons_iff] at hpre
  | walking hwalk hg =>
      rename_i walk
      cases walk with
      | nil =>
          obtain ⟨rfl, rfl⟩ := List.cons.inj hcode
          exact .inr ⟨.inl ⟨rfl, rfl⟩, rfl, hg⟩
      | cons o walk =>
          obtain ⟨rfl, rfl⟩ := List.cons.inj hcode
          have hwalks := hwalk _ List.mem_cons_self
          obtain rfl | rfl | rfl := hop <;> cases hwalks
  | closed hg =>
      obtain ⟨rfl, rfl⟩ := List.cons.inj hcode
      exact .inr ⟨.inr ⟨rfl, rfl⟩, rfl, hg⟩
  | returned hg => cases hcode

/-- A handler comes to close a queue, its own, at the end of its cleanup. -/
theorem HandlerShape.of_closeSend {server : Server} {phase : Phase}
    (h : HandlerShape server p phase (.closeSend q :: rest)) :
    q = p ∧ phase = .cleanup ∧ rest = [.handlerReturn p] ∧ server.Gone p := by
  obtain ⟨heq, -⟩ | ⟨⟨heq, hrest⟩ | ⟨heq, -⟩, hphase, hg⟩ := h.of_turn (.inr (.inl rfl))
  · cases heq
  · exact ⟨Op.closeSend.inj heq, hphase, hrest, hg⟩
  · cases heq

theorem HandlerShape.of_deferCleanup {server : Server} {phase : Phase}
    (h : HandlerShape server p phase (.deferCleanup q :: rest)) : q = p ∧ rest = [] := by
  obtain ⟨heq, hrest⟩ | ⟨⟨heq, -⟩ | ⟨heq, -⟩, -⟩ := h.of_turn (.inl rfl)
  · exact ⟨Op.deferCleanup.inj heq, hrest⟩
  · cases heq
  · cases heq

theorem HandlerShape.of_handlerReturn {server : Server} {phase : Phase}
    (h : HandlerShape server p phase (.handlerReturn q :: rest)) :
    q = p ∧ phase = .cleanup ∧ rest = [] ∧ server.Gone p := by
  obtain ⟨heq, -⟩ | ⟨⟨heq, -⟩ | ⟨heq, hrest⟩, hphase, hg⟩ := h.of_turn (.inr (.inr rfl))
  · cases heq
  · cases heq
  · exact ⟨Op.handlerReturn.inj heq, hphase, hrest, hg⟩

/-- A goroutine panics on a queue. -/
theorem Formed.panics (hs : Formed s)
    (h : ∀ p, t = .handler p → s.phase p ≠ .running → s.server.Gone p) : Formed (s.panics t) := by
  cases t with
  | handler p =>
      show Formed (if s.phase p = .running then _ else _)
      split
      · refine hs.setPhase (.leaving (List.suffix_refl _)) (fun h => by cases h) fun q hq => ?_
        simpa [cleanupCode, Phase.early] using hq
      · rename_i hphase
        exact hs.setPhase (.returned (h p rfl hphase)) (fun h => by cases h) (by simp)
  | http n => exact hs.setCode ⟨by simp, by simp⟩ (by simp)
  | relayReader i => exact ⟨hs.shape, hs.quiet, hs.early⟩
  | ttlLoop => exact ⟨hs.shape, hs.quiet, hs.early⟩

/-- **Every operation keeps the shape of the goroutines.** -/
theorem Formed.runOp (hs : Formed s) (hcode : s.code t = op :: rest)
    (h : runOp rt s t rest order now op = some s') : Formed s' := by
  have hop : op ∈ s.code t := by
    rw [hcode]
    exact List.mem_cons_self
  have hshape : Shape s.server s.phase (op :: rest) t := hcode ▸ hs.shape t
  have hclose : ∀ p, .closeSend p ∈ rest → (s.phase p).early = false := by
    intro p hp
    refine hs.not_early (t := t) ?_
    rw [hcode]
    exact List.mem_cons_of_mem _ hp
  cases op with
  | enqueue q env =>
      simp only [Gateway.runOp] at h
      split at h
      · obtain rfl := Option.some.inj h
        apply hs.setCode _ hclose
        cases t with
        | handler p => exact (HandlerShape.of_enqueue hshape).1
        | _ => exact Services.of_cons hshape
      · rename_i hclosed
        obtain rfl := Option.some.inj h
        have hs' : Formed { s with sentClosed := true } := ⟨hs.shape, hs.quiet, hs.early⟩
        refine hs'.panics ?_
        rintro p rfl hphase
        obtain hrun | ⟨hstart, rfl⟩ | hgone := (HandlerShape.of_enqueue hshape).2
        · exact absurd hrun hphase
        · exact absurd (hs.early q (by rw [hstart]; rfl)).2.1 hclosed
        · exact hgone
  | closeSend q =>
      simp only [Gateway.runOp] at h
      have hs' : Formed (s.close q) := hs.close hop
      split at h
      · obtain rfl := Option.some.inj h
        apply hs'.setCode _ hclose
        cases t with
        | handler p =>
            obtain ⟨-, hphase, rfl, hgone⟩ := HandlerShape.of_closeSend hshape
            show HandlerShape s.server p (s.phase p) [.handlerReturn p]
            rw [hphase]
            exact .closed hgone
        | _ => exact Services.of_cons hshape
      · obtain rfl := Option.some.inj h
        refine hs'.panics ?_
        rintro p rfl -
        exact (HandlerShape.of_closeSend hshape).2.2.2
  | deferCleanup q =>
      simp only [Gateway.runOp, Option.some.injEq] at h
      subst h
      obtain ⟨rfl, -⟩ := hs.owner hop (q := q) rfl
      obtain ⟨-, rfl⟩ := HandlerShape.of_deferCleanup hshape
      exact hs.setPhase (.running messages_nil) (fun h => by cases h) (by simp)
  | handlerReturn q =>
      simp only [Gateway.runOp, Option.some.injEq] at h
      subst h
      cases t with
      | handler p =>
          obtain ⟨rfl, -, rfl, hgone⟩ := HandlerShape.of_handlerReturn hshape
          exact hs.setPhase (.returned hgone) (fun h => by cases h) (by simp)
      | _ => cases hshape.1 _ List.mem_cons_self
  | _ =>
      simp only [Gateway.runOp, Option.map_eq_some_iff] at h
      obtain ⟨⟨server, ops⟩, hexec, rfl⟩ := h
      exact hs.serve hcode hexec

theorem Formed.act {a : Action} (hs : Formed s) (h : act rt s a = some s') : Formed s' := by
  cases a with
  | connect p now =>
      simp only [Gateway.act, Option.ite_none_right_eq_some, Option.some.injEq] at h
      obtain ⟨hphase, rfl⟩ := h
      exact hs.setPhase (.register _) (fun _ => by rw [hphase]; rfl) (by simp)
  | frame p frame now =>
      simp only [Gateway.act, Option.ite_none_right_eq_some, Option.some.injEq] at h
      obtain ⟨⟨hphase, -⟩, rfl⟩ := h
      have hmessages : Messages p (frameCode rt p frame now) := messages_frameCode frame
      apply hs.setCode
      · show HandlerShape s.server p (s.phase p) _
        rw [hphase]
        exact .running hmessages
      · intro q hq
        cases hmessages.1 _ hq
  | readError p =>
      simp only [Gateway.act, Option.ite_none_right_eq_some, Option.some.injEq] at h
      obtain ⟨-, rfl⟩ := h
      refine hs.setPhase (.leaving (List.suffix_refl _)) (fun h => by cases h) fun q hq => ?_
      simpa [cleanupCode, Phase.early] using hq
  | cleanupRequest n room =>
      simp only [Gateway.act, Option.ite_none_right_eq_some, Option.some.injEq] at h
      obtain ⟨-, rfl⟩ := h
      exact hs.setCode ⟨by simp [Op.service], by simp [Op.leaves]⟩ (by simp)
  | broadcastRequest n room type payload now =>
      simp only [Gateway.act, Option.ite_none_right_eq_some, Option.some.injEq] at h
      obtain ⟨-, rfl⟩ := h
      exact hs.setCode ⟨by simp [Op.service, Op.sends], by simp⟩ (by simp)
  | tick =>
      simp only [Gateway.act, Option.ite_none_right_eq_some, Option.some.injEq] at h
      obtain ⟨-, rfl⟩ := h
      exact hs.setCode ⟨by simp [Op.service], by simp⟩ (by simp)
  | relayed i env =>
      simp only [Gateway.act, Option.ite_none_right_eq_some, Option.some.injEq] at h
      obtain ⟨-, rfl⟩ := h
      exact hs.setCode ⟨by simp [Op.service, Op.sends], by simp⟩ (by simp)
  | run t order now =>
      cases hcode : s.code t with
      | nil => simp [Gateway.act, hcode] at h
      | cons op rest =>
          simp only [Gateway.act, hcode] at h
          exact hs.runOp hcode h

/-- What is asked of a goroutine is asked of one that has nothing to do. -/
theorem Formed.idle (hs : Formed s) {a : Action} (ha : ∀ t order now, a ≠ .run t order now)
    (h : Gateway.act rt s a = some s') (t : Task) : s'.code t = s.code t ∨ s.code t = [] := by
  have hgiven : ∀ {s'' : Process} {t' : Task} {code : List Op}, s''.code = s.code →
      s.code t' = [] → (s''.setCode t' code).code t = s.code t ∨ s.code t = [] := by
    intro s'' t' code hcode hidle
    by_cases ht : t = t'
    · exact .inr (ht ▸ hidle)
    · rw [code_setCode_of_ne ht, hcode]
      exact .inl rfl
  cases a with
  | connect p now =>
      simp only [Gateway.act, Option.ite_none_right_eq_some, Option.some.injEq] at h
      obtain ⟨hphase, rfl⟩ := h
      refine hgiven rfl ?_
      have hshape : HandlerShape s.server p (s.phase p) (s.code (.handler p)) := hs.shape (.handler p)
      rw [hphase] at hshape
      generalize s.code (.handler p) = code at hshape ⊢
      cases hshape
      rfl
  | run t order now => exact absurd rfl (ha t order now)
  | frame p frame now | readError p =>
      simp only [Gateway.act, Option.ite_none_right_eq_some, Option.some.injEq] at h
      obtain ⟨⟨-, hidle⟩, rfl⟩ := h
      exact hgiven rfl hidle
  | broadcastRequest n room type payload now =>
      simp only [Gateway.act, Option.ite_none_right_eq_some, Option.some.injEq] at h
      obtain ⟨⟨hidle, -⟩, rfl⟩ := h
      exact hgiven rfl hidle
  | cleanupRequest n room | tick | relayed i env =>
      simp only [Gateway.act, Option.ite_none_right_eq_some, Option.some.injEq] at h
      obtain ⟨hidle, rfl⟩ := h
      exact hgiven rfl hidle

theorem formed_newProcess : Formed newProcess where
  shape := by
    intro t
    cases t with
    | handler p => exact .absent
    | _ => exact ⟨by simp [newProcess], by simp [newProcess]⟩
  quiet := fun _ _ => rfl
  early := fun p _ => ⟨rfl, rfl, by simp [newProcess]⟩

end

/-- **Every run keeps the shape of the goroutines.** -/
theorem formed_of_reachable {C : Process → Action → Prop} {s : Process}
    (hs : Transition.ReachableVia (processStep rt) C newProcess s) : Formed s :=
  hs.invariant (I := Formed) formed_newProcess fun _ _ _ hformed _ hstep =>
    hformed.act (Option.ite_none_left_eq_some.mp hstep).2

end TrapChat.Gateway
