import TrapChat.Client.Media
import TrapChat.Library.Transition
import TrapChat.Storage.Store

/-!
The data channels to the other members of a room, and the choice of `sendMessage`
between them and the gateway.

A step handles one event of the page: a presence message, a signal, the timer of an
initiator, the end of its offer, an event of a data channel. What runs between two
events without a timer, a message or the browser in between is one step, so that an
offer is handled in the step that adds its peer. The session descriptions and the
candidates of the signals are the browser's: a channel may open on any connection that
has or can get one. The page keeps its own peer id.
-/

namespace TrapChat.Client

open Storage Transition

inductive ChannelState
  | connecting
  | open
  | closed
  deriving DecidableEq

/-- A connection whose offer is made or handled. `ondatachannel` is set in the latter case:
a channel of the peer then becomes `dc`. -/
structure PeerConnection where
  dc : Option ChannelState
  connected : Bool
  ondatachannel : Bool
  deriving DecidableEq

namespace PeerConnection

/-- The connection of an initiator. -/
def createOffer : PeerConnection := ⟨some .connecting, false, false⟩

/-- The connection of the peer that gets the offer. -/
def handleOffer : PeerConnection := ⟨none, false, true⟩

/-- No channel can open any more. -/
def spent (pc : PeerConnection) : Prop := pc.dc = some .closed ∧ pc.ondatachannel = false

instance (pc : PeerConnection) : Decidable pc.spent := inferInstanceAs (Decidable (_ ∧ _))

def onopen (pc : PeerConnection) : PeerConnection :=
  { pc with dc := some .open, connected := true }

def onclose (pc : PeerConnection) : PeerConnection :=
  { pc with dc := some .closed, connected := false }

/-- The connection state is `disconnected` or `failed`. -/
def disconnected (pc : PeerConnection) : PeerConnection := { pc with connected := false }

/-- Whether the message is handed to the channel. -/
def send (pc : PeerConnection) : Bool := pc.dc = some .open

end PeerConnection

/-- The connections by peer, in the order in which they were added. -/
structure PeerMesh where
  connections : List (PeerID × PeerConnection)
  nodup : (connections.map Prod.fst).Nodup

namespace PeerMesh

def new : PeerMesh := ⟨[], List.nodup_nil⟩

def peers (m : PeerMesh) : List PeerID := m.connections.map Prod.fst

/-- A peer that has a connection keeps it. -/
def addPeer (m : PeerMesh) (p : PeerID) (pc : PeerConnection) : PeerMesh :=
  if h : p ∈ m.peers then m
  else
    { connections := m.connections ++ [(p, pc)]
      nodup := by
        rw [List.map_append, List.nodup_append]
        refine ⟨m.nodup, List.nodup_singleton _, ?_⟩
        rintro q hq _ hp rfl
        cases List.mem_singleton.mp hp
        exact h hq }

/-- An event of the connection of `p`. -/
def update (m : PeerMesh) (p : PeerID) (f : PeerConnection → PeerConnection) : PeerMesh where
  connections := m.connections.map fun c => if c.1 = p then (c.1, f c.2) else c
  nodup := by
    have hkeys : (m.connections.map fun c => if c.1 = p then (c.1, f c.2) else c).map Prod.fst =
        m.connections.map Prod.fst := by
      rw [List.map_map]
      apply List.map_congr_left
      intro c _
      simp only [Function.comp_apply]
      split
      · rfl
      · rfl
    rw [hkeys]
    exact m.nodup

def connectedPeers (m : PeerMesh) : List PeerID :=
  (m.connections.filter fun c => c.2.connected).map Prod.fst

def getConnection (m : PeerMesh) (p : PeerID) : Option PeerConnection :=
  (m.connections.find? fun c => c.1 = p).map Prod.snd

end PeerMesh

/-- What a presence message says of the members: their number, and the keys of `peers`. -/
structure RoomPresence where
  count : ℕ
  peers : Option (List PeerID)
  deriving DecidableEq

/-- The type of a signal. `other` is any other value, or none. -/
inductive SignalType
  | offer
  | answer
  | ice
  | other
  deriving DecidableEq

structure MeshPage where
  peerMeshRef : RoomName → Option PeerMesh
  prevPeerCountRef : RoomName → Option ℕ
  /-- The initiators that wait. -/
  timers : List (RoomName × PeerID)
  /-- The initiators whose offer is being made. -/
  offering : List RoomName
  /-- The last presence processed for each room. Nothing reads it. -/
  presence : RoomName → Option RoomPresence

inductive MeshEvent
  | presence (room : RoomName) (payload : RoomPresence)
  | signal (room : RoomName) (sender : PeerID) (signalType : Option SignalType)
  | timer (n : ℕ)
  | offered (n : ℕ)
  | offerFailed (n : ℕ)
  | opened (room : RoomName) (p : PeerID)
  | closed (room : RoomName) (p : PeerID)
  | disconnected (room : RoomName) (p : PeerID)
  | cleanupRoom (room : RoomName)
  deriving DecidableEq

/-- Where a chat message goes. -/
inductive Route
  | dataChannel (p : PeerID)
  | gateway
  deriving DecidableEq

namespace MeshPage

def new : MeshPage where
  peerMeshRef := fun _ => none
  prevPeerCountRef := fun _ => none
  timers := []
  offering := []
  presence := fun _ => none

def setMesh (s : MeshPage) (room : RoomName) (mesh : Option PeerMesh) : MeshPage :=
  { s with peerMeshRef := Function.update s.peerMeshRef room mesh }

/-- The `<` of strings. -/
def before (p q : PeerID) : Prop := codeUnits p.toList < codeUnits q.toList

instance (p q : PeerID) : Decidable (before p q) := inferInstanceAs (Decidable (_ < _))

/-- The peer that this page is to send an offer to. -/
def initiates (selfId : PeerID) (peers : Option (List PeerID)) : Option PeerID :=
  match (peers.getD []).find? (· ≠ selfId) with
  | none => none
  | some remotePid =>
      if selfId ≠ "" ∧ remotePid ≠ "" ∧ before selfId remotePid then some remotePid else none

def setPresence (s : MeshPage) (room : RoomName) (payload : RoomPresence) : MeshPage :=
  { s with
    prevPeerCountRef := Function.update s.prevPeerCountRef room (some payload.count)
    presence := Function.update s.presence room (some payload) }

def handlePresenceMesh (selfId : PeerID) (room : RoomName) (payload : RoomPresence)
    (s : MeshPage) : MeshPage :=
  if payload.count = 2 ∧ (s.prevPeerCountRef room).getD 0 ≠ 2 then
    { s.setPresence room payload with
      timers := s.timers ++ ((initiates selfId payload.peers).map (room, ·)).toList }
  else if payload.count ≠ 2 ∧ (s.peerMeshRef room).isSome = true then
    -- `closeAll` empties the mesh, which nothing refers to then
    (s.setPresence room payload).setMesh room none
  else s.setPresence room payload

/-- The callback of an initiator's timer, up to the await of `addPeer`. -/
def initiate (room : RoomName) (remotePid : PeerID) (s : MeshPage) : MeshPage :=
  if (s.peerMeshRef room).isSome = true then s
  else
    { s.setMesh room (some (PeerMesh.new.addPeer remotePid .createOffer)) with
      offering := s.offering ++ [room] }

/-- A signal whose payload can be read. An offer adds its sender; its description goes to
the connection that the sender has. -/
def handleSignal (room : RoomName) (sender : PeerID) (signalType : SignalType) (s : MeshPage) :
    MeshPage :=
  let mesh := (s.peerMeshRef room).getD .new
  match signalType with
  | .offer => s.setMesh room (some (mesh.addPeer sender .handleOffer))
  | _ => s.setMesh room (some mesh)

/-- An event of a connection. One that is not in its room's mesh is closed. -/
def onConnection (s : MeshPage) (room : RoomName) (p : PeerID)
    (enabled : PeerConnection → Bool) (f : PeerConnection → PeerConnection) : Option MeshPage :=
  match s.peerMeshRef room with
  | none => none
  | some mesh =>
    match mesh.getConnection p with
    | none => none
    | some pc => if enabled pc = true then some (s.setMesh room (some (mesh.update p f))) else none

def step (selfId : PeerID) (s : MeshPage) : MeshEvent → Option MeshPage
  | .presence room payload => some (s.handlePresenceMesh selfId room payload)
  | .signal room sender signalType =>
      match signalType with
      | none => some s
      | some signalType => some (s.handleSignal room sender signalType)
  | .timer n =>
      s.timers[n]?.map fun t => { s with timers := s.timers.eraseIdx n }.initiate t.1 t.2
  | .offered n => s.offering[n]?.map fun _ => { s with offering := s.offering.eraseIdx n }
  | .offerFailed n =>
      s.offering[n]?.map fun room =>
        { s with offering := s.offering.eraseIdx n }.setMesh room none
  | .opened room p => s.onConnection room p (fun pc => ¬ pc.spent) .onopen
  | .closed room p => s.onConnection room p (fun pc => pc.dc.isSome) .onclose
  | .disconnected room p => s.onConnection room p (fun _ => true) .disconnected
  | .cleanupRoom room =>
      some { s.setMesh room none with
        prevPeerCountRef := Function.update s.prevPeerCountRef room none }

/-- The choice of `sendMessage`: the first connected peer of the mesh, else the gateway. -/
def sendMessage (s : MeshPage) (room : RoomName) : Route :=
  match s.peerMeshRef room with
  | none => .gateway
  | some mesh =>
    match mesh.connectedPeers with
    | [] => .gateway
    | p :: _ =>
      match mesh.getConnection p with
      | none => .gateway
      | some conn => if conn.send = true then .dataChannel p else .gateway

end MeshPage

/-! ### The entries of a mesh -/

/-- One more connection is lost. -/
theorem PeerConnection.disconnected_cons (q : PeerID) (lost : List PeerID) (r : PeerID)
    (pc : PeerConnection) :
    (if r = q then (if r ∈ lost then pc.disconnected else pc).disconnected
      else if r ∈ lost then pc.disconnected else pc) =
      if r ∈ q :: lost then pc.disconnected else pc := by
  by_cases hrq : r = q
  · subst hrq
    rw [if_pos rfl, if_pos List.mem_cons_self]
    split
    · rfl
    · rfl
  · rw [if_neg hrq]
    simp [hrq]

namespace PeerMesh

variable {m : PeerMesh} {p q : PeerID} {pc pc' : PeerConnection}

theorem mem_peers_of_mem (h : (p, pc) ∈ m.connections) : p ∈ m.peers :=
  List.mem_map_of_mem h

theorem exists_of_mem_peers (h : p ∈ m.peers) : ∃ pc, (p, pc) ∈ m.connections := by
  obtain ⟨⟨_, pc⟩, hpc, rfl⟩ := List.mem_map.mp h
  exact ⟨pc, hpc⟩

theorem unique (h : (p, pc) ∈ m.connections) (h' : (p, pc') ∈ m.connections) : pc = pc' := by
  have := List.inj_on_of_nodup_map m.nodup h h' rfl
  cases this
  rfl

theorem getConnection_eq_some : m.getConnection p = some pc ↔ (p, pc) ∈ m.connections := by
  constructor
  · intro h
    obtain ⟨⟨q, pc'⟩, hfind, rfl⟩ := Option.map_eq_some_iff.mp h
    have hq : q = p := by simpa using List.find?_some hfind
    subst hq
    exact List.mem_of_find?_eq_some hfind
  · intro h
    cases hfind : m.connections.find? fun c => c.1 = p with
    | none =>
        have := List.find?_eq_none.mp hfind _ h
        simp at this
    | some c =>
        obtain ⟨q, pc'⟩ := c
        have hq : q = p := by simpa using List.find?_some hfind
        subst hq
        rw [getConnection, hfind, unique h (List.mem_of_find?_eq_some hfind)]
        rfl

theorem mem_addPeer : (q, pc') ∈ (m.addPeer p pc).connections ↔
    (q, pc') ∈ m.connections ∨ p ∉ m.peers ∧ q = p ∧ pc' = pc := by
  rw [addPeer]
  split
  · next h => simp [h]
  · next h => simp [h]

theorem mem_update {f : PeerConnection → PeerConnection} :
    (q, pc') ∈ (m.update p f).connections ↔
      ∃ pc, (q, pc) ∈ m.connections ∧ pc' = if q = p then f pc else pc := by
  rw [update, List.mem_map]
  constructor
  · rintro ⟨⟨q', pc⟩, hmem, heq⟩
    by_cases hq : q' = p
    · rw [if_pos hq] at heq
      cases heq
      exact ⟨pc, hmem, by rw [if_pos hq]⟩
    · rw [if_neg hq] at heq
      cases heq
      exact ⟨pc', hmem, by rw [if_neg hq]⟩
  · rintro ⟨pc, hmem, rfl⟩
    refine ⟨(q, pc), hmem, ?_⟩
    by_cases hq : q = p
    · simp [hq]
    · simp [hq]

theorem mem_connectedPeers :
    p ∈ m.connectedPeers ↔ ∃ pc, (p, pc) ∈ m.connections ∧ pc.connected = true := by
  simp [connectedPeers]

end PeerMesh

namespace MeshPage

variable {selfId : PeerID} {s s' t : MeshPage} {room : RoomName} {p : PeerID}

theorem onConnection_eq_some {enabled : PeerConnection → Bool}
    {f : PeerConnection → PeerConnection} :
    s.onConnection room p enabled f = some s' ↔
      ∃ mesh pc, s.peerMeshRef room = some mesh ∧ (p, pc) ∈ mesh.connections ∧
        enabled pc = true ∧ s.setMesh room (some (mesh.update p f)) = s' := by
  unfold onConnection
  constructor
  · intro h
    split at h
    · cases h
    · next mesh hmesh =>
        split at h
        · cases h
        · next pc hpc =>
            split at h
            · next henabled =>
                exact ⟨mesh, pc, hmesh, PeerMesh.getConnection_eq_some.mp hpc, henabled,
                  Option.some.inj h⟩
            · cases h
  · rintro ⟨mesh, pc, hmesh, hpc, henabled, rfl⟩
    simp only [hmesh, PeerMesh.getConnection_eq_some.mpr hpc, henabled, if_true]

@[simp] theorem setMesh_presence (mesh : Option PeerMesh) :
    (s.setMesh room mesh).presence = s.presence := rfl

@[simp] theorem setMesh_self (mesh : Option PeerMesh) :
    (s.setMesh room mesh).peerMeshRef room = mesh := Function.update_self ..

@[simp] theorem handlePresenceMesh_presence (payload : RoomPresence) :
    (s.handlePresenceMesh selfId room payload).presence =
      Function.update s.presence room (some payload) := by
  unfold handlePresenceMesh
  split
  · rfl
  · split
    · rfl
    · rfl

/-- The mesh stays if and only if the count is two. -/
theorem handlePresenceMesh_peerMeshRef (payload : RoomPresence) :
    (s.handlePresenceMesh selfId room payload).peerMeshRef =
      if payload.count = 2 then s.peerMeshRef else Function.update s.peerMeshRef room none := by
  unfold handlePresenceMesh
  split
  · next h =>
      rw [if_pos h.1]
      rfl
  · split
    · next h =>
        rw [if_neg h.1]
        rfl
    · next h =>
        by_cases hcount : payload.count = 2
        · rw [if_pos hcount]
          rfl
        · have hnone : s.peerMeshRef room = none := by
            cases hmesh : s.peerMeshRef room with
            | none => rfl
            | some mesh => exact absurd ⟨hcount, by rw [hmesh]; rfl⟩ h
          rw [if_neg hcount, ← hnone, Function.update_eq_self]
          rfl

theorem setMesh_of_ne {room' : RoomName} (mesh : Option PeerMesh) (h : room' ≠ room) :
    (s.setMesh room mesh).peerMeshRef room' = s.peerMeshRef room' := Function.update_of_ne h ..

end MeshPage

/-! ### Rooms of two -/

/-- The members are this page and `p`. -/
def RoomPresence.OfTwo (selfId p : PeerID) (payload : RoomPresence) : Prop :=
  payload.count = 2 ∧ p ≠ selfId ∧ (payload.peers.getD []).Perm [selfId, p]

instance (selfId p : PeerID) (payload : RoomPresence) : Decidable (payload.OfTwo selfId p) :=
  inferInstanceAs (Decidable (_ ∧ _ ∧ _))

namespace MeshPage

/-- The last presence processed for the room has two members, this page and `p`. -/
def Paired (selfId : PeerID) (s : MeshPage) (room : RoomName) (p : PeerID) : Prop :=
  ∃ payload ∈ s.presence room, payload.OfTwo selfId p

/-- A chat message that goes over a data channel reaches everyone in the room. -/
def ReachesRoom (selfId : PeerID) (s : MeshPage) : Prop :=
  ∀ room p, s.sendMessage room = .dataChannel p → s.Paired selfId room p

/-- No peer is added but the other member of a room of two, and the other member does not
change while a connection is kept. -/
def InPairs (selfId : PeerID) (s : MeshPage) : MeshEvent → Prop
  | .presence room payload => payload.count = 2 →
      ∀ mesh ∈ s.peerMeshRef room, ∀ c ∈ mesh.connections, ¬ c.2.spent → payload.OfTwo selfId c.1
  | .signal room sender signalType => signalType = some .offer →
      (∀ mesh ∈ s.peerMeshRef room, sender ∉ mesh.peers) → s.Paired selfId room sender
  | .timer n => ∀ t ∈ s.timers[n]?, s.peerMeshRef t.1 = none → s.Paired selfId t.1 t.2
  | _ => True

/-- The events of data channels. -/
def ChannelEvent : MeshEvent → Prop
  | .opened _ _ | .closed _ _ | .disconnected _ _ => True
  | _ => False

variable {selfId : PeerID} {s s' t : MeshPage} {room : RoomName} {p : PeerID}

/-- Every connection on which a channel is open or may open is to the other member. -/
def ConnectionsPaired (selfId : PeerID) (s : MeshPage) : Prop :=
  ∀ room, ∀ mesh ∈ s.peerMeshRef room, ∀ c ∈ mesh.connections, ¬ c.2.spent →
    s.Paired selfId room c.1

theorem connectionsPaired_new : ConnectionsPaired selfId new := by
  intro room mesh hmesh
  cases hmesh

/-- A message over a data channel is on a connection of the room's mesh that is not spent. -/
theorem connection_of_sendMessage (h : s.sendMessage room = .dataChannel p) :
    ∃ mesh pc, s.peerMeshRef room = some mesh ∧ (p, pc) ∈ mesh.connections ∧ ¬ pc.spent := by
  unfold sendMessage at h
  split at h
  · cases h
  · next mesh hmesh =>
      split at h
      · cases h
      · split at h
        · cases h
        · next conn hconn =>
            split at h
            · next hsend =>
                cases h
                refine ⟨mesh, conn, hmesh, PeerMesh.getConnection_eq_some.mp hconn, ?_⟩
                rintro ⟨hclosed, -⟩
                simp [PeerConnection.send, hclosed] at hsend
            · cases h

theorem ConnectionsPaired.reachesRoom (h : ConnectionsPaired selfId s) : ReachesRoom selfId s := by
  intro room p hsend
  obtain ⟨mesh, pc, hmesh, hpc, hspent⟩ := connection_of_sendMessage hsend
  exact h room mesh hmesh _ hpc hspent

theorem paired_congr (h : s'.presence room = s.presence room) :
    s'.Paired selfId room p ↔ s.Paired selfId room p := by
  unfold Paired
  rw [h]

/-- Another mesh for a room. -/
theorem ConnectionsPaired.setMesh {mesh : Option PeerMesh} (hs : ConnectionsPaired selfId s)
    (hmesh : ∀ m ∈ mesh, ∀ c ∈ m.connections, ¬ c.2.spent → s.Paired selfId room c.1) :
    ConnectionsPaired selfId (s.setMesh room mesh) := by
  intro room' m hm c hc hspent
  by_cases hroom : room' = room
  · subst hroom
    rw [setMesh_self] at hm
    exact hmesh m hm c hc hspent
  · rw [setMesh_of_ne mesh hroom] at hm
    exact hs room' m hm c hc hspent

/-- An event that does not bring a spent connection back. -/
theorem ConnectionsPaired.onConnection {enabled : PeerConnection → Bool}
    {f : PeerConnection → PeerConnection} (hs : ConnectionsPaired selfId s)
    (hf : ∀ pc, enabled pc = true → ¬ (f pc).spent → ¬ pc.spent)
    (h : s.onConnection room p enabled f = some s') : ConnectionsPaired selfId s' := by
  obtain ⟨mesh, pc, hmesh, hpc, henabled, rfl⟩ := onConnection_eq_some.mp h
  apply hs.setMesh
  rintro _ ⟨⟩ ⟨q, pc'⟩ hc hspent
  obtain ⟨pc₀, hmem, rfl⟩ := PeerMesh.mem_update.mp hc
  have hspent₀ : ¬ pc₀.spent := by
    by_cases hq : q = p
    · subst hq
      cases PeerMesh.unique hmem hpc
      apply hf pc henabled
      simpa using hspent
    · simpa [hq] using hspent
  exact hs room mesh hmesh (q, pc₀) hmem hspent₀

theorem ConnectionsPaired.step {e : MeshEvent} (hs : ConnectionsPaired selfId s)
    (hC : InPairs selfId s e) (hstep : step selfId s e = some s') :
    ConnectionsPaired selfId s' := by
  cases e with
  | presence room payload =>
      cases hstep
      intro room' mesh hmesh c hc hspent
      rw [handlePresenceMesh_peerMeshRef] at hmesh
      by_cases hroom : room' = room
      · subst hroom
        split at hmesh
        · next hcount =>
            refine ⟨payload, ?_, hC hcount mesh hmesh c hc hspent⟩
            rw [handlePresenceMesh_presence, Function.update_self]
            rfl
        · rw [Function.update_self] at hmesh
          cases hmesh
      · have hpresence : (s.handlePresenceMesh selfId room payload).presence room' =
            s.presence room' := by
          rw [handlePresenceMesh_presence, Function.update_of_ne hroom]
        rw [paired_congr hpresence]
        split at hmesh
        · exact hs room' mesh hmesh c hc hspent
        · rw [Function.update_of_ne hroom] at hmesh
          exact hs room' mesh hmesh c hc hspent
  | signal room sender signalType =>
      cases signalType with
      | none =>
          cases hstep
          exact hs
      | some signalType =>
          cases hstep
          have hold : ∀ c ∈ ((s.peerMeshRef room).getD .new).connections, ¬ c.2.spent →
              s.Paired selfId room c.1 := by
            intro c hc hspent
            cases hmesh : s.peerMeshRef room with
            | none =>
                rw [hmesh] at hc
                cases hc
            | some mesh =>
                rw [hmesh] at hc
                exact hs room mesh hmesh c hc hspent
          cases signalType with
          | offer =>
              apply hs.setMesh
              rintro _ ⟨⟩ ⟨q, pc⟩ hc hspent
              obtain hmem | ⟨hnew, rfl, rfl⟩ := PeerMesh.mem_addPeer.mp hc
              · exact hold _ hmem hspent
              · apply hC rfl
                intro mesh hmesh
                rw [Option.mem_def.mp hmesh] at hnew
                exact hnew
          | answer =>
              apply hs.setMesh
              rintro _ ⟨⟩
              exact hold
          | ice =>
              apply hs.setMesh
              rintro _ ⟨⟩
              exact hold
          | other =>
              apply hs.setMesh
              rintro _ ⟨⟩
              exact hold
  | timer n =>
      obtain ⟨⟨room, remotePid⟩, hn, rfl⟩ := Option.map_eq_some_iff.mp hstep
      unfold initiate
      split
      · exact hs
      · next hmesh =>
          have hnone : s.peerMeshRef room = none := by simpa using hmesh
          refine hs.setMesh ?_
          rintro _ ⟨⟩ ⟨q, pc⟩ hc -
          obtain hmem | ⟨-, rfl, rfl⟩ := PeerMesh.mem_addPeer.mp hc
          · cases hmem
          · exact hC _ hn hnone
  | offered n =>
      obtain ⟨room, -, rfl⟩ := Option.map_eq_some_iff.mp hstep
      exact hs
  | offerFailed n =>
      obtain ⟨room, -, rfl⟩ := Option.map_eq_some_iff.mp hstep
      exact hs.setMesh nofun
  | opened room p =>
      exact hs.onConnection (fun pc henabled _ => by simpa using henabled) hstep
  | closed room p =>
      refine hs.onConnection (fun pc _ hspent hold => hspent ?_) hstep
      exact ⟨rfl, hold.2⟩
  | disconnected room p =>
      refine hs.onConnection (fun pc _ hspent hold => hspent ?_) hstep
      exact hold
  | cleanupRoom room =>
      cases hstep
      exact hs.setMesh nofun

/-! ### What the events of data channels can bring about -/

theorem sendMessage_of_connected {mesh : PeerMesh} {pc : PeerConnection}
    (hmesh : s.peerMeshRef room = some mesh) (hpc : (p, pc) ∈ mesh.connections)
    (hconnected : pc.connected = true) (hopen : pc.dc = some .open)
    (honly : ∀ q ∈ mesh.connectedPeers, q = p) : s.sendMessage room = .dataChannel p := by
  have hmem : p ∈ mesh.connectedPeers := PeerMesh.mem_connectedPeers.mpr ⟨pc, hpc, hconnected⟩
  have hsend : pc.send = true := by
    rw [PeerConnection.send, hopen]
    rfl
  cases hpeers : mesh.connectedPeers with
  | nil =>
      rw [hpeers] at hmem
      cases hmem
  | cons q peers =>
      obtain rfl : q = p := honly q (by rw [hpeers]; exact List.mem_cons_self)
      simp only [sendMessage, hmesh, hpeers, PeerMesh.getConnection_eq_some.mpr hpc, hsend,
        if_true]

/-- The connections to some of the peers are lost. -/
theorem exists_disconnected {mesh : PeerMesh} (hmesh : s.peerMeshRef room = some mesh)
    (lost : List PeerID) (hlost : ∀ q ∈ lost, q ∈ mesh.peers) :
    ∃ t mesh', ReachableVia (step selfId) (fun _ e => ChannelEvent e) s t ∧
      t.presence = s.presence ∧ t.peerMeshRef room = some mesh' ∧
      ∀ q pc', (q, pc') ∈ mesh'.connections ↔
        ∃ pc, (q, pc) ∈ mesh.connections ∧ pc' = if q ∈ lost then pc.disconnected else pc := by
  induction lost with
  | nil =>
      refine ⟨s, mesh, .start, rfl, hmesh, fun q pc' => ?_⟩
      simp
  | cons q lost ih =>
      obtain ⟨t, mesh', ht, hpresence, hmesh', hmem⟩ :=
        ih fun r hr => hlost r (List.mem_cons_of_mem _ hr)
      obtain ⟨pc, hpc⟩ := PeerMesh.exists_of_mem_peers (hlost q List.mem_cons_self)
      refine ⟨t.setMesh room (some (mesh'.update q .disconnected)), _, ?_, hpresence,
        setMesh_self _, fun r pc' => ?_⟩
      · refine .next ht (a := .disconnected room q) trivial ?_
        exact onConnection_eq_some.mpr ⟨mesh', _, hmesh', (hmem _ _).mpr ⟨pc, hpc, rfl⟩, rfl, rfl⟩
      · rw [PeerMesh.mem_update]
        constructor
        · rintro ⟨_, hr, rfl⟩
          obtain ⟨pc, hr', rfl⟩ := (hmem _ _).mp hr
          exact ⟨pc, hr', PeerConnection.disconnected_cons q lost r pc⟩
        · rintro ⟨pc, hr, rfl⟩
          exact ⟨_, (hmem _ _).mpr ⟨pc, hr, rfl⟩, (PeerConnection.disconnected_cons q lost r pc).symm⟩

/-- A connection that is not spent can come to carry the messages. -/
theorem exists_dataChannel {mesh : PeerMesh} {pc : PeerConnection}
    (hmesh : s.peerMeshRef room = some mesh) (hpc : (p, pc) ∈ mesh.connections)
    (hspent : ¬ pc.spent) :
    ∃ t, ReachableVia (step selfId) (fun _ e => ChannelEvent e) s t ∧
      t.presence = s.presence ∧ t.sendMessage room = .dataChannel p := by
  obtain ⟨t, mesh', ht, hpresence, hmesh', hmem⟩ :=
    @exists_disconnected selfId s room mesh hmesh mesh.peers fun _ hq => hq
  have hpc' : (p, pc.disconnected) ∈ mesh'.connections :=
    (hmem _ _).mpr ⟨pc, hpc, by rw [if_pos (PeerMesh.mem_peers_of_mem hpc)]⟩
  refine ⟨t.setMesh room (some (mesh'.update p .onopen)), ?_, hpresence, ?_⟩
  · refine .next ht (a := .opened room p) trivial ?_
    have hspent' : ¬ pc.disconnected.spent := hspent
    exact onConnection_eq_some.mpr ⟨mesh', _, hmesh', hpc', by simpa using hspent', rfl⟩
  · apply @sendMessage_of_connected _ _ _ _ pc.disconnected.onopen (setMesh_self _)
    · exact PeerMesh.mem_update.mpr ⟨_, hpc', by rw [if_pos rfl]⟩
    · rfl
    · rfl
    · intro q hq
      obtain ⟨pc', hmem', hconnected⟩ := PeerMesh.mem_connectedPeers.mp hq
      obtain ⟨_, hmem'', rfl⟩ := PeerMesh.mem_update.mp hmem'
      obtain ⟨pc₀, hmem₀, rfl⟩ := (hmem _ _).mp hmem''
      by_contra hqp
      rw [if_neg hqp, if_pos (PeerMesh.mem_peers_of_mem hmem₀)] at hconnected
      cases hconnected

/-- An event that is not in pairs leaves a connection that is not spent to a peer that is not
the other member. -/
theorem connection_of_not_inPairs {e : MeshEvent} (hC : ¬ InPairs selfId s e)
    (hstep : step selfId s e = some s') :
    ∃ room mesh p pc, s'.peerMeshRef room = some mesh ∧ (p, pc) ∈ mesh.connections ∧
      ¬ pc.spent ∧ ¬ s'.Paired selfId room p := by
  cases e with
  | presence room payload =>
      cases hstep
      simp only [InPairs] at hC
      push Not at hC
      obtain ⟨hcount, mesh, hmesh, ⟨p, pc⟩, hpc, hspent, hnot⟩ := hC
      refine ⟨room, mesh, p, pc, ?_, hpc, hspent, ?_⟩
      · rw [handlePresenceMesh_peerMeshRef, if_pos hcount]
        exact hmesh
      · rintro ⟨payload', hpayload, hpaired⟩
        rw [handlePresenceMesh_presence, Function.update_self] at hpayload
        cases hpayload
        exact hnot hpaired
  | signal room sender signalType =>
      simp only [InPairs] at hC
      push Not at hC
      obtain ⟨rfl, hnew, hnot⟩ := hC
      cases hstep
      refine ⟨room, _, sender, .handleOffer, setMesh_self _, ?_, ?_, hnot⟩
      · apply PeerMesh.mem_addPeer.mpr
        refine .inr ⟨?_, rfl, rfl⟩
        cases hmesh : s.peerMeshRef room with
        | none => exact List.not_mem_nil
        | some mesh => exact hnew mesh hmesh
      · rintro ⟨hclosed, -⟩
        cases hclosed
  | timer n =>
      obtain ⟨⟨room, remotePid⟩, hn, rfl⟩ := Option.map_eq_some_iff.mp hstep
      simp only [InPairs] at hC
      push Not at hC
      obtain ⟨t, ht, hnone, hnot⟩ := hC
      cases hn.symm.trans ht
      simp only at hnone
      unfold initiate
      rw [if_neg (by rw [hnone]; exact Bool.false_ne_true)]
      refine ⟨room, _, remotePid, .createOffer, setMesh_self _, ?_, ?_, hnot⟩
      · exact PeerMesh.mem_addPeer.mpr (.inr ⟨List.not_mem_nil, rfl, rfl⟩)
      · rintro ⟨hclosed, -⟩
        cases hclosed
  | offered n => exact absurd trivial hC
  | offerFailed n => exact absurd trivial hC
  | opened room p => exact absurd trivial hC
  | closed room p => exact absurd trivial hC
  | disconnected room p => exact absurd trivial hC
  | cleanupRoom room => exact absurd trivial hC

theorem inPairs_of_channelEvent {e : MeshEvent} (h : ChannelEvent e) : InPairs selfId s e := by
  cases e with
  | opened room p => trivial
  | closed room p => trivial
  | disconnected room p => trivial
  | _ => cases h

/-- **The fast path.** In every run whose events are all in pairs, a message that goes over a
data channel reaches everyone in the room. After any other event, the events of data
channels alone can bring a message to a channel that does not. -/
theorem reachesRoom_of_reachable (hs : ReachableVia (step selfId) (InPairs selfId) new s) :
    ReachesRoom selfId s ∧ ∀ e s', step selfId s e = some s' →
      (InPairs selfId s e ↔
        ∀ t, ReachableVia (step selfId) (fun _ e => ChannelEvent e) s' t → ReachesRoom selfId t) := by
  have hpaired : ConnectionsPaired selfId s :=
    hs.invariant connectionsPaired_new fun _ _ _ hs hC hstep => hs.step hC hstep
  refine ⟨hpaired.reachesRoom, fun e s' hstep => ⟨fun hC t ht => ?_, fun hreaches => ?_⟩⟩
  · have hpaired' : ConnectionsPaired selfId s' := hpaired.step hC hstep
    refine ConnectionsPaired.reachesRoom ?_
    exact ht.invariant hpaired' fun _ _ _ hs hC hstep =>
      hs.step (inPairs_of_channelEvent hC) hstep
  · by_contra hC
    obtain ⟨room, mesh, p, pc, hmesh, hpc, hspent, hnot⟩ := connection_of_not_inPairs hC hstep
    obtain ⟨t, ht, hpresence, hsend⟩ := exists_dataChannel hmesh hpc hspent
    apply hnot
    rw [← paired_congr (congrFun hpresence room)]
    exact hreaches t ht room p hsend

/-! ### A third member in the half second of the timer -/

def twoMembers : RoomPresence := ⟨2, some ["a", "b"]⟩

def threeMembers : RoomPresence := ⟨3, some ["a", "b", "c"]⟩

/-- **A message that a third member does not get.** The timer of a room of two runs out when
the room is one of three, and `sendMessage` takes the channel that it has led to. -/
theorem thirdMember_skipped :
    ∃ s, Reachable (step "a") new s ∧ s.sendMessage "r" = .dataChannel "b" ∧
      s.presence "r" = some threeMembers ∧ ¬ ReachesRoom "a" s := by
  have hrun : (exec (step "a") new [.presence "r" twoMembers, .presence "r" threeMembers, .timer 0,
      .opened "r" "b"]).map (fun s => (s.sendMessage "r", s.presence "r")) =
        some (.dataChannel "b", some threeMembers) := by
    decide +kernel
  obtain ⟨s, hs, heq⟩ := Option.map_eq_some_iff.mp hrun
  obtain ⟨hsend, hpresence⟩ := Prod.mk.inj heq
  refine ⟨s, reachable_of_exec .start hs, hsend, hpresence, fun hreaches => ?_⟩
  obtain ⟨payload, hpayload, hpaired⟩ := hreaches "r" "b" hsend
  cases hpresence.symm.trans hpayload
  exact absurd hpaired (by decide)

/-- The same without the third member. -/
theorem reachesRoom_twoMembers :
    ∃ s, s.sendMessage "r" = .dataChannel "b" ∧ ReachesRoom "a" s := by
  have hpresence : InPairs "a" new (.presence "r" twoMembers) := fun _ => nofun
  have htimer : InPairs "a" (new.handlePresenceMesh "a" "r" twoMembers) (.timer 0) := by
    rintro _ ⟨⟩ _
    exact ⟨twoMembers, rfl, by decide⟩
  have hstart : ReachableVia (step "a") (InPairs "a") new _ := .next .start hpresence rfl
  have hoffer := hstart.next htimer rfl
  have hopen := hoffer.next (a := .opened "r" "b") (by trivial) rfl
  exact ⟨_, rfl, (reachesRoom_of_reachable hopen).1⟩

end MeshPage

end TrapChat.Client
