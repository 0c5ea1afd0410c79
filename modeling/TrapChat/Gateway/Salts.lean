import TrapChat.Gateway.Handler

/-!
What the handlers do to the members and the salts of the rooms, and what their
presence messages tell the members. Joining is the only section that adds a
member, and it sets a salt only when it creates the room; all others shrink the
registry and leave the salts of the rooms that survive alone.
-/

namespace TrapChat.Gateway

open Storage Protocol

/-- The salt as a presence message carries it. -/
def saltText (salt : List UInt8) : String := if salt = [] then "" else Base64.encode salt

/-- What a presence message can carry: no salt, or one of 32 bytes. -/
def SaltText (text : String) : Prop :=
  text = "" ∨ ∃ salt : List UInt8, salt.length = 32 ∧ text = Base64.encode salt

/-- The salts of a registry, empty or of 32 bytes. -/
def Sized (s : Store) : Prop := ∀ room, s.roomSalt room = [] ∨ (s.roomSalt room).length = 32

theorem saltText_ne {salt : List UInt8} (h : salt ≠ []) : saltText salt = Base64.encode salt :=
  if_neg h

theorem Sized.saltText {s : Store} (h : Sized s) (room : RoomName) :
    SaltText (saltText (s.roomSalt room)) := by
  obtain hnone | hsize := h room
  · exact .inl (if_pos hnone)
  · have hne : s.roomSalt room ≠ [] := by
      intro hnil
      rw [hnil] at hsize
      cases hsize
    exact .inr ⟨_, hsize, saltText_ne hne⟩

theorem roomSalt_eq_nil {s : Store} {room : RoomName} (h : s.peers room = ∅) :
    s.roomSalt room = [] := by
  have hnone : s.rooms.lookup room = none := by
    rw [Option.eq_none_iff_forall_ne_some]
    intro r hr
    rw [Store.peers_of_lookup hr] at h
    exact (s.occupied room r hr).ne_empty h
  simp only [Store.roomSalt, hnone]

@[simp] theorem presenceOf_room (store : Store) (room : RoomName) :
    (presenceOf store room).room = room := by
  unfold presenceOf presenceSalt presenceTTL
  split <;> split <;> rfl

theorem presenceOf_salt (store : Store) (room : RoomName) :
    (presenceOf store room).salt = saltText (store.roomSalt room) := by
  unfold presenceOf presenceSalt saltText
  split
  · unfold presenceTTL
    split <;> rfl
  · rfl

/-- The payload salt that a join is accepted with. -/
theorem decodeSalt_ok {text : String} {salt : List UInt8} (h : decodeSalt text = .ok salt) :
    (text = "" ∧ salt = []) ∨ (text ≠ "" ∧ salt.length = 32) := by
  unfold decodeSalt at h
  split at h
  · rename_i htext
    cases h
    exact .inl ⟨htext, rfl⟩
  · rename_i htext
    split at h
    · cases h
    · split at h
      · cases h
      · rename_i hsize
        cases h
        exact .inr ⟨htext, not_not.mp hsize⟩

/-! ### Shrinking -/

/-- Connections and members may have gone. -/
structure Shrinks (s s' : Server) : Prop where
  conns : s'.conns ⊆ s.conns
  peers : ∀ room, s'.store.peers room ⊆ s.store.peers room
  salts : ∀ room, (s'.store.peers room).Nonempty →
    s'.store.roomSalt room = s.store.roomSalt room
  issued : s'.issued = s.issued

variable {rt : GoRuntime} {s s' t : Server} {p q : PeerID} {room : RoomName} {now : Time}

theorem Shrinks.refl (s : Server) : Shrinks s s :=
  ⟨subset_rfl, fun _ => subset_rfl, fun _ _ => rfl, rfl⟩

theorem Shrinks.trans (h : Shrinks s s') (h' : Shrinks s' t) : Shrinks s t where
  conns := h'.conns.trans h.conns
  peers := fun room => (h'.peers room).trans (h.peers room)
  salts := fun room hne => (h'.salts room hne).trans (h.salts room (hne.mono (h'.peers room)))
  issued := h'.issued.trans h.issued

/-- A section that does not touch the registry. -/
theorem Shrinks.of_store (hstore : s'.store = s.store) (hconns : s'.conns ⊆ s.conns)
    (hissued : s'.issued = s.issued) : Shrinks s s' :=
  ⟨hconns, fun _ => by rw [hstore], fun _ _ => by rw [hstore], hissued⟩

theorem shrinks_leaveStore (s : Server) (room : RoomName) (p : PeerID) (now : Time) :
    Shrinks s (s.leaveStore room p now) where
  conns := subset_rfl
  peers := fun _ _ hq => (Store.mem_peers_leave.mp hq).2
  salts := fun _ ⟨_, hq⟩ => Store.roomSalt_leave hq
  issued := rfl

theorem shrinks_removeRoom (s : Server) (p : PeerID) (room : RoomName) :
    Shrinks s (s.removeRoom p room) := by
  refine .of_store (s.store_removeRoom p room) (s.conns_removeRoom p room).subset ?_
  unfold Server.removeRoom
  split <;> rfl

theorem shrinks_detach (s : Server) (room : RoomName) (p : PeerID) :
    Shrinks s (s.detach room p) := by
  refine .of_store (s.store_detach room p) (fun q hq => (Server.mem_conns_detach.mp hq).1) ?_
  unfold Server.detach
  split
  · split
    · rfl
    · dsimp only
      split <;> rfl
  · rfl

theorem Shrinks.sized (h : Shrinks s s') (hs : Sized s.store) : Sized s'.store := by
  intro room
  by_cases hne : (s'.store.peers room).Nonempty
  · rw [h.salts room hne]
    exact hs room
  · exact .inl (roomSalt_eq_nil (Finset.not_nonempty_iff_eq_empty.mp hne))

/-! ### Announcing -/

/-- A presence message reaches every member that is registered and carries the
salt of the room. -/
structure Announces (s : Server) (targets : Finset PeerID) (pp : PresencePayload) : Prop where
  members : ∀ p ∈ s.store.peers pp.room, p ∈ s.conns → p ≠ "" → p ∈ targets
  salt : (s.store.peers pp.room).Nonempty → pp.salt = saltText (s.store.roomSalt pp.room)
  text : SaltText pp.salt

/-- The presence messages among some outputs. -/
def AllAnnounce (s : Server) (os : List Output) : Prop :=
  ∀ targets env pp, .presence targets env pp ∈ os → Announces s targets pp

theorem announces_presenceOf (hs : Sized s.store) (room : RoomName) :
    Announces s (s.targets room "") (presenceOf s.store room) where
  members := by
    rw [presenceOf_room]
    exact fun p hp hconn hne =>
      Finset.mem_inter.mpr ⟨Finset.mem_erase.mpr ⟨hne, hp⟩, hconn⟩
  salt := by
    rw [presenceOf_room, presenceOf_salt]
    exact fun _ => rfl
  text := by
    rw [presenceOf_salt]
    exact hs.saltText room

theorem Announces.shrinks {targets : Finset PeerID} {pp : PresencePayload}
    (h : Announces s targets pp) (hs : Shrinks s s') : Announces s' targets pp where
  members := fun p hp hconn hne => h.members p (hs.peers _ hp) (hs.conns hconn) hne
  salt := fun hne => (h.salt (hne.mono (hs.peers _))).trans (by rw [hs.salts _ hne])
  text := h.text

/-- What the deferred cleanup announces of a room still holds when the other
rooms have been left. -/
theorem leaveRooms_announces (order : List RoomName) (hs : Sized s.store) :
    Shrinks s (leaveRooms rt p now order s).1 ∧
      AllAnnounce (leaveRooms rt p now order s).1 (leaveRooms rt p now order s).2 := by
  induction order generalizing s with
  | nil => exact ⟨.refl s, by simp [AllAnnounce, leaveRooms]⟩
  | cons room rest ih =>
      have hleave := shrinks_leaveStore s room p now
      obtain ⟨hshrinks, hall⟩ := ih (hleave.sized hs)
      refine ⟨hleave.trans hshrinks, ?_⟩
      intro targets env pp ho
      rcases List.mem_cons.mp ho with h | h
      · cases h
        exact (announces_presenceOf (hleave.sized hs) room).shrinks hshrinks
      · exact hall targets env pp (List.mem_of_ne_of_mem (by simp) h)

theorem handleDisconnect_announces (order : List RoomName) (hs : Sized s.store) :
    Shrinks s (handleDisconnect rt s p order now).1 ∧
      AllAnnounce (handleDisconnect rt s p order now).1 (handleDisconnect rt s p order now).2 := by
  have hdrop : Shrinks s (Server.dropPeer { s with
      rl := s.rl.remove p, typingRL := s.typingRL.remove p, signalRL := s.signalRL.remove p } p) :=
    .of_store rfl (Finset.erase_subset p s.conns) rfl
  obtain ⟨hshrinks, hall⟩ := leaveRooms_announces order (hdrop.sized hs)
  refine ⟨hdrop.trans hshrinks, ?_⟩
  intro targets env pp ho
  obtain h | h := List.mem_append.mp ho
  · exact hall targets env pp h
  · simp at h

theorem disconnectPeers_announces (s : Server) (room : RoomName) (order : List PeerID) (now : Time) :
    Shrinks s (disconnectPeers room now order s).1 ∧
      ∀ targets env pp, .presence targets env pp ∉ (disconnectPeers room now order s).2 := by
  induction order generalizing s with
  | nil => exact ⟨.refl s, by simp [disconnectPeers]⟩
  | cons p rest ih =>
      obtain ⟨hshrinks, hnone⟩ := ih ((s.detach room p).leaveStore room p now)
      refine ⟨((shrinks_detach s room p).trans (shrinks_leaveStore _ room p now)).trans hshrinks, ?_⟩
      intro targets env pp ho
      obtain h | h := List.mem_append.mp ho
      · split at h <;> simp at h
      · exact hnone targets env pp h

theorem cleanupRoom_announces (s : Server) (room : RoomName) (dummy : PeerID) (order : List PeerID)
    (now : Time) : Shrinks s (cleanupRoom s room dummy order now).1 ∧
      AllAnnounce (cleanupRoom s room dummy order now).1 (cleanupRoom s room dummy order now).2 := by
  obtain ⟨hshrinks, hnone⟩ := disconnectPeers_announces s room order now
  exact ⟨hshrinks.trans (shrinks_leaveStore _ room dummy now),
    fun targets env pp ho => absurd ho (hnone targets env pp)⟩

theorem leaveRoom_announces (hs : Sized s.store) :
    Shrinks s (leaveRoom rt s p room now).1 ∧
      AllAnnounce (leaveRoom rt s p room now).1 (leaveRoom rt s p room now).2 := by
  have hshrinks : Shrinks s (leaveRoom rt s p room now).1 :=
    (shrinks_leaveStore s room p now).trans (shrinks_removeRoom _ p room)
  refine ⟨hshrinks, ?_⟩
  intro targets env pp ho
  rcases List.mem_cons.mp ho with h | h
  · cases h
    exact announces_presenceOf (hshrinks.sized hs) room
  · simp [sendRoomList] at h

/-! ### Joining -/

/-- What a join that is accepted with a salt does to members and salts. -/
structure Joins (s : Server) (p : PeerID) (room : RoomName) (salt : List UInt8) (s' : Server) :
    Prop where
  conns : s'.conns = s.conns
  issued : s'.issued = s.issued
  peers : ∀ room' q, q ∈ s'.store.peers room' ↔ (room' = room ∧ q = p) ∨ q ∈ s.store.peers room'
  salts : ∀ room', s'.store.roomSalt room' =
    if room' = room ∧ s.store.peers room = ∅ then salt else s.store.roomSalt room'

theorem Joins.sized {salt : List UInt8} (h : Joins s p room salt s') (hs : Sized s.store)
    (hsalt : salt = [] ∨ salt.length = 32) : Sized s'.store := by
  intro room'
  rw [h.salts]
  split
  · exact hsalt
  · exact hs room'

/-- A join is refused with an error, or it adds the member and announces the room. -/
theorem joinRoom_cases (jp : JoinPayload) :
    (Shrinks s (joinRoom rt s p room jp now).1 ∧
      AllAnnounce (joinRoom rt s p room jp now).1 (joinRoom rt s p room jp now).2) ∨
    ∃ salt, decodeSalt jp.salt = .ok salt ∧ Joins s p room salt (joinRoom rt s p room jp now).1 ∧
      (joinRoom rt s p room jp now).2 =
        [broadcastPresence rt (joinRoom rt s p room jp now).1 room now,
          sendRoomList rt (joinRoom rt s p room jp now).1 p now,
          .forward (memberEnvelope .join room p now)] := by
  unfold joinRoom
  split
  · exact .inl ⟨.refl s, by simp [AllAnnounce, sendError]⟩
  · split
    · exact .inl ⟨.refl s, by simp [AllAnnounce, sendError]⟩
    · dsimp only
      cases hsalt : decodeSalt jp.salt with
      | error msg => exact .inl ⟨.of_store rfl subset_rfl rfl, by simp [AllAnnounce, sendError]⟩
      | ok salt =>
          have hjoins : Joins s p room salt
              ((((s.addRoom p room).joinStore room p (ttlForJoin jp) salt now)).nickStore room p
                (sanitizeNickname jp.nickname)) := by
            refine ⟨?_, ?_, ?_, ?_⟩
            · simp
            · unfold Server.nickStore
              split <;> rfl
            · intro room' q
              rw [Server.peers_nickStore]
              exact Store.mem_peers_joinWithTTL
            · intro room'
              rw [Server.roomSalt_nickStore]
              exact s.store.roomSalt_joinWithTTL room room' p _ salt now
          dsimp only
          exact .inr ⟨salt, rfl, hjoins, rfl⟩

end TrapChat.Gateway
