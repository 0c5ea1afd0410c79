import TrapChat.Client.KeyCache
import TrapChat.Network.Sessions

/-!
Which runs end with one key in a passphrase room. The gateway's registry keeps
the first joiner's salt, and a presence message tells each client that salt; a
client that still has its passphrase derives its key again. `Meets` says of a
step that no client is told a salt which it cannot use any more, or one that is
not the room's. In a run whose steps all meet it, `InTune` holds throughout: a
member that is not alone with its passphrase has the room's salt, or is about to
be told it.
-/

namespace TrapChat.Network

open Storage Protocol Client Gateway Transition

namespace Session

variable {α : Type}

/-- The client's connection is registered and a member of the room. -/
def Member (s : Session α) (c : α) (room : RoomName) : Prop :=
  ∃ p ∈ (s.apps c).conn, p ∈ s.server.conns ∧ p ∈ s.server.store.peers room

/-- A current member that entered the room with the passphrase. -/
def Keyed (s : Session α) (c : α) (room : RoomName) (passphrase : String) : Prop :=
  (s.apps c).entered room = some passphrase ∧ s.Member c room

/-- No other member entered the room with the passphrase. -/
def Alone (s : Session α) (c : α) (room : RoomName) (passphrase : String) : Prop :=
  ∀ c', c' ≠ c → ¬s.Keyed c' room passphrase

/-- The latest presence of the room is on its way to the client. -/
def Pending (s : Session α) (c : α) (room : RoomName) : Prop :=
  ∃ p ∈ (s.apps c).conn, ∃ n ∈ s.toClient p, n.room = room ∧ n.serial = s.latest p room

/-- The client has processed the latest presence of the room. -/
def UpToDate (s : Session α) (c : α) (room : RoomName) : Prop :=
  ¬s.Pending c room ∧ ∀ task ∈ (s.apps c).tasks, task.room ≠ room

/-- Members that entered a room with one passphrase hold one key, once they have
processed the latest presence. -/
def KeysAgree (s : Session α) : Prop :=
  ∀ room passphrase, (∀ c, s.Keyed c room passphrase → s.UpToDate c room) →
    ∃ salt, ∀ c, s.Keyed c room passphrase →
      (s.apps c).keyRefs room = some (.key (.derived room passphrase salt))

/-! ### The condition on a step -/

/-- Processing the message does no harm: it has no salt, or the cached one; or it
has the room's salt while the passphrase is still there, or another one when it is
not. -/
def Fits (s : Session α) (a : App) (n : Notice) : Prop :=
  n.salt = "" ∨ (a.saltRefs n.room).map Base64.encode = some n.salt ∨
    (n.salt = saltText (s.server.store.roomSalt n.room) ↔ (a.passphraseRefs n.room).isSome = true)

/-- The room that a client joins with a passphrase has a salt, or the join brings
one for a new room, or no other member has entered the passphrase. -/
def FrameMeets (s : Session α) (p : PeerID) : Frame → Prop
  | .join room jp =>
    ∀ c, (s.apps c).conn = some p → ∀ passphrase ∈ (s.apps c).entered room,
      s.server.store.roomSalt room ≠ [] ∨ (s.server.store.peers room = ∅ ∧ jp.salt ≠ "") ∨
        s.Alone c room passphrase
  | .leave _ => True

/-- The condition on a step, read on the state before it. -/
def Meets (s : Session α) : SessionAction α → Prop
  -- a member does not submit the form again, unless it is alone with its passphrase
  | .join c form passphrase _ _ => s.Member c form.room → s.Alone c form.room passphrase
  | .complete c i => (s.apps c).InOrder i
  -- a room entered with a passphrase is not left while its join is under way
  | .leave c room => (s.apps c).joining room = true → (s.apps c).entered room = none
  | .deliver c i =>
    ∀ p ∈ (s.apps c).conn, ∀ n ∈ (s.toClient p)[i]?, ∀ passphrase ∈ (s.apps c).entered n.room,
      s.Member c n.room → s.Fits (s.apps c) n ∨ s.Alone c n.room passphrase
  | .receive p _ => ∀ frame ∈ (s.toGateway p).head?, s.FrameMeets p frame
  | _ => True

section
variable [Fintype α] [DecidableEq α]

instance (s : Session α) (c : α) (room : RoomName) : Decidable (s.Member c room) :=
  inferInstanceAs (Decidable (∃ p ∈ _, _ ∧ _))

instance (s : Session α) (c : α) (room : RoomName) (passphrase : String) :
    Decidable (s.Keyed c room passphrase) := inferInstanceAs (Decidable (_ ∧ _))

instance (s : Session α) (c : α) (room : RoomName) (passphrase : String) :
    Decidable (s.Alone c room passphrase) := inferInstanceAs (Decidable (∀ _, _))

instance (s : Session α) (c : α) (room : RoomName) : Decidable (s.Pending c room) :=
  inferInstanceAs (Decidable (∃ p ∈ _, ∃ n ∈ _, _))

instance (s : Session α) (c : α) (room : RoomName) : Decidable (s.UpToDate c room) :=
  inferInstanceAs (Decidable (_ ∧ ∀ task ∈ _, _))

instance (s : Session α) (a : App) (n : Notice) : Decidable (s.Fits a n) :=
  inferInstanceAs (Decidable (_ ∨ _))

instance (s : Session α) (p : PeerID) : (frame : Frame) → Decidable (s.FrameMeets p frame)
  | .join _ _ => inferInstanceAs (Decidable (∀ _, _ → ∀ _ ∈ _, _))
  | .leave _ => .isTrue trivial

instance (s : Session α) : (a : SessionAction α) → Decidable (s.Meets a)
  | .join _ _ _ _ _ | .leave _ _ => inferInstanceAs (Decidable (_ → _))
  | .complete c i => inferInstanceAs (Decidable ((s.apps c).InOrder i))
  | .deliver _ _ => inferInstanceAs (Decidable (∀ _ ∈ _, ∀ _ ∈ _, ∀ _ ∈ _, _ → _))
  | .receive _ _ => inferInstanceAs (Decidable (∀ _ ∈ _, _))
  | .sendJoin _ _ | .connect _ _ | .drop _ | .disconnect _ _ _ | .cleanup _ _ _ | .restart =>
    .isTrue trivial

end

/-! ### What every run keeps -/

/-- Connections are apart and known to the gateway, and presence messages carry
salts that clients can read. -/
structure Sane (s : Session α) : Prop where
  sized : Sized s.server.store
  registered : s.server.conns ⊆ s.server.issued
  members : ∀ room, s.server.store.peers room ⊆ s.server.issued
  named : "" ∉ s.server.issued
  conns : ∀ c p, (s.apps c).conn = some p → p ∈ s.server.issued
  apart : ∀ c c' p, (s.apps c).conn = some p → (s.apps c').conn = some p → c = c'
  serials : ∀ p, ∀ n ∈ s.toClient p, n.serial < s.serial
  texts : ∀ p, ∀ n ∈ s.toClient p, SaltText n.salt

variable {s s' : Session α} {c : α} {p : PeerID} {room : RoomName} {passphrase : String}

theorem Sane.ne_empty (h : s.Sane) (hp : p ∈ s.server.conns) : p ≠ "" := by
  rintro rfl
  exact h.named (h.registered hp)

theorem sane_opened (fragments : α → Option (RoomName × String)) : (opened fragments).Sane where
  sized := fun _ => .inl rfl
  registered := subset_rfl
  members := fun _ => subset_rfl
  named := Finset.notMem_empty ""
  conns := fun _ _ h => by cases h
  apart := fun _ _ _ h => by cases h
  serials := fun _ _ h => by cases h
  texts := fun _ _ h => by cases h

/-- Connections, members and messages may have gone. -/
theorem Sane.of_le (h : s.Sane) (hserver : Shrinks s.server s'.server)
    (hconn : ∀ c p, (s'.apps c).conn = some p → (s.apps c).conn = some p)
    (hclient : ∀ p, s'.toClient p ⊆ s.toClient p) (hserial : s'.serial = s.serial) : s'.Sane where
  sized := hserver.sized h.sized
  registered := by
    rw [hserver.issued]
    exact hserver.conns.trans h.registered
  members := by
    rw [hserver.issued]
    exact fun room => (hserver.peers room).trans (h.members room)
  named := by
    rw [hserver.issued]
    exact h.named
  conns := by
    rw [hserver.issued]
    exact fun c p hp => h.conns c p (hconn c p hp)
  apart := fun c c' p hp hp' => h.apart c c' p (hconn c p hp) (hconn c' p hp')
  serials := by
    rw [hserial]
    exact fun p n hn => h.serials p n (hclient p hn)
  texts := fun p n hn => h.texts p n (hclient p hn)

/-- A presence message that is sent. -/
theorem Sane.postOne (h : s.Sane) {o : Output}
    (ho : ∀ targets env pp, o = .presence targets env pp → SaltText pp.salt) :
    (s.postOne o).Sane := by
  cases o with
  | presence targets env pp =>
      have hnew : ∀ p, ∀ n ∈ (s.postOne (.presence targets env pp)).toClient p,
          n ∈ s.toClient p ∨ n = ⟨s.serial, pp.room, pp.salt⟩ := by
        intro p n hn
        by_cases hp : p ∈ targets
        · simpa [Session.postOne, hp] using hn
        · exact .inl (by simpa [Session.postOne, hp] using hn)
      refine ⟨h.sized, h.registered, h.members, h.named, h.conns, h.apart, ?_, ?_⟩
      · intro p n hn
        rcases hnew p n hn with hold | rfl
        · exact Nat.lt_succ_of_lt (h.serials p n hold)
        · exact Nat.lt_succ_self _
      · intro p n hn
        rcases hnew p n hn with hold | rfl
        · exact h.texts p n hold
        · exact ho targets env pp rfl
  | _ => exact h

@[simp] theorem server_postOne (s : Session α) (o : Output) :
    (s.postOne o).server = s.server := by
  cases o <;> rfl

@[simp] theorem apps_postOne (s : Session α) (o : Output) : (s.postOne o).apps = s.apps := by
  cases o <;> rfl

/-! ### The invariant -/

/-- The client has the room's salt, or is about to be told it. -/
def Synced (s : Session α) (c : α) (room : RoomName) : Prop :=
  (s.apps c).saltRefs room = some (s.server.store.roomSalt room) ∨ s.Pending c room

/-- A member is alone with its passphrase, or in a room with a salt and synced.
Rooms in `stale` are about to be announced. -/
structure InTune (stale : Set RoomName) (s : Session α) : Prop extends s.Sane where
  tuned : ∀ c, (s.apps c).Tuned
  salts : ∀ c room passphrase, s.Keyed c room passphrase → s.Alone c room passphrase ∨
    s.server.store.roomSalt room ≠ [] ∧ (room ∈ stale ∨ s.Synced c room)
  notices : ∀ p room, room ∉ stale → p ∈ s.server.conns → p ∈ s.server.store.peers room →
    ∀ n ∈ s.toClient p, n.room = room → n.serial = s.latest p room →
      n.salt = saltText (s.server.store.roomSalt room)

theorem inTune_opened (fragments : α → Option (RoomName × String)) :
    (opened fragments).InTune ∅ where
  toSane := sane_opened fragments
  tuned := fun c => App.tuned_open (fragments c)
  salts := fun _ _ _ ⟨h, _⟩ => by cases h
  notices := fun _ _ _ h => by cases h

/-- **A state in tune has agreed on the keys.** -/
theorem InTune.keysAgree (h : s.InTune ∅) : s.KeysAgree := by
  intro room passphrase hready
  -- what a member's cached salt is, its key is derived from
  have hkey : ∀ c, s.Keyed c room passphrase → ∃ salt, (s.apps c).saltRefs room = some salt ∧
      (s.apps c).keyRefs room = some (.key (.derived room passphrase salt)) := by
    intro c hc
    obtain ⟨salt, -, hsalt, hcoming⟩ := (h.tuned c).keys room passphrase hc.1
    exact ⟨salt, hsalt, hcoming.of_idle (hready c hc).2⟩
  have hsynced : ∀ c, s.Keyed c room passphrase → s.Alone c room passphrase ∨
      (s.apps c).saltRefs room = some (s.server.store.roomSalt room) := by
    intro c hc
    obtain halone | ⟨-, hstale | hsalt | hpending⟩ := h.salts c room passphrase hc
    · exact .inl halone
    · exact absurd hstale (Set.notMem_empty room)
    · exact .inr hsalt
    · exact absurd hpending (hready c hc).1
  by_cases hall : ∀ c, s.Keyed c room passphrase →
      (s.apps c).saltRefs room = some (s.server.store.roomSalt room)
  · refine ⟨s.server.store.roomSalt room, fun c hc => ?_⟩
    obtain ⟨salt, hsalt, hderived⟩ := hkey c hc
    rw [hall c hc] at hsalt
    obtain rfl := Option.some.inj hsalt
    exact hderived
  · push Not at hall
    obtain ⟨c, hc, hne⟩ := hall
    have halone := (hsynced c hc).resolve_right hne
    obtain ⟨salt, -, hderived⟩ := hkey c hc
    refine ⟨salt, fun c' hc' => ?_⟩
    by_cases heq : c' = c
    · rw [heq]
      exact hderived
    · exact absurd hc' (halone c' heq)

/-- Members, connections and messages may have gone, and a client may have become
alone with its passphrase; nobody has lost the room's salt. -/
theorem InTune.of_le {stale : Set RoomName} (h : s.InTune stale) (hsane : s'.Sane)
    (htuned : ∀ c, (s'.apps c).Tuned)
    (hlive : ∀ p room, p ∈ s'.server.conns → p ∈ s'.server.store.peers room →
      p ∈ s.server.conns ∧ p ∈ s.server.store.peers room ∧
        s'.server.store.roomSalt room = s.server.store.roomSalt room)
    (hclient : ∀ p, s'.toClient p ⊆ s.toClient p) (hlatest : s'.latest = s.latest)
    (hkeyed : ∀ c room passphrase, s'.Keyed c room passphrase → s'.Alone c room passphrase ∨
      s.Keyed c room passphrase ∧ (s.server.store.roomSalt room ≠ [] → s.Synced c room →
        s'.Synced c room)) : s'.InTune stale where
  toSane := hsane
  tuned := htuned
  salts := by
    intro c room passphrase hc
    obtain halone | ⟨hold, hsynced⟩ := hkeyed c room passphrase hc
    · exact .inl halone
    · obtain halone | ⟨hne, hstale⟩ := h.salts c room passphrase hold
      · refine .inl fun c' hne' hc' => ?_
        obtain halone' | ⟨hold', -⟩ := hkeyed c' room passphrase hc'
        · exact halone' c (Ne.symm hne') hc
        · exact halone c' hne' hold'
      · obtain ⟨p, -, hp, hmember⟩ := hc.2
        refine .inr ⟨?_, hstale.imp_right (hsynced hne)⟩
        rwa [(hlive p room hp hmember).2.2]
  notices := by
    intro p room hstale hp hmember n hn hroom hserial
    obtain ⟨hp, hmember, hsalt⟩ := hlive p room hp hmember
    rw [hlatest] at hserial
    rw [hsalt]
    exact h.notices p room hstale hp hmember n (hclient p hn) hroom hserial

/-- The members of a room are told its salt. -/
theorem InTune.announce {stale : Set RoomName} (h : s.InTune stale) {targets : Finset PeerID}
    {pp : PresencePayload} (env : Envelope) (ho : Announces s.server targets pp) :
    (s.postOne (.presence targets env pp)).InTune (stale \ {pp.room}) where
  toSane := h.toSane.postOne fun _ _ _ heq => by
    cases heq
    exact ho.text
  tuned := h.tuned
  salts := by
    intro c room passphrase hc
    obtain halone | ⟨hne, hstale⟩ := h.salts c room passphrase hc
    · exact .inl halone
    · refine .inr ⟨hne, ?_⟩
      obtain ⟨p, hconn, hp, hmember⟩ := hc.2
      by_cases hroom : room = pp.room
      · -- the message has just been sent to the client
        rw [hroom] at hmember ⊢
        have htarget := ho.members p hmember hp (h.ne_empty hp)
        refine .inr (.inr ⟨p, hconn, ⟨s.serial, pp.room, pp.salt⟩, ?_, rfl, ?_⟩)
        · simp [Session.postOne, htarget]
        · simp [Session.postOne, htarget]
      · refine hstale.imp (fun hstale => ⟨hstale, hroom⟩) ?_
        rintro (hsalt | ⟨q, hq, n, hn, hnroom, hserial⟩)
        · exact .inl hsalt
        · refine .inr ⟨q, hq, n, ?_, hnroom, ?_⟩
          · by_cases htarget : q ∈ targets <;> simp [Session.postOne, htarget, hn]
          · simpa [Session.postOne, hroom] using hserial
  notices := by
    intro p room hstale hp hmember n hn hroom hserial
    by_cases hsame : room = pp.room
    · rw [hsame] at hmember hroom hserial ⊢
      have htarget := ho.members p hmember hp (h.ne_empty hp)
      have hnew : n.serial = s.serial := by simpa [Session.postOne, htarget] using hserial
      obtain hold | rfl : n ∈ s.toClient p ∨ n = ⟨s.serial, pp.room, pp.salt⟩ := by
        simpa [Session.postOne, htarget] using hn
      · exact absurd hnew (h.serials p n hold).ne
      · exact ho.salt ⟨p, hmember⟩
    · have hold : n ∈ s.toClient p := by
        by_cases htarget : p ∈ targets
        · obtain hold | rfl : n ∈ s.toClient p ∨ n = ⟨s.serial, pp.room, pp.salt⟩ := by
            simpa [Session.postOne, htarget] using hn
          · exact hold
          · exact absurd hroom.symm hsame
        · simpa [Session.postOne, htarget] using hn
      have hlatest : n.serial = s.latest p room := by
        simpa [Session.postOne, hsame] using hserial
      exact h.notices p room (fun hs => hstale ⟨hs, hsame⟩) hp hmember n hold hroom hlatest

/-- All that a handler announces. -/
theorem InTune.announce_all (h : s.InTune ∅) {os : List Output} (hos : AllAnnounce s.server os) :
    (os.foldl Session.postOne s).InTune ∅ := by
  induction os generalizing s with
  | nil => exact h
  | cons o os ih =>
      rw [List.foldl_cons]
      refine ih ?_ ?_
      · cases o with
        | presence targets env pp =>
            have := h.announce env (hos targets env pp List.mem_cons_self)
            rwa [Set.empty_sdiff] at this
        | _ => exact h
      · rw [server_postOne]
        exact fun targets env pp ho => hos targets env pp (List.mem_cons_of_mem o ho)

/-- The handlers other than an accepted join. -/
theorem InTune.post_shrinks (h : s.InTune ∅) (frames : PeerID → List Frame)
    {res : Server × List Output} (hshrinks : Shrinks s.server res.1)
    (hall : AllAnnounce res.1 res.2) :
    ({ s with toGateway := frames }.post res).InTune ∅ := by
  refine InTune.announce_all ?_ hall
  have hclient : ∀ p, s.toClient p ⊆ s.toClient p := fun p => List.Subset.refl _
  refine h.of_le (h.toSane.of_le hshrinks (fun _ _ hp => hp) hclient rfl) h.tuned
    (fun p room hp hmember => ⟨hshrinks.conns hp, hshrinks.peers room hmember,
      hshrinks.salts room ⟨p, hmember⟩⟩) hclient rfl ?_
  rintro c room passphrase ⟨hentered, p, hconn, hp, hmember⟩
  refine .inr ⟨⟨hentered, p, hconn, hshrinks.conns hp, hshrinks.peers room hmember⟩, ?_⟩
  rintro - (hsalt | hpending)
  · exact .inl (hsalt.trans (congrArg some (hshrinks.salts room ⟨p, hmember⟩).symm))
  · exact .inr hpending

theorem Sane.join (h : s.Sane) (frames : PeerID → List Frame) {salt : List UInt8} {t : Server}
    (hsize : salt = [] ∨ salt.length = 32) (hjoins : Joins s.server p room salt t)
    (hp : p ∈ s.server.conns) : Sane { s with toGateway := frames, server := t } where
  sized := hjoins.sized h.sized hsize
  registered := by
    show t.conns ⊆ t.issued
    rw [hjoins.conns, hjoins.issued]
    exact h.registered
  members := by
    intro room' q hq
    show q ∈ t.issued
    rw [hjoins.issued]
    obtain ⟨-, rfl⟩ | hq := (hjoins.peers room' q).mp hq
    · exact h.registered hp
    · exact h.members room' hq
  named := by
    show "" ∉ t.issued
    rw [hjoins.issued]
    exact h.named
  conns := by
    show ∀ c p, (s.apps c).conn = some p → p ∈ t.issued
    rw [hjoins.issued]
    exact h.conns
  apart := h.apart
  serials := h.serials
  texts := h.texts

/-- An accepted join, before its room is announced. -/
theorem InTune.join (h : s.InTune ∅) (frames : PeerID → List Frame) {salt : List UInt8}
    {t : Server} {jp : JoinPayload} (hsalt : decodeSalt jp.salt = .ok salt)
    (hjoins : Joins s.server p room salt t) (hp : p ∈ s.server.conns)
    (hmeets : s.FrameMeets p (.join room jp)) :
    InTune {room} { s with toGateway := frames, server := t } where
  toSane := h.toSane.join frames ((decodeSalt_ok hsalt).imp And.right And.right) hjoins hp
  tuned := h.tuned
  salts := by
    -- a member is the one that has joined, or was a member before
    have hmember : ∀ c room', Member { s with toGateway := frames, server := t } c room' →
        (room' = room ∧ (s.apps c).conn = some p) ∨ s.Member c room' := by
      rintro c room' ⟨q, hq, hconn, hpeer⟩
      obtain ⟨rfl, rfl⟩ | hpeer := (hjoins.peers room' q).mp hpeer
      · exact .inl ⟨rfl, hq⟩
      · exact .inr ⟨q, hq, by rwa [← hjoins.conns], hpeer⟩
    rintro c room' passphrase ⟨hentered, hin⟩
    by_cases hroom : room' = room
    · subst hroom
      by_cases hne : t.store.roomSalt room' = []
      · refine .inl ?_
        -- a room without a salt: nobody else has entered the passphrase
        have hnil : s.server.store.roomSalt room' = [] := by
          by_cases hempty : s.server.store.peers room' = ∅
          · exact roomSalt_eq_nil hempty
          · rwa [hjoins.salts, if_neg fun hl => hempty hl.2] at hne
        have hjoiner : ∀ c, (s.apps c).conn = some p →
            (s.apps c).entered room' = some passphrase → s.Alone c room' passphrase := by
          intro c hconn hentered
          obtain hs | ⟨hempty, htext⟩ | halone := hmeets c hconn passphrase hentered
          · exact absurd hnil hs
          · rw [hjoins.salts, if_pos ⟨rfl, hempty⟩] at hne
            obtain ⟨hnone, -⟩ | ⟨-, hsize⟩ := decodeSalt_ok hsalt
            · exact absurd hnone htext
            · rw [hne] at hsize
              cases hsize
          · exact halone
        rintro c' hother ⟨hentered', hin'⟩
        obtain ⟨-, hconn⟩ | hold := hmember c room' hin
        · obtain ⟨-, hconn'⟩ | hold' := hmember c' room' hin'
          · exact hother (h.apart c' c p hconn' hconn)
          · exact hjoiner c hconn hentered c' hother ⟨hentered', hold'⟩
        · obtain ⟨-, hconn'⟩ | hold' := hmember c' room' hin'
          · exact hjoiner c' hconn' hentered' c (Ne.symm hother) ⟨hentered, hold⟩
          · obtain halone | ⟨hs, -⟩ := h.salts c room' passphrase ⟨hentered, hold⟩
            · exact halone c' hother ⟨hentered', hold'⟩
            · exact hs hnil
      · exact .inr ⟨hne, .inl rfl⟩
    · have hold : ∀ c, Member { s with toGateway := frames, server := t } c room' →
          s.Member c room' := fun c hc => (hmember c room' hc).resolve_left fun hl => hroom hl.1
      have hsame : t.store.roomSalt room' = s.server.store.roomSalt room' := by
        rw [hjoins.salts, if_neg fun hl => hroom hl.1]
      obtain halone | ⟨hne, hstale | hsynced⟩ := h.salts c room' passphrase ⟨hentered, hold c hin⟩
      · exact .inl fun c' hne hc' => halone c' hne ⟨hc'.1, hold c' hc'.2⟩
      · exact absurd hstale (Set.notMem_empty room')
      · refine .inr ⟨by rwa [← hsame] at hne, .inr (hsynced.imp_left ?_)⟩
        exact fun hs => hs.trans (congrArg some hsame.symm)
  notices := by
    intro q room' hstale hq hpeer n hn hroom hserial
    have hne : room' ≠ room := hstale
    obtain ⟨heq, -⟩ | hpeer := (hjoins.peers room' q).mp hpeer
    · exact absurd heq hne
    · have hsame : t.store.roomSalt room' = s.server.store.roomSalt room' := by
        rw [hjoins.salts, if_neg fun hl => hne hl.1]
      rw [hsame]
      exact h.notices q room' (Set.notMem_empty room') (by rwa [← hjoins.conns]) hpeer n hn hroom
        hserial

theorem InTune.post_handleMember (h : s.InTune ∅) {frames : PeerID → List Frame} {rt : GoRuntime}
    {frame : Frame} {now : Time} (hp : p ∈ s.server.conns) (hmeets : s.FrameMeets p frame) :
    ({ s with toGateway := frames }.post (handleMember rt s.server p frame now)).InTune ∅ := by
  have hrefused : ∀ msg, ({ s with toGateway := frames }.post
      (s.server, [sendError p msg now])).InTune ∅ := fun msg =>
    h.post_shrinks _ (.refl s.server) (by simp [AllAnnounce, sendError])
  cases frame with
  | join room jp =>
      unfold handleMember
      dsimp only
      split
      · exact hrefused _
      · obtain ⟨hshrinks, hall⟩ | ⟨salt, hsalt, hjoins, hos⟩ := joinRoom_cases jp
        · exact h.post_shrinks _ hshrinks hall
        · have hjoined := h.join frames hsalt hjoins hp hmeets
          have htold := hjoined.announce (signEnvelope rt (presenceEnvelope rt
              (presenceOf (joinRoom rt s.server p room jp now).1.store room) now))
            (announces_presenceOf hjoined.sized room)
          rw [presenceOf_room, Set.sdiff_self] at htold
          unfold post
          rw [hos]
          exact htold
  | leave room =>
      unfold handleMember
      dsimp only
      split
      · exact hrefused _
      · obtain ⟨hshrinks, hall⟩ := leaveRoom_announces h.sized
        exact h.post_shrinks _ hshrinks hall

/-! ### Steps of one client -/

/-- Only one client, and messages to it, have changed. -/
structure Touches (s : Session α) (c : α) (s' : Session α) : Prop where
  server : s'.server = s.server
  apps : ∀ c', c' ≠ c → s'.apps c' = s.apps c'
  conn : ∀ p, (s'.apps c).conn = some p → (s.apps c).conn = some p
  toClient : ∀ p, s'.toClient p ⊆ s.toClient p
  others : ∀ p, (s.apps c).conn ≠ some p → s'.toClient p = s.toClient p
  serial : s'.serial = s.serial
  latest : s'.latest = s.latest

theorem Touches.sane (ht : s.Touches c s') (h : s.Sane) : s'.Sane := by
  refine h.of_le (ht.server ▸ Shrinks.refl s.server) ?_ ht.toClient ht.serial
  intro c' p hp
  by_cases heq : c' = c
  · rw [heq] at hp ⊢
    exact ht.conn p hp
  · rwa [ht.apps c' heq] at hp

theorem Touches.keyed_iff (ht : s.Touches c s') {c' : α} (hne : c' ≠ c) :
    s'.Keyed c' room passphrase ↔ s.Keyed c' room passphrase := by
  simp only [Keyed, Member, ht.server, ht.apps c' hne]

theorem Touches.alone_iff (ht : s.Touches c s') :
    s'.Alone c room passphrase ↔ s.Alone c room passphrase :=
  forall_congr' fun _ => imp_congr_right fun hne => not_congr (ht.keyed_iff hne)

/-- A client's step keeps its own membership in tune. -/
theorem InTune.touch (h : s.InTune ∅) (ht : s.Touches c s') (htuned : (s'.apps c).Tuned)
    (hself : ∀ room passphrase, s'.Keyed c room passphrase → s.Alone c room passphrase ∨
      s.Keyed c room passphrase ∧ (s.server.store.roomSalt room ≠ [] → s.Synced c room →
        s'.Synced c room)) : s'.InTune ∅ := by
  refine h.of_le (ht.sane h.toSane) ?_ ?_ ht.toClient ht.latest ?_
  · intro c'
    by_cases heq : c' = c
    · rw [heq]
      exact htuned
    · rw [ht.apps c' heq]
      exact h.tuned c'
  · rw [ht.server]
    exact fun p room hp hmember => ⟨hp, hmember, rfl⟩
  · intro c' room passphrase hc'
    by_cases heq : c' = c
    · rw [heq] at hc' ⊢
      exact (hself room passphrase hc').imp_left ht.alone_iff.mpr
    · refine .inr ⟨(ht.keyed_iff heq).mp hc', ?_⟩
      rintro - (hsalt | ⟨p, hp, n, hn, hroom, hserial⟩)
      · refine .inl ?_
        rw [ht.apps c' heq, ht.server]
        exact hsalt
      · refine .inr ⟨p, ?_, n, ?_, hroom, ?_⟩
        · rwa [ht.apps c' heq]
        · rwa [ht.others p fun hconn => heq (h.apart c' c p hp hconn)]
        · rwa [ht.latest]

/-- A step that leaves the rooms' entries and the messages to the client alone. -/
theorem InTune.touch_same (h : s.InTune ∅) (ht : s.Touches c s') (htuned : (s'.apps c).Tuned)
    (hclient : s'.toClient = s.toClient)
    (hself : ∀ room passphrase, (s'.apps c).entered room = some passphrase →
      (∀ p, (s'.apps c).conn = some p → s.Member c room → s.Alone c room passphrase) ∨
      (s.apps c).entered room = some passphrase ∧
        (s'.apps c).saltRefs room = (s.apps c).saltRefs room) : s'.InTune ∅ := by
  refine h.touch ht htuned ?_
  rintro room passphrase ⟨hentered, p, hp, hin, hmember⟩
  have hmember : s.Member c room := by
    rw [ht.server] at hin hmember
    exact ⟨p, ht.conn p hp, hin, hmember⟩
  obtain halone | ⟨hentered, hsalt⟩ := hself room passphrase hentered
  · exact .inl (halone p hp hmember)
  · refine .inr ⟨⟨hentered, hmember⟩, ?_⟩
    rintro - (hs | ⟨q, hq, n, hn, hroom, hserial⟩)
    · refine .inl ?_
      rw [hsalt, ht.server]
      exact hs
    · obtain rfl : q = p := Option.some.inj (hq.symm.trans (ht.conn p hp))
      refine .inr ⟨q, hp, n, ?_, hroom, ?_⟩
      · rwa [hclient]
      · rwa [ht.latest]

theorem Touches.send (ht : s.Touches c s') (conn : Option PeerID) (frames : List Frame) :
    s.Touches c (s'.send conn frames) := by
  cases conn with
  | none => exact ht
  | some p => exact ⟨ht.server, ht.apps, ht.conn, ht.toClient, ht.others, ht.serial, ht.latest⟩

@[simp] theorem apps_send (s : Session α) (conn : Option PeerID) (frames : List Frame) :
    (s.send conn frames).apps = s.apps := by
  cases conn <;> rfl

@[simp] theorem toClient_send (s : Session α) (conn : Option PeerID) (frames : List Frame) :
    (s.send conn frames).toClient = s.toClient := by
  cases conn <;> rfl

/-- A client has a new connection. -/
structure Connects (s : Session α) (c : α) (p : PeerID) (s' : Session α) : Prop where
  server : s'.server = s.server.register p
  apps : ∀ c', c' ≠ c → s'.apps c' = s.apps c'
  self : s'.apps c = { s.apps c with conn := some p }
  toClient : s'.toClient = s.toClient
  serial : s'.serial = s.serial
  latest : s'.latest = s.latest

theorem Connects.conn (hs : s.Connects c p s') {c' : α} {q : PeerID}
    (hq : (s'.apps c').conn = some q) : (c' = c ∧ q = p) ∨ c' ≠ c ∧ (s.apps c').conn = some q := by
  by_cases heq : c' = c
  · rw [heq, hs.self] at hq
    exact .inl ⟨heq, (Option.some.inj hq).symm⟩
  · rw [hs.apps c' heq] at hq
    exact .inr ⟨heq, hq⟩

theorem Connects.sane (hs : s.Connects c p s') (h : s.Sane) (hfresh : p ∉ s.server.issued)
    (hp : p ≠ "") : s'.Sane where
  sized := by
    rw [hs.server]
    exact h.sized
  registered := by
    rw [hs.server]
    exact Finset.insert_subset_insert p h.registered
  members := by
    rw [hs.server]
    exact fun room => (h.members room).trans (Finset.subset_insert p _)
  named := by
    rw [hs.server]
    exact fun hmem => h.named ((Finset.mem_insert.mp hmem).resolve_left (Ne.symm hp))
  conns := by
    rw [hs.server]
    intro c' q hq
    obtain ⟨-, rfl⟩ | ⟨-, hq⟩ := hs.conn hq
    · exact Finset.mem_insert_self q _
    · exact Finset.mem_insert_of_mem (h.conns c' q hq)
  apart := by
    intro c₁ c₂ q hq₁ hq₂
    obtain ⟨rfl, rfl⟩ | ⟨-, hq₁⟩ := hs.conn hq₁
    · obtain ⟨rfl, -⟩ | ⟨-, hq₂⟩ := hs.conn hq₂
      · rfl
      · exact absurd (h.conns c₂ q hq₂) hfresh
    · obtain ⟨-, rfl⟩ | ⟨-, hq₂⟩ := hs.conn hq₂
      · exact absurd (h.conns c₁ q hq₁) hfresh
      · exact h.apart c₁ c₂ q hq₁ hq₂
  serials := by
    rw [hs.toClient, hs.serial]
    exact h.serials
  texts := by
    rw [hs.toClient]
    exact h.texts

/-- A new connection is in no room. -/
theorem InTune.connect (h : s.InTune ∅) (hs : s.Connects c p s') (hfresh : p ∉ s.server.issued)
    (hp : p ≠ "") : s'.InTune ∅ := by
  have hpeer : ∀ room, p ∉ s.server.store.peers room := fun room hin => hfresh (h.members room hin)
  have hstore : s'.server.store = s.server.store := by rw [hs.server]; rfl
  refine h.of_le (hs.sane h.toSane hfresh hp) ?_ ?_ (by simp [hs.toClient]) hs.latest ?_
  · intro c'
    by_cases heq : c' = c
    · rw [heq, hs.self]
      exact (h.tuned c).congr rfl rfl rfl rfl rfl
    · rw [hs.apps c' heq]
      exact h.tuned c'
  · intro q room hq hin
    rw [hstore] at hin ⊢
    rw [hs.server] at hq
    obtain rfl | hq := Finset.mem_insert.mp hq
    · exact absurd hin (hpeer room)
    · exact ⟨hq, hin, rfl⟩
  · rintro c' room passphrase ⟨hentered, q, hq, hreg, hin⟩
    rw [hstore] at hin
    obtain ⟨-, rfl⟩ | ⟨hne, hq⟩ := hs.conn hq
    · exact absurd hin (hpeer room)
    · rw [hs.server] at hreg
      obtain rfl | hreg := Finset.mem_insert.mp hreg
      · exact absurd hin (hpeer room)
      · rw [hs.apps c' hne] at hentered
        refine .inr ⟨⟨hentered, q, hq, hreg, hin⟩, ?_⟩
        rintro - (hsalt | ⟨q', hq', n, hn, hroom, hserial⟩)
        · refine .inl ?_
          rw [hs.apps c' hne, hstore]
          exact hsalt
        · refine .inr ⟨q', ?_, n, ?_, hroom, ?_⟩
          · rwa [hs.apps c' hne]
          · rwa [hs.toClient]
          · rwa [hs.latest]

section
variable [DecidableEq α]

@[simp] theorem apps_setApp_self (s : Session α) (c : α) (a : App) : (s.setApp c a).apps c = a := by
  simp [setApp]

theorem touches_setApp {a : App} (hconn : ∀ p, a.conn = some p → (s.apps c).conn = some p) :
    s.Touches c (s.setApp c a) where
  server := rfl
  apps := fun _ hne => Function.update_of_ne hne _ _
  conn := by
    rw [apps_setApp_self]
    exact hconn
  toClient := fun _ => List.Subset.refl _
  others := fun _ _ => rfl
  serial := rfl
  latest := rfl

theorem InTune.join_form (h : s.InTune ∅) (form : JoinForm) (passphrase : String)
    {salt : List UInt8} (hsize : salt.length = 32) (generated : AesKey)
    (hmeets : s.Member c form.room → s.Alone c form.room passphrase) :
    (s.setApp c ((s.apps c).setupRoomKey form passphrase salt generated)).InTune ∅ := by
  have hsetup := (h.tuned c).setupRoomKey form passphrase hsize generated
  have hconn := (s.apps c).conn_setupRoomKey form passphrase salt generated
  refine h.touch_same (c := c) (touches_setApp fun p hp => hconn ▸ hp) (by simpa using hsetup) rfl ?_
  intro room other hentered
  rw [apps_setApp_self] at hentered ⊢
  obtain hsame | ⟨rfl, rfl⟩ :=
    (s.apps c).entered_setupRoomKey form passphrase salt generated hentered
  · exact .inr hsame
  · exact .inl fun _ _ hmember => hmeets hmember

theorem InTune.complete (h : s.InTune ∅) {i : ℕ} {a : App} (horder : (s.apps c).InOrder i)
    (hdone : (s.apps c).complete i = some a) : (s.setApp c a).InTune ∅ := by
  obtain ⟨task, -, hcompleted⟩ := App.completed_of_complete hdone
  refine h.touch_same (c := c) (touches_setApp fun p hp => hcompleted.conn ▸ hp)
    (by simpa using (h.tuned c).complete horder hdone) rfl ?_
  intro room passphrase hentered
  rw [apps_setApp_self] at hentered ⊢
  rw [hcompleted.entered] at hentered
  exact .inr ⟨hentered, congrFun hcompleted.salts room⟩

theorem InTune.sendJoin (h : s.InTune ∅) {i : ℕ} {res : App × List Frame}
    (hsent : (s.apps c).sendJoin i = some res) :
    ((s.setApp c res.1).send res.1.conn res.2).InTune ∅ := by
  obtain ⟨htuned, hconn, hentered, hsalts⟩ := (h.tuned c).sendJoin hsent
  refine h.touch_same (c := c) ((touches_setApp fun p hp => hconn ▸ hp).send _ _)
    (by simpa using htuned) (by simp [setApp]) ?_
  intro room passphrase hroom
  rw [apps_send, apps_setApp_self] at hroom ⊢
  rw [hentered] at hroom
  exact .inr ⟨hroom, congrFun hsalts room⟩

theorem InTune.leave (h : s.InTune ∅) (frames : List Frame)
    (hroom : (s.apps c).joining room = true → (s.apps c).entered room = none) :
    ((s.setApp c ((s.apps c).leave room)).send (s.apps c).conn frames).InTune ∅ := by
  have hconn : ∀ p, ((s.apps c).leave room).conn = some p → (s.apps c).conn = some p := by
    intro p hp
    simp only [App.leave] at hp
    split at hp
    · cases hp
    · exact hp
  refine h.touch_same (c := c) ((touches_setApp hconn).send _ _)
    (by simpa using (h.tuned c).leave hroom) (by simp [setApp]) ?_
  intro r passphrase hr
  rw [apps_send, apps_setApp_self] at hr ⊢
  rw [App.entered_leave hroom] at hr
  by_cases hsame : r = room
  · rw [hsame, Function.update_self] at hr
    cases hr
  · rw [Function.update_of_ne hsame] at hr
    exact .inr ⟨hr, Function.update_of_ne hsame _ _⟩

theorem InTune.drop (h : s.InTune ∅) (c : α) :
    (s.setApp c { s.apps c with conn := none }).InTune ∅ := by
  refine h.touch_same (c := c) (touches_setApp fun p hp => by cases hp) ?_ rfl ?_
  · rw [apps_setApp_self]
    exact (h.tuned c).congr rfl rfl rfl rfl rfl
  · intro room passphrase hroom
    rw [apps_setApp_self] at hroom ⊢
    exact .inr ⟨hroom, rfl⟩

/-- **A presence message that fits is processed.** If it is the latest one the
client ends up with the room's salt; if not, the latest one stays on its way. -/
theorem InTune.deliver (h : s.InTune ∅) {i : ℕ} {n : Notice} (hconn : (s.apps c).conn = some p)
    (hn : (s.toClient p)[i]? = some n)
    (hmeets : ∀ passphrase ∈ (s.apps c).entered n.room, s.Member c n.room →
      s.Fits (s.apps c) n ∨ s.Alone c n.room passphrase) :
    ({ s with toClient := Function.update s.toClient p ((s.toClient p).eraseIdx i) }.setApp c
      ((s.apps c).presence n.room n.salt)).InTune ∅ := by
  have htext : SaltText n.salt := h.texts p n (List.mem_of_getElem? hn)
  set a := (s.apps c).presence n.room n.salt with ha
  set s' := { s with
    toClient := Function.update s.toClient p ((s.toClient p).eraseIdx i) }.setApp c a with hs'
  have happ : s'.apps c = a := apps_setApp_self _ _ _
  have hkept := (s.apps c).presence_keeps n.room n.salt
  have hclient : s'.toClient p = (s.toClient p).eraseIdx i := Function.update_self _ _ _
  have hothers : ∀ q, q ≠ p → s'.toClient q = s.toClient q :=
    fun q hq => Function.update_of_ne hq _ _
  have htouches : s.Touches c s' := by
    refine ⟨rfl, fun _ hne => Function.update_of_ne hne _ _, ?_, ?_, ?_, rfl, rfl⟩
    · rw [happ, hkept.1]
      exact fun _ hq => hq
    · intro q
      by_cases hq : q = p
      · rw [hq, hclient]
        exact List.eraseIdx_subset
      · rw [hothers q hq]
        exact List.Subset.refl _
    · intro q hq
      refine hothers q ?_
      rintro rfl
      exact hq hconn
  refine h.touch htouches ?_ ?_
  · rw [happ]
    exact (h.tuned c).presence htext
  · rintro room passphrase ⟨hentered, hmember⟩
    have hmember : s.Member c room := by
      obtain ⟨q, hq, hin⟩ := hmember
      exact ⟨q, htouches.conn q hq, hin⟩
    rw [happ, hkept.2.1] at hentered
    -- another message about the room stays on its way
    have hstays : ∀ m ∈ s.toClient p, m ≠ n → m ∈ s'.toClient p := by
      intro m hm hne
      rw [hclient, List.mem_eraseIdx_iff_getElem?]
      obtain ⟨j, hj⟩ := List.mem_iff_getElem?.mp hm
      refine ⟨j, ?_, hj⟩
      rintro rfl
      rw [hn] at hj
      exact hne (Option.some.inj hj).symm
    have hpending : (∃ m ∈ s.toClient p, m ≠ n ∧ m.room = room ∧ m.serial = s.latest p room) →
        s'.Pending c room := by
      rintro ⟨m, hm, hne, hroom, hserial⟩
      refine ⟨p, ?_, m, hstays m hm hne, hroom, hserial⟩
      rw [happ, hkept.1]
      exact hconn
    by_cases hroom : room = n.room
    · subst hroom
      obtain hfits | halone := hmeets passphrase hentered hmember
      · refine .inr ⟨⟨hentered, hmember⟩, fun hne hsynced => ?_⟩
        have hsalt := fun hold => App.saltRefs_presence hne htext hfits hold
        have hhas : n.salt = saltText (s.server.store.roomSalt n.room) ∨
            (s.apps c).saltRefs n.room = some (s.server.store.roomSalt n.room) →
              s'.Synced c n.room := by
          intro hold
          refine .inl ?_
          rw [happ]
          exact hsalt hold
        obtain ⟨q, hq, hreg, hin⟩ := hmember
        obtain rfl : q = p := Option.some.inj (hq.symm.trans hconn)
        by_cases hlatest : n.serial = s.latest q n.room
        · exact hhas (.inl (h.notices q n.room (Set.notMem_empty _) hreg hin n
            (List.mem_of_getElem? hn) rfl hlatest))
        · obtain hold | ⟨q', hq', m, hm, hmroom, hserial⟩ := hsynced
          · exact hhas (.inr hold)
          · obtain rfl : q' = q := Option.some.inj (hq'.symm.trans hconn)
            refine .inr (hpending ⟨m, hm, ?_, hmroom, hserial⟩)
            rintro rfl
            exact hlatest hserial
      · exact .inl halone
    · refine .inr ⟨⟨hentered, hmember⟩, ?_⟩
      rintro - (hold | ⟨q, hq, m, hm, hmroom, hserial⟩)
      · refine .inl ?_
        rw [happ, hkept.2.2 room hroom]
        exact hold
      · obtain rfl : q = p := Option.some.inj (hq.symm.trans hconn)
        refine .inr (hpending ⟨m, hm, ?_, hmroom, hserial⟩)
        rintro rfl
        exact hroom hmroom.symm

/-- **Every step that meets the condition keeps the state in tune.** -/
theorem InTune.step {rt : GoRuntime} {a : SessionAction α} (h : s.InTune ∅) (hmeets : s.Meets a)
    (hstep : sessionStep rt s a = some s') : s'.InTune ∅ := by
  cases a with
  | join c form passphrase salt generated =>
      simp only [sessionStep, Option.ite_none_right_eq_some, Option.some.injEq] at hstep
      obtain ⟨⟨hsize, -⟩, rfl⟩ := hstep
      exact h.join_form form passphrase hsize generated hmeets
  | complete c i =>
      obtain ⟨a, hdone, rfl⟩ := Option.map_eq_some_iff.mp hstep
      exact h.complete hmeets hdone
  | sendJoin c i =>
      simp only [sessionStep, Option.ite_none_right_eq_some] at hstep
      obtain ⟨res, hsent, rfl⟩ := Option.map_eq_some_iff.mp hstep.2
      exact h.sendJoin hsent
  | leave c room =>
      simp only [sessionStep, Option.ite_none_right_eq_some, Option.some.injEq] at hstep
      obtain ⟨-, rfl⟩ := hstep
      exact h.leave _ hmeets
  | connect c p =>
      simp only [sessionStep, Option.ite_none_right_eq_some, Option.some.injEq] at hstep
      obtain ⟨⟨-, hfresh, hp⟩, rfl⟩ := hstep
      exact h.connect ⟨rfl, fun _ hne => Function.update_of_ne hne _ _, apps_setApp_self _ _ _,
        rfl, rfl, rfl⟩ hfresh hp
  | drop c =>
      obtain rfl := Option.some.inj hstep
      exact h.drop c
  | deliver c i =>
      obtain ⟨p, hconn, hrest⟩ := Option.bind_eq_some_iff.mp hstep
      obtain ⟨n, hn, rfl⟩ := Option.map_eq_some_iff.mp hrest
      exact h.deliver hconn hn (hmeets p hconn n hn)
  | receive p now =>
      simp only [sessionStep] at hstep
      split at hstep
      · cases hstep
      · rename_i frame rest hframes
        split at hstep
        · rename_i hp
          obtain rfl := Option.some.inj hstep
          exact h.post_handleMember hp (hmeets frame (by rw [hframes]; rfl))
        · cases hstep
  | disconnect p order now =>
      simp only [sessionStep, Option.ite_none_right_eq_some, Option.some.injEq] at hstep
      obtain ⟨-, rfl⟩ := hstep
      obtain ⟨hshrinks, hall⟩ := handleDisconnect_announces order h.sized
      exact h.post_shrinks _ hshrinks hall
  | cleanup room order now =>
      simp only [sessionStep, Option.ite_none_right_eq_some, Option.some.injEq] at hstep
      obtain ⟨-, rfl⟩ := hstep
      obtain ⟨hshrinks, hall⟩ := cleanupRoom_announces s.server room "__cleanup__" order now
      exact h.post_shrinks s.toGateway hshrinks hall
  | restart =>
      obtain rfl := Option.some.inj hstep
      have hsane : Sane { s with
          server := newServer
          apps := fun c => { s.apps c with conn := none }
          toGateway := fun _ => []
          toClient := fun _ => [] } :=
        ⟨fun _ => .inl rfl, subset_rfl, fun _ => subset_rfl, Finset.notMem_empty "",
          fun _ _ hp => (nomatch hp), fun _ _ _ hp => (nomatch hp), fun _ _ hn => (nomatch hn),
          fun _ _ hn => (nomatch hn)⟩
      refine h.of_le hsane (fun c => (h.tuned c).congr rfl rfl rfl rfl rfl)
        (fun p room hp => nomatch hp) (fun _ => List.nil_subset _) rfl ?_
      rintro c room passphrase ⟨-, p, hp, -⟩
      cases hp

end

end Session

/-- **Members agree on the keys of passphrase rooms** in every state reached by
steps that meet the condition. -/
theorem saltAgreement {α : Type} [DecidableEq α] (rt : GoRuntime)
    (fragments : α → Option (RoomName × String)) {s : Session α}
    (hs : ReachableVia (sessionStep rt) Session.Meets (opened fragments) s) : s.KeysAgree :=
  (hs.invariant (I := Session.InTune ∅) (Session.inTune_opened fragments)
    fun _ _ _ h hmeets hstep => h.step hmeets hstep).keysAgree

/-- The form of room `r` is submitted with the passphrase `pw`, and the join sent
over a new connection and received. -/
def joins (c : Bool) (p : PeerID) (salt : List UInt8) : List (SessionAction Bool) :=
  [.join c ⟨"r", "", 0⟩ "pw" salt zeroKey, .complete c 0, .connect c p,
    .sendJoin c 0, .receive p 0, .deliver c 0]

/-- Two clients join, and the second one derives its key again. -/
def twoJoins : List (SessionAction Bool) :=
  joins true "a" (List.replicate 32 1) ++ joins false "b" (List.replicate 32 2) ++
    [.complete false 0, .deliver true 0]

theorem twoJoins_meets : (execVia (sessionStep (asciiRuntime "" {})) Session.Meets
    (opened fun _ => none) twoJoins).isSome = true := by
  decide +kernel

theorem saltAgreement_twoJoins : ((execVia (sessionStep (asciiRuntime "" {})) Session.Meets
    (opened fun _ => none) twoJoins).get twoJoins_meets).KeysAgree :=
  saltAgreement (asciiRuntime "" {}) (fun _ => none) (reachableVia_get twoJoins_meets)

/-- Then the gateway restarts. The second client is back first: it creates the
room with the salt of its stored join, and has no passphrase left when it is told
the new salt. -/
def joinsAcrossRestart : List (SessionAction Bool) :=
  twoJoins ++ [.restart, .connect false "c", .receive "c" 0, .deliver false 0, .connect true "d",
    .receive "d" 0, .deliver true 0, .complete true 0, .deliver false 0]

theorem joinsAcrossRestart_ends :
    (exec (sessionStep (asciiRuntime "" {})) (opened fun _ => none) joinsAcrossRestart).any
      fun s => (∀ c, s.Keyed c "r" "pw" ∧ s.UpToDate c "r") ∧
        (s.apps true).keyRefs "r" ≠ (s.apps false).keyRefs "r" := by
  decide +kernel

/-- **The two clients end up with different keys**, with nothing under way. -/
theorem joinsAcrossRestart_disagrees : ¬∀ s, Reachable (sessionStep (asciiRuntime "" {}))
    (opened (fun _ : Bool => none)) s → s.KeysAgree := by
  intro h
  obtain ⟨s, hs, hends⟩ := Option.any_eq_true _ _ |>.mp joinsAcrossRestart_ends
  obtain ⟨hready, hne⟩ := of_decide_eq_true hends
  obtain ⟨salt, hsalt⟩ := h s (reachable_of_exec .start hs) "r" "pw" fun c _ => (hready c).2
  exact hne ((hsalt true (hready true).1).trans (hsalt false (hready false).1).symm)

end TrapChat.Network
