import TrapChat.Client.RoomKeys
import TrapChat.Gateway.Salts

/-!
What one client's maps say about the key it will end up with. The key of a room
is the one that the last task started for the room computes, as long as tasks of
one room are completed in the order in which they were started; and while the
client stands by the passphrase it entered, that key is derived from the cached
salt.
-/

namespace TrapChat.Client

open Storage Protocol Gateway

namespace App

/-- The keys that the tasks of a room compute, in the order in which they were
started. -/
def underWay (a : App) (room : RoomName) : List RoomKey :=
  (a.tasks.filter (·.room = room)).filterMap KeyTask.key

/-- The key that the client has for a room once its tasks are completed in order. -/
def Coming (a : App) (room : RoomName) (key : RoomKey) : Prop :=
  match (a.underWay room).getLast? with
  | none => a.keyRefs room = some (.key key)
  | some last => last = key

/-- A room that was entered with a passphrase has a cached salt, and its key is
coming to be derived from the two. -/
structure Tuned (a : App) : Prop where
  keys : ∀ room passphrase, a.entered room = some passphrase →
    ∃ salt, salt.length = 32 ∧ a.saltRefs room = some salt ∧
      a.Coming room (.derived room passphrase salt)
  passphrases : ∀ room kept passphrase, a.passphraseRefs room = some kept →
    a.entered room = some passphrase → kept = passphrase

theorem tuned_open (fragment : Option (RoomName × String)) : (App.open fragment).Tuned where
  keys := by simp [App.open]
  passphrases := by simp [App.open]

theorem Coming.of_idle {a : App} {room : RoomName} {key : RoomKey} (h : a.Coming room key)
    (hidle : ∀ task ∈ a.tasks, task.room ≠ room) : a.keyRefs room = some (.key key) := by
  have hnone : a.underWay room = [] := by
    have htasks : a.tasks.filter (·.room = room) = [] :=
      List.filter_eq_nil_iff.mpr (by simpa using hidle)
    rw [underWay, htasks]
    rfl
  simpa only [Coming, hnone, List.getLast?_nil] using h

/-- Two apps that look alike to a room. -/
theorem Coming.congr {a a' : App} {room : RoomName} {key : RoomKey} (h : a.Coming room key)
    (htasks : a'.underWay room = a.underWay room) (hkeys : a'.keyRefs room = a.keyRefs room) :
    a'.Coming room key := by
  unfold Coming at h ⊢
  rw [htasks, hkeys]
  exact h

/-! ### Starting a task -/

section
variable {a a' : App} {task : KeyTask} {room : RoomName} {key : RoomKey}

theorem underWay_start_ne (htasks : a'.tasks = a.tasks ++ [task]) (hroom : task.room ≠ room) :
    a'.underWay room = a.underWay room := by
  simp [underWay, htasks, List.filter_append, hroom]

theorem coming_start_self (htasks : a'.tasks = a.tasks ++ [task]) (hkey : task.key = some key) :
    a'.Coming task.room key := by
  have hlast : (a'.underWay task.room).getLast? = some key := by
    simp [underWay, htasks, List.filter_append, hkey]
  simp only [Coming, hlast]

variable (task) in
/-- A room's task is started after a change to the room's own entries. -/
theorem Tuned.start (ha : a.Tuned) (htasks : a'.tasks = a.tasks ++ [task])
    (hkeys : a'.keyRefs = a.keyRefs)
    (hsalts : ∀ r, r ≠ task.room → a'.saltRefs r = a.saltRefs r)
    (hpass : ∀ r, r ≠ task.room → a'.passphraseRefs r = a.passphraseRefs r)
    (hentered : ∀ r, r ≠ task.room → a'.entered r = a.entered r)
    (hself : ∀ passphrase, a'.entered task.room = some passphrase →
      ∃ salt, salt.length = 32 ∧ a'.saltRefs task.room = some salt ∧
        task.key = some (.derived task.room passphrase salt))
    (hselfpass : ∀ kept passphrase, a'.passphraseRefs task.room = some kept →
      a'.entered task.room = some passphrase → kept = passphrase) : a'.Tuned where
  keys := by
    intro r passphrase hr
    by_cases hroom : r = task.room
    · rw [hroom] at hr ⊢
      obtain ⟨salt, hsize, hsalt, hkey⟩ := hself passphrase hr
      exact ⟨salt, hsize, hsalt, coming_start_self htasks hkey⟩
    · rw [hentered r hroom] at hr
      obtain ⟨salt, hsize, hsalt, hcoming⟩ := ha.keys r passphrase hr
      exact ⟨salt, hsize, (hsalts r hroom).trans hsalt,
        hcoming.congr (underWay_start_ne htasks (Ne.symm hroom)) (congrFun hkeys r)⟩
  passphrases := by
    intro r kept passphrase hkept hr
    by_cases hroom : r = task.room
    · rw [hroom] at hkept hr
      exact hselfpass kept passphrase hkept hr
    · rw [hpass r hroom] at hkept
      rw [hentered r hroom] at hr
      exact ha.passphrases r kept passphrase hkept hr

/-- A change that leaves the maps and the tasks alone. -/
theorem Tuned.congr (ha : a.Tuned) (htasks : a'.tasks = a.tasks) (hkeys : a'.keyRefs = a.keyRefs)
    (hsalts : a'.saltRefs = a.saltRefs) (hpass : a'.passphraseRefs = a.passphraseRefs)
    (hentered : a'.entered = a.entered) : a'.Tuned where
  keys := by
    intro r passphrase hr
    rw [hentered] at hr
    obtain ⟨salt, hsize, hsalt, hcoming⟩ := ha.keys r passphrase hr
    have hunder : a'.underWay r = a.underWay r := by simp only [underWay, htasks]
    exact ⟨salt, hsize, (congrFun hsalts r).trans hsalt, hcoming.congr hunder (congrFun hkeys r)⟩
  passphrases := by
    intro r kept passphrase hkept hr
    rw [hpass] at hkept
    rw [hentered] at hr
    exact ha.passphrases r kept passphrase hkept hr

theorem Tuned.setupRoomKey (ha : a.Tuned) (form : JoinForm) (passphrase : String)
    {salt : List UInt8} (hsalt : salt.length = 32) (generated : AesKey) :
    (a.setupRoomKey form passphrase salt generated).Tuned := by
  unfold App.setupRoomKey
  split
  · refine ha.start (.importLink form _) rfl rfl (fun _ _ => rfl) (fun _ _ => rfl)
      (fun r hr => Function.update_of_ne hr _ _) ?_ ?_ <;> simp [KeyTask.room]
  · split
    · refine ha.start (.derive form passphrase salt) rfl rfl
        (fun r hr => Function.update_of_ne hr _ _) (fun r hr => Function.update_of_ne hr _ _)
        (fun r hr => Function.update_of_ne hr _ _) ?_ ?_ <;> simp [KeyTask.room, KeyTask.key, hsalt]
    · split
      · refine ha.start (.generate form generated) rfl rfl (fun _ _ => rfl)
          (fun _ _ => rfl) (fun r hr => Function.update_of_ne hr _ _) ?_ ?_ <;> simp [KeyTask.room]
      · exact ha.congr rfl rfl rfl rfl rfl

/-- Only the form's room is entered, and only with the form's passphrase. -/
theorem entered_setupRoomKey (a : App) (form : JoinForm) (passphrase : String) (salt : List UInt8)
    (generated : AesKey) {room : RoomName} {other : String}
    (h : (a.setupRoomKey form passphrase salt generated).entered room = some other) :
    (a.entered room = some other ∧
      (a.setupRoomKey form passphrase salt generated).saltRefs room = a.saltRefs room) ∨
    room = form.room ∧ other = passphrase := by
  unfold App.setupRoomKey at h ⊢
  by_cases hroom : room = form.room
  · subst hroom
    split at h
    · simp at h
    · split at h
      · exact .inr ⟨rfl, (by simpa using h : passphrase = other).symm⟩
      · rename_i hblank
        rw [if_neg hblank]
        split at h
        · simp at h
        · rename_i hentry
          rw [if_neg hentry]
          exact .inl ⟨h, rfl⟩
  · refine .inl ?_
    split at h
    · exact ⟨by simpa [hroom] using h, rfl⟩
    · split at h
      · rename_i hblank
        rw [if_pos hblank]
        exact ⟨by simpa [hroom] using h, Function.update_of_ne hroom _ _⟩
      · rename_i hblank
        rw [if_neg hblank]
        split at h
        · rename_i hentry
          rw [if_pos hentry]
          exact ⟨by simpa [hroom] using h, rfl⟩
        · rename_i hentry
          rw [if_neg hentry]
          exact ⟨h, rfl⟩

theorem conn_setupRoomKey (a : App) (form : JoinForm) (passphrase : String) (salt : List UInt8)
    (generated : AesKey) : (a.setupRoomKey form passphrase salt generated).conn = a.conn := by
  unfold App.setupRoomKey
  split
  · rfl
  · split
    · rfl
    · split <;> rfl

/-- A presence message is without effect, or the key is derived again. -/
theorem presence_cases (a : App) (room : RoomName) {text : String} (htext : SaltText text) :
    (a.presence room text = a ∧ (text = "" ∨ (a.saltRefs room).map Base64.encode = some text ∨
      a.passphraseRefs room = none)) ∨
    ∃ salt kept, salt.length = 32 ∧ text = Base64.encode salt ∧ a.saltRefs room ≠ some salt ∧
      a.passphraseRefs room = some kept ∧ a.presence room text =
        { a with
          saltRefs := Function.update a.saltRefs room (some salt)
          tasks := a.tasks ++ [.rederive room kept salt] } := by
  obtain rfl | ⟨salt, hsize, rfl⟩ := htext
  · exact .inl ⟨rfl, .inl rfl⟩
  · unfold App.presence
    split
    · rename_i hnone
      exact .inl ⟨rfl, .inl hnone⟩
    · rw [Base64.decodeForgiving_encode]
      dsimp only
      split
      · rename_i hsame
        exact .inl ⟨rfl, .inr (.inl (by rw [hsame]; rfl))⟩
      · rename_i hother
        cases hkept : a.passphraseRefs room with
        | none => exact .inl ⟨rfl, .inr (.inr rfl)⟩
        | some kept => exact .inr ⟨salt, kept, hsize, rfl, hother, rfl, rfl⟩

/-- What a presence message leaves alone. -/
theorem presence_keeps (a : App) (room : RoomName) (text : String) :
    (a.presence room text).conn = a.conn ∧ (a.presence room text).entered = a.entered ∧
      ∀ r, r ≠ room → (a.presence room text).saltRefs r = a.saltRefs r := by
  unfold App.presence
  split
  · exact ⟨rfl, rfl, fun _ _ => rfl⟩
  · split
    · exact ⟨rfl, rfl, fun _ _ => rfl⟩
    · split
      · exact ⟨rfl, rfl, fun _ _ => rfl⟩
      · split
        · exact ⟨rfl, rfl, fun _ _ => rfl⟩
        · exact ⟨rfl, rfl, fun r hr => Function.update_of_ne hr _ _⟩

/-- A message that fits a room with the salt `current` lets the client have that
salt if the message carries it, and keep it if the client has it. -/
theorem saltRefs_presence {current : List UInt8} (hcurrent : current ≠ []) {text : String}
    (htext : SaltText text)
    (hfits : text = "" ∨ (a.saltRefs room).map Base64.encode = some text ∨
      (text = saltText current ↔ (a.passphraseRefs room).isSome = true))
    (h : text = saltText current ∨ a.saltRefs room = some current) :
    (a.presence room text).saltRefs room = some current := by
  have hencode : saltText current = Base64.encode current := saltText_ne hcurrent
  have hcached : (a.saltRefs room).map Base64.encode = some (Base64.encode current) →
      a.saltRefs room = some current := by
    intro hmap
    obtain ⟨salt, hsalt, heq⟩ := Option.map_eq_some_iff.mp hmap
    rw [hsalt, Base64.encode_injective heq]
  obtain ⟨hsame, hwhy⟩ | ⟨salt, kept, hsize, rfl, hother, hkept, hnew⟩ := a.presence_cases room htext
  · rw [hsame]
    obtain rfl | hold := h
    · rw [hencode] at hwhy hfits
      obtain hempty | hmap | hnone := hwhy
      · exact absurd hempty (Base64.encode_ne_empty hcurrent)
      · exact hcached hmap
      · obtain hempty | hmap | hiff := hfits
        · exact absurd hempty (Base64.encode_ne_empty hcurrent)
        · exact hcached hmap
        · rw [hnone, ← hencode] at hiff
          cases hiff.mp rfl
    · exact hold
  · -- the passphrase is there, so the message has the room's salt
    have hne : salt ≠ [] := by
      rintro rfl
      cases hsize
    have hsalt : Base64.encode salt = Base64.encode current := by
      obtain hempty | hmap | hiff := hfits
      · exact absurd hempty (Base64.encode_ne_empty hne)
      · obtain ⟨cached, hsalt, heq⟩ := Option.map_eq_some_iff.mp hmap
        rw [Base64.encode_injective heq] at hsalt
        exact absurd hsalt hother
      · rw [← hencode]
        exact hiff.mpr (by rw [hkept]; rfl)
    rw [hnew, Base64.encode_injective hsalt]
    exact Function.update_self room _ _

theorem Tuned.presence (ha : a.Tuned) {text : String} (htext : SaltText text) :
    (a.presence room text).Tuned := by
  obtain ⟨hsame, -⟩ | ⟨salt, kept, hsize, -, -, hkept, hnew⟩ := a.presence_cases room htext
  · rw [hsame]
    exact ha
  · rw [hnew]
    refine ha.start (.rederive room kept salt) rfl rfl
      (fun r hr => Function.update_of_ne hr _ _) (fun _ _ => rfl) (fun _ _ => rfl) ?_ ?_
    · intro passphrase hpass
      refine ⟨salt, hsize, Function.update_self _ _ _, ?_⟩
      have hroom : a.entered room = some passphrase := hpass
      simp [KeyTask.key, KeyTask.room, hsize, ha.passphrases room kept passphrase hkept hroom]
    · exact fun kept' passphrase hk hr => ha.passphrases room kept' passphrase hk hr

/-- A room is left for good, when no join of it is under way or it was not entered
with a passphrase. -/
theorem entered_leave (hroom : a.joining room = true → a.entered room = none) :
    (a.leave room).entered = Function.update a.entered room none := by
  show (if a.joining room = true then _ else _) = _
  split
  · rename_i hjoining
    rw [← hroom hjoining, Function.update_eq_self]
  · rfl

theorem Tuned.leave (ha : a.Tuned) (hroom : a.joining room = true → a.entered room = none) :
    (a.leave room).Tuned := by
  have hentered := entered_leave hroom
  refine ⟨?_, ?_⟩
  · intro r passphrase hr
    rw [hentered] at hr
    have hne : r ≠ room := by
      rintro rfl
      simp at hr
    rw [Function.update_of_ne hne] at hr
    obtain ⟨salt, hsize, hsalt, hcoming⟩ := ha.keys r passphrase hr
    exact ⟨salt, hsize, (Function.update_of_ne hne _ _).trans hsalt,
      hcoming.congr rfl (Function.update_of_ne hne _ _)⟩
  · intro r kept passphrase hkept hr
    rw [hentered] at hr
    have hne : r ≠ room := by
      rintro rfl
      simp at hr
    rw [Function.update_of_ne hne] at hr
    exact ha.passphrases r kept passphrase ((Function.update_of_ne hne _ _).symm.trans hkept) hr

/-! ### Completing a task -/

/-- No older task of the room is about to put another key in the place of the
one that this task has computed, or the room was not entered with a passphrase. -/
def InOrder (a : App) (i : ℕ) : Prop :=
  ∀ task ∈ a.tasks[i]?, a.entered task.room = none ∨
    ∀ older ∈ a.tasks.take i, older.room = task.room →
      older.key = none ∨ task.key = none ∨ older.key = task.key

instance (a : App) (i : ℕ) : Decidable (a.InOrder i) :=
  inferInstanceAs (Decidable (∀ _ ∈ _, _))

/-- The keys under way for the room of a task that is completed, before and after. -/
theorem underWay_complete (room : RoomName) {i : ℕ} (htask : a.tasks[i]? = some task)
    (htasks : a'.tasks = a.tasks.eraseIdx i) :
    a.underWay room = ((a.tasks.take i).filter (·.room = room)).filterMap KeyTask.key ++
        (([task].filter (·.room = room)).filterMap KeyTask.key ++
          ((a.tasks.drop (i + 1)).filter (·.room = room)).filterMap KeyTask.key) ∧
      a'.underWay room = ((a.tasks.take i).filter (·.room = room)).filterMap KeyTask.key ++
        ((a.tasks.drop (i + 1)).filter (·.room = room)).filterMap KeyTask.key := by
  obtain ⟨hi, hget⟩ := List.getElem?_eq_some_iff.mp htask
  have hsplit : a.tasks = a.tasks.take i ++ ([task] ++ a.tasks.drop (i + 1)) := by
    rw [← hget, List.singleton_append, List.getElem_cons_drop, List.take_append_drop]
  constructor
  · conv_lhs => rw [underWay, hsplit]
    simp only [List.filter_append, List.filterMap_append]
  · rw [underWay, htasks, List.eraseIdx_eq_take_drop_succ, List.filter_append,
      List.filterMap_append]

/-- The key of a room stays the one that is coming when its tasks are completed
in order. -/
theorem Coming.complete (h : a.Coming room key) {i : ℕ} (htask : a.tasks[i]? = some task)
    (htasks : a'.tasks = a.tasks.eraseIdx i)
    (hkeys : a'.keyRefs room = if room = task.room then (task.key.map .key <|> a.keyRefs room)
      else a.keyRefs room)
    (horder : room = task.room → ∀ older ∈ a.tasks.take i, older.room = task.room →
      older.key = none ∨ task.key = none ∨ older.key = task.key) : a'.Coming room key := by
  obtain ⟨hbefore, hafter⟩ := underWay_complete room htask htasks
  by_cases hroom : room = task.room
  · subst hroom
    cases hkey : task.key with
    | none =>
        refine h.congr ?_ (by simpa [hkey] using hkeys)
        simpa [hkey, hafter] using hbefore.symm
    | some k =>
        have hnew : a'.keyRefs task.room = some (.key k) := by simpa [hkey] using hkeys
        rw [Coming, hbefore] at h
        rw [Coming, hafter]
        cases hpost : ((a.tasks.drop (i + 1)).filter (·.room = task.room)).filterMap KeyTask.key with
        | cons last rest =>
            simpa [hpost, List.getLast?_append, List.getLast?_cons] using h
        | nil =>
            -- the task was the last one: what is older computes the same key
            have hlast : k = key := by simpa [hpost, hkey] using h
            rw [List.append_nil]
            split
            · rw [hnew, hlast]
            · rename_i k' hk'
              obtain ⟨older, hmem, holder⟩ := List.mem_filterMap.mp (List.mem_of_getLast? hk')
              obtain ⟨hmem, hsame⟩ := List.mem_filter.mp hmem
              obtain hnone | hnone | heq := horder rfl older hmem (by simpa using hsame)
              · rw [holder] at hnone
                cases hnone
              · rw [hkey] at hnone
                cases hnone
              · rw [holder, hkey] at heq
                rw [← hlast]
                exact Option.some.inj heq
  · refine h.congr ?_ (by simpa [hroom] using hkeys)
    simpa [Ne.symm hroom, hafter] using hbefore.symm

/-- What completing a task leaves of the app. -/
structure Completed (a : App) (i : ℕ) (task : KeyTask) (a' : App) : Prop where
  tasks : a'.tasks = a.tasks.eraseIdx i
  keys : ∀ room, a'.keyRefs room =
    if room = task.room then (task.key.map .key <|> a.keyRefs room) else a.keyRefs room
  salts : a'.saltRefs = a.saltRefs
  passphrases : ∀ room kept, a'.passphraseRefs room = some kept → a.passphraseRefs room = some kept
  rooms : a'.rooms = a.rooms
  joined : a'.joinedRooms = a.joinedRooms
  conn : a'.conn = a.conn
  entered : a'.entered = a.entered

theorem completed_of_complete {i : ℕ} (h : a.complete i = some a') :
    ∃ task, a.tasks[i]? = some task ∧ Completed a i task a' := by
  obtain ⟨task, htask, rfl⟩ := Option.map_eq_some_iff.mp h
  refine ⟨task, htask, ?_⟩
  cases hkey : task.key with
  | none => constructor <;> simp [hkey]
  | some k =>
      have hkeys : ∀ room, Function.update a.keyRefs task.room (some (.key k)) room =
          if room = task.room then (task.key.map .key <|> a.keyRefs room) else a.keyRefs room := by
        intro room
        rw [hkey, Function.update_apply]
        rfl
      cases task with
      | rederive room passphrase salt =>
          refine ⟨rfl, hkeys, rfl, ?_, rfl, rfl, rfl, rfl⟩
          intro r kept hr
          by_cases hroom : r = room
          · simp [settle, setKey, hroom] at hr
          · simpa [settle, setKey, hroom] using hr
      | _ => exact ⟨rfl, hkeys, rfl, fun _ _ hr => hr, rfl, rfl, rfl, rfl⟩

theorem Tuned.complete (ha : a.Tuned) {i : ℕ} (horder : a.InOrder i)
    (h : a.complete i = some a') : a'.Tuned := by
  obtain ⟨task, htask, hdone⟩ := completed_of_complete h
  refine ⟨?_, ?_⟩
  · intro r passphrase hr
    rw [hdone.entered] at hr
    obtain ⟨salt, hsize, hsalt, hcoming⟩ := ha.keys r passphrase hr
    refine ⟨salt, hsize, (congrFun hdone.salts r).trans hsalt,
      hcoming.complete htask hdone.tasks (hdone.keys r) ?_⟩
    rintro rfl
    refine (horder task htask).resolve_left ?_
    rw [hr]
    exact Option.some_ne_none _
  · intro r kept passphrase hkept hr
    rw [hdone.entered] at hr
    exact ha.passphrases r kept passphrase (hdone.passphrases r kept hkept) hr

/-- Sending a join leaves the maps alone. -/
theorem Tuned.sendJoin (ha : a.Tuned) {i : ℕ} {res : App × List Frame}
    (h : a.sendJoin i = some res) :
    res.1.Tuned ∧ res.1.conn = a.conn ∧ res.1.entered = a.entered ∧ res.1.saltRefs = a.saltRefs := by
  obtain ⟨form, -, rfl⟩ := Option.map_eq_some_iff.mp h
  dsimp only
  split <;> exact ⟨ha.congr rfl rfl rfl rfl rfl, rfl, rfl, rfl⟩

end

end App

end TrapChat.Client
