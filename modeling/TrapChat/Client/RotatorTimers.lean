import Mathlib.Tactic.ByContra
import TrapChat.Library.Timers
import TrapChat.Library.Transition

/-!
The client's `KeyRotator` with its two timers, in an event loop. A `#rotate` call is
suspended while the new key is generated and again while it is exported, and the timers
and methods of the object may run in between.
-/

namespace TrapChat.Client

open Timers Transition

/-- The grace period of the previous key. -/
def GRACE_MS : ℕ := 30000

/-- A `#rotate` call at one of its awaits. -/
inductive SuspendedRotation (Key : Type)
  | generating (oldKey : Option Key)
  | exporting (oldKey : Option Key) (newKey : Key)
  deriving DecidableEq

/-- What `onRotate` is called with: the current key, the exported one, and the old one. -/
structure Announced (Key : Type) where
  newKey : Option Key
  exported : Key
  oldKey : Option Key
  deriving DecidableEq

/-- A message encrypted under a key. -/
structure Ciphertext (Key Text : Type) where
  under : Key
  text : Text

/-- Decryption under a key; `none` where the source throws. -/
def Ciphertext.openWith {Key Text : Type} [DecidableEq Key] (c : Ciphertext Key Text)
    (key : Option Key) : Option Text :=
  if key = some c.under then some c.text else none

/-- The object, the event loop it is in, and the calls of `onRotate` it has made. -/
structure TimedRotator (Key : Type) where
  currentKey : Option Key
  previousKey : Option Key
  timer : Option ℕ
  graceTimer : Option ℕ
  /-- Whether there is an `onRotate`. -/
  onRotate : Bool
  interval : ℕ
  rotations : List (SuspendedRotation Key)
  loop : Loop
  announced : List (Announced Key)
  deriving DecidableEq

/-- What happens to a rotator that is neither started nor stopped. A `#rotate` call is given by
its place among those in progress. -/
inductive RotatorEvent (Key : Type)
  | acceptKey (key : Key)
  | fire (handle : ℕ)
  | generated (i : ℕ) (newKey : Key)
  | exported (i : ℕ) (throws : Bool)
  | rejected (i : ℕ)
  | graceExpired (handle : ℕ)
  | wait (ms : ℕ)
  deriving DecidableEq

def RotatorEvent.acceptsKey {Key : Type} : RotatorEvent Key → Bool
  | .acceptKey _ => true
  | _ => false

namespace TimedRotator

variable {Key : Type}

/-- The constructor; an interval of 0 is none. -/
def new (interval : Option ℕ) (onRotate : Bool) : TimedRotator Key where
  currentKey := none
  previousKey := none
  timer := none
  graceTimer := none
  onRotate := onRotate
  interval := if interval.getD 0 = 0 then 30 * 60 * 1000 else interval.getD 0
  rotations := []
  loop := Loop.new
  announced := []

/-- `if (this.#graceTimer) clearTimeout(this.#graceTimer)` -/
def clearGrace (r : TimedRotator Key) : TimedRotator Key :=
  match r.graceTimer with
  | some handle => { r with loop := r.loop.clearTimeout handle }
  | none => r

/-- The grace period begins. -/
def setGrace (r : TimedRotator Key) : TimedRotator Key :=
  { r with graceTimer := some r.loop.next, loop := r.loop.setTimeout GRACE_MS }

def stopTimer (r : TimedRotator Key) : TimedRotator Key :=
  match r.timer with
  | some handle => { r with loop := r.loop.clearInterval handle, timer := none }
  | none => r

def stopGrace (r : TimedRotator Key) : TimedRotator Key :=
  match r.graceTimer with
  | some handle => { r with loop := r.loop.clearTimeout handle, graceTimer := none }
  | none => r

def stop (r : TimedRotator Key) : TimedRotator Key := r.stopTimer.stopGrace

/-- Start rotation with an initial key. -/
def start (r : TimedRotator Key) (key : Key) : TimedRotator Key :=
  let r := r.stop
  { r with
    currentKey := some key
    timer := some r.loop.next
    loop := r.loop.setInterval r.interval }

/-- Accept a rotated key received from a peer's broadcast. -/
def acceptKey (r : TimedRotator Key) (key : Key) : TimedRotator Key :=
  let r := r.clearGrace
  { r with previousKey := r.currentKey, currentKey := some key }.setGrace

/-- `#rotate` up to the generation of the new key. -/
def rotate (r : TimedRotator Key) : TimedRotator Key :=
  { r with
    previousKey := r.currentKey
    rotations := r.rotations ++ [.generating r.currentKey] }

/-- A call of `#rotate` ends. -/
def finish (r : TimedRotator Key) (i : ℕ) : TimedRotator Key :=
  { r with rotations := r.rotations.eraseIdx i }

/-- `if (this.#onRotate) this.#onRotate(this.#currentKey, exported, oldKey)` -/
def announce (r : TimedRotator Key) (newKey : Key) (oldKey : Option Key) : TimedRotator Key :=
  if r.onRotate then { r with announced := r.announced ++ [⟨r.currentKey, newKey, oldKey⟩] } else r

def handle (r : TimedRotator Key) : RotatorEvent Key → Option (TimedRotator Key)
  | .acceptKey key => some (r.acceptKey key)
  | .fire handle =>
    if Due r.loop.clock handle r.loop.intervals then
      some { r with loop := r.loop.reschedule handle r.interval }.rotate
    else none
  | .generated i newKey =>
    match r.rotations[i]? with
    | some (.generating oldKey) =>
      some { r with
        currentKey := some newKey
        rotations := r.rotations.set i (.exporting oldKey newKey) }
    | _ => none
  | .exported i throws =>
    match r.rotations[i]? with
    | some (.exporting oldKey newKey) =>
      let r := r.announce newKey oldKey
      if r.onRotate && throws then some (r.finish i) else some (r.clearGrace.setGrace.finish i)
    | _ => none
  -- generating or exporting the key fails
  | .rejected i => if i < r.rotations.length then some (r.finish i) else none
  | .graceExpired handle =>
    if Due r.loop.clock handle r.loop.timeouts then
      some { r with
        previousKey := none
        graceTimer := none
        loop := r.loop.clearTimeout handle }
    else none
  | .wait ms => some { r with loop := r.loop.wait ms }

/-- Try decrypting with the key that was current when the call was made, and fall back to the
previous key, as it is when that has failed. -/
def decrypt [DecidableEq Key] {Text : Type} (r : TimedRotator Key) (tried : Option Key)
    (c : Ciphertext Key Text) : Option Text :=
  match c.openWith tried with
  | some text => some text
  | none => c.openWith r.previousKey

variable {r r' : TimedRotator Key}

/-- The ways in which an event is handled. -/
inductive Handled (r : TimedRotator Key) : RotatorEvent Key → TimedRotator Key → Prop
  | acceptKey (key : Key) : Handled r (.acceptKey key) (r.acceptKey key)
  | fire {handle : ℕ} (hdue : Due r.loop.clock handle r.loop.intervals) :
      Handled r (.fire handle) { r with loop := r.loop.reschedule handle r.interval }.rotate
  | generated {i : ℕ} {oldKey : Option Key} (newKey : Key)
      (hi : r.rotations[i]? = some (.generating oldKey)) :
      Handled r (.generated i newKey) { r with
        currentKey := some newKey
        rotations := r.rotations.set i (.exporting oldKey newKey) }
  | threw {i : ℕ} {oldKey : Option Key} {newKey : Key}
      (hi : r.rotations[i]? = some (.exporting oldKey newKey)) (honRotate : r.onRotate = true) :
      Handled r (.exported i true) ((r.announce newKey oldKey).finish i)
  | exported {i : ℕ} {oldKey : Option Key} {newKey : Key} {throws : Bool}
      (hi : r.rotations[i]? = some (.exporting oldKey newKey))
      (hreturns : (r.onRotate && throws) = false) :
      Handled r (.exported i throws) ((r.announce newKey oldKey).clearGrace.setGrace.finish i)
  | rejected {i : ℕ} (hi : i < r.rotations.length) : Handled r (.rejected i) (r.finish i)
  | graceExpired {handle : ℕ} (hdue : Due r.loop.clock handle r.loop.timeouts) :
      Handled r (.graceExpired handle) { r with
        previousKey := none
        graceTimer := none
        loop := r.loop.clearTimeout handle }
  | wait (ms : ℕ) : Handled r (.wait ms) { r with loop := r.loop.wait ms }

theorem onRotate_announce (r : TimedRotator Key) (newKey : Key) (oldKey : Option Key) :
    (r.announce newKey oldKey).onRotate = r.onRotate := by
  rw [announce]
  split <;> rfl

theorem handled {e : RotatorEvent Key} (h : r.handle e = some r') : Handled r e r' := by
  cases e with
  | acceptKey key =>
      obtain rfl := Option.some.inj h
      exact .acceptKey key
  | fire handle =>
      rw [TimedRotator.handle] at h
      split at h
      · next hdue =>
        cases h
        exact .fire hdue
      · cases h
  | generated i newKey =>
      rw [TimedRotator.handle] at h
      split at h
      · next hi =>
        cases h
        exact .generated newKey hi
      · cases h
  | exported i throws =>
      rw [TimedRotator.handle] at h
      split at h
      · next oldKey newKey hi =>
        dsimp only at h
        rw [onRotate_announce] at h
        split at h
        · next hthrows =>
          obtain ⟨honRotate, rfl⟩ := Bool.and_eq_true_iff.mp hthrows
          cases h
          exact .threw hi honRotate
        · next hreturns =>
          cases h
          exact .exported hi (Bool.eq_false_iff.mpr hreturns)
      · cases h
  | rejected i =>
      rw [TimedRotator.handle] at h
      split at h
      · next hi =>
        cases h
        exact .rejected hi
      · cases h
  | graceExpired handle =>
      rw [TimedRotator.handle] at h
      split at h
      · next hdue =>
        cases h
        exact .graceExpired hdue
      · cases h
  | wait ms =>
      obtain rfl := Option.some.inj h
      exact .wait ms

/-! ### The keys -/

/-- The keys and the clock: all that a ciphertext and the grace period depend on. -/
def keys (r : TimedRotator Key) : Option Key × Option Key × ℕ :=
  (r.currentKey, r.previousKey, r.loop.clock)

/-- What an event makes of them. -/
def keysAfter (r : TimedRotator Key) : RotatorEvent Key → Option Key × Option Key × ℕ
  | .acceptKey key => (some key, r.currentKey, r.loop.clock)
  | .fire _ => (r.currentKey, r.currentKey, r.loop.clock)
  | .generated _ newKey => (some newKey, r.previousKey, r.loop.clock)
  | .graceExpired _ => (r.currentKey, none, r.loop.clock)
  | .exported _ _ => r.keys
  | .rejected _ => r.keys
  | .wait ms => (r.currentKey, r.previousKey, r.loop.clock + ms)

theorem keys_clearGrace (r : TimedRotator Key) : r.clearGrace.keys = r.keys := by
  rw [clearGrace]
  cases r.graceTimer <;> rfl

theorem keys_announce (r : TimedRotator Key) (newKey : Key) (oldKey : Option Key) :
    (r.announce newKey oldKey).keys = r.keys := by
  rw [announce]
  split <;> rfl

theorem keys_acceptKey (r : TimedRotator Key) (key : Key) :
    (r.acceptKey key).keys = (some key, r.currentKey, r.loop.clock) := by
  rw [acceptKey, clearGrace]
  cases r.graceTimer <;> rfl

theorem keys_handle {e : RotatorEvent Key} (h : r.handle e = some r') :
    r'.keys = r.keysAfter e := by
  cases handled h with
  | acceptKey key => exact keys_acceptKey r key
  | fire hdue => rfl
  | generated newKey hi => rfl
  | threw hi honRotate => exact keys_announce ..
  | exported hi hreturns => exact (keys_clearGrace _).trans (keys_announce ..)
  | rejected hi => rfl
  | graceExpired hdue => rfl
  | wait ms => rfl

end TimedRotator

/-! ### The preceding key -/

/-- A rotator under observation: the key that was current before the last change, and the time of
that change. -/
structure WatchedRotator (Key : Type) where
  rotator : TimedRotator Key
  changed : Option (Key × ℕ)

namespace WatchedRotator

variable {Key : Type} [DecidableEq Key]

/-- A rotator that has been started with a key, or has not been started. -/
def init (interval : Option ℕ) (onRotate : Bool) (key : Option Key) : WatchedRotator Key where
  rotator :=
    match key with
    | some key => (TimedRotator.new interval onRotate).start key
    | none => TimedRotator.new interval onRotate
  changed := none

def step (w : WatchedRotator Key) (e : RotatorEvent Key) : Option (WatchedRotator Key) :=
  (w.rotator.handle e).map fun r =>
    { rotator := r
      changed :=
        if r.currentKey = w.rotator.currentKey then w.changed
        else w.rotator.currentKey.map fun key => (key, r.loop.clock) }

/-- The preceding key, for as long as the grace period since the change has not passed. -/
def inGrace (w : WatchedRotator Key) : Option Key :=
  match w.changed with
  | some (key, time) => if w.rotator.loop.clock < time + GRACE_MS then some key else none
  | none => none

/-- The preceding key is the previous key, and what was encrypted under it can be decrypted,
whichever key is tried first. -/
structure GraceKept (w : WatchedRotator Key) : Prop where
  previous : ∀ key ∈ w.inGrace, w.rotator.previousKey = some key
  decrypts : ∀ key ∈ w.inGrace, ∀ (Text : Type) (tried : Option Key) (text : Text),
    w.rotator.decrypt tried ⟨key, text⟩ = some text

/-- In its grace period the preceding key is not displaced: neither by a rotation that begins, nor
by a grace timer, nor by a key that is accepted once more; and a rotation finds the current key
still as the previous one when it replaces it. -/
def Undisturbed (w : WatchedRotator Key) : RotatorEvent Key → Prop
  | .acceptKey key => w.rotator.currentKey = some key → w.inGrace = none
  | .fire _ => w.inGrace = none
  | .graceExpired _ => w.inGrace = none
  | .generated _ newKey => w.rotator.currentKey ≠ none → w.rotator.currentKey ≠ some newKey →
      w.rotator.previousKey = w.rotator.currentKey
  | _ => True

variable {w w' : WatchedRotator Key} {e : RotatorEvent Key}

theorem step_spec (h : w.step e = some w') :
    w'.rotator.keys = w.rotator.keysAfter e ∧
      w'.changed = if w'.rotator.currentKey = w.rotator.currentKey then w.changed
        else w.rotator.currentKey.map fun key => (key, w'.rotator.loop.clock) := by
  obtain ⟨r, hr, rfl⟩ := Option.map_eq_some_iff.mp h
  exact ⟨TimedRotator.keys_handle hr, rfl⟩

theorem graceKept_iff : GraceKept w ↔ ∀ key ∈ w.inGrace, w.rotator.previousKey = some key := by
  refine ⟨GraceKept.previous, fun hprevious => ⟨hprevious, fun key hkey Text tried text => ?_⟩⟩
  rw [TimedRotator.decrypt, hprevious key hkey]
  by_cases htried : tried = some key
  · simp [Ciphertext.openWith, htried]
  · simp [Ciphertext.openWith, htried]

/-- The preceding key differs from the current one. -/
structure Precedes (w : WatchedRotator Key) : Prop where
  ne : ∀ key ∈ w.changed.map Prod.fst, w.rotator.currentKey ≠ some key
  kept : ∀ key ∈ w.inGrace, w.rotator.previousKey = some key

omit [DecidableEq Key] in
theorem inGrace_changed {key : Key} (h : key ∈ w.inGrace) : key ∈ w.changed.map Prod.fst := by
  rw [inGrace] at h
  split at h
  · next key' time hchanged =>
    rw [hchanged]
    split at h
    · exact h
    · cases h
  · cases h

/-- The key that was current before a change is in grace. -/
theorem inGrace_of_ne (h : w.step e = some w')
    (hchange : w'.rotator.currentKey ≠ w.rotator.currentKey) :
    w'.inGrace = w.rotator.currentKey := by
  obtain ⟨-, hchanged⟩ := step_spec h
  rw [if_neg hchange] at hchanged
  rw [inGrace, hchanged]
  cases w.rotator.currentKey with
  | none => rfl
  | some key => exact if_pos (Nat.lt_add_of_pos_right (by decide))

/-- Without a change, only time takes a key out of grace. -/
theorem inGrace_of_eq (h : w.step e = some w')
    (hsame : w'.rotator.currentKey = w.rotator.currentKey)
    (hclock : w'.rotator.loop.clock = w.rotator.loop.clock) : w'.inGrace = w.inGrace := by
  obtain ⟨-, hchanged⟩ := step_spec h
  rw [if_pos hsame] at hchanged
  rw [inGrace, inGrace, hchanged, hclock]

theorem inGrace_wait {ms : ℕ} (h : w.step (.wait ms) = some w') {key : Key}
    (hkey : key ∈ w'.inGrace) : key ∈ w.inGrace := by
  obtain ⟨hkeys, hchanged⟩ := step_spec h
  obtain ⟨hcurrent, hrest⟩ := Prod.mk.inj hkeys
  obtain ⟨-, hclock⟩ := Prod.mk.inj hrest
  rw [if_pos hcurrent] at hchanged
  rw [inGrace, hchanged, hclock] at hkey
  rw [inGrace]
  split at hkey
  · next old time hold =>
    split at hkey
    · next hlt =>
      rwa [if_pos (Nat.lt_of_le_of_lt (Nat.le_add_right _ ms) hlt)]
    · cases hkey
  · cases hkey

omit [DecidableEq Key] in
/-- Where a key in grace has stopped being the previous one, there must have been none. -/
theorem kept_iff_of_displaced (hsame : w'.inGrace = w.inGrace)
    (hne : ∀ key ∈ w.inGrace, w'.rotator.previousKey ≠ some key) :
    (∀ key ∈ w'.inGrace, w'.rotator.previousKey = some key) ↔ w.inGrace = none := by
  rw [hsame, Option.eq_none_iff_forall_not_mem]
  exact ⟨fun h key hkey => hne key hkey (h key hkey), fun h key hkey => absurd hkey (h key)⟩

/-- **One event** keeps the preceding key exactly where it does not disturb it. -/
theorem graceKept_step (hw : Precedes w) (h : w.step e = some w') :
    GraceKept w' ↔ Undisturbed w e := by
  rw [graceKept_iff]
  obtain ⟨hkeys, -⟩ := step_spec h
  obtain ⟨hcurrent, hrest⟩ := Prod.mk.inj hkeys
  obtain ⟨hprevious, hclock⟩ := Prod.mk.inj hrest
  have hne : ∀ key ∈ w.inGrace, w.rotator.currentKey ≠ some key := fun key hkey =>
    hw.ne key (inGrace_changed hkey)
  cases e with
  | acceptKey key =>
      by_cases hagain : w.rotator.currentKey = some key
      · have hsame := inGrace_of_eq h (hcurrent.trans hagain.symm) hclock
        rw [kept_iff_of_displaced hsame (hprevious.symm ▸ hne)]
        exact ⟨fun hnone _ => hnone, fun hnone => hnone hagain⟩
      · have hnew := inGrace_of_ne h (hcurrent.trans_ne (Ne.symm hagain))
        rw [hnew]
        exact iff_of_true (fun old hold => hprevious.trans hold) fun hsame => absurd hsame hagain
  | fire handle =>
      exact kept_iff_of_displaced (inGrace_of_eq h hcurrent hclock) (hprevious.symm ▸ hne)
  | generated i newKey =>
      by_cases hagain : w.rotator.currentKey = some newKey
      · have hsame := inGrace_of_eq h (hcurrent.trans hagain.symm) hclock
        rw [hsame, hprevious]
        exact iff_of_true hw.kept fun _ hchange => absurd hagain hchange
      · have hnew := inGrace_of_ne h (hcurrent.trans_ne (Ne.symm hagain))
        rw [hnew, hprevious]
        refine ⟨fun hkept hsome _ => ?_, fun hkept old hold => ?_⟩
        · obtain ⟨old, hold⟩ := Option.ne_none_iff_exists'.mp hsome
          exact (hkept old hold).trans hold.symm
        · have hsome : w.rotator.currentKey ≠ none := by
            rw [hold]
            exact Option.some_ne_none old
          exact (hkept hsome hagain).trans hold
  | exported i throws =>
      rw [inGrace_of_eq h hcurrent hclock, hprevious]
      exact iff_of_true hw.kept trivial
  | rejected i =>
      rw [inGrace_of_eq h hcurrent hclock, hprevious]
      exact iff_of_true hw.kept trivial
  | graceExpired handle =>
      refine kept_iff_of_displaced (inGrace_of_eq h hcurrent hclock) fun key _ hkey => ?_
      exact Option.some_ne_none key (hkey.symm.trans hprevious)
  | wait ms =>
      rw [hprevious]
      exact iff_of_true (fun key hkey => hw.kept key (inGrace_wait h hkey)) trivial

theorem Precedes.next (hw : Precedes w) (h : w.step e = some w') (he : Undisturbed w e) :
    Precedes w' := by
  refine ⟨?_, ((graceKept_step hw h).mpr he).previous⟩
  obtain ⟨hkeys, hchanged⟩ := step_spec h
  rw [hchanged]
  split
  · next hsame =>
    rw [hsame]
    exact hw.ne
  · next hchange =>
    intro key hkey
    cases hcurrent : w.rotator.currentKey with
    | none =>
        rw [hcurrent] at hkey
        cases hkey
    | some old =>
        rw [hcurrent] at hkey hchange
        cases hkey
        exact hchange

omit [DecidableEq Key] in
theorem precedes_init (interval : Option ℕ) (onRotate : Bool) (key : Option Key) :
    Precedes (init interval onRotate key) :=
  ⟨nofun, nofun⟩

/-- **The preceding key is kept** through its grace period exactly in the runs that do not
disturb it. -/
theorem graceKept_iff_undisturbed (interval : Option ℕ) (onRotate : Bool) (key : Option Key)
    (events : List (RotatorEvent Key)) :
    Along step (fun _ _ w' => GraceKept w') (init interval onRotate key) events ↔
      Along step (fun w e _ => Undisturbed w e) (init interval onRotate key) events :=
  along_congr (I := Precedes) (fun _ _ _ hw he h => hw.next h he)
    (fun _ _ _ hw h => graceKept_step hw h) (precedes_init interval onRotate key)

/-- A key accepted from a peer ten seconds before a rotation, which begins by forgetting the key
that was current until then. -/
theorem acceptKey_before_rotation :
    ¬∀ (interval : Option ℕ) (onRotate : Bool) (key : Option ℕ) (events : List (RotatorEvent ℕ)),
      Along step (fun _ _ w' => GraceKept w') (init interval onRotate key) events := by
  intro hall
  obtain ⟨-, hrun⟩ :=
    hall none true (some 1) [.wait 1790000, .acceptKey 2, .wait 10000, .fire 1] _ rfl
  obtain ⟨-, hrun⟩ := hrun _ rfl
  obtain ⟨-, hrun⟩ := hrun _ rfl
  obtain ⟨hkept, -⟩ := hrun _ rfl
  have hprevious := hkept.previous 1 (by decide)
  exact absurd hprevious (by decide)

end WatchedRotator

/-! ### The timers -/

namespace TimedRotator

variable {Key : Type} {r : TimedRotator Key}

/-- The object holds the handles of all its timers, and a grace period is never longer than it
should be. -/
structure Wired (r : TimedRotator Key) : Prop where
  interval : HeldBy r.timer r.loop.intervals
  grace : HeldBy r.graceTimer r.loop.timeouts
  due : ∀ t ∈ r.loop.timeouts, t.2 ≤ r.loop.clock + GRACE_MS

/-- Clearing the grace timer leaves no timeout. -/
theorem Wired.clearGrace_eq (h : Wired r) :
    r.clearGrace = { r with loop := { r.loop with timeouts := [] } } := by
  have hgrace := h.grace
  obtain ⟨_, _, _, graceTimer, _, _, _, ⟨_, _, _, timeouts⟩, _⟩ := r
  cases graceTimer with
  | none =>
      obtain rfl : timeouts = [] := hgrace.nil
      rfl
  | some handle =>
      have hcleared : cleared handle timeouts = [] := hgrace.cleared
      simp only [clearGrace, Loop.clearTimeout, hcleared]

theorem stopGrace_eq (r : TimedRotator Key) :
    r.stopGrace = { r.clearGrace with graceTimer := none } := by
  obtain ⟨_, _, _, graceTimer, _, _, _, _, _⟩ := r
  cases graceTimer with
  | none => rfl
  | some handle => rfl

/-- Stopping the timer leaves no interval. -/
theorem Wired.stopTimer_eq (h : Wired r) :
    r.stopTimer = { r with timer := none, loop := { r.loop with intervals := [] } } := by
  have hinterval := h.interval
  obtain ⟨_, _, timer, _, _, _, _, ⟨_, _, intervals, _⟩, _⟩ := r
  cases timer with
  | none =>
      obtain rfl : intervals = [] := hinterval.nil
      rfl
  | some handle =>
      have hcleared : cleared handle intervals = [] := hinterval.cleared
      simp only [stopTimer, Loop.clearInterval, hcleared]

/-- No timer is left. -/
theorem Wired.stop_eq (h : Wired r) : r.stop =
    { r with
      timer := none
      graceTimer := none
      loop := { r.loop with intervals := [], timeouts := [] } } := by
  have hstopped : Wired { r with timer := none, loop := { r.loop with intervals := [] } } :=
    ⟨rfl, h.grace, h.due⟩
  rw [stop, h.stopTimer_eq, stopGrace_eq, hstopped.clearGrace_eq]

/-- The grace timer is set, and it is the only timeout. -/
theorem Wired.setGrace_eq (h : Wired r) : r.clearGrace.setGrace =
    { r with
      graceTimer := some r.loop.next
      loop := { r.loop with
        next := r.loop.next + 1
        timeouts := [(r.loop.next, r.loop.clock + GRACE_MS)] } } := by
  rw [h.clearGrace_eq]
  rfl

/-- Accepting a key begins a grace period. -/
theorem acceptKey_eq (r : TimedRotator Key) (key : Key) : r.acceptKey key =
    { r.clearGrace.setGrace with currentKey := some key, previousKey := r.currentKey } := by
  have hcurrent : r.clearGrace.currentKey = r.currentKey := congrArg Prod.fst (keys_clearGrace r)
  rw [acceptKey, hcurrent]
  rfl

theorem announce_eq (r : TimedRotator Key) (newKey : Key) (oldKey : Option Key) :
    r.announce newKey oldKey = { r with
      announced :=
        if r.onRotate then r.announced ++ [⟨r.currentKey, newKey, oldKey⟩] else r.announced } := by
  rw [announce]
  split <;> rfl

theorem wired_new (interval : Option ℕ) (onRotate : Bool) :
    Wired (new interval onRotate : TimedRotator Key) :=
  ⟨rfl, rfl, nofun⟩

theorem Wired.stop (h : Wired r) : Wired r.stop := by
  rw [h.stop_eq]
  exact ⟨rfl, rfl, nofun⟩

theorem Wired.start (h : Wired r) (key : Key) : Wired (r.start key) := by
  rw [TimedRotator.start, h.stop_eq]
  exact ⟨rfl, rfl, nofun⟩

/-- A new grace period. -/
theorem Wired.setGrace (h : Wired r) : Wired r.clearGrace.setGrace := by
  rw [h.setGrace_eq]
  refine ⟨h.interval, rfl, fun t ht => ?_⟩
  obtain rfl := List.mem_singleton.mp ht
  exact Nat.le_refl _

/-- Calls of `onRotate` leave the timers alone. -/
theorem Wired.announce (h : Wired r) (newKey : Key) (oldKey : Option Key) :
    Wired (r.announce newKey oldKey) := by
  rw [announce_eq]
  exact ⟨h.interval, h.grace, h.due⟩

/-- Every event keeps the object and the event loop together. -/
theorem Wired.handle (h : Wired r) {r' : TimedRotator Key} {e : RotatorEvent Key}
    (hstep : r.handle e = some r') : Wired r' := by
  cases handled hstep with
  | acceptKey key =>
      rw [acceptKey_eq]
      exact ⟨h.setGrace.interval, h.setGrace.grace, h.setGrace.due⟩
  | @fire handle hdue =>
      refine ⟨?_, h.grace, h.due⟩
      show HeldBy r.timer (r.loop.intervals.map _)
      rw [HeldBy, List.map_map, ← h.interval]
      refine List.map_congr_left fun t _ => ?_
      show (if t.1 = handle then (handle, r.loop.clock + r.interval) else t).1 = t.1
      split
      · next heq => exact heq.symm
      · rfl
  | generated newKey hi => exact ⟨h.interval, h.grace, h.due⟩
  | @threw i oldKey newKey hi honRotate =>
      have hannounced := h.announce newKey oldKey
      exact ⟨hannounced.interval, hannounced.grace, hannounced.due⟩
  | @exported i oldKey newKey throws hi hreturns =>
      have hgrace := (h.announce newKey oldKey).setGrace
      exact ⟨hgrace.interval, hgrace.grace, hgrace.due⟩
  | rejected hi => exact ⟨h.interval, h.grace, h.due⟩
  | @graceExpired handle hdue =>
      have hnone : cleared handle r.loop.timeouts = [] := by
        have hgrace := h.grace
        rw [hgrace.of_due hdue] at hgrace
        exact hgrace.cleared
      refine ⟨h.interval, ?_, ?_⟩
      · show HeldBy none (cleared handle r.loop.timeouts)
        rw [hnone]
        rfl
      · show ∀ t ∈ cleared handle r.loop.timeouts, _
        rw [hnone]
        nofun
  | wait ms =>
      refine ⟨h.interval, h.grace, fun t ht => Nat.le_trans (h.due t ht) ?_⟩
      show r.loop.clock + GRACE_MS ≤ r.loop.clock + ms + GRACE_MS
      omega

/-- A previous key that is not about to be rotated away has a grace timer. -/
def HasGrace (r : TimedRotator Key) : Prop :=
  r.rotations = [] → r.previousKey ≠ none → r.graceTimer ≠ none

end TimedRotator

/-- A rotator, and whether it has been stopped and neither started nor given a key since. -/
structure RotatorSession (Key : Type) where
  rotator : TimedRotator Key
  stopped : Bool
  deriving DecidableEq

inductive RotatorCall (Key : Type)
  | start (key : Key)
  | stop
  | event (e : RotatorEvent Key)
  deriving DecidableEq

namespace RotatorSession

variable {Key : Type}

def new (interval : Option ℕ) (onRotate : Bool) : RotatorSession Key :=
  ⟨TimedRotator.new interval onRotate, false⟩

def step (s : RotatorSession Key) : RotatorCall Key → Option (RotatorSession Key)
  | .start key => some ⟨s.rotator.start key, false⟩
  | .stop => some ⟨s.rotator.stop, true⟩
  | .event e => (s.rotator.handle e).map fun r => ⟨r, s.stopped && !e.acceptsKey⟩

/-- What is asked of the timers: one interval at most, a grace timer for a previous key unless a
rotation is in progress, and nothing more after a stop. -/
structure TimersKept (s s' : RotatorSession Key) : Prop where
  interval : s'.rotator.loop.intervals.length ≤ 1
  grace : s'.rotator.rotations = [] → s'.rotator.previousKey ≠ none →
    ∃ t ∈ s'.rotator.loop.timeouts, s'.rotator.graceTimer = some t.1 ∧
      t.2 ≤ s'.rotator.loop.clock + GRACE_MS
  quiet : s.stopped = true → s'.stopped = true →
    s'.rotator.currentKey = s.rotator.currentKey ∧ s'.rotator.announced = s.rotator.announced

/-- The rotator is started and stopped only with a rotation in progress or no previous key; a
rotation does not go on after a stop, and does not fail with a previous key that has no timer. -/
def Timely (s : RotatorSession Key) : RotatorCall Key → Prop
  | .start _ => s.rotator.rotations = [] → s.rotator.previousKey = none
  | .stop => s.rotator.rotations = [] → s.rotator.previousKey = none
  | .event (.generated _ newKey) => s.stopped = true → s.rotator.currentKey = some newKey
  | .event (.exported i throws) =>
    (s.stopped = true → s.rotator.onRotate = false) ∧
      ((s.rotator.onRotate && throws) = true → s.rotator.rotations.eraseIdx i = [] →
        s.rotator.previousKey ≠ none → s.rotator.graceTimer ≠ none)
  | .event (.rejected i) => s.rotator.rotations.eraseIdx i = [] →
      s.rotator.previousKey ≠ none → s.rotator.graceTimer ≠ none
  | .event _ => True

variable {s s' : RotatorSession Key}

/-- What is asked of a state whose timers are wired. -/
theorem timersKept_iff (hw : s'.rotator.Wired) : TimersKept s s' ↔
    s'.rotator.HasGrace ∧ (s.stopped = true → s'.stopped = true →
      s'.rotator.currentKey = s.rotator.currentKey ∧
        s'.rotator.announced = s.rotator.announced) := by
  constructor
  · intro h
    refine ⟨fun hidle hprevious => ?_, h.quiet⟩
    obtain ⟨t, -, hheld, -⟩ := h.grace hidle hprevious
    rw [hheld]
    exact Option.some_ne_none t.1
  · rintro ⟨hgrace, hquiet⟩
    refine ⟨?_, fun hidle hprevious => ?_, hquiet⟩
    · exact hw.interval.length_le
    · obtain ⟨handle, hhandle⟩ := Option.ne_none_iff_exists'.mp (hgrace hidle hprevious)
      have hheld := hw.grace
      rw [hhandle] at hheld
      obtain ⟨t, ht, hfst⟩ := hheld.exists_mem
      exact ⟨t, ht, by rw [hhandle, hfst], hw.due t ht⟩

/-- The timers are wired, and a previous key has its grace. -/
structure Settled (s : RotatorSession Key) : Prop where
  wired : s.rotator.Wired
  grace : s.rotator.HasGrace

theorem event_step {e : RotatorEvent Key} (h : s.step (.event e) = some s') :
    s.rotator.handle e = some s'.rotator ∧ s'.stopped = (s.stopped && !e.acceptsKey) := by
  obtain ⟨r, hr, rfl⟩ := Option.map_eq_some_iff.mp h
  exact ⟨hr, rfl⟩

/-- The object stays wired, whatever happens. -/
theorem wired_step (hw : s.rotator.Wired) {c : RotatorCall Key} (h : s.step c = some s') :
    s'.rotator.Wired := by
  cases c with
  | start key =>
      obtain rfl := (Option.some.inj h).symm
      exact hw.start key
  | stop =>
      obtain rfl := (Option.some.inj h).symm
      exact hw.stop
  | event e => exact hw.handle (event_step h).1

/-- Without a rotation in progress, a stop leaves no timer for a previous key. -/
theorem hasGrace_stop (hw : s.rotator.Wired) :
    s.rotator.stop.HasGrace ↔ (s.rotator.rotations = [] → s.rotator.previousKey = none) := by
  rw [hw.stop_eq]
  show (s.rotator.rotations = [] → s.rotator.previousKey ≠ none → none ≠ none) ↔ _
  simp

/-- **One event.** -/
theorem timersKept_event (hs : Settled s) {e : RotatorEvent Key}
    (h : s.step (.event e) = some s') :
    (s'.rotator.HasGrace ∧ (s.stopped = true → s'.stopped = true →
      s'.rotator.currentKey = s.rotator.currentKey ∧
        s'.rotator.announced = s.rotator.announced)) ↔ Timely s (.event e) := by
  obtain ⟨hstep, hstopped⟩ := event_step h
  rw [hstopped]
  have hhandled := TimedRotator.handled hstep
  generalize s'.rotator = r' at hhandled
  cases hhandled with
  | acceptKey key =>
      rw [TimedRotator.acceptKey_eq]
      refine iff_of_true ⟨fun _ _ => Option.some_ne_none _, ?_⟩ trivial
      simp [RotatorEvent.acceptsKey]
  | fire hdue =>
      refine iff_of_true ⟨fun hidle => ?_, fun _ _ => ⟨rfl, rfl⟩⟩ trivial
      exact absurd hidle (List.append_ne_nil_of_right_ne_nil _ (List.cons_ne_nil _ _))
  | @generated i oldKey newKey hi =>
      have hbusy : s.rotator.rotations.set i (.exporting oldKey newKey) ≠ [] := by
        intro hnil
        rw [List.set_eq_nil_iff] at hnil
        rw [hnil] at hi
        cases hi
      constructor
      · rintro ⟨-, hquiet⟩ hstop
        exact (hquiet hstop (by rw [hstop]; rfl)).1.symm
      · intro hsame
        exact ⟨fun hidle => absurd hidle hbusy, fun hstop _ => ⟨(hsame hstop).symm, rfl⟩⟩
  | @threw i oldKey newKey hi honRotate =>
      rw [TimedRotator.announce_eq, if_pos honRotate]
      constructor
      · rintro ⟨hgrace, hquiet⟩
        refine ⟨fun hstop => ?_, fun _ => hgrace⟩
        have hmore := (hquiet hstop (by rw [hstop]; rfl)).2
        exact absurd (List.append_right_eq_self.mp hmore) (List.cons_ne_nil _ _)
      · rintro ⟨hquiet, hgrace⟩
        refine ⟨hgrace (by rw [honRotate]; rfl), fun hstop => ?_⟩
        exact absurd ((hquiet hstop).symm.trans honRotate) Bool.false_ne_true
  | @exported i oldKey newKey throws hi hreturns =>
      rw [TimedRotator.announce_eq]
      generalize hannounced : (if s.rotator.onRotate = true then _ else _) = announced
      have hwired : TimedRotator.Wired { s.rotator with announced := announced } :=
        ⟨hs.wired.interval, hs.wired.grace, hs.wired.due⟩
      rw [hwired.setGrace_eq]
      constructor
      · rintro ⟨-, hquiet⟩
        refine ⟨fun hstop => ?_, fun hthrows => ?_⟩
        · have hsame : announced = s.rotator.announced :=
            (hquiet hstop (by rw [hstop]; rfl)).2
          rw [hsame] at hannounced
          by_contra honRotate
          rw [Bool.not_eq_false] at honRotate
          rw [if_pos honRotate, List.append_right_eq_self] at hannounced
          exact List.cons_ne_nil _ _ hannounced
        · exact absurd (hthrows.symm.trans hreturns) (by decide)
      · rintro ⟨hquiet, -⟩
        refine ⟨fun _ _ => Option.some_ne_none _, fun hstop _ => ⟨rfl, ?_⟩⟩
        rw [if_neg (Bool.eq_false_iff.mp (hquiet hstop))] at hannounced
        exact hannounced.symm
  | @rejected i hi => exact and_iff_left fun _ _ => ⟨rfl, rfl⟩
  | graceExpired hdue =>
      exact iff_of_true ⟨fun _ hprevious => absurd rfl hprevious, fun _ _ => ⟨rfl, rfl⟩⟩ trivial
  | wait ms => exact iff_of_true ⟨hs.grace, fun _ _ => ⟨rfl, rfl⟩⟩ trivial

/-- **One call** keeps what is asked of the timers exactly where it is timely. -/
theorem timersKept_step (hs : Settled s) {c : RotatorCall Key} (h : s.step c = some s') :
    TimersKept s s' ↔ Timely s c := by
  rw [timersKept_iff (wired_step hs.wired h)]
  cases c with
  | start key =>
      obtain rfl := (Option.some.inj h).symm
      have hgrace : (s.rotator.start key).HasGrace ↔ s.rotator.stop.HasGrace := Iff.rfl
      rw [hgrace, hasGrace_stop hs.wired]
      exact and_iff_left (fun _ hstopped => absurd hstopped Bool.false_ne_true)
  | stop =>
      obtain rfl := (Option.some.inj h).symm
      rw [hasGrace_stop hs.wired]
      refine and_iff_left fun _ _ => ?_
      show s.rotator.stop.currentKey = _ ∧ s.rotator.stop.announced = _
      rw [hs.wired.stop_eq]
      exact ⟨rfl, rfl⟩
  | event e => exact timersKept_event hs h

theorem Settled.next (hs : Settled s) {c : RotatorCall Key} (hc : Timely s c)
    (h : s.step c = some s') : Settled s' := by
  have hwired := wired_step hs.wired h
  exact ⟨hwired, ((timersKept_iff hwired).mp ((timersKept_step hs h).mpr hc)).1⟩

/-- **The timers are kept** exactly in the runs whose calls are timely. -/
theorem timersKept_iff_timely (interval : Option ℕ) (onRotate : Bool)
    (calls : List (RotatorCall Key)) :
    Along step (fun s _ s' => TimersKept s s') (new interval onRotate) calls ↔
      Along step (fun s c _ => Timely s c) (new interval onRotate) calls := by
  refine along_congr (I := Settled) ?_ ?_ ?_
  · exact fun _ _ _ hs hc h => hs.next hc h
  · exact fun _ _ _ hs h => timersKept_step hs h
  · exact ⟨TimedRotator.wired_new interval onRotate, fun _ hprevious => absurd rfl hprevious⟩

/-- A rotator that is stopped in the grace period, and keeps the previous key. -/
theorem stopped_in_grace :
    ¬∀ (interval : Option ℕ) (onRotate : Bool) (calls : List (RotatorCall ℕ)),
      Along step (fun s _ s' => TimersKept s s') (new interval onRotate) calls := by
  intro hall
  obtain ⟨-, hrun⟩ := hall none true [.start 1, .event (.acceptKey 2), .stop] _ rfl
  obtain ⟨-, hrun⟩ := hrun _ rfl
  obtain ⟨hkept, -⟩ := hrun _ rfl
  obtain ⟨t, ht, -⟩ := hkept.grace (by decide) (by decide)
  exact absurd ht List.not_mem_nil

end RotatorSession
end TrapChat.Client
