import TrapChat.Client.MediaTransfer
import TrapChat.Gateway.Server

/-!
The pace of an upload and the rate the gateway allows. A sender waits 50 ms between
two chunks, which is 20 of them a second; the gateway's limiter starts a peer with 20
tokens, and gives it 10 more with every full second.

How many chunks that covers is counted from the last time the bucket was full. In the
first interval after it the pace alone bounds the chunks; with every refill that does
not fill the bucket ten more are covered.
-/

namespace TrapChat.Network

open Storage Gateway Client MediaAssembler

/-- A duration of `n` milliseconds. -/
def milliseconds (n : ℕ) : Time := n * 1000000

/-- What happens at the limiter: a message of a peer, or a tick of the pruning. -/
inductive LimiterEvent
  | message (peer : PeerID) (now : Time)
  | prune (now : Time)

/-- The number of a peer's messages in a schedule. -/
def sends (p : PeerID) : List LimiterEvent → ℕ
  | [] => 0
  | .message q _ :: rest => if q = p then sends p rest + 1 else sends p rest
  | .prune _ :: rest => sends p rest

/-- Time goes on from `clock`, and the peer's messages keep their distance from each
other and from its last one before. -/
def Paced (p : PeerID) (distance : Time) : Option Time → Time → List LimiterEvent → Prop
  | _, _, [] => True
  | last, clock, .message q now :: rest =>
    clock ≤ now ∧
      if q = p then (∀ t ∈ last, t + distance ≤ now) ∧ Paced p distance (some now) now rest
      else Paced p distance last now rest
  | last, clock, .prune now :: rest => clock ≤ now ∧ Paced p distance last now rest

/-- The limiter lets every message of the peer pass. -/
def Admits (p : PeerID) : RateLimiter → List LimiterEvent → Prop
  | _, [] => True
  | rl, .message q now :: rest =>
    (q = p → (rl.allow q now).2 = true) ∧ Admits p (rl.allow q now).1 rest
  | rl, .prune now :: rest => Admits p (rl.prune now) rest

/-- The chat and media limiter, with any buckets. -/
def limiter (buckets : PeerID → Option TokenBucket) : RateLimiter :=
  { newServer.rl with buckets := buckets }

section
variable {p : PeerID} {buckets : PeerID → Option TokenBucket} {now fill n : ℕ}

/-! ### One message -/

/-- The bucket that a message finds after the refill. -/
theorem refilled_limiter (h : buckets p = some ⟨n, fill⟩) (now : ℕ) :
    (limiter buckets).refilled p now =
      let k := (now - fill) / 1000000000
      if 0 < k then ⟨min (n + k * 10) 20, (fill + k * 1000000000 : ℕ)⟩ else ⟨n, fill⟩ := by
  have hb : ((limiter buckets).buckets p).getD ⟨(limiter buckets).burst, now⟩ = ⟨n, fill⟩ := by
    show (buckets p).getD _ = _
    rw [h]
    rfl
  rw [RateLimiter.refilled, hb]
  show (if (now - fill) / 1000000000 * 10 > 0 then
      (⟨min (n + (now - fill) / 1000000000 * 10) 20,
        fill + (now - fill) / 1000000000 * 1000000000⟩ : TokenBucket)
    else ⟨n, fill⟩) = _
  dsimp only
  generalize (now - fill) / 1000000000 = k
  by_cases hpos : 0 < k
  · rw [if_pos hpos, if_pos (Nat.mul_pos hpos (by decide))]
  · have hrefill : ¬k * 10 > 0 := by omega
    rw [if_neg hpos, if_neg hrefill]

theorem refilled_limiter_none (h : buckets p = none) (now : ℕ) :
    (limiter buckets).refilled p now = ⟨20, now⟩ := by
  have hb : ((limiter buckets).buckets p).getD ⟨(limiter buckets).burst, now⟩ = ⟨20, now⟩ := by
    show (buckets p).getD _ = _
    rw [h]
    rfl
  rw [RateLimiter.refilled, hb]
  dsimp only
  rw [Nat.sub_self, Nat.zero_div, Nat.zero_mul]
  exact if_neg (Nat.lt_irrefl 0)

/-- A message that finds a token takes it. -/
theorem allow_limiter (h : (limiter buckets).refilled p now = ⟨n + 1, fill⟩) :
    (limiter buckets).allow p now =
      (limiter (Function.update buckets p (some ⟨n, fill⟩)), true) := by
  rw [RateLimiter.allow, h]
  rfl

theorem allow_limiter_empty (h : (limiter buckets).refilled p now = ⟨0, fill⟩) :
    ((limiter buckets).allow p now).2 = false := by
  rw [RateLimiter.allow, h]
  rfl

/-- A message touches the bucket of its own peer only. -/
theorem allow_limiter_buckets (q : PeerID) (now : Time) :
    ∃ b, ((limiter buckets).allow q now).1 = limiter (Function.update buckets q (some b)) := by
  rw [RateLimiter.allow]
  split
  · exact ⟨_, rfl⟩
  · exact ⟨_, rfl⟩

/-! ### What the bucket covers -/

/-- The time between two chunks. -/
def throttle : Time := milliseconds SEND_THROTTLE_MS

/-- The bucket of a peer after `i` messages, the last at `last`. It was full before the
last `f + 1` of them, and the pace has kept these apart; or it has been refilled since
it was full, and there are ten tokens more. -/
inductive Credit (i : ℕ) : Option ℕ → Option TokenBucket → Prop
  | unused {last : Option ℕ} : Credit i last none
  | full {last fill n f : ℕ} (hsum : n + (f + 1) = 20) (hle : f + 1 ≤ i)
      (hpace : fill + f * 50000000 ≤ last) : Credit i (some last) (some ⟨n, fill⟩)
  | refilled {last fill n f : ℕ} (hsum : 30 ≤ n + f) (hle : f ≤ i) (hfill : fill ≤ last) :
      Credit i (some last) (some ⟨n, fill⟩)

/-- A message passes, and the credit goes on with the bucket that it leaves. -/
def Passes (p : PeerID) (buckets : PeerID → Option TokenBucket) (now i : ℕ) : Prop :=
  ∃ b, (limiter buckets).allow p now = (limiter (Function.update buckets p (some b)), true) ∧
    Credit (i + 1) (some now) (some b)

/-- A message that brings a refill passes: the bucket is full, or has ten tokens more
than before. -/
theorem passes_refill {i f k : ℕ} (hbucket : (limiter buckets).refilled p now =
      ⟨min (n + k * 10) 20, (fill + k * 1000000000 : ℕ)⟩)
    (hpos : 0 < k) (hfill : fill + k * 1000000000 ≤ now) (hsum : 20 ≤ n + f) (hle : f ≤ i) :
    Passes p buckets now i := by
  by_cases hcap : 20 ≤ n + k * 10
  · rw [Nat.min_eq_right hcap] at hbucket
    refine ⟨_, allow_limiter hbucket, .full (f := 0) rfl (by omega) ?_⟩
    rw [Nat.zero_mul, Nat.add_zero]
    exact hfill
  · rw [Nat.min_eq_left (by omega)] at hbucket
    obtain ⟨m, hm⟩ : ∃ m, n + k * 10 = m + 1 := ⟨n + k * 10 - 1, by omega⟩
    rw [hm] at hbucket
    refine ⟨_, allow_limiter hbucket, .refilled (f := f + 1) ?_ ?_ hfill⟩
    · omega
    · omega

/-- **One message.** The first thirty of them find a token. -/
theorem Credit.allow {i : ℕ} {last : Option ℕ} (h : Credit i last (buckets p)) (hi : i < 30)
    (hpace : ∀ t ∈ last, t + 50000000 ≤ now) : Passes p buckets now i := by
  cases hb : buckets p with
  | none =>
      refine ⟨_, allow_limiter (refilled_limiter_none hb now), ?_⟩
      exact .full (f := 0) rfl (by omega) (by simp)
  | some bucket =>
      obtain ⟨n, fill, rfl⟩ : ∃ n fill : ℕ, bucket = ⟨n, fill⟩ := ⟨_, _, rfl⟩
      rw [hb] at h
      have hrefilled := refilled_limiter hb now
      dsimp only at hrefilled
      have hinterval : (now - fill) / 1000000000 * 1000000000 ≤ now - fill := Nat.div_mul_le_self _ _
      have hrest : now - fill < (now - fill) / 1000000000 * 1000000000 + 1000000000 :=
        Nat.lt_div_mul_add (by decide)
      generalize (now - fill) / 1000000000 = k at hrefilled hinterval hrest
      have hnew : fill ≤ now → fill + k * 1000000000 ≤ now := by omega
      cases h with
      | @full last _ _ f hsum hle hfull =>
          have hlast : last + 50000000 ≤ now := hpace last rfl
          by_cases hpos : 0 < k
          · rw [if_pos hpos] at hrefilled
            have hfill : fill ≤ now := by omega
            exact passes_refill (f := f + 1) hrefilled hpos (hnew hfill) (by omega) hle
          · rw [if_neg hpos] at hrefilled
            -- less than a second since the refill, so that the pace leaves a token
            have htoken : 0 < n := by omega
            obtain ⟨m, rfl⟩ : ∃ m, n = m + 1 := ⟨n - 1, by omega⟩
            have hpaced : fill + (f + 1) * 50000000 ≤ now := by
              calc fill + (f + 1) * 50000000 = fill + f * 50000000 + 50000000 := by
                    rw [Nat.succ_mul, Nat.add_assoc]
                _ ≤ last + 50000000 := Nat.add_le_add_right hfull _
                _ ≤ now := hlast
            refine ⟨_, allow_limiter hrefilled, ?_⟩
            apply Credit.full (f := f + 1)
            · omega
            · omega
            · exact hpaced
      | @refilled last _ _ f hsum hle hfill =>
          have hlast : last + 50000000 ≤ now := hpace last rfl
          by_cases hpos : 0 < k
          · rw [if_pos hpos] at hrefilled
            have hfill : fill ≤ now := by omega
            exact passes_refill (f := f) hrefilled hpos (hnew hfill) (by omega) hle
          · rw [if_neg hpos] at hrefilled
            obtain ⟨m, rfl⟩ : ∃ m, n = m + 1 := ⟨n - 1, by omega⟩
            refine ⟨_, allow_limiter hrefilled, .refilled (f := f + 1) ?_ ?_ ?_⟩
            · omega
            · omega
            · omega

/-- **Every message of a run.** With other peers' messages and prunings in between, the
first thirty pass. -/
theorem Credit.admits {i clock : ℕ} {last : Option ℕ} {events : List LimiterEvent}
    (h : Credit i last (buckets p)) (hpaced : Paced p throttle last clock events)
    (hcount : i + sends p events ≤ 30) : Admits p (limiter buckets) events := by
  induction events generalizing i clock last buckets with
  | nil => trivial
  | cons event rest ih =>
      cases event with
      | message q now =>
          by_cases hq : q = p
          · subst hq
            rw [sends, if_pos rfl] at hcount
            obtain ⟨-, hpaced⟩ := hpaced
            rw [if_pos rfl] at hpaced
            have hi : i < 30 := by omega
            obtain ⟨b, hallow, hcredit⟩ := h.allow hi hpaced.1
            rw [Admits, hallow]
            refine ⟨fun _ => rfl, ih (i := i + 1) ?_ hpaced.2 (by omega)⟩
            rw [Function.update_self]
            exact hcredit
          · rw [sends, if_neg hq] at hcount
            obtain ⟨-, hpaced⟩ := hpaced
            rw [if_neg hq] at hpaced
            obtain ⟨b, hallow⟩ := @allow_limiter_buckets buckets q now
            rw [Admits, hallow]
            refine ⟨fun h => absurd h hq, ih ?_ hpaced hcount⟩
            rw [Function.update_of_ne (Ne.symm hq)]
            exact h
      | prune now =>
          rw [Admits]
          refine @ih (fun q => (buckets q).filter _) _ _ _ ?_ hpaced.2 hcount
          -- a pruned bucket is one that is not used yet
          cases hb : buckets p with
          | none => exact .unused
          | some b =>
              rw [hb] at h
              rw [Option.filter_some]
              split
              · exact h
              · exact .unused

/-! ### The densest schedule -/

/-- The messages `i`, …, `i + n - 1` of a peer that sends at the pace. -/
def denseFrom (p : PeerID) : ℕ → ℕ → List LimiterEvent
  | _, 0 => []
  | i, n + 1 => .message p (i * throttle) :: denseFrom p (i + 1) n

theorem sends_denseFrom (i n : ℕ) : sends p (denseFrom p i n) = n := by
  induction n generalizing i with
  | zero => rfl
  | succ n ih => rw [denseFrom, sends, if_pos rfl, ih]

theorem paced_denseFrom {last : Option Time} {clock : Time} (i n : ℕ)
    (hlast : ∀ t ∈ last, t + throttle ≤ i * throttle) (hclock : clock ≤ i * throttle) :
    Paced p throttle last clock (denseFrom p i n) := by
  induction n generalizing i last clock with
  | zero => trivial
  | succ n ih =>
      refine ⟨hclock, ?_⟩
      rw [if_pos rfl]
      refine ⟨hlast, ih (i + 1) ?_ ?_⟩
      · rintro t ⟨⟩
        rw [Nat.succ_mul]
      · exact Nat.mul_le_mul_right _ (Nat.le_succ i)

/-- The bucket after `i` messages at the pace: the refill of the first second comes with
the message after the twentieth. -/
def densely : ℕ → Option TokenBucket
  | 0 => none
  | i + 1 => if i < 20 then some ⟨19 - i, 0⟩ else some ⟨29 - i, seconds 1⟩

/-- The message after `i < 30` takes its token. -/
theorem allow_densely {i : ℕ} (h : buckets p = densely i) (hi : i < 30) :
    (limiter buckets).allow p (i * throttle) =
      (limiter (Function.update buckets p (densely (i + 1))), true) := by
  cases i with
  | zero => exact allow_limiter (refilled_limiter_none h _)
  | succ i =>
      rcases Nat.lt_trichotomy i 19 with hlt | rfl | hgt
      · rw [densely, if_pos (by omega)] at h
        have hrefilled := refilled_limiter h ((i + 1) * 50000000)
        have hsecond : ((i + 1) * 50000000 - 0) / 1000000000 = 0 := by omega
        dsimp only at hrefilled
        rw [hsecond, if_neg (Nat.lt_irrefl 0)] at hrefilled
        rw [densely, if_pos (by omega)]
        obtain ⟨n, hn⟩ : ∃ n, 19 - i = n + 1 := ⟨18 - i, by omega⟩
        rw [hn] at hrefilled
        rw [show 19 - (i + 1) = n by omega]
        exact allow_limiter hrefilled
      · exact allow_limiter (refilled_limiter h _)
      · rw [densely, if_neg (by omega)] at h
        have hrefilled := refilled_limiter h ((i + 1) * 50000000)
        have hsecond : ((i + 1) * 50000000 - 1000000000) / 1000000000 = 0 := by omega
        dsimp only [seconds] at hrefilled
        rw [hsecond, if_neg (Nat.lt_irrefl 0)] at hrefilled
        rw [densely, if_neg (by omega)]
        obtain ⟨n, hn⟩ : ∃ n, 29 - i = n + 1 := ⟨28 - i, by omega⟩
        rw [hn] at hrefilled
        rw [show 29 - (i + 1) = n by omega]
        exact allow_limiter hrefilled

/-- The thirty-first message is denied. -/
theorem not_admits_denseFrom {i n : ℕ} (h : buckets p = densely i) (hi : i ≤ 30)
    (hn : 30 < i + n) : ¬Admits p (limiter buckets) (denseFrom p i n) := by
  induction n generalizing i buckets with
  | zero => omega
  | succ n ih =>
      rintro ⟨hallow, hrest⟩
      rcases Nat.lt_or_eq_of_le hi with hlt | rfl
      · rw [allow_densely h hlt] at hrest
        refine ih ?_ (by omega) (by omega) hrest
        exact Function.update_self ..
      · rw [allow_limiter_empty (refilled_limiter h _)] at hallow
        exact absurd (hallow rfl) (by decide)

/-- **Upload cadence.** The limiter admits every chunk of a transfer, at whatever times
the pace allows, if and only if the file has at most thirty chunks. -/
theorem uploadCadence_adequate (W : AesGcm) (key : W.Key) (room : String) (file : File)
    (transferId : String) (ivs : ℕ → ℕ) {messages : List MediaMessage} {sent : SentMedia}
    (hsent : sendMedia W key room file transferId ivs = .ok (messages, sent))
    (hfresh : buckets p = none) :
    (∀ events, Paced p throttle none 0 events → sends p events = messages.length →
      Admits p (limiter buckets) events) ↔ file.size ≤ 30 * CHUNK_SIZE := by
  have htotal : messages.length = Pieces.count CHUNK_SIZE file.size := by
    rw [messages_of_sendMedia key room ivs hsent, List.length_map, List.length_range, File.total]
  rw [htotal, ← Pieces.count_le_iff (by decide)]
  generalize Pieces.count CHUNK_SIZE file.size = total
  constructor
  · intro hadmits
    by_contra hlarge
    have hdense : Paced p throttle none 0 (denseFrom p 0 total) :=
      paced_denseFrom 0 total (by simp) (Nat.zero_le _)
    have hmany : 30 < 0 + total := by omega
    apply not_admits_denseFrom hfresh (Nat.zero_le 30) hmany
    exact hadmits _ hdense (sends_denseFrom 0 total)
  · intro hsmall events hpaced hcount
    have hcredit : Credit 0 none (buckets p) := by
      rw [hfresh]
      exact .unused
    have hfew : 0 + sends p events ≤ 30 := by omega
    exact hcredit.admits hpaced hfew

end

/-- A file of one chunk, between the messages of another peer. -/
theorem uploadCadence_adequate_small :
    Admits "p" newServer.rl [.message "q" 0, .message "p" 1, .prune 2, .message "q" 3] := by
  have hadequate := (@uploadCadence_adequate "p" (fun _ => none) keyedText 'k' "r" smallFile "t"
    (fun seq => seq) _ _ (sendMedia_ok (W := keyedText) 'k' "r" _ (by decide)) rfl).mpr (by decide)
  exact hadequate _ (by simp [Paced]) rfl

/-- The largest file that `sendMedia` accepts, of fifty chunks. -/
def largestFile : File := ⟨"a.bin", "", List.replicate MAX_FILE_SIZE 0⟩

/-- At the pace, the limiter denies the thirty-first chunk of it. -/
theorem largestFile_throttled :
    ∃ messages sent, sendMedia keyedText 'k' "r" largestFile "t" (fun seq => seq) =
        .ok (messages, sent) ∧
      Paced "p" throttle none 0 (denseFrom "p" 0 50) ∧ sends "p" (denseFrom "p" 0 50) = messages.length ∧
      ¬Admits "p" newServer.rl (denseFrom "p" 0 50) := by
  have hsize : largestFile.size = MAX_FILE_SIZE := List.length_replicate
  have htotal : largestFile.total = 50 := by
    rw [File.total, hsize]
    decide
  refine ⟨_, _, sendMedia_ok (W := keyedText) 'k' "r" _ hsize.le, ?_, ?_, ?_⟩
  · exact paced_denseFrom 0 50 (by simp) (Nat.zero_le _)
  · rw [sends_denseFrom, List.length_map, List.length_range, htotal]
  · exact @not_admits_denseFrom "p" (fun _ => none) 0 50 rfl (Nat.zero_le 30) (by decide)

end TrapChat.Network
