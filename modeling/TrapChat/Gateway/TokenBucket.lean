import Mathlib.Tactic.Ring
import TrapChat.Gateway.RateLimiter
import TrapChat.Library.Transition
import TrapChat.Library.Windows

/-!
What the token bucket allows a peer, over every run of messages and prunings.

It never allows much more than the rate: for the end of a window, what is left of a
bucket and what it will be refilled with until then only shrinks, by one with every
message that passes. A bucket that is pruned would have been full again.

And it never refuses a peer that keeps to the rate: since the last refill the tokens
taken and the tokens left are together at least the rate.
-/

namespace TrapChat.Gateway

open Storage Transition Windows

namespace RateLimiter

variable {rl : RateLimiter} {p : PeerID} {now : Time} {b : TokenBucket}

/-- The three ways in which a call finds its bucket. -/
inductive Refilled (rl : RateLimiter) (p : PeerID) (now : Time) : TokenBucket → Prop
  | fresh (hnone : rl.buckets p = none) : Refilled rl p now ⟨rl.burst, now⟩
  | kept {b : TokenBucket} (hsome : rl.buckets p = some b) (hnow : now < b.lastFill + rl.interval) :
      Refilled rl p now b
  | filled {b : TokenBucket} {n : ℕ} (hsome : rl.buckets p = some b)
      (hn : n = (now - b.lastFill) / rl.interval) (hpos : 0 < n) :
      Refilled rl p now ⟨min (b.tokens + n * rl.rate) rl.burst, b.lastFill + n * rl.interval⟩

theorem refilled_refilled (hrate : 0 < rl.rate) (hinterval : 0 < rl.interval) (p : PeerID)
    (now : Time) : Refilled rl p now (rl.refilled p now) := by
  rw [refilled]
  cases hb : rl.buckets p with
  | none =>
      have hzero : ¬0 < (now - now) / rl.interval * rl.rate := by
        rw [Nat.sub_self, Nat.zero_div, Nat.zero_mul]
        exact Nat.lt_irrefl 0
      dsimp only [Option.getD_none]
      rw [if_neg hzero]
      exact .fresh hb
  | some b =>
      dsimp only [Option.getD_some]
      split
      · next hrefill => exact .filled hb rfl (Nat.pos_of_mul_pos_right hrefill)
      · next hrefill =>
        have hzero : (now - b.lastFill) / rl.interval = 0 := by
          by_contra hne
          exact hrefill (Nat.mul_pos (Nat.pos_of_ne_zero hne) hrate)
        exact .kept hb (before_boundary hinterval hzero)

/-- The last refill after a call is less than an interval ago. -/
theorem Refilled.lastFill (h : Refilled rl p now b) (hinterval : 0 < rl.interval)
    (hpast : ∀ b ∈ rl.buckets p, b.lastFill ≤ now) :
    b.lastFill ≤ now ∧ now < b.lastFill + rl.interval := by
  cases h with
  | fresh hnone => exact ⟨le_rfl, Nat.lt_add_of_pos_right hinterval⟩
  | kept hsome hnow => exact ⟨hpast b hsome, hnow⟩
  | filled hsome hn hpos =>
      rw [hn]
      exact boundary hinterval (hpast _ hsome)

theorem Refilled.tokens_le (h : Refilled rl p now b)
    (hburst : ∀ b ∈ rl.buckets p, b.tokens ≤ rl.burst) : b.tokens ≤ rl.burst := by
  cases h with
  | fresh hnone => exact le_rfl
  | kept hsome hnow => exact hburst b hsome
  | filled hsome hn hpos => exact Nat.min_le_right _ _

/-- What a call leaves, and its answer. -/
theorem allow_eq (rl : RateLimiter) (p : PeerID) (now : Time) :
    rl.allow p now =
      ({ rl with
          buckets := Function.update rl.buckets p
            (some ⟨(rl.refilled p now).tokens - 1, (rl.refilled p now).lastFill⟩) },
        decide ((rl.refilled p now).tokens ≠ 0)) := by
  rw [allow]
  generalize rl.refilled p now = b
  cases b with
  | mk tokens fill =>
      cases tokens with
      | zero => rfl
      | succ n => rfl

/-- The product that `allow` computes from the elapsed intervals is small in a run that is. -/
theorem refill_lt {n : ℕ} (hrun : now * rl.rate < n) (fill : Time) :
    (now - fill) / rl.interval * rl.rate < n := by
  have hle : (now - fill) / rl.interval ≤ now := (Nat.div_le_self _ _).trans (Nat.sub_le _ _)
  exact (Nat.mul_le_mul_right rl.rate hle).trans_lt hrun

/-! ### What a bucket is still good for -/

/-- The messages that a bucket covers until `deadline`. A peer without a bucket gets a full
one. -/
def credit (rl : RateLimiter) (deadline now : Time) : Option TokenBucket → ℕ
  | some b => b.tokens + rl.rate * ((deadline - b.lastFill) / rl.interval)
  | none => rl.burst + rl.rate * ((deadline - now) / rl.interval)

variable {clock deadline : Time}

/-- Time spends credit. -/
theorem credit_anti (hclock : clock ≤ now) (bucket : Option TokenBucket) :
    rl.credit deadline now bucket ≤ rl.credit deadline clock bucket := by
  cases bucket with
  | some b => exact le_rfl
  | none =>
      have hle : (deadline - now) / rl.interval ≤ (deadline - clock) / rl.interval :=
        Nat.div_le_div_right (Nat.sub_le_sub_left hclock deadline)
      exact Nat.add_le_add_left (Nat.mul_le_mul_left rl.rate hle) rl.burst

/-- A refill brings no more than has been counted on. -/
theorem Refilled.credit_le (h : Refilled rl p now b) (hdeadline : now ≤ deadline) :
    rl.credit deadline now (some b) ≤ rl.credit deadline now (rl.buckets p) := by
  cases h with
  | fresh hnone => rw [hnone]; exact le_rfl
  | kept hsome hnow => rw [hsome]
  | @filled b n hsome hn hpos =>
      rw [hsome]
      calc min (b.tokens + n * rl.rate) rl.burst +
            rl.rate * ((deadline - (b.lastFill + n * rl.interval)) / rl.interval)
          ≤ b.tokens + n * rl.rate +
            rl.rate * ((deadline - (b.lastFill + n * rl.interval)) / rl.interval) :=
            Nat.add_le_add_right (Nat.min_le_left _ _) _
        _ = b.tokens + rl.rate *
            (n + (deadline - (b.lastFill + n * rl.interval)) / rl.interval) := by ring
        _ = b.tokens + rl.rate * ((deadline - b.lastFill) / rl.interval) := by
            rw [boundaries_left hdeadline hn]

/-- A window that begins now is covered by a bucket after a call, and one interval more. -/
theorem Refilled.credit_le_window (h : Refilled rl p now b) (hinterval : 0 < rl.interval)
    (hpast : ∀ b ∈ rl.buckets p, b.lastFill ≤ now)
    (hburst : ∀ b ∈ rl.buckets p, b.tokens ≤ rl.burst)
    {start : Time} {length : ℕ} (hstart : start ≤ now) :
    rl.credit (start + length) now (some b) ≤ rl.burst + rl.rate * (length / rl.interval + 1) := by
  have hfill := h.lastFill hinterval hpast
  have hboundaries : (start + length - b.lastFill) / rl.interval ≤ length / rl.interval + 1 :=
    boundaries_within hinterval hstart hfill.2
  exact Nat.add_le_add (h.tokens_le hburst) (Nat.mul_le_mul_left rl.rate hboundaries)

/-- A bucket is pruned when it would be full again. -/
theorem credit_prune (rl : RateLimiter) (hrate : 0 < rl.rate) (hinterval : 0 < rl.interval)
    (hdeadline : now ≤ deadline) (p : PeerID) :
    rl.credit deadline now ((rl.prune now).buckets p) ≤ rl.credit deadline now (rl.buckets p) := by
  show rl.credit deadline now ((rl.buckets p).filter _) ≤ _
  cases rl.buckets p with
  | none => exact le_rfl
  | some b =>
      rw [Option.filter_some]
      split
      · exact le_rfl
      · next hstale =>
        rw [decide_eq_true_eq, not_le] at hstale
        have hfull : rl.interval * rl.burst ≤ now - b.lastFill :=
          (Nat.le_max_left _ _).trans hstale.le
        have hpast : b.lastFill ≤ now :=
          (Nat.lt_of_sub_pos ((Nat.zero_le _).trans_lt hstale)).le
        have hsplit : deadline - now + rl.burst * rl.interval ≤ deadline - b.lastFill := by
          rw [Nat.mul_comm, ← Nat.sub_add_sub_cancel hdeadline hpast]
          exact Nat.add_le_add_left hfull _
        have hintervals : (deadline - now) / rl.interval + rl.burst ≤
            (deadline - b.lastFill) / rl.interval := by
          rw [← Nat.add_mul_div_right _ _ hinterval]
          exact Nat.div_le_div_right hsplit
        calc rl.burst + rl.rate * ((deadline - now) / rl.interval)
            ≤ rl.rate * rl.burst + rl.rate * ((deadline - now) / rl.interval) :=
              Nat.add_le_add_right (Nat.le_mul_of_pos_left _ hrate) _
          _ = rl.rate * ((deadline - now) / rl.interval + rl.burst) := by ring
          _ ≤ rl.rate * ((deadline - b.lastFill) / rl.interval) :=
              Nat.mul_le_mul_left _ hintervals
          _ ≤ b.tokens + rl.rate * ((deadline - b.lastFill) / rl.interval) :=
              Nat.le_add_left _ _

end RateLimiter

/-! ### Runs -/

inductive LimiterCall
  | allow (peerID : PeerID) (now : Time)
  | prune (now : Time)
  | remove (peerID : PeerID)
  deriving DecidableEq

/-- A limiter, whose parameters do not change, with the time of the last call and the
answers that every peer has got, each with its time. -/
structure LimiterRun (rate : ℕ) (interval : Time) (burst : ℕ) where
  buckets : PeerID → Option TokenBucket
  clock : Time
  answers : PeerID → List (Time × Bool)

namespace LimiterRun

variable {rate : ℕ} {interval : Time} {burst : ℕ}

def new (rate : ℕ) (interval : Time) (burst : ℕ) : LimiterRun rate interval burst where
  buckets := (newRateLimiter rate interval burst).buckets
  clock := 0
  answers := fun _ => []

def rl (w : LimiterRun rate interval burst) : RateLimiter := ⟨w.buckets, rate, interval, burst⟩

/-- One call. Time does not run backwards. -/
def step (w : LimiterRun rate interval burst) :
    LimiterCall → Option (LimiterRun rate interval burst)
  | .allow peerID now =>
    if w.clock ≤ now then
      let res := w.rl.allow peerID now
      some ⟨res.1.buckets, now,
        Function.update w.answers peerID (w.answers peerID ++ [(now, res.2)])⟩
    else none
  | .prune now =>
    if w.clock ≤ now then some { w with buckets := (w.rl.prune now).buckets, clock := now }
    else none
  | .remove peerID => some { w with buckets := (w.rl.remove peerID).buckets }

/-- When a peer has called. -/
def asked (w : LimiterRun rate interval burst) (p : PeerID) : List Time :=
  (w.answers p).map Prod.fst

/-- When a peer has been let pass. -/
def accepted (w : LimiterRun rate interval burst) (p : PeerID) : List Time :=
  ((w.answers p).filter Prod.snd).map Prod.fst

variable {w w' : LimiterRun rate interval burst} {p q : PeerID} {now : Time}

/-- What becomes of one peer in a step: it calls, its bucket is pruned or removed, or its
bucket is left alone. -/
inductive Affects (p : PeerID) (w w' : LimiterRun rate interval burst) : LimiterCall → Prop
  | asks {now : Time} {b : TokenBucket} (hnow : w.clock ≤ now)
      (hb : RateLimiter.Refilled w.rl p now b) (hclock : w'.clock = now)
      (hbucket : w'.buckets p = some ⟨b.tokens - 1, b.lastFill⟩)
      (hanswers : w'.answers p = w.answers p ++ [(now, decide (b.tokens ≠ 0))]) :
      Affects p w w' (.allow p now)
  | pruned {now : Time} (hnow : w.clock ≤ now) (hclock : w'.clock = now)
      (hbucket : w'.buckets p = (w.rl.prune now).buckets p)
      (hanswers : w'.answers p = w.answers p) : Affects p w w' (.prune now)
  | removed (hclock : w'.clock = w.clock) (hbucket : w'.buckets p = none)
      (hanswers : w'.answers p = w.answers p) : Affects p w w' (.remove p)
  | other {c : LimiterCall} (hclock : w.clock ≤ w'.clock) (hbucket : w'.buckets p = w.buckets p)
      (hanswers : w'.answers p = w.answers p) : Affects p w w' c

theorem affects (hrate : 0 < rate) (hinterval : 0 < interval) (p : PeerID) {c : LimiterCall}
    (h : w.step c = some w') : Affects p w w' c := by
  cases c with
  | allow q now =>
      rw [step] at h
      split at h
      · next hnow =>
        obtain rfl := (Option.some.inj h).symm
        rw [RateLimiter.allow_eq]
        by_cases hpq : p = q
        · subst hpq
          exact .asks hnow (RateLimiter.refilled_refilled hrate hinterval p now) rfl
            (Function.update_self ..) (Function.update_self ..)
        · exact .other hnow (Function.update_of_ne hpq ..) (Function.update_of_ne hpq ..)
      · cases h
  | prune now =>
      rw [step] at h
      split at h
      · next hnow =>
        obtain rfl := (Option.some.inj h).symm
        exact .pruned hnow rfl rfl rfl
      · cases h
  | remove q =>
      obtain rfl := (Option.some.inj h).symm
      by_cases hpq : p = q
      · subst hpq
        exact .removed rfl (Function.update_self ..) rfl
      · exact .other le_rfl (Function.update_of_ne hpq ..) rfl

theorem accepted_asks {b : TokenBucket}
    (h : w'.answers p = w.answers p ++ [(now, decide (b.tokens ≠ 0))]) :
    w'.accepted p = if b.tokens = 0 then w.accepted p else w.accepted p ++ [now] := by
  rw [accepted, h, List.filter_append, List.map_append]
  split
  · next hzero => simp [hzero, accepted]
  · next hpos => simp [hpos, accepted]

theorem accepted_congr (h : w'.answers p = w.answers p) : w'.accepted p = w.accepted p := by
  rw [accepted, h, accepted]

/-- A bucket has at most the burst, and was not filled in the future. -/
structure Sound (p : PeerID) (w : LimiterRun rate interval burst) : Prop where
  tokens_le : ∀ b ∈ w.buckets p, b.tokens ≤ burst
  lastFill_le : ∀ b ∈ w.buckets p, b.lastFill ≤ w.clock

theorem sound_new : Sound p (new rate interval burst) := by
  constructor <;> simp [new, newRateLimiter]

theorem Sound.step (h : Sound p w) (hrate : 0 < rate) (hinterval : 0 < interval) {c : LimiterCall}
    (hstep : w.step c = some w') : Sound p w' := by
  cases affects hrate hinterval p hstep with
  | @asks now b hnow hb hclock hbucket hanswers =>
      have hpast : ∀ b ∈ w.rl.buckets p, b.lastFill ≤ now := fun b hb' =>
        (h.lastFill_le b hb').trans hnow
      constructor
      · rw [hbucket]
        rintro _ ⟨⟩
        exact (Nat.sub_le _ _).trans (hb.tokens_le h.tokens_le)
      · rw [hbucket, hclock]
        rintro _ ⟨⟩
        exact (hb.lastFill hinterval hpast).1
  | @pruned now hnow hclock hbucket hanswers =>
      have hkept : ∀ b ∈ w'.buckets p, b ∈ w.buckets p := by
        intro b hb
        rw [hbucket] at hb
        exact (Option.mem_filter_iff.mp hb).1
      refine ⟨fun b hb => h.tokens_le b (hkept b hb), fun b hb => ?_⟩
      rw [hclock]
      exact (h.lastFill_le b (hkept b hb)).trans hnow
  | removed hclock hbucket hanswers => constructor <;> simp [hbucket]
  | other hclock hbucket hanswers =>
      constructor
      · rw [hbucket]
        exact h.tokens_le
      · rw [hbucket]
        exact fun b hb => (h.lastFill_le b hb).trans hclock

theorem sound_of_reachable {C : LimiterRun rate interval burst → LimiterCall → Prop}
    (hrate : 0 < rate) (hinterval : 0 < interval) (p : PeerID)
    (hw : ReachableVia step C (new rate interval burst) w) : Sound p w :=
  hw.invariant sound_new fun _ _ _ h _ hstep => h.step hrate hinterval hstep

/-! ### Not more than the rate -/

/-- What has passed in a window, and what the bucket is still good for until its end. -/
structure Covered (p : PeerID) (start : Time) (length : ℕ) (w : LimiterRun rate interval burst) :
    Prop where
  within_le : within start (length + 1) (w.accepted p) ≤ burst + rate * (length / interval + 1)
  credit_le : w.clock ≤ start + length → within start (length + 1) (w.accepted p) ≠ 0 →
    within start (length + 1) (w.accepted p) +
      w.rl.credit (start + length) w.clock (w.buckets p) ≤ burst + rate * (length / interval + 1)

variable {start : Time} {length : ℕ}

/-- Nothing passes in the window, and credit is spent. -/
theorem Covered.spend (h : Covered p start length w)
    (hwithin : within start (length + 1) (w'.accepted p) =
      within start (length + 1) (w.accepted p)) (hclock : w.clock ≤ w'.clock)
    (hcredit : w'.clock ≤ start + length →
      w'.rl.credit (start + length) w'.clock (w'.buckets p) ≤
        w.rl.credit (start + length) w.clock (w.buckets p)) : Covered p start length w' := by
  constructor
  · rw [hwithin]
    exact h.within_le
  · rw [hwithin]
    intro hahead hsome
    have hold := h.credit_le (hclock.trans hahead) hsome
    exact (Nat.add_le_add_left (hcredit hahead) _).trans hold

/-- The peer calls. -/
theorem Covered.asks (h : Covered p start length w) (hsound : Sound p w) (hinterval : 0 < interval)
    {b : TokenBucket} (hnow : w.clock ≤ now) (hb : RateLimiter.Refilled w.rl p now b)
    (hclock : w'.clock = now) (hbucket : w'.buckets p = some ⟨b.tokens - 1, b.lastFill⟩)
    (hanswers : w'.answers p = w.answers p ++ [(now, decide (b.tokens ≠ 0))]) :
    Covered p start length w' := by
  have hcredit : now ≤ start + length →
      w.rl.credit (start + length) now (some b) ≤
        w.rl.credit (start + length) w.clock (w.buckets p) := fun hahead =>
    (hb.credit_le hahead).trans (RateLimiter.credit_anti hnow _)
  have htaken : w'.rl.credit (start + length) w'.clock (w'.buckets p) =
      b.tokens - 1 + rate * ((start + length - b.lastFill) / interval) := by
    rw [hbucket]
    rfl
  by_cases hin : b.tokens ≠ 0 ∧ start ≤ now ∧ now < start + (length + 1)
  · have hwithin : within start (length + 1) (w'.accepted p) =
        within start (length + 1) (w.accepted p) + 1 := by
      rw [accepted_asks hanswers, if_neg hin.1, within_append, within_singleton, if_pos hin.2]
    have hahead : now ≤ start + length := Nat.lt_succ_iff.mp hin.2.2
    have hspent : within start (length + 1) (w'.accepted p) +
        w'.rl.credit (start + length) w'.clock (w'.buckets p) =
          within start (length + 1) (w.accepted p) +
            w.rl.credit (start + length) now (some b) := by
      have htokens : b.tokens ≠ 0 := hin.1
      rw [hwithin, htaken]
      show _ = _ + (b.tokens + rate * ((start + length - b.lastFill) / interval))
      omega
    have hcovered : within start (length + 1) (w'.accepted p) +
        w'.rl.credit (start + length) w'.clock (w'.buckets p) ≤
          burst + rate * (length / interval + 1) := by
      rw [hspent]
      by_cases hfirst : within start (length + 1) (w.accepted p) = 0
      · -- the first message in the window finds at most a full bucket
        rw [hfirst, Nat.zero_add]
        exact hb.credit_le_window hinterval (fun b hb' => (hsound.lastFill_le b hb').trans hnow)
          hsound.tokens_le hin.2.1
      · exact (Nat.add_le_add_left (hcredit hahead) _).trans
          (h.credit_le (hnow.trans hahead) hfirst)
    exact ⟨(Nat.le_add_right _ _).trans hcovered, fun _ _ => hcovered⟩
  · have hwithin : within start (length + 1) (w'.accepted p) =
        within start (length + 1) (w.accepted p) := by
      rw [accepted_asks hanswers]
      split
      · rfl
      · next hpos =>
        rw [within_append, within_singleton, if_neg (fun hin' => hin ⟨hpos, hin'⟩), Nat.add_zero]
    refine h.spend hwithin (hnow.trans hclock.ge) fun hahead => ?_
    rw [htaken]
    exact (Nat.add_le_add_right (Nat.sub_le _ _) _).trans (hcredit (hclock ▸ hahead))

theorem Covered.step (h : Covered p start length w) (hsound : Sound p w) (hrate : 0 < rate)
    (hinterval : 0 < interval) {c : LimiterCall} (hc : c ≠ .remove p)
    (hstep : w.step c = some w') : Covered p start length w' := by
  cases affects hrate hinterval p hstep with
  | asks hnow hb hclock hbucket hanswers =>
      exact h.asks hsound hinterval hnow hb hclock hbucket hanswers
  | @pruned now hnow hclock hbucket hanswers =>
      refine h.spend (by rw [accepted_congr hanswers]) (hnow.trans hclock.ge) fun hahead => ?_
      rw [hclock] at hahead ⊢
      rw [hbucket]
      have hpruned := w.rl.credit_prune hrate hinterval hahead p
      exact hpruned.trans (RateLimiter.credit_anti hnow _)
  | removed hclock hbucket hanswers => exact absurd rfl hc
  | other hclock hbucket hanswers =>
      refine h.spend (by rw [accepted_congr hanswers]) hclock fun hahead => ?_
      rw [hbucket]
      exact RateLimiter.credit_anti hclock _

/-- **The rate is kept.** As long as a peer's bucket is not removed, no window lets more of its
messages pass than the burst, and the rate once for every interval and once more; and the
buckets are sound. -/
theorem within_accepted_le (hrate : 1 ≤ rate) (hinterval : 0 < interval)
    (hw : ReachableVia step (fun _ c => c ≠ .remove p) (new rate interval burst) w) :
    (∀ start length, within start (length + 1) (w.accepted p) ≤
      burst + rate * (length / interval + 1)) ∧
    ∀ q, ∀ b ∈ w.buckets q, b.tokens ≤ burst ∧ b.lastFill ≤ w.clock := by
  have hsound := fun q => sound_of_reachable hrate hinterval q hw
  refine ⟨fun start length => ?_, fun q b hb => ⟨(hsound q).tokens_le b hb,
    (hsound q).lastFill_le b hb⟩⟩
  have hcovered : Covered p start length w := by
    refine hw.invariant_of (fun s hs => sound_of_reachable hrate hinterval p hs) ?_
      fun s c s' hs h hc hstep => h.step hs hrate hinterval hc hstep
    exact ⟨Nat.zero_le _, fun _ hsome => absurd rfl hsome⟩
  exact hcovered.within_le

/-- A typing indicator of a full bucket, three more, and one two minutes and a pruning later. -/
theorem within_accepted_le_typing :
    let w : LimiterRun 1 (seconds 2) 3 := (execVia step (fun _ c => c ≠ .remove "p")
      (new 1 (seconds 2) 3) [.allow "p" 1, .allow "p" 2, .allow "p" 3, .allow "p" 4,
        .prune (seconds 120), .allow "p" (seconds 121)]).get (by decide)
    (∀ start length, within start (length + 1) (w.accepted "p") ≤
      3 + 1 * (length / seconds 2 + 1)) ∧
    ∀ q, ∀ b ∈ w.buckets q, b.tokens ≤ 3 ∧ b.lastFill ≤ w.clock :=
  within_accepted_le (by decide) (by decide) (reachableVia_get (by decide))

/-! ### Not less than the rate -/

/-- A peer that asks at most as often as the rate allows, in every interval. -/
def Conforms (w : LimiterRun rate interval burst) (p : PeerID) : Prop :=
  ∀ start, within start interval (w.asked p) ≤ rate

/-- Since its last refill, the tokens that a peer has and the messages that it has sent are at
least the rate. -/
structure Served (p : PeerID) (w : LimiterRun rate interval burst) : Prop where
  tokens : ∀ b ∈ w.buckets p, rate ≤ b.tokens + within b.lastFill interval (w.asked p)
  answered : ∀ answer ∈ w.answers p, answer.2 = true

theorem asked_concat {ok : Bool} (h : w'.answers p = w.answers p ++ [(now, ok)]) :
    w'.asked p = w.asked p ++ [now] := by
  rw [asked, h, List.map_append]
  rfl

/-- A peer that conforms has conformed before. -/
theorem Conforms.before (h : Conforms w' p) {more : List (Time × Bool)}
    (hanswers : w'.answers p = w.answers p ++ more) : Conforms w p := by
  intro start
  have hmore : w'.asked p = w.asked p ++ more.map Prod.fst := by
    rw [asked, hanswers, List.map_append]
    rfl
  have hle := h start
  rw [hmore] at hle
  exact within_le_append.trans hle

/-- A conforming peer finds a token. -/
theorem Served.asks (h : Served p w) (hsound : Sound p w) (hburst : rate ≤ burst)
    (hinterval : 0 < interval) (hconforms : Conforms w' p) {b : TokenBucket}
    (hnow : w.clock ≤ now) (hb : RateLimiter.Refilled w.rl p now b)
    (hbucket : w'.buckets p = some ⟨b.tokens - 1, b.lastFill⟩)
    (hanswers : w'.answers p = w.answers p ++ [(now, decide (b.tokens ≠ 0))]) :
    Served p w' := by
  have hfill : b.lastFill ≤ now ∧ now < b.lastFill + interval :=
    hb.lastFill hinterval fun b hb' => (hsound.lastFill_le b hb').trans hnow
  have hone : within b.lastFill interval (w'.asked p) =
      within b.lastFill interval (w.asked p) + 1 := by
    rw [asked_concat hanswers, within_append, within_singleton, if_pos hfill]
  have hmany : within b.lastFill interval (w'.asked p) ≤ rate := hconforms b.lastFill
  have htokens : rate ≤ b.tokens + within b.lastFill interval (w.asked p) := by
    cases hb with
    | fresh hnone => exact hburst.trans (Nat.le_add_right _ _)
    | kept hsome hnow => exact h.tokens b hsome
    | @filled b n hsome hn hpos =>
        -- a refill brings the rate at least once, unless it fills the bucket
        have hrefill : rate ≤ b.tokens + n * rate :=
          (Nat.le_mul_of_pos_left rate hpos).trans (Nat.le_add_left _ _)
        exact (Nat.le_min.mpr ⟨hrefill, hburst⟩).trans (Nat.le_add_right _ _)
  have hpos : b.tokens ≠ 0 := by omega
  constructor
  · rw [hbucket]
    rintro _ ⟨⟩
    show rate ≤ b.tokens - 1 + within b.lastFill interval (w'.asked p)
    omega
  · rw [hanswers]
    intro answer hanswer
    obtain hold | hnew := List.mem_append.mp hanswer
    · exact h.answered answer hold
    · rw [List.mem_singleton.mp hnew]
      exact decide_eq_true hpos

theorem Served.step (h : Served p w) (hsound : Sound p w) (hrate : 1 ≤ rate) (hburst : rate ≤ burst)
    (hinterval : 0 < interval) (hconforms : Conforms w' p) {c : LimiterCall}
    (hstep : w.step c = some w') : Served p w' := by
  cases affects hrate hinterval p hstep with
  | asks hnow hb hclock hbucket hanswers =>
      exact h.asks hsound hburst hinterval hconforms hnow hb hbucket hanswers
  | pruned hnow hclock hbucket hanswers =>
      constructor
      · intro b hb
        rw [hbucket] at hb
        rw [asked, hanswers]
        exact h.tokens b (Option.mem_filter_iff.mp hb).1
      · rw [hanswers]
        exact h.answered
  | removed hclock hbucket hanswers =>
      constructor
      · simp [hbucket]
      · rw [hanswers]
        exact h.answered
  | other hclock hbucket hanswers =>
      constructor
      · rw [hbucket, asked, hanswers]
        exact h.tokens
      · rw [hanswers]
        exact h.answered

theorem answers_step (hrate : 0 < rate) (hinterval : 0 < interval) {c : LimiterCall}
    (hstep : w.step c = some w') : ∃ more, w'.answers p = w.answers p ++ more := by
  cases affects hrate hinterval p hstep with
  | asks hnow hb hclock hbucket hanswers => exact ⟨_, hanswers⟩
  | pruned hnow hclock hbucket hanswers => exact ⟨[], by rw [hanswers, List.append_nil]⟩
  | removed hclock hbucket hanswers => exact ⟨[], by rw [hanswers, List.append_nil]⟩
  | other hclock hbucket hanswers => exact ⟨[], by rw [hanswers, List.append_nil]⟩

/-- **A peer that keeps to the rate is never refused.** -/
theorem answered_of_conforms (hrate : 1 ≤ rate) (hburst : rate ≤ burst) (hinterval : 0 < interval)
    (hw : Reachable step (new rate interval burst) w) (hconforms : Conforms w p) :
    ∀ answer ∈ w.answers p, answer.2 = true := by
  have hserved : Conforms w p → Served p w := by
    refine hw.invariant_of (J := fun s => Conforms s p → Served p s)
      (fun s hs => sound_of_reachable hrate hinterval p hs)
      (fun _ => ⟨by simp [new, newRateLimiter], by simp [new]⟩)
      fun s c s' hsound h _ hstep hconforms' => ?_
    obtain ⟨more, hmore⟩ := answers_step (p := p) hrate hinterval hstep
    exact (h (hconforms'.before hmore)).step hsound hrate hburst hinterval hconforms' hstep
  exact (hserved hconforms).answered

/-- One typing indicator every two seconds, for two minutes that hold a pruning. -/
theorem answered_of_conforms_typing :
    let w : LimiterRun 1 (seconds 2) 3 := (exec step (new 1 (seconds 2) 3) [.allow "p" 1,
      .allow "p" (seconds 2 + 1), .prune (seconds 120), .allow "p" (seconds 121)]).get (by decide)
    ∀ answer ∈ w.answers "p", answer.2 = true := by
  have hapart : ∀ start : ℕ, within start 2000000000 [1, 2000000001, 121000000000] ≤ 1 := by
    intro start
    simp only [within, List.countP_cons, List.countP_nil, decide_eq_true_eq]
    split_ifs <;> omega
  exact answered_of_conforms (by decide) (by decide) (by decide) (reachable_get (by decide)) hapart

end LimiterRun
end TrapChat.Gateway
