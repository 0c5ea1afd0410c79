import TrapChat.Storage.Store

/-!
The gateway's per-peer token bucket. Times and the refill interval are in
nanoseconds, and time does not run backwards.
-/

namespace TrapChat.Gateway

open Storage

structure TokenBucket where
  tokens : ℕ
  lastFill : Time
  deriving DecidableEq

structure RateLimiter where
  buckets : PeerID → Option TokenBucket
  rate : ℕ
  interval : Time
  burst : ℕ

def newRateLimiter (rate : ℕ) (interval : Time) (burst : ℕ) : RateLimiter where
  buckets := fun _ => none
  rate := rate
  interval := interval
  burst := burst

/-- The bucket a call finds, refilled for the whole intervals that have passed;
the remainder of an interval stays to its credit. -/
def RateLimiter.refilled (rl : RateLimiter) (peerID : PeerID) (now : Time) : TokenBucket :=
  let b := (rl.buckets peerID).getD ⟨rl.burst, now⟩
  let intervals := (now - b.lastFill) / rl.interval
  let refill := intervals * rl.rate
  if refill > 0 then ⟨min (b.tokens + refill) rl.burst, b.lastFill + intervals * rl.interval⟩
  else b

/-- Whether the peer is within its rate; takes a token if so. -/
def RateLimiter.allow (rl : RateLimiter) (peerID : PeerID) (now : Time) : RateLimiter × Bool :=
  let b := rl.refilled peerID now
  if b.tokens = 0 then ({ rl with buckets := Function.update rl.buckets peerID (some b) }, false)
  else
    ({ rl with buckets := Function.update rl.buckets peerID (some { b with tokens := b.tokens - 1 }) },
      true)

/-- How long a bucket is kept after its last refill. -/
def RateLimiter.staleThreshold (rl : RateLimiter) : Time :=
  max (rl.interval * rl.burst) (seconds 60)

/-- One tick of `pruneLoop`. -/
def RateLimiter.prune (rl : RateLimiter) (now : Time) : RateLimiter :=
  { rl with
    buckets := fun peerID => (rl.buckets peerID).filter fun b =>
      now - b.lastFill ≤ rl.staleThreshold }

def RateLimiter.remove (rl : RateLimiter) (peerID : PeerID) : RateLimiter :=
  { rl with buckets := Function.update rl.buckets peerID none }

end TrapChat.Gateway
