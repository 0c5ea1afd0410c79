import Mathlib.Data.Finset.Card
import TrapChat.Library.InsertionOrder
import TrapChat.Worker.Queue

/-!
The worker's limit on job submissions: a window for each address, in a map that evicts
its first key when there are more than 10,000. A window that is renewed keeps the place of
its key, and the first key goes whether or not its window has ended.
-/

namespace TrapChat.Worker

open InsertionOrder

def RATE_LIMIT_WINDOW_MS : Time := 60000

def RATE_LIMIT_MAX_REQUESTS : ℕ := 60

def MAX_RATE_LIMIT_IPS : ℕ := 10000

structure RateEntry where
  count : ℕ
  resetAt : Time
deriving DecidableEq

/-- What a request makes of the entry that it finds. -/
def countRequest (entry : Option RateEntry) (now : Time) : RateEntry :=
  let fresh : RateEntry := { count := 0, resetAt := now + RATE_LIMIT_WINDOW_MS }
  let entry :=
    match entry with
    | none => fresh
    | some entry => if entry.resetAt ≤ now then fresh else entry
  { entry with count := entry.count + 1 }

abbrev RateLimitMap (ι : Type*) := BoundedMap ι RateEntry MAX_RATE_LIMIT_IPS

section
variable {ι : Type*} [DecidableEq ι]

/-- The map afterwards, and whether the request is accepted. -/
def checkRateLimit (m : RateLimitMap ι) (ip : ι) (now : Time) : RateLimitMap ι × Bool :=
  let entry := countRequest (m.get ip) now
  (m.insert ip entry, entry.count ≤ RATE_LIMIT_MAX_REQUESTS)

/-- Requests in the order in which they arrive. -/
abbrev Requests (ι : Type*) := List (ι × Time)

def afterRequests (m : RateLimitMap ι) (requests : Requests ι) : RateLimitMap ι :=
  requests.foldl (fun m request => (checkRateLimit m request.1 request.2).1) m

/-- The times of an address's requests. -/
def timesOf (x : ι) (requests : Requests ι) : List Time :=
  (requests.filter fun request => request.1 = x).map Prod.snd

/-- The decisions on an address's requests. -/
def decisions (x : ι) (m : RateLimitMap ι) : Requests ι → List Bool
  | [] => []
  | (ip, now) :: rest =>
    let (m', accepted) := checkRateLimit m ip now
    if ip = x then accepted :: decisions x m' rest else decisions x m' rest

/-- The decisions on the requests of an address that is alone. -/
def decisionsAlone (entry : Option RateEntry) : List Time → List Bool
  | [] => []
  | now :: rest =>
    let entry := countRequest entry now
    decide (entry.count ≤ RATE_LIMIT_MAX_REQUESTS) :: decisionsAlone (some entry) rest

/-- No request of the address finds its entry evicted in the middle of its window. `last` is
the entry as the address's last request has left it. -/
def Lasting (x : ι) (m : RateLimitMap ι) (last : Option RateEntry) : Requests ι → Prop
  | [] => True
  | (ip, now) :: rest =>
    (ip = x → m.get x = none → ∀ entry ∈ last, entry.resetAt ≤ now) ∧
      Lasting x (checkRateLimit m ip now).1
        (if ip = x then some (countRequest (m.get x) now) else last) rest

end

/-! ### One request -/

section
variable {ι : Type*} [DecidableEq ι] {m : RateLimitMap ι} {x ip : ι} {now : Time}
  {entry : RateEntry} {last : Option RateEntry}

theorem countRequest_of_ended (h : ∀ entry ∈ last, entry.resetAt ≤ now) :
    countRequest last now = { count := 1, resetAt := now + RATE_LIMIT_WINDOW_MS } := by
  cases last with
  | none => rfl
  | some entry =>
      have hended : entry.resetAt ≤ now := h entry rfl
      simp only [countRequest, if_pos hended]

theorem countRequest_of_live (h : now < entry.resetAt) :
    countRequest (some entry) now = { entry with count := entry.count + 1 } := by
  simp only [countRequest, if_neg (Nat.not_le.mpr h)]

/-- The address of a request has the entry that it was counted in. -/
theorem get_checkRateLimit_self :
    (checkRateLimit m x now).1.get x = some (countRequest (m.get x) now) :=
  BoundedMap.get_insert_self (Nat.succ_pos 9999)

/-- Another address keeps its entry or loses it. -/
theorem get_checkRateLimit_of_ne (hne : x ≠ ip) :
    (checkRateLimit m ip now).1.get x = m.get x ∨ (checkRateLimit m ip now).1.get x = none :=
  BoundedMap.get_insert_of_ne hne

theorem kept_checkRateLimit (hkept : m.get x = last ∨ m.get x = none) (hne : x ≠ ip)
    (now : Time) : (checkRateLimit m ip now).1.get x = last ∨
      (checkRateLimit m ip now).1.get x = none := by
  obtain h | h : _ = m.get x ∨ _ := get_checkRateLimit_of_ne hne
  · rwa [h]
  · exact .inr h

/-- The entry is the last one, or has gone after its window. -/
theorem countRequest_of_kept (hkept : m.get x = last ∨ m.get x = none)
    (hended : m.get x = none → ∀ entry ∈ last, entry.resetAt ≤ now) :
    countRequest (m.get x) now = countRequest last now := by
  obtain h | h := hkept
  · rw [h]
  · rw [countRequest_of_ended (hended h), h]
    rfl

/-! ### Runs -/

theorem decisions_cons_self {rest : Requests ι} : decisions x m ((x, now) :: rest) =
    decide ((countRequest (m.get x) now).count ≤ RATE_LIMIT_MAX_REQUESTS) ::
      decisions x (checkRateLimit m x now).1 rest := by
  rw [decisions]
  dsimp only
  rw [if_pos rfl]
  rfl

theorem decisions_cons_of_ne {rest : Requests ι} (hne : ip ≠ x) :
    decisions x m ((ip, now) :: rest) = decisions x (checkRateLimit m ip now).1 rest := by
  rw [decisions]
  dsimp only
  rw [if_neg hne]

theorem timesOf_cons_self {rest : Requests ι} :
    timesOf x ((x, now) :: rest) = now :: timesOf x rest := by
  simp [timesOf]

theorem timesOf_cons_of_ne {rest : Requests ι} (hne : ip ≠ x) :
    timesOf x ((ip, now) :: rest) = timesOf x rest := by
  simp [timesOf, hne]

/-- **An address whose entry lasts is treated as if it were alone.** -/
theorem decisions_eq_alone {requests : Requests ι} (hkept : m.get x = last ∨ m.get x = none)
    (hlasting : Lasting x m last requests) :
    decisions x m requests = decisionsAlone last (timesOf x requests) := by
  induction requests generalizing m last with
  | nil => rfl
  | cons request rest ih =>
      obtain ⟨ip, now⟩ := request
      obtain ⟨hended, hrest⟩ := hlasting
      by_cases hx : ip = x
      · obtain rfl := hx
        rw [if_pos rfl] at hrest
        rw [decisions_cons_self, timesOf_cons_self, decisionsAlone,
          ← countRequest_of_kept hkept (hended rfl), ih (.inl get_checkRateLimit_self) hrest]
      · rw [if_neg hx] at hrest
        rw [decisions_cons_of_ne hx, timesOf_cons_of_ne hx,
          ih (kept_checkRateLimit hkept (Ne.symm hx) now) hrest]

theorem decisions_append (m : RateLimitMap ι) (requests requests' : Requests ι) :
    decisions x m (requests ++ requests') =
      decisions x m requests ++ decisions x (afterRequests m requests) requests' := by
  induction requests generalizing m with
  | nil => rfl
  | cons request rest ih =>
      obtain ⟨ip, now⟩ := request
      by_cases hx : ip = x
      · obtain rfl := hx
        rw [List.cons_append, decisions_cons_self, decisions_cons_self, ih]
        rfl
      · rw [List.cons_append, decisions_cons_of_ne hx, decisions_cons_of_ne hx, ih]
        rfl

/-- An entry that lasts through a run lasts up to any moment of it, and from there on. -/
theorem Lasting.of_append {requests requests' : Requests ι}
    (h : Lasting x m last (requests ++ requests')) :
    Lasting x m last requests ∧ ∃ last', Lasting x (afterRequests m requests) last' requests' := by
  induction requests generalizing m last with
  | nil => exact ⟨trivial, last, h⟩
  | cons request rest ih =>
      obtain ⟨hended, hrest⟩ := h
      obtain ⟨htake, hdrop⟩ := ih hrest
      exact ⟨⟨hended, htake⟩, hdrop⟩

/-! ### The window -/

/-- What is left of a window is what it has not counted yet. -/
theorem count_decisionsAlone_le {times : List Time} (h : ∀ t ∈ times, t < entry.resetAt) :
    (decisionsAlone (some entry) times).count true ≤ RATE_LIMIT_MAX_REQUESTS - entry.count := by
  induction times generalizing entry with
  | nil => exact Nat.zero_le _
  | cons now rest ih =>
      have hcount := countRequest_of_live (h now List.mem_cons_self)
      have hrest : (decisionsAlone (some { entry with count := entry.count + 1 }) rest).count true ≤
          RATE_LIMIT_MAX_REQUESTS - (entry.count + 1) :=
        ih fun t ht => h t (List.mem_cons_of_mem _ ht)
      rw [decisionsAlone, hcount, List.count_cons]
      by_cases hroom : entry.count + 1 ≤ RATE_LIMIT_MAX_REQUESTS
      · simp only [hroom, decide_true, beq_self_eq_true, if_true]
        omega
      · simp only [hroom, decide_false, Bool.false_beq, Bool.not_true, Bool.false_eq_true, if_false]
        omega

/-- From the request that opens a window of the address to the end of the window, the limit
lets no more requests of the address pass than it says. -/
def WindowBound (x : ι) (requests : Requests ι) : Prop :=
  ∀ before t between after, requests = before ++ (x, t) :: (between ++ after) →
    (∀ entry ∈ (afterRequests .empty before).get x, entry.resetAt ≤ t) →
    (∀ t' ∈ timesOf x between, t' < t + RATE_LIMIT_WINDOW_MS) →
      (decisions x (afterRequests .empty before) ((x, t) :: between)).count true ≤
        RATE_LIMIT_MAX_REQUESTS

theorem windowBound_of_lasting {requests : Requests ι} (h : Lasting x .empty none requests) :
    WindowBound x requests := by
  rintro before t between after rfl hopens hwithin
  obtain ⟨-, last, -, hbetween⟩ := h.of_append
  rw [if_pos rfl] at hbetween
  have hcount := countRequest_of_ended hopens
  have halone := decisions_eq_alone (.inl get_checkRateLimit_self) hbetween.of_append.1
  have hrest : (decisions x (checkRateLimit (afterRequests .empty before) x t).1 between).count
      true ≤ RATE_LIMIT_MAX_REQUESTS - 1 := by
    rw [halone, hcount]
    exact count_decisionsAlone_le hwithin
  rw [decisions_cons_self, List.count_cons]
  have hmax : RATE_LIMIT_MAX_REQUESTS = 60 := rfl
  split <;> omega

/-! ### Few addresses -/

theorem keys_checkRateLimit (m : RateLimitMap ι) (ip : ι) (now : Time) :
    (checkRateLimit m ip now).1.keys = evict MAX_RATE_LIMIT_IPS (add m.keys ip) :=
  BoundedMap.keys_insert

theorem lasting_of_subset {S : Finset ι} (hcard : S.card ≤ MAX_RATE_LIMIT_IPS)
    {requests : Requests ι} (hkeys : ∀ ip ∈ m.keys, ip ∈ S)
    (hrequests : ∀ request ∈ requests, request.1 ∈ S) (hkept : m.get x = last) :
    Lasting x m last requests := by
  induction requests generalizing m last with
  | nil => trivial
  | cons request rest ih =>
      obtain ⟨ip, now⟩ := request
      have hip : ip ∈ S := hrequests _ List.mem_cons_self
      have hrest : ∀ request ∈ rest, request.1 ∈ S :=
        fun request hmem => hrequests request (List.mem_cons_of_mem _ hmem)
      have hkeys' : ∀ ip' ∈ (checkRateLimit m ip now).1.keys, ip' ∈ S := by
        intro ip' hmem
        obtain rfl | hmem := BoundedMap.mem_keys_insert hmem
        · exact hip
        · exact hkeys ip' hmem
      refine ⟨fun _ hnone entry hentry => ?_, ih hkeys' hrest ?_⟩
      · rw [← hkept, hnone] at hentry
        cases hentry
      · by_cases hx : ip = x
        · obtain rfl := hx
          rw [if_pos rfl]
          exact get_checkRateLimit_self
        · rw [if_neg hx, ← hkept]
          refine BoundedMap.get_insert_of_room ?_ (Ne.symm hx)
          -- the keys are distinct members of `S`, the new one among them
          have hsub : (add m.keys ip).toFinset ⊆ S := by
            intro ip' hmem
            obtain hmem | rfl := mem_add_iff.mp (List.mem_toFinset.mp hmem)
            · exact hkeys ip' hmem
            · exact hip
          calc (add m.keys ip).length = (add m.keys ip).toFinset.card :=
                (List.toFinset_card_of_nodup (nodup_add m.nodup)).symm
            _ ≤ S.card := Finset.card_le_card hsub
            _ ≤ MAX_RATE_LIMIT_IPS := hcard

/-- **With no more addresses than the map holds, every entry lasts.** -/
theorem lasting_of_few {requests : Requests ι}
    (h : (requests.map Prod.fst).toFinset.card ≤ MAX_RATE_LIMIT_IPS) (x : ι) :
    Lasting x .empty none requests := by
  have hrequests : ∀ request ∈ requests, request.1 ∈ (requests.map Prod.fst).toFinset :=
    fun request hmem => List.mem_toFinset.mpr (List.mem_map_of_mem hmem)
  exact lasting_of_subset h (fun ip hip => absurd hip List.not_mem_nil) hrequests rfl

/-! ### Independence -/

/-- **The limit of an address is its own.** What other addresses do changes none of the
decisions on its requests, as long as its entry is not evicted within a window that it uses
again. -/
theorem rateLimit_independent {requests requests' : Requests ι}
    (hsame : timesOf x requests = timesOf x requests')
    (hlasting : Lasting x .empty none requests) (hlasting' : Lasting x .empty none requests') :
    decisions x .empty requests = decisions x .empty requests' ∧ WindowBound x requests := by
  refine ⟨?_, windowBound_of_lasting hlasting⟩
  rw [decisions_eq_alone (.inl rfl) hlasting, decisions_eq_alone (.inl rfl) hlasting', hsame]

/-- An address that another one comes between. -/
theorem rateLimit_independent_two :
    decisions 1 .empty [(1, 0), (2, 5), (1, 10)] = decisions 1 .empty [(1, 0), (1, 10)] ∧
      WindowBound 1 [(1, 0), (2, 5), (1, 10)] :=
  rateLimit_independent (by decide) (lasting_of_few (by decide) 1) (lasting_of_few (by decide) 1)

/-! ### The entries that last -/

/-- Requests of the address at once find the entry that is there. -/
theorem decisions_probes (m : RateLimitMap ι) (x : ι) (probes : List Time) :
    decisions x m (probes.map fun t => (x, t)) = decisionsAlone (m.get x) probes := by
  induction probes generalizing m with
  | nil => rfl
  | cons t probes ih =>
      rw [List.map_cons, decisions_cons_self, ih, get_checkRateLimit_self]
      rfl

/-- Requests at one moment are accepted up to the limit. -/
theorem count_decisionsAlone_replicate {n : ℕ} (hlive : now < entry.resetAt)
    (hroom : entry.count + n ≤ RATE_LIMIT_MAX_REQUESTS) :
    (decisionsAlone (some entry) (List.replicate n now)).count true = n := by
  induction n generalizing entry with
  | zero => rfl
  | succ n ih =>
      have hrest : (decisionsAlone (some { entry with count := entry.count + 1 })
          (List.replicate n now)).count true = n := ih hlive (by dsimp only; omega)
      have haccepted : entry.count + 1 ≤ RATE_LIMIT_MAX_REQUESTS := by omega
      rw [List.replicate_succ, decisionsAlone, countRequest_of_live hlive, List.count_cons, hrest]
      simp [haccepted]

/-- A new window takes the requests of one moment up to the limit, an older one does not. -/
theorem count_decisionsAlone_none (now : Time) :
    (decisionsAlone none (List.replicate RATE_LIMIT_MAX_REQUESTS now)).count true =
      RATE_LIMIT_MAX_REQUESTS := by
  have hrest : (decisionsAlone (some ⟨1, now + RATE_LIMIT_WINDOW_MS⟩)
      (List.replicate 59 now)).count true = 59 :=
    count_decisionsAlone_replicate (Nat.lt_add_of_pos_right (by decide))
      (show 1 + 59 ≤ 60 by decide)
  show (true :: decisionsAlone (some ⟨1, now + RATE_LIMIT_WINDOW_MS⟩)
    (List.replicate 59 now)).count true = 60
  rw [List.count_cons_self, hrest]

theorem count_decisionsAlone_some_lt {times : List Time} (hlive : ∀ t ∈ times, t < entry.resetAt)
    (hcount : 0 < entry.count) :
    (decisionsAlone (some entry) times).count true < RATE_LIMIT_MAX_REQUESTS := by
  have hle := count_decisionsAlone_le hlive
  have hmax : RATE_LIMIT_MAX_REQUESTS = 60 := rfl
  omega

/-- After every request of the address, and after any more that it might send at once, the
decisions are those on the address alone. -/
def AsIfAlone (x : ι) (m : RateLimitMap ι) (last : Option RateEntry) (requests : Requests ι) :
    Prop :=
  ∀ before t after, requests = before ++ (x, t) :: after → ∀ probes : List Time,
    decisions x m (before ++ (x, t) :: probes.map fun t' => (x, t')) =
      decisionsAlone last (timesOf x before ++ t :: probes)

theorem asIfAlone_cons_of_ne {rest : Requests ι} (hne : ip ≠ x) :
    AsIfAlone x m last ((ip, now) :: rest) ↔
      AsIfAlone x (checkRateLimit m ip now).1 last rest := by
  constructor
  · rintro h before t after rfl probes
    have hprobes := h ((ip, now) :: before) t after rfl probes
    rwa [List.cons_append, decisions_cons_of_ne hne, timesOf_cons_of_ne hne] at hprobes
  · intro h before t after heq probes
    cases before with
    | nil => exact absurd (Prod.mk.inj (List.cons.inj heq).1).1 hne
    | cons request before =>
        obtain ⟨rfl, hrest⟩ := List.cons.inj heq
        rw [List.cons_append, decisions_cons_of_ne hne, timesOf_cons_of_ne hne]
        exact h before t after hrest probes

theorem asIfAlone_cons_self {rest : Requests ι}
    (hcount : countRequest (m.get x) now = countRequest last now) :
    AsIfAlone x m last ((x, now) :: rest) ↔
      AsIfAlone x (checkRateLimit m x now).1 (some (countRequest (m.get x) now)) rest := by
  constructor
  · rintro h before t after rfl probes
    have hprobes := h ((x, now) :: before) t after rfl probes
    rw [List.cons_append, decisions_cons_self, timesOf_cons_self, List.cons_append,
      decisionsAlone, ← hcount] at hprobes
    exact (List.cons.inj hprobes).2
  · intro h before t after heq probes
    cases before with
    | nil =>
        obtain ⟨hrequest, -⟩ := List.cons.inj heq
        obtain ⟨-, rfl⟩ := Prod.mk.inj hrequest
        have hprobes := decisions_probes m x (now :: probes)
        rw [decisionsAlone, hcount] at hprobes
        exact hprobes
    | cons request before =>
        obtain ⟨rfl, hrest⟩ := List.cons.inj heq
        rw [List.cons_append, decisions_cons_self, timesOf_cons_self, List.cons_append,
          decisionsAlone, ← hcount, h before t after hrest probes]

/-- An entry that goes within its window is missed at once. -/
theorem ended_of_asIfAlone {rest : Requests ι} (hcount : ∀ entry ∈ last, 0 < entry.count)
    (h : AsIfAlone x m last ((x, now) :: rest)) (hnone : m.get x = none) :
    ∀ entry ∈ last, entry.resetAt ≤ now := by
  rintro entry rfl
  by_contra hlive
  have hprobes := h [] now rest rfl (List.replicate 59 now)
  have hnew := decisions_probes m x (now :: List.replicate 59 now)
  rw [hnone] at hnew
  have halone : decisionsAlone none (List.replicate RATE_LIMIT_MAX_REQUESTS now) =
      decisionsAlone (some entry) (List.replicate RATE_LIMIT_MAX_REQUESTS now) :=
    hnew.symm.trans hprobes
  have hold : (decisionsAlone (some entry) (List.replicate RATE_LIMIT_MAX_REQUESTS now)).count
      true < RATE_LIMIT_MAX_REQUESTS :=
    count_decisionsAlone_some_lt
      (fun t ht => List.eq_of_mem_replicate ht ▸ Nat.not_le.mp hlive) (hcount entry rfl)
  rw [← halone, count_decisionsAlone_none] at hold
  exact Nat.lt_irrefl _ hold

/-- **The condition is exact.** An address is treated as if it were alone, through a whole run,
if and only if its entry lasts. -/
theorem asIfAlone_iff_lasting {requests : Requests ι} (hkept : m.get x = last ∨ m.get x = none)
    (hcount : ∀ entry ∈ last, 0 < entry.count) :
    AsIfAlone x m last requests ↔ Lasting x m last requests := by
  induction requests generalizing m last with
  | nil =>
      refine iff_of_true (fun before t after heq => ?_) trivial
      exact absurd heq.symm (List.append_ne_nil_of_right_ne_nil _ (List.cons_ne_nil _ _))
  | cons request rest ih =>
      obtain ⟨ip, now⟩ := request
      by_cases hx : ip = x
      · obtain rfl := hx
        have hrest := ih (m := (checkRateLimit m ip now).1) (.inl get_checkRateLimit_self)
          fun entry hentry => Option.mem_some.mp hentry ▸ Nat.succ_pos _
        constructor
        · intro h
          have hended := ended_of_asIfAlone hcount h
          rw [asIfAlone_cons_self (countRequest_of_kept hkept hended), hrest] at h
          refine ⟨fun _ => hended, ?_⟩
          rwa [if_pos rfl]
        · rintro ⟨hended, h⟩
          rw [asIfAlone_cons_self (countRequest_of_kept hkept (hended rfl)), hrest]
          rwa [if_pos rfl] at h
      · have hkept' := kept_checkRateLimit hkept (Ne.symm hx) now
        rw [asIfAlone_cons_of_ne hx, ih hkept' hcount, Lasting, if_neg hx]
        exact (and_iff_right fun heq => absurd heq hx).symm

/-! ### When an entry is forgotten -/

theorem decisions_of_others {requests : Requests ι} (h : ∀ request ∈ requests, request.1 ≠ x) :
    decisions x m requests = [] := by
  induction requests generalizing m with
  | nil => rfl
  | cons request rest ih =>
      rw [decisions_cons_of_ne (h request List.mem_cons_self)]
      exact ih fun request' hmem => h request' (List.mem_cons_of_mem _ hmem)

/-- The requests of others bring no entry back. -/
theorem notMem_keys_afterRequests {ips : List ι} (hm : x ∉ m.keys) (hips : x ∉ ips) :
    x ∉ (afterRequests m (ips.map fun ip => (ip, now))).keys := by
  induction ips generalizing m with
  | nil => exact hm
  | cons ip ips ih =>
      obtain ⟨hne, hips'⟩ := not_or.mp (mt List.mem_cons.mpr hips)
      refine ih (fun hmem => ?_) hips'
      exact (BoundedMap.mem_keys_insert hmem).elim hne hm

/-- **The first key goes** once the keys behind it are as many as the map holds, whatever its
window. -/
theorem first_evicted {behind ips : List ι} (hm : m.keys = x :: behind) (hnodup : ips.Nodup)
    (hfresh : ∀ ip ∈ ips, ip ∉ m.keys) (hfull : MAX_RATE_LIMIT_IPS ≤ behind.length + ips.length) :
    x ∉ (afterRequests m (ips.map fun ip => (ip, now))).keys := by
  have hsize : behind.length + 1 ≤ MAX_RATE_LIMIT_IPS := by
    have hle := m.length_keys ▸ m.size
    rwa [hm] at hle
  induction ips generalizing m behind with
  | nil =>
      rw [List.length_nil] at hfull
      omega
  | cons ip ips ih =>
      obtain ⟨hip, hips⟩ := List.nodup_cons.mp hnodup
      have hipm : ip ∉ m.keys := hfresh ip List.mem_cons_self
      have hx : x ∉ behind ++ [ip] := by
        have hkeys := m.nodup
        rw [show m.entries.map Prod.fst = x :: behind from hm] at hkeys
        rw [hm, List.mem_cons, not_or] at hipm
        simpa [Ne.symm hipm.1] using (List.nodup_cons.mp hkeys).1
      have hkeys := keys_checkRateLimit m ip now
      rw [add_of_notMem hipm, hm, List.cons_append] at hkeys
      show x ∉ (afterRequests (checkRateLimit m ip now).1 (ips.map fun ip => (ip, now))).keys
      by_cases hroom : behind.length + 2 ≤ MAX_RATE_LIMIT_IPS
      · have hsize : (x :: (behind ++ [ip])).length ≤ MAX_RATE_LIMIT_IPS := by
          rwa [List.length_cons, List.length_append, List.length_singleton]
        rw [evict_of_le hsize] at hkeys
        refine ih hkeys hips (fun ip' hmem hin => ?_) ?_ ?_
        · rw [hkeys] at hin
          have hne : ip' ≠ ip := fun heq => hip (heq ▸ hmem)
          have hold := hfresh ip' (List.mem_cons_of_mem _ hmem)
          rw [hm] at hold
          simp only [List.mem_cons, List.mem_append, List.not_mem_nil, or_false] at hin hold
          tauto
        · rw [List.length_append, List.length_singleton]
          rw [List.length_cons] at hfull
          omega
        · rwa [List.length_append, List.length_singleton]
      · have hsize : (x :: (behind ++ [ip])).length > MAX_RATE_LIMIT_IPS := by
          rw [List.length_cons, List.length_append, List.length_singleton]
          omega
        rw [evict, if_pos hsize, List.tail_cons] at hkeys
        refine notMem_keys_afterRequests (hkeys ▸ hx) fun hmem => ?_
        exact hfresh x (List.mem_cons_of_mem _ hmem) (hm ▸ List.mem_cons_self)

/-- Sixty requests of an address, one of each of the others, and one more of the address. -/
def crowdedOut (x : ι) (others : List ι) : Requests ι :=
  List.replicate RATE_LIMIT_MAX_REQUESTS (x, 0) ++ (others.map (fun ip => (ip, 0)) ++ [(x, 0)])

theorem keys_replicate (n : ℕ) (hm : m.keys = [x]) :
    (afterRequests m (List.replicate n (x, now))).keys = [x] := by
  induction n generalizing m with
  | zero => exact hm
  | succ n ih =>
      refine ih ?_
      show (checkRateLimit m x now).1.keys = [x]
      rw [keys_checkRateLimit, hm, add, if_pos List.mem_cons_self]
      rfl

theorem keys_replicate_empty (n : ℕ) (x : ι) (now : Time) :
    (afterRequests .empty (List.replicate (n + 1) (x, now))).keys = [x] := by
  have hfirst : (checkRateLimit .empty x now).1.keys = [x] := by
    rw [keys_checkRateLimit]
    rfl
  rw [List.replicate_succ]
  exact keys_replicate n hfirst

theorem count_crowdedOut {others : List ι} (hnodup : others.Nodup) (hx : x ∉ others)
    (hfull : MAX_RATE_LIMIT_IPS ≤ others.length) :
    (decisions x .empty (crowdedOut x others)).count true = RATE_LIMIT_MAX_REQUESTS + 1 := by
  have hkeys : (afterRequests .empty (List.replicate RATE_LIMIT_MAX_REQUESTS (x, 0))).keys = [x] :=
    keys_replicate_empty 59 x 0
  have hgone : (afterRequests (afterRequests .empty (List.replicate RATE_LIMIT_MAX_REQUESTS (x, 0)))
      (others.map fun ip => (ip, 0))).get x = none := by
    refine BoundedMap.get_eq_none_iff.mpr (first_evicted hkeys hnodup (fun ip hip hmem => ?_) ?_)
    · rw [hkeys, List.mem_singleton] at hmem
      exact hx (hmem ▸ hip)
    · rwa [List.length_nil, Nat.zero_add]
  have hothers : ∀ request ∈ others.map fun ip => (ip, (0 : Time)), request.1 ≠ x := by
    intro request hmem
    obtain ⟨ip, hip, rfl⟩ := List.mem_map.mp hmem
    exact fun heq => hx (heq ▸ hip)
  have hfirst : decisions x .empty (List.replicate RATE_LIMIT_MAX_REQUESTS (x, 0)) =
      decisionsAlone none (List.replicate RATE_LIMIT_MAX_REQUESTS 0) := by
    rw [← List.map_replicate (f := fun t => (x, t)), decisions_probes]
    rfl
  have hlast : ∀ m : RateLimitMap ι, m.get x = none → decisions x m [(x, 0)] = [true] := by
    intro m hm
    rw [decisions_cons_self, hm]
    rfl
  rw [crowdedOut, decisions_append, decisions_append, decisions_of_others hothers, List.nil_append,
    hfirst, hlast _ hgone, List.count_append, count_decisionsAlone_none, List.count_singleton_self]

/-- The requests of the address alone. -/
theorem timesOf_crowdedOut {others : List ι} (hx : x ∉ others) :
    timesOf x (crowdedOut x others) = List.replicate (RATE_LIMIT_MAX_REQUESTS + 1) 0 := by
  have hothers : (others.map fun ip => (ip, (0 : Time))).filter (fun request => request.1 = x) =
      [] := by
    refine List.filter_eq_nil_iff.mpr fun request hmem => ?_
    obtain ⟨ip, hip, rfl⟩ := List.mem_map.mp hmem
    simpa using fun heq : ip = x => hx (heq ▸ hip)
  rw [timesOf, crowdedOut, List.filter_append, List.filter_append, hothers, List.nil_append,
    List.filter_replicate_of_pos (by simp), List.map_append, List.map_replicate]
  simp [List.replicate_succ']

/-- The 61st request of an address within a minute is accepted once the requests of 10,000
others have come in between. -/
theorem rateLimit_depends : ¬∀ (x : BitVec 32) (requests requests' : Requests (BitVec 32)),
    timesOf x requests = timesOf x requests' →
      decisions x .empty requests = decisions x .empty requests' := by
  intro h
  have hnodup : ((List.range 10000).map fun i => BitVec.ofNat 32 (i + 1)).Nodup := by
    refine List.Nodup.map_on (fun i hi j hj heq => ?_) List.nodup_range
    have hnat := congrArg BitVec.toNat heq
    rw [List.mem_range] at hi hj
    rw [BitVec.toNat_ofNat, BitVec.toNat_ofNat] at hnat
    omega
  have hzero : 0#32 ∉ (List.range 10000).map fun i => BitVec.ofNat 32 (i + 1) := by
    intro hmem
    obtain ⟨i, hi, heq⟩ := List.mem_map.mp hmem
    have hnat := congrArg BitVec.toNat heq
    rw [List.mem_range] at hi
    rw [BitVec.toNat_ofNat, BitVec.toNat_ofNat] at hnat
    omega
  have hfull : MAX_RATE_LIMIT_IPS ≤
      ((List.range 10000).map fun i => BitVec.ofNat 32 (i + 1)).length := by
    rw [List.length_map, List.length_range]
    exact Nat.le_refl _
  have hsame : timesOf 0#32 (List.replicate (RATE_LIMIT_MAX_REQUESTS + 1) (0#32, 0)) =
      List.replicate (RATE_LIMIT_MAX_REQUESTS + 1) 0 := by
    rw [timesOf, List.filter_replicate_of_pos (by simp), List.map_replicate]
  have halone : decisions 0#32 .empty (List.replicate (RATE_LIMIT_MAX_REQUESTS + 1) (0#32, 0)) =
      decisionsAlone none (List.replicate (RATE_LIMIT_MAX_REQUESTS + 1) 0) := by
    rw [← List.map_replicate (f := fun t => (0#32, t)), decisions_probes]
    rfl
  have hrest : (decisionsAlone (some ⟨1, RATE_LIMIT_WINDOW_MS⟩)
      (List.replicate RATE_LIMIT_MAX_REQUESTS 0)).count true < RATE_LIMIT_MAX_REQUESTS :=
    count_decisionsAlone_some_lt (fun t ht => (List.eq_of_mem_replicate ht) ▸ by decide) (by decide)
  have hcrowded := count_crowdedOut hnodup hzero hfull
  rw [h 0#32 _ _ ((timesOf_crowdedOut hzero).trans hsame.symm), halone, List.replicate_succ]
    at hcrowded
  have hcount : (decisionsAlone none (0 :: List.replicate RATE_LIMIT_MAX_REQUESTS 0)).count true =
      (decisionsAlone (some ⟨1, RATE_LIMIT_WINDOW_MS⟩)
        (List.replicate RATE_LIMIT_MAX_REQUESTS 0)).count true + 1 := List.count_cons_self
  omega

end

end TrapChat.Worker
