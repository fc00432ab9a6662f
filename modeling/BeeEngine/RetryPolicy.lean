import BeeEngine.Lib.Attempts
import BeeEngine.Lib.Saturating

/-!
# Retries under a policy

`with_retry_policy` with the clock that it reads and the outcomes of its
operation, and the delay between two attempts.
-/

namespace BeeEngine

open Attempts

/-! ## Policies -/

structure Duration where
  secs : UInt64
  nanos : Fin 1000000000
  deriving DecidableEq, Repr

namespace Duration

def asMillis (d : Duration) : ℕ := d.secs.toNat * 1000 + d.nanos.val / 1000000

def fromMillis (millis : UInt64) : Duration where
  secs := millis / 1000
  nanos := ⟨millis.toNat % 1000 * 1000000, by omega⟩

/-- `as_millis() as u64` -/
def millis (d : Duration) : UInt64 := .ofNat d.asMillis

/-- The duration is below 2^64 milliseconds. -/
def Fits (d : Duration) : Prop := d.asMillis < 2 ^ 64

theorem toNat_millis {d : Duration} (h : d.Fits) : d.millis.toNat = d.asMillis :=
  UInt64.toNat_ofNat_of_lt' h

@[simp] theorem millis_fromMillis (millis : UInt64) : (fromMillis millis).millis = millis := by
  rw [Duration.millis, asMillis, fromMillis, UInt64.toNat_div]
  have hdiv : millis.toNat / (1000 : UInt64).toNat * 1000 +
      millis.toNat % 1000 * 1000000 / 1000000 = millis.toNat := by
    change millis.toNat / 1000 * 1000 + millis.toNat % 1000 * 1000000 / 1000000 = millis.toNat
    rw [Nat.mul_div_cancel _ (by decide)]
    exact Nat.div_add_mod' _ _
  rw [hdiv, UInt64.ofNat_toNat]

end Duration

structure RetryPolicy where
  maxAttempts : UInt32
  maxTotal : Option Duration
  baseDelay : Duration
  maxDelay : Duration
  jitter : Bool
  deriving DecidableEq, Repr

def RetryPolicy.httpDefault : RetryPolicy where
  maxAttempts := 5
  maxTotal := some ⟨60, 0⟩
  baseDelay := .fromMillis 500
  maxDelay := ⟨30, 0⟩
  jitter := true

/-- What one sleep reads for its jitter: the counter of the process and the clock. -/
structure JitterSource where
  counter : UInt64
  nowMs : UInt64
  deriving DecidableEq, Repr

/-- `n.rotate_left(13)` -/
def rotateLeft13 (n : UInt64) : UInt64 := n <<< 13 ||| n >>> 51

def jitterUpTo (spanMs : UInt64) (source : JitterSource) : UInt64 :=
  if spanMs = 0 then 0
  else
    let mixed := source.counter ^^^ rotateLeft13 source.nowMs
    let mixed := mixed * 0xBF58476D1CE4E5B9
    let mixed := mixed ^^^ (mixed >>> 31)
    mixed % spanMs

/-- `1u64.checked_shl(n)` -/
def checkedShlOne (n : ℕ) : Option UInt64 := if n < 64 then some (.ofNat (2 ^ n)) else none

def backoffDelay (policy : RetryPolicy) (attempt : ℕ) (source : JitterSource) : Duration :=
  let base := policy.baseDelay.millis
  let cap := policy.maxDelay.millis
  let factor := (checkedShlOne (attempt - 1)).getD (.ofNat (2 ^ 64 - 1))
  let grown := Saturating.mul base factor
  let capped := min grown cap
  let jitterMs := if policy.jitter then jitterUpTo base source else 0
  .fromMillis (min (Saturating.add capped jitterMs) cap)

/-! ## The loop -/

/-- The world of a call.  Attempts are numbered from 1. -/
structure RetryWorld (T E : Type) where
  startMs : UInt64
  /-- The clock when an attempt begins, after the rate limiter. -/
  beginsAt : ℕ → UInt64
  outcome : ℕ → Except E T
  /-- The clock that is read after an attempt. -/
  nowMs : ℕ → UInt64
  jitterSource : ℕ → JitterSource

section

variable {T E : Type} (policy : RetryPolicy) (shouldRetry : E → Bool) (world : RetryWorld T E)

/-- The cap is reached when the clock is read after the attempt. -/
def isOverBudget (attempt : ℕ) : Bool :=
  match policy.maxTotal with
  | some cap => Saturating.sub (world.nowMs attempt) world.startMs ≥ cap.millis
  | none => false

/-- The body of the loop.  The pause is a sleep in milliseconds. -/
def retryTurn (attempt : ℕ) : Turn (Except E T) UInt64 :=
  match world.outcome attempt with
  | .ok value => .done (.ok value)
  | .error err =>
      if attempt = policy.maxAttempts.toNat ∨ ¬shouldRetry err then .done (.error err)
      else if isOverBudget policy world attempt then .done (.error err)
      else .again (backoffDelay policy attempt (world.jitterSource attempt)).millis

/-- `with_retry_policy`, which panics if the policy allows no attempt. -/
def withRetryPolicy : Option (Ended (Except E T) UInt64) :=
  if policy.maxAttempts ≥ 1 then
    loop (retryTurn policy shouldRetry world) policy.maxAttempts.toNat 1
  else none

/-! ## What is claimed -/

/-- The clock does not go back, from the start on. -/
structure RetryWorld.Nondecreasing : Prop where
  start : world.startMs ≤ world.beginsAt 1
  attempt : ∀ j, 1 ≤ j → world.beginsAt j ≤ world.nowMs j
  pause : ∀ j, 1 ≤ j → world.nowMs j ≤ world.beginsAt (j + 1)

/-- The durations of the policy are below 2^64 milliseconds. -/
structure RetryPolicy.Fits : Prop where
  base : policy.baseDelay.Fits
  max : policy.maxDelay.Fits
  total : ∀ cap, policy.maxTotal = some cap → cap.Fits

/-- The attempt fails with an error that may be retried. -/
def FailsRetryable (j : ℕ) : Prop := ∃ err, world.outcome j = .error err ∧ shouldRetry err = true

/-- Nothing comes after the attempt: it succeeds or fails for good, or it is the
last one, or the last one in the budget. -/
def IsLast (j : ℕ) : Prop :=
  ¬FailsRetryable shouldRetry world j ∨ j = policy.maxAttempts.toNat ∨
    ∃ cap, policy.maxTotal = some cap ∧
      cap.asMillis ≤ (world.nowMs j).toNat - world.startMs.toNat

structure Governed (ended : Ended (Except E T) UInt64) : Prop where
  calls : IsLeast {j | 1 ≤ j ∧ IsLast policy shouldRetry world j} ended.calls
  verbatim : ended.result = world.outcome ended.calls
  /-- The sleep after an attempt is the delay with some jitter, computed exactly. -/
  sleeps : ∀ j, 1 ≤ j → j < ended.calls → ∃ sleep jitter : ℕ,
    ended.pauses[j - 1]?.map UInt64.toNat = some sleep ∧
    sleep = min (min (policy.baseDelay.asMillis * 2 ^ (j - 1)) policy.maxDelay.asMillis + jitter)
      policy.maxDelay.asMillis ∧
    min (policy.baseDelay.asMillis * 2 ^ (j - 1)) policy.maxDelay.asMillis ≤ sleep ∧
    sleep ≤ policy.maxDelay.asMillis
  /-- No attempt but the first begins after the cap. -/
  capped : ∀ cap, policy.maxTotal = some cap → ∀ j, 2 ≤ j → j ≤ ended.calls →
    (world.beginsAt j).toNat ≤ world.startMs.toNat + cap.asMillis

/-- The time of the cap falls between the reading of the clock after an attempt
and the beginning of the next one, where all attempts so far may be retried. -/
def CapInPause : Prop :=
  ∃ cap j, policy.maxTotal = some cap ∧ 1 ≤ j ∧ j < policy.maxAttempts.toNat ∧
    (∀ i, 1 ≤ i → i ≤ j → FailsRetryable shouldRetry world i) ∧
    (world.nowMs j).toNat < world.startMs.toNat + cap.asMillis ∧
    world.startMs.toNat + cap.asMillis < (world.beginsAt (j + 1)).toNat

end

/-! ## The delay -/

theorem toNat_min (a b : UInt64) : (min a b).toNat = min a.toNat b.toNat := by
  change (if a ≤ b then a else b).toNat = _
  split
  · rename_i hle
    rw [min_eq_left (UInt64.le_iff_toNat_le.mp hle)]
  · rename_i hlt
    rw [min_eq_right (UInt64.le_iff_toNat_le.mp (UInt64.le_of_lt (UInt64.not_le.mp hlt)))]

/-- A shift that is too far gives a factor with which every product is above the cap. -/
theorem min_mul_shift (base : UInt64) (n : ℕ) {cap : ℕ} (hcap : cap < 2 ^ 64) :
    min (base.toNat * ((checkedShlOne n).getD (.ofNat (2 ^ 64 - 1))).toNat) cap =
      min (base.toNat * 2 ^ n) cap := by
  rw [checkedShlOne]
  split
  · rename_i hn
    have hpow : 2 ^ n < 2 ^ 64 := Nat.pow_lt_pow_right (by decide) hn
    rw [Option.getD_some, UInt64.toNat_ofNat_of_lt' hpow]
  · rename_i hn
    have hmax : (UInt64.ofNat (2 ^ 64 - 1)).toNat = 2 ^ 64 - 1 :=
      UInt64.toNat_ofNat_of_lt' (by decide)
    have hpow : 2 ^ 64 ≤ 2 ^ n := Nat.pow_le_pow_right (by decide) (Nat.le_of_not_lt hn)
    rw [Option.getD_none, hmax]
    rcases Nat.eq_zero_or_pos base.toNat with hzero | hpos
    · rw [hzero, Nat.zero_mul, Nat.zero_mul]
    · have hleft : cap ≤ base.toNat * (2 ^ 64 - 1) :=
        (Nat.le_sub_one_of_lt hcap).trans (Nat.le_mul_of_pos_left _ hpos)
      have hright : cap ≤ base.toNat * 2 ^ n :=
        (hcap.le.trans hpow).trans (Nat.le_mul_of_pos_left _ hpos)
      rw [min_eq_right hleft, min_eq_right hright]

/-- The delay is computed without overflow. -/
theorem toNat_backoffDelay {policy : RetryPolicy} (hfits : policy.Fits) (attempt : ℕ)
    (source : JitterSource) :
    ∃ jitter, (backoffDelay policy attempt source).millis.toNat =
      min (min (policy.baseDelay.asMillis * 2 ^ (attempt - 1)) policy.maxDelay.asMillis + jitter)
        policy.maxDelay.asMillis := by
  have hmax : policy.maxDelay.asMillis < 2 ^ 64 := hfits.max
  refine ⟨(if policy.jitter then jitterUpTo policy.baseDelay.millis source else 0).toNat, ?_⟩
  have hshift := min_mul_shift policy.baseDelay.millis (attempt - 1) hmax
  rw [Duration.toNat_millis hfits.base] at hshift
  rw [backoffDelay]
  simp only [Duration.millis_fromMillis, toNat_min, Saturating.toNat_add, Saturating.toNat_mul,
    Duration.toNat_millis hfits.base, Duration.toNat_millis hfits.max]
  rw [← hshift]
  omega

/-! ## The loop, attempt by attempt -/

section

variable {T E : Type} {policy : RetryPolicy} {shouldRetry : E → Bool} {world : RetryWorld T E}

theorem isOverBudget_iff (hfits : policy.Fits) (j : ℕ) :
    isOverBudget policy world j = true ↔ ∃ cap, policy.maxTotal = some cap ∧
      cap.asMillis ≤ (world.nowMs j).toNat - world.startMs.toNat := by
  rw [isOverBudget]
  cases hcap : policy.maxTotal with
  | none => simp
  | some cap =>
      simp only [decide_eq_true_eq, ge_iff_le, UInt64.le_iff_toNat_le, Saturating.toNat_sub,
        Duration.toNat_millis (hfits.total cap hcap), Option.some.injEq, exists_eq_left']

/-- An attempt after which nothing comes gives its outcome. -/
theorem retryTurn_of_isLast (hfits : policy.Fits) {j : ℕ}
    (h : IsLast policy shouldRetry world j) :
    retryTurn policy shouldRetry world j = .done (world.outcome j) := by
  rw [retryTurn]
  cases houtcome : world.outcome j with
  | ok value => rfl
  | error err =>
      dsimp only
      split_ifs with hstop hbudget
      · rfl
      · rfl
      · obtain ⟨hj, hretry⟩ := not_or.mp hstop
        rcases h with h | h | h
        · exact absurd ⟨err, houtcome, not_not.mp hretry⟩ h
        · exact absurd h hj
        · exact absurd ((isOverBudget_iff hfits j).mpr h) hbudget

/-- Every other attempt is followed by the delay. -/
theorem retryTurn_of_not_isLast (hfits : policy.Fits) {j : ℕ}
    (h : ¬IsLast policy shouldRetry world j) :
    retryTurn policy shouldRetry world j =
      .again (backoffDelay policy j (world.jitterSource j)).millis := by
  obtain ⟨hfails, hj, hbudget⟩ : FailsRetryable shouldRetry world j ∧
      j ≠ policy.maxAttempts.toNat ∧ isOverBudget policy world j ≠ true := by
    rw [IsLast, not_or, not_or, not_not] at h
    exact ⟨h.1, h.2.1, fun hover ↦ h.2.2 ((isOverBudget_iff hfits j).mp hover)⟩
  obtain ⟨err, houtcome, hretry⟩ := hfails
  rw [retryTurn, houtcome]
  dsimp only
  rw [if_neg (by simp [hj, hretry]), if_neg hbudget]

/-- The loop ends at the first attempt after which nothing comes. -/
theorem exists_withRetryPolicy (shouldRetry : E → Bool) (world : RetryWorld T E)
    (hmax : 1 ≤ policy.maxAttempts) (hfits : policy.Fits) :
    ∃ ended, withRetryPolicy policy shouldRetry world = some ended ∧
      Ends (retryTurn policy shouldRetry world) 1 ended := by
  have hpos : 1 ≤ policy.maxAttempts.toNat := UInt32.le_iff_toNat_le.mp hmax
  have hturn : retryTurn policy shouldRetry world (1 + (policy.maxAttempts.toNat - 1)) =
      .done (world.outcome (1 + (policy.maxAttempts.toNat - 1))) := by
    apply retryTurn_of_isLast hfits
    exact .inr (.inl (Nat.add_sub_cancel' hpos))
  obtain ⟨ended, hended⟩ := exists_loop (Nat.sub_one_lt_of_lt hpos) hturn
  refine ⟨ended, ?_, (ends_of_loop hended).1⟩
  rw [withRetryPolicy, if_pos hmax, hended]

theorem isLeast_calls (hfits : policy.Fits) {ended : Ended (Except E T) UInt64}
    (hends : Ends (retryTurn policy shouldRetry world) 1 ended) :
    IsLeast {j | 1 ≤ j ∧ IsLast policy shouldRetry world j} ended.calls ∧
      ended.result = world.outcome ended.calls := by
  obtain ⟨n, hcalls, hlast⟩ := hends.last
  rw [show 1 + n = ended.calls by omega] at hlast
  have hisLast : IsLast policy shouldRetry world ended.calls := by
    by_contra hnot
    rw [retryTurn_of_not_isLast hfits hnot] at hlast
    cases hlast
  refine ⟨⟨⟨by omega, hisLast⟩, ?_⟩, ?_⟩
  · rintro j ⟨hj, hjlast⟩
    by_contra hlt
    obtain ⟨pause, -, hturn⟩ := hends.earlier (j - 1) (by omega)
    rw [show 1 + (j - 1) = j by omega, retryTurn_of_isLast hfits hjlast] at hturn
    cases hturn
  · rw [retryTurn_of_isLast hfits hisLast] at hlast
    exact (Turn.done.inj hlast).symm

/-- The sleeps of a call. -/
theorem sleeps_of_ends (hfits : policy.Fits) {ended : Ended (Except E T) UInt64}
    (hends : Ends (retryTurn policy shouldRetry world) 1 ended) {j : ℕ} (hj : 1 ≤ j)
    (hlt : j < ended.calls) :
    ended.pauses[j - 1]? = some (backoffDelay policy j (world.jitterSource j)).millis := by
  obtain ⟨pause, hpause, hturn⟩ := hends.earlier (j - 1) (by omega)
  rw [show 1 + (j - 1) = j by omega] at hturn
  have hnot : ¬IsLast policy shouldRetry world j := by
    intro hlast
    rw [retryTurn_of_isLast hfits hlast] at hturn
    cases hturn
  rw [retryTurn_of_not_isLast hfits hnot] at hturn
  rw [hpause, Turn.again.inj hturn]

/-! ## The cap -/

/-- Readings of the clock in the order of the attempts. -/
theorem RetryWorld.Nondecreasing.nowMs_le (h : world.Nondecreasing) {i j : ℕ} (hi : 1 ≤ i)
    (hij : i ≤ j) : world.nowMs i ≤ world.nowMs j := by
  induction j, hij using Nat.le_induction with
  | base => exact UInt64.le_refl _
  | succ j hij ih =>
      have hj : 1 ≤ j := hi.trans hij
      have hnext : world.nowMs j ≤ world.nowMs (j + 1) :=
        UInt64.le_trans (h.pause j hj) (h.attempt (j + 1) (Nat.le_succ_of_le hj))
      exact UInt64.le_trans ih hnext

theorem RetryWorld.Nondecreasing.start_le (h : world.Nondecreasing) {j : ℕ} (hj : 1 ≤ j) :
    world.startMs ≤ world.nowMs j := by
  have hfirst : world.startMs ≤ world.nowMs 1 :=
    UInt64.le_trans h.start (h.attempt 1 (Nat.le_refl 1))
  exact UInt64.le_trans hfirst (h.nowMs_le (Nat.le_refl 1) hj)

/-- Attempts that may be retried and end before the cap are not the last. -/
theorem not_isLast_of_early (h : world.Nondecreasing) {cap : Duration}
    (hcap : policy.maxTotal = some cap) {i j : ℕ} (hi : 1 ≤ i) (hij : i ≤ j)
    (hj : j < policy.maxAttempts.toNat) (hfails : FailsRetryable shouldRetry world i)
    (hearly : (world.nowMs j).toNat < world.startMs.toNat + cap.asMillis) :
    ¬IsLast policy shouldRetry world i := by
  rintro (hnot | heq | ⟨cap', hcap', hover⟩)
  · exact hnot hfails
  · omega
  · obtain rfl : cap = cap' := Option.some.inj (hcap.symm.trans hcap')
    have hle := UInt64.le_iff_toNat_le.mp (h.nowMs_le hi hij)
    have hstart := UInt64.le_iff_toNat_le.mp (h.start_le hi)
    omega

end

/-! ## Two calls -/

/-- A first attempt that fails after 100 ms, and a second one that succeeds. -/
def recoveringWorld : RetryWorld ℕ Unit where
  startMs := 0
  beginsAt j := if j ≤ 1 then 0 else 800
  outcome j := if j ≤ 1 then .error () else .ok 42
  nowMs j := if j ≤ 1 then 100 else 800
  jitterSource _ := ⟨0x9E3779B97F4A7C15, 100⟩

/-- Two attempts with 30 s between them, and a cap of 40 ms. -/
def hastyPolicy : RetryPolicy where
  maxAttempts := 2
  maxTotal := some (.fromMillis 40)
  baseDelay := ⟨30, 0⟩
  maxDelay := ⟨30, 0⟩
  jitter := false

/-- An operation that fails at once, and a sleep of 30 s. -/
def failingWorld : RetryWorld ℕ Unit where
  startMs := 0
  beginsAt j := if j ≤ 1 then 0 else 30000
  outcome _ := .error ()
  nowMs j := if j ≤ 1 then 0 else 30000
  jitterSource _ := ⟨0x9E3779B97F4A7C15, 0⟩

end BeeEngine
