import BeeEngine.Lib.Spaced
import BeeEngine.Lib.Transition

/-!
# The rate limiter

A bucket that tasks share.  A call reads the clock and reserves in one critical
section, sleeps for the time it was given, and returns.
-/

namespace BeeEngine

open Transition

structure TokenBucket where
  intervalMs : UInt64
  nextAllowedMs : UInt64
  deriving DecidableEq, Repr

namespace TokenBucket

/-- `RateLimiter::new`, which panics if `maxRps` is 0. -/
def new (maxRps : UInt32) : Option TokenBucket :=
  if maxRps > 0 then some ⟨1000 / maxRps.toUInt64, 0⟩ else none

/-- The critical section of `RateLimiter::acquire`, and the time to sleep. -/
def acquire (bucket : TokenBucket) (nowMs : UInt64) : TokenBucket × UInt64 :=
  if nowMs ≥ bucket.nextAllowedMs then
    ({ bucket with nextAllowedMs := nowMs + bucket.intervalMs }, 0)
  else
    ({ bucket with nextAllowedMs := bucket.nextAllowedMs + bucket.intervalMs },
      bucket.nextAllowedMs - nowMs)

end TokenBucket

/-! ## Tasks and a clock -/

namespace RateLimiter

/-- A call of `acquire`: its place in the order of reservations, and the time at
which it returns. -/
structure Call where
  ticket : ℕ
  returnsAt : ℕ
  deriving DecidableEq, Repr

structure State where
  bucket : TokenBucket
  nowMs : UInt64
  reserved : ℕ
  sleeping : List Call
  completed : List Call
  deriving DecidableEq, Repr

inductive Label where
  /-- The clock goes on. -/
  | tick (nowMs : UInt64)
  /-- Some task enters the critical section. -/
  | reserve
  /-- The call returns. -/
  | complete (call : Call)
  deriving DecidableEq, Repr

def init (bucket : TokenBucket) (nowMs : UInt64) : State := ⟨bucket, nowMs, 0, [], []⟩

/-- A call enters the critical section and goes to sleep. -/
def State.reserve (s : State) : State :=
  { s with
    bucket := (s.bucket.acquire s.nowMs).1
    reserved := s.reserved + 1
    sleeping := s.sleeping ++
      [⟨s.reserved, s.nowMs.toNat + (s.bucket.acquire s.nowMs).2.toNat⟩] }

/-- No sleep is overrun: the clock stands still while a call has to return. -/
def step? (s : State) : Label → Option State
  | .tick nowMs =>
      if s.nowMs ≤ nowMs ∧ ∀ call ∈ s.sleeping, nowMs.toNat ≤ call.returnsAt then
        some { s with nowMs := nowMs }
      else none
  | .reserve => some s.reserve
  | .complete call =>
      if call ∈ s.sleeping ∧ call.returnsAt = s.nowMs.toNat then
        some { s with
          sleeping := s.sleeping.erase call
          completed := s.completed ++ [call] }
      else none

/-- The time of the next reservation fits 64 bits. -/
def Fits (s : State) (l : Label) : Prop :=
  l = .reserve → max s.nowMs.toNat s.bucket.nextAllowedMs.toNat + s.bucket.intervalMs.toNat < 2 ^ 64

instance (s : State) (l : Label) : Decidable (Fits s l) := by
  unfold Fits
  infer_instance

/-! ## What is claimed -/

/-- No window of a second has more than `maxRps` completions. -/
def Limited (maxRps : ℕ) (s : State) : Prop :=
  ∀ t, (s.completed.filter fun call ↦ t ≤ call.returnsAt ∧ call.returnsAt < t + 1000).length ≤
    maxRps

/-- The calls have returned in the order of their reservations. -/
def InOrder (s : State) : Prop :=
  s.completed.map Call.ticket = List.range s.completed.length

/-- Along the runs whose steps meet the condition, the limit is kept, calls
return in order, and the next time never decreases. -/
def Keeps (cond : State → Label → Prop) (maxRps : UInt32) : Prop :=
  ∀ bucket, TokenBucket.new maxRps = some bucket → ∀ nowMs ls s,
    Run (Guarded cond fun s l t ↦ step? s l = some t) (init bucket nowMs) ls s →
      Limited maxRps.toNat s ∧ InOrder s ∧
      ∀ l t, cond s l → step? s l = some t → s.bucket.nextAllowedMs ≤ t.bucket.nextAllowedMs

/-! ## One reservation -/

theorem intervalMs_acquire (bucket : TokenBucket) (nowMs : UInt64) :
    (bucket.acquire nowMs).1.intervalMs = bucket.intervalMs := by
  rw [TokenBucket.acquire]
  split <;> rfl

/-- A call returns at the next time that is allowed, or now if that is past. -/
theorem returnsAt_acquire (bucket : TokenBucket) (nowMs : UInt64) :
    nowMs.toNat + (bucket.acquire nowMs).2.toNat =
      max nowMs.toNat bucket.nextAllowedMs.toNat := by
  rw [TokenBucket.acquire]
  split
  · rename_i hpast
    rw [max_eq_left (UInt64.le_iff_toNat_le.mp hpast)]
    rfl
  · rename_i hearly
    have hlt : nowMs.toNat < bucket.nextAllowedMs.toNat :=
      UInt64.lt_iff_toNat_lt.mp (UInt64.not_le.mp hearly)
    rw [max_eq_right hlt.le, UInt64.toNat_sub_of_le _ _ (UInt64.le_iff_toNat_le.mpr hlt.le)]
    omega

theorem nextAllowedMs_acquire {bucket : TokenBucket} {nowMs : UInt64}
    (h : max nowMs.toNat bucket.nextAllowedMs.toNat + bucket.intervalMs.toNat < 2 ^ 64) :
    (bucket.acquire nowMs).1.nextAllowedMs.toNat =
      max nowMs.toNat bucket.nextAllowedMs.toNat + bucket.intervalMs.toNat := by
  rw [TokenBucket.acquire]
  split
  · rename_i hpast
    rw [max_eq_left (UInt64.le_iff_toNat_le.mp hpast)] at h ⊢
    rw [UInt64.toNat_add, Nat.mod_eq_of_lt h]
  · rename_i hearly
    have hlt : nowMs.toNat < bucket.nextAllowedMs.toNat :=
      UInt64.lt_iff_toNat_lt.mp (UInt64.not_le.mp hearly)
    rw [max_eq_right hlt.le] at h ⊢
    rw [UInt64.toNat_add, Nat.mod_eq_of_lt h]

/-! ## What holds in every state -/

/-- All calls in the order of their reservations, a gap between each two. -/
structure Inv (gap : ℕ) (s : State) : Prop where
  interval : s.bucket.intervalMs.toNat = gap
  tickets : (s.completed ++ s.sleeping).map Call.ticket = List.range s.reserved
  spaced : Spaced gap ((s.completed ++ s.sleeping).map Call.returnsAt)
  allowed : ∀ call ∈ s.completed ++ s.sleeping,
    call.returnsAt + gap ≤ s.bucket.nextAllowedMs.toNat
  asleep : ∀ call ∈ s.sleeping, s.nowMs.toNat ≤ call.returnsAt

theorem inv_init (bucket : TokenBucket) (nowMs : UInt64) :
    Inv bucket.intervalMs.toNat (init bucket nowMs) := by
  constructor <;> simp [init, Spaced]

theorem Inv.reserve {gap : ℕ} {s t : State} (h : Inv gap s) (hfits : Fits s .reserve)
    (hstep : step? s .reserve = some t) : Inv gap t := by
  obtain rfl := Option.some.inj hstep
  have hnext := nextAllowedMs_acquire (hfits rfl)
  rw [h.interval] at hnext
  have hreturns := returnsAt_acquire s.bucket s.nowMs
  constructor
  · rw [State.reserve, intervalMs_acquire, h.interval]
  · rw [State.reserve, ← List.append_assoc, List.map_append, h.tickets, List.range_succ]
    rfl
  · rw [State.reserve, ← List.append_assoc, List.map_append]
    apply h.spaced.concat
    intro x hx
    obtain ⟨call, hcall, rfl⟩ := List.mem_map.mp hx
    rw [hreturns]
    exact (h.allowed call hcall).trans (le_max_right _ _)
  · intro call hcall
    rw [State.reserve, ← List.append_assoc] at hcall
    rw [State.reserve, hnext]
    rcases List.mem_append.mp hcall with hcall | hcall
    · have hallowed := h.allowed call hcall
      omega
    · rw [List.mem_singleton.mp hcall, hreturns]
  · intro call hcall
    rcases List.mem_append.mp hcall with hcall | hcall
    · exact h.asleep call hcall
    · rw [List.mem_singleton.mp hcall]
      exact Nat.le_add_right _ _

theorem Inv.tick {gap : ℕ} {s t : State} (h : Inv gap s) {nowMs : UInt64}
    (hstep : step? s (.tick nowMs) = some t) : Inv gap t := by
  obtain ⟨⟨-, hasleep⟩, hsome⟩ := Option.ite_none_right_eq_some.mp hstep
  obtain rfl := Option.some.inj hsome
  exact ⟨h.interval, h.tickets, h.spaced, h.allowed, hasleep⟩

/-- The call that returns is the first one that sleeps. -/
theorem Inv.sleeping_eq {gap : ℕ} {s : State} (h : Inv gap s) (hgap : 0 < gap) {call : Call}
    (hmem : call ∈ s.sleeping) (hnow : call.returnsAt = s.nowMs.toNat) :
    s.sleeping = call :: s.sleeping.erase call := by
  cases hsleeping : s.sleeping with
  | nil =>
      rw [hsleeping] at hmem
      cases hmem
  | cons first rest =>
      rw [hsleeping] at hmem
      rcases List.mem_cons.mp hmem with rfl | hrest
      · rw [List.erase_cons_head]
      · have hfirst := h.asleep first (by rw [hsleeping]; exact List.mem_cons_self)
        have hspaced := h.spaced
        rw [hsleeping, List.map_append, Spaced, List.pairwise_append] at hspaced
        have hlater := (List.pairwise_cons.mp hspaced.2.1).1 _ (List.mem_map_of_mem hrest)
        omega

theorem Inv.complete {gap : ℕ} {s t : State} (h : Inv gap s) (hgap : 0 < gap) {call : Call}
    (hstep : step? s (.complete call) = some t) : Inv gap t := by
  obtain ⟨⟨hmem, hnow⟩, hsome⟩ := Option.ite_none_right_eq_some.mp hstep
  obtain rfl := Option.some.inj hsome
  have hall : s.completed ++ [call] ++ s.sleeping.erase call = s.completed ++ s.sleeping := by
    rw [List.append_assoc, List.singleton_append, ← h.sleeping_eq hgap hmem hnow]
  refine ⟨h.interval, ?_, ?_, ?_, ?_⟩
  · rw [hall]
    exact h.tickets
  · rw [hall]
    exact h.spaced
  · rw [hall]
    exact h.allowed
  · intro other hother
    exact h.asleep other (List.mem_of_mem_erase hother)

theorem Inv.step {gap : ℕ} (hgap : 0 < gap) {s t : State} {l : Label} (h : Inv gap s)
    (hfits : Fits s l) (hstep : step? s l = some t) : Inv gap t := by
  cases l with
  | tick nowMs => exact h.tick hstep
  | reserve => exact h.reserve hfits hstep
  | complete call => exact h.complete hgap hstep

theorem Inv.limited {gap maxRps : ℕ} {s : State} (h : Inv gap s) (hgap : gap * maxRps = 1000) :
    Limited maxRps s := by
  intro t
  have hspaced := h.spaced
  rw [List.map_append] at hspaced
  have hcompleted : Spaced gap (s.completed.map Call.returnsAt) :=
    hspaced.sublist (List.sublist_append_left _ _)
  have hlength := hcompleted.length_filter_le t maxRps
  rw [hgap, List.filter_map, List.length_map] at hlength
  exact hlength

theorem Inv.inOrder {gap : ℕ} {s : State} (h : Inv gap s) : InOrder s := by
  have htickets := h.tickets
  have hlength := congrArg List.length htickets
  rw [List.length_map, List.length_append, List.length_range] at hlength
  have htake := congrArg (List.take s.completed.length) htickets
  rw [List.map_append, List.take_left' (List.length_map _), List.take_range,
    min_eq_left (by omega)] at htake
  exact htake

/-- The next time is never set back. -/
theorem nextAllowedMs_le {s t : State} {l : Label} (hfits : Fits s l)
    (hstep : step? s l = some t) : s.bucket.nextAllowedMs ≤ t.bucket.nextAllowedMs := by
  cases l with
  | tick nowMs =>
      obtain ⟨-, hsome⟩ := Option.ite_none_right_eq_some.mp hstep
      obtain rfl := Option.some.inj hsome
      exact UInt64.le_refl _
  | reserve =>
      obtain rfl := Option.some.inj hstep
      rw [UInt64.le_iff_toNat_le, State.reserve, nextAllowedMs_acquire (hfits rfl)]
      omega
  | complete call =>
      obtain ⟨-, hsome⟩ := Option.ite_none_right_eq_some.mp hstep
      obtain rfl := Option.some.inj hsome
      exact UInt64.le_refl _

/-! ## Calls one after another -/

/-- `k` calls have returned at once, each an interval after the one before. -/
def afterCalls (intervalMs : UInt64) (k : ℕ) : State :=
  ⟨⟨intervalMs, .ofNat (k * intervalMs.toNat)⟩, .ofNat (k * intervalMs.toNat), k, [],
    (List.range k).map fun i ↦ ⟨i, i * intervalMs.toNat⟩⟩

/-- The next call reserves, returns, and the clock goes on by the interval. -/
theorem run_call {intervalMs : UInt64} {k : ℕ} (h : (k + 1) * intervalMs.toNat < 2 ^ 64) :
    ∃ ls, Run (Guarded Fits fun s l t ↦ step? s l = some t) (afterCalls intervalMs k) ls
      (afterCalls intervalMs (k + 1)) := by
  rw [Nat.succ_mul] at h
  have hlt : k * intervalMs.toNat < 2 ^ 64 := by omega
  have hnow : (UInt64.ofNat (k * intervalMs.toNat)).toNat = k * intervalMs.toNat :=
    UInt64.toNat_ofNat_of_lt' hlt
  have hnext : UInt64.ofNat (k * intervalMs.toNat) + intervalMs =
      UInt64.ofNat ((k + 1) * intervalMs.toNat) := by
    rw [Nat.succ_mul, UInt64.ofNat_add, UInt64.ofNat_toNat]
  have hlater : UInt64.ofNat (k * intervalMs.toNat) ≤
      UInt64.ofNat ((k + 1) * intervalMs.toNat) := by
    have hnextNat : (UInt64.ofNat ((k + 1) * intervalMs.toNat)).toNat =
        k * intervalMs.toNat + intervalMs.toNat := by
      rw [Nat.succ_mul]
      exact UInt64.toNat_ofNat_of_lt' h
    rw [UInt64.le_iff_toNat_le, hnow, hnextNat]
    exact Nat.le_add_right _ _
  have hacquire : (afterCalls intervalMs k).bucket.acquire (afterCalls intervalMs k).nowMs =
      (⟨intervalMs, .ofNat ((k + 1) * intervalMs.toNat)⟩, 0) := by
    have hpast : (afterCalls intervalMs k).nowMs ≥ (afterCalls intervalMs k).bucket.nextAllowedMs :=
      UInt64.le_refl _
    rw [TokenBucket.acquire, if_pos hpast, ← hnext]
    rfl
  have hreserved : (afterCalls intervalMs k).reserve =
      ⟨⟨intervalMs, .ofNat ((k + 1) * intervalMs.toNat)⟩, .ofNat (k * intervalMs.toNat), k + 1,
        [⟨k, k * intervalMs.toNat⟩], (List.range k).map fun i ↦ ⟨i, i * intervalMs.toNat⟩⟩ := by
    rw [State.reserve, hacquire]
    simpa [afterCalls] using hlt
  have hcompleted : (List.range k).map (fun i ↦ (⟨i, i * intervalMs.toNat⟩ : Call)) ++
      [⟨k, k * intervalMs.toNat⟩] =
        (List.range (k + 1)).map fun i ↦ ⟨i, i * intervalMs.toNat⟩ := by
    rw [List.range_succ, List.map_append, List.map_singleton]
  refine ⟨[.reserve, .complete ⟨k, k * intervalMs.toNat⟩,
    .tick (.ofNat ((k + 1) * intervalMs.toNat))], ?_⟩
  have hfits : Fits (afterCalls intervalMs k) .reserve := by
    intro _
    simp only [afterCalls, hnow, max_self]
    exact h
  apply Run.head ⟨hfits, congrArg some hreserved⟩
  apply Run.head ⟨nofun, if_pos ⟨List.mem_singleton_self _, hnow.symm⟩⟩
  apply Run.head ⟨nofun, if_pos ⟨hlater, by simp⟩⟩
  simp only [hcompleted, List.erase_cons_head]
  exact .refl _

theorem exists_run_calls {intervalMs : UInt64} {k : ℕ} (h : k * intervalMs.toNat < 2 ^ 64) :
    ∃ ls, Run (Guarded Fits fun s l t ↦ step? s l = some t) (init ⟨intervalMs, 0⟩ 0) ls
      (afterCalls intervalMs k) := by
  induction k with
  | zero =>
      refine ⟨[], ?_⟩
      rw [run_nil_iff, afterCalls, Nat.zero_mul]
      rfl
  | succ k ih =>
      have hlt : k * intervalMs.toNat < 2 ^ 64 :=
        (Nat.mul_le_mul_right _ (Nat.le_succ k)).trans_lt h
      obtain ⟨ls, hrun⟩ := ih hlt
      obtain ⟨ls', hrun'⟩ := run_call h
      exact ⟨ls ++ ls', hrun.append hrun'⟩

/-- Calls that all return within a second are as many as the limit. -/
theorem le_of_limited {intervalMs : UInt64} {maxRps k : ℕ}
    (h : Limited maxRps (afterCalls intervalMs (k + 1))) (hk : k * intervalMs.toNat < 1000) :
    k + 1 ≤ maxRps := by
  have hall : (afterCalls intervalMs (k + 1)).completed.filter
      (fun call ↦ 0 ≤ call.returnsAt ∧ call.returnsAt < 0 + 1000) =
        (afterCalls intervalMs (k + 1)).completed := by
    rw [List.filter_eq_self]
    intro call hcall
    obtain ⟨i, hi, rfl⟩ := List.mem_map.mp hcall
    have hle : i * intervalMs.toNat ≤ k * intervalMs.toNat :=
      Nat.mul_le_mul_right _ (Nat.le_of_lt_succ (List.mem_range.mp hi))
    have hlt : i * intervalMs.toNat < 0 + 1000 := by omega
    exact decide_eq_true ⟨Nat.zero_le _, hlt⟩
  have hlimited := h 0
  rw [hall, afterCalls, List.length_map, List.length_range] at hlimited
  exact hlimited

theorem new_eq_some_iff {maxRps : UInt32} {bucket : TokenBucket} :
    TokenBucket.new maxRps = some bucket ↔
      0 < maxRps ∧ bucket = ⟨1000 / maxRps.toUInt64, 0⟩ := by
  rw [TokenBucket.new, Option.ite_none_right_eq_some, Option.some.injEq]
  exact and_congr_right fun _ ↦ eq_comm

theorem toNat_interval (maxRps : UInt32) :
    (1000 / maxRps.toUInt64).toNat = 1000 / maxRps.toNat := by
  rw [UInt64.toNat_div, UInt32.toNat_toUInt64]
  rfl

/-- A limit that does not divide 1000 is exceeded. -/
theorem not_keeps_of_not_dvd {maxRps : UInt32} (hpos : 0 < maxRps) (h : ¬maxRps.toNat ∣ 1000) :
    ¬Keeps Fits maxRps := by
  intro hkeeps
  have hdiv := Nat.div_add_mod 1000 maxRps.toNat
  have hmod : 0 < 1000 % maxRps.toNat :=
    Nat.pos_of_ne_zero fun hzero ↦ h (Nat.dvd_of_mod_eq_zero hzero)
  have hinterval := toNat_interval maxRps
  have hlt : maxRps.toNat * (1000 / maxRps.toUInt64).toNat < 1000 := by
    rw [hinterval]
    omega
  have hle : 1000 / maxRps.toNat ≤ 1000 := Nat.div_le_self _ _
  have hfits : (maxRps.toNat + 1) * (1000 / maxRps.toUInt64).toNat < 2 ^ 64 := by
    rw [Nat.succ_mul]
    omega
  obtain ⟨ls, hrun⟩ := exists_run_calls hfits
  have hlimited := (hkeeps _ (new_eq_some_iff.mpr ⟨hpos, rfl⟩) 0 ls _ hrun).1
  exact absurd (le_of_limited hlimited hlt) (by omega)

/-- The limiter keeps its limit just when the interval is exact. -/
theorem keeps_iff {maxRps : UInt32} (hpos : 0 < maxRps) :
    Keeps Fits maxRps ↔ maxRps.toNat ∣ 1000 := by
  constructor
  · intro hkeeps
    by_contra h
    exact not_keeps_of_not_dvd hpos h hkeeps
  · intro hdvd bucket hnew nowMs ls s hrun
    obtain ⟨-, rfl⟩ := new_eq_some_iff.mp hnew
    have hexact : (1000 / maxRps.toUInt64).toNat * maxRps.toNat = 1000 := by
      rw [toNat_interval]
      exact Nat.div_mul_cancel hdvd
    have hgap : 0 < (1000 / maxRps.toUInt64).toNat := by
      apply Nat.pos_of_ne_zero
      intro hzero
      rw [hzero, Nat.zero_mul] at hexact
      cases hexact
    have hinv : Inv (1000 / maxRps.toUInt64).toNat s := by
      apply hrun.invariant _ _ (inv_init _ nowMs)
      rintro s l t hs ⟨hfits, hstep⟩
      exact hs.step hgap hfits hstep
    exact ⟨hinv.limited hexact, hinv.inOrder, fun l t hfits hstep ↦ nextAllowedMs_le hfits hstep⟩

theorem keeps_ten : Keeps Fits 10 := (keeps_iff (by decide)).mpr (by decide)

/-- Three calls in a second: the fourth returns after 999 ms. -/
theorem not_keeps_three : ¬Keeps (fun _ _ ↦ True) 3 := by
  intro hkeeps
  apply (not_keeps_of_not_dvd (by decide) (by decide) : ¬Keeps Fits 3)
  intro bucket hnew nowMs ls s hrun
  have hall := hkeeps bucket hnew nowMs ls s (hrun.mono fun _ _ _ hstep ↦ ⟨trivial, hstep.2⟩)
  exact ⟨hall.1, hall.2.1, fun l t _ hstep ↦ hall.2.2 l t trivial hstep⟩

end RateLimiter

end BeeEngine
