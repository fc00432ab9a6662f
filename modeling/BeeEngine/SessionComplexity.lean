import BeeEngine.Lib.Transition
import BeeEngine.WorkerRecord

/-!
# The complexity that the contract verifies with

A worker that begins in turn foresees the complexity that will be the old one
when its seed is current.  What it foresees stays right over every step of the
contract, as long as sessions are accepted while their tasks submit.
-/

namespace BeeEngine

open Transition

variable {M : RsMerkle} {blake3 : Bytes → Bytes32}

namespace Network

variable (seedAt : ℕ → String)

/-! ## What is claimed -/

/-- A worker that read the account mines with the complexity that its session
is verified with, if the session in flight at its start was accepted and the
complexity did not change before that.  A worker without an answer, or with a
seed that the contract does not know, mines with the cached pair. -/
structure SessionComplexity (N : Network M) : Prop where
  verified : ∀ m ∈ N.miner.mined, ∀ data sessionInFlight,
    m.view = some (.ok data, sessionInFlight) → m.worker.seed = seedAt N.contract.position →
      ∃ b, N.beginnings m.channel = some b ∧ b.seed = m.worker.seed ∧ b.read = some data ∧
        ((∀ seed ∈ b.inFlight, seed ∈ N.accepted) → b.calm = true →
          m.complexity = N.contract.complexityOld)
  fallback : ∀ m ∈ N.miner.mined,
    (∀ data sessionInFlight, m.view = some (.ok data, sessionInFlight) →
      m.worker.seed ≠ data.seed ∧ m.worker.seed ≠ data.nextSeed) →
      m.complexity = N.cached m.channel

/-- A task begins right after the session in flight, or with no session in
flight and no earlier seed that could still be submitted. -/
def InTurn (N : Network M) (t : Task M) : Prop :=
  (∀ seed ∈ N.miner.shared.inFlight t.worker,
    ∃ e ≤ N.contract.position, seed = seedAt e ∧ t.worker.seed = seedAt (e + 1)) ∧
  (N.miner.shared.inFlight t.worker = [] → ∀ e ≤ N.contract.position + 1,
    t.worker.seed = seedAt e → ∀ k < e, seedAt k ∉ N.miner.active)

/-- Tasks begin in turn, and a session is accepted while its task submits. -/
def Orderly (N : Network M) : Label → Prop
  | .call (.task i .begin) => ∀ t ∈ N.miner.tasks[i]?, N.InTurn seedAt t
  | .accept => ∃ t ∈ N.miner.tasks,
      t.pc.status = .submitting ∧ t.worker.seed = seedAt N.contract.position
  | _ => True

instance (N : Network M) (t : Task M) : Decidable (N.InTurn seedAt t) :=
  inferInstanceAs (Decidable (_ ∧ _))

instance (N : Network M) : (l : Label) → Decidable (N.Orderly seedAt l)
  | .call (.task i .begin) =>
      inferInstanceAs (Decidable (∀ t ∈ N.miner.tasks[i]?, N.InTurn seedAt t))
  | .accept =>
      inferInstanceAs (Decidable (∃ t ∈ N.miner.tasks,
        t.pc.status = .submitting ∧ t.worker.seed = seedAt N.contract.position))
  | .call (.task _ (.accountRead _ _ _)) | .call (.task _ (.tick _)) | .call (.task _ .retry)
  | .call (.task _ (.rootSubmitted _)) | .call (.task _ .command)
  | .call (.task _ (.proofSubmitted _)) | .call (.start _ _) | .call .stop | .call (.addTap _ _)
  | .call (.removeSeed _) | .call (.event _) | .serveAccount _ | .cancel | .changeComplexity _ _
  | .notify _ | .deliver | .lose => isTrue trivial

/-! ## The contract and the seeds -/

def seedOf : MinerEvent → Option String
  | .seedUpdated seed => some seed
  | _ => none

/-- A worker began right after the sessions in flight, or after all sessions on
earlier seeds. -/
structure OnTime (active : List String) (e : ℕ) (b : Beginning) : Prop where
  after_flight : ∀ seed ∈ b.inFlight, ∃ k, k + 1 = e ∧ seed = seedAt k
  after_all : b.inFlight = [] → ∀ k < e, seedAt k ∉ active

/-- What a worker selects is the old complexity once its seed is current, and
before that the one that will be old. -/
structure Foresees (contract : MinerContract) (accepted : List String) (e : ℕ) (b : Beginning)
    (data : MinerComplexityData) : Prop where
  current : contract.position = e → (∀ seed ∈ b.inFlight, seed ∈ accepted) → b.calm = true →
    selectSessionComplexity b.seed data (!b.inFlight.isEmpty) = some contract.complexityOld
  next_alone : contract.position + 1 = e → b.inFlight = [] →
    selectSessionComplexity b.seed data (!b.inFlight.isEmpty) = some contract.complexityOld
  next_after : contract.position + 1 = e → b.inFlight ≠ [] → b.calm = true →
    selectSessionComplexity b.seed data (!b.inFlight.isEmpty) = some contract.complexity

/-- The first `n` seeds have left the outbox, the others up to the next seed of
the contract are in it. -/
structure Tracked (N : Network M) (n : ℕ) : Prop where
  recorded : Recorded N.miner N.beginnings N.cached N.lastUpdate
  le_next : n ≤ N.contract.position + 2
  outbox_eq : N.outbox.filterMap seedOf =
    (List.range' n (N.contract.position + 2 - n)).map seedAt
  active_lt : ∀ seed ∈ N.miner.active, ∃ k < n, seed = seedAt k
  accepted_lt : ∀ seed ∈ N.accepted, ∃ k < N.contract.position, seed = seedAt k
  began : ∀ c b, N.beginnings c = some b → ∃ e < n, b.seed = seedAt e ∧
    OnTime seedAt N.miner.active e b ∧
    ∀ data, b.read = some data → Foresees N.contract N.accepted e b data

variable {seedAt}

theorem OnTime.mono {active active' : List String} {e : ℕ} {b : Beginning}
    (h : OnTime seedAt active e b) (hactive : ∀ seed ∈ active', seed ∈ active) :
    OnTime seedAt active' e b where
  after_flight := h.after_flight
  after_all hnone k hk hseed := h.after_all hnone k hk (hactive _ hseed)

theorem tracked_init (complexity complexityOld : UInt32 × UInt32) (stale : Bool) :
    Tracked seedAt (init seedAt M complexity complexityOld stale) 2 where
  recorded := recorded_init _ complexity
  le_next := Nat.le_refl 2
  outbox_eq := rfl
  active_lt seed hseed := by
    cases stale with
    | false =>
        simp only [init, Miner.init, Miner.active, List.map_nil, List.nil_append,
          Bool.false_eq_true, if_false, List.mem_cons, List.not_mem_nil, or_false] at hseed
        rcases hseed with rfl | rfl
        · exact ⟨0, by decide, rfl⟩
        · exact ⟨1, by decide, rfl⟩
    | true =>
        obtain rfl := List.mem_singleton.mp hseed
        exact ⟨1, by decide, rfl⟩
  accepted_lt seed h := by cases h
  began c b h := by cases h

/-! ### Steps of the contract -/

theorem foresees_served (hinj : Function.Injective seedAt) (contract : MinerContract)
    (accepted : List String) {e : ℕ} {b : Beginning} (hseed : b.seed = seedAt e) :
    Foresees contract accepted e b (contract.data seedAt) where
  current hposition _ _ := by
    rw [selectSessionComplexity, if_pos (by rw [hseed, ← hposition]; rfl)]
    rfl
  next_alone hposition hnone := by
    have hne : b.seed ≠ (contract.data seedAt).seed := by
      rw [hseed, ← hposition]
      exact hinj.ne (Nat.succ_ne_self _)
    rw [selectSessionComplexity, if_neg hne, if_pos (by rw [hseed, ← hposition]; rfl), hnone]
    rfl
  next_after hposition hsome _ := by
    have hne : b.seed ≠ (contract.data seedAt).seed := by
      rw [hseed, ← hposition]
      exact hinj.ne (Nat.succ_ne_self _)
    have hflag : (!b.inFlight.isEmpty) = true := by simpa using hsome
    rw [selectSessionComplexity, if_neg hne, if_pos (by rw [hseed, ← hposition]; rfl), hflag]
    rfl

/-- While its seed is next, a session before it is not accepted yet. -/
theorem OnTime.not_accepted (hinj : Function.Injective seedAt) {active accepted : List String}
    {position e : ℕ} {b : Beginning} (h : OnTime seedAt active e b) (hnext : position + 1 = e)
    (haccepted : ∀ seed ∈ accepted, ∃ k < position, seed = seedAt k) (hsome : b.inFlight ≠ []) :
    ¬∀ seed ∈ b.inFlight, seed ∈ accepted := by
  intro hall
  obtain ⟨seed, hseed⟩ := List.exists_mem_of_ne_nil _ hsome
  obtain ⟨k, hk, rfl⟩ := h.after_flight seed hseed
  obtain ⟨k', hk', hsame⟩ := haccepted _ (hall _ hseed)
  have hkk := hinj hsame
  omega

namespace Tracked

variable {N N' : Network M} {n : ℕ}

/-- The contract announces the seed after its next one. -/
theorem outbox_next (h : Tracked seedAt N n) :
    (N.outbox ++ [MinerEvent.seedUpdated (seedAt (N.contract.position + 2))]).filterMap seedOf =
      (List.range' n (N.contract.position + 1 + 2 - n)).map seedAt := by
  have hle := h.le_next
  have hlength : N.contract.position + 1 + 2 - n = N.contract.position + 2 - n + 1 := by omega
  have hlast : n + (N.contract.position + 2 - n) = N.contract.position + 2 := by omega
  rw [List.filterMap_append, h.outbox_eq, hlength, List.range'_1_concat, List.map_append, hlast]
  rfl

theorem serveAccount (hinj : Function.Injective seedAt) (h : Tracked seedAt N n) {i : ℕ}
    (hstep : N.serveAccount seedAt i = some N') : Tracked seedAt N' n := by
  obtain ⟨t, ht, hstep⟩ := Option.bind_eq_some_iff.mp hstep
  obtain ⟨b, hb, hstep⟩ := Option.bind_eq_some_iff.mp hstep
  split at hstep
  · rename_i sessionInFlight hpc hread
    obtain rfl := Option.some.inj hstep
    refine { h with recorded := h.recorded.refine_beginnings ?_ ?_, began := ?_ }
    · intro c hc
      have hne : c ≠ t.channel := by
        rintro rfl
        rw [hb] at hc
        cases hc
      exact (Function.update_of_ne hne _ _).trans hc
    · intro c b₀ hb₀
      by_cases hc : c = t.channel
      · subst hc
        obtain rfl := Option.some.inj (hb.symm.trans hb₀)
        refine ⟨_, Function.update_self _ _ _, rfl, rfl, ?_⟩
        rw [hread]
        exact nofun
      · exact ⟨b₀, (Function.update_of_ne hc _ _).trans hb₀, rfl, rfl, fun _ hdata ↦ hdata⟩
    · intro c b' hb'
      change Function.update N.beginnings t.channel _ c = some b' at hb'
      by_cases hc : c = t.channel
      · subst hc
        obtain ⟨e, he, hseed, hontime, -⟩ := h.began _ b hb
        rw [Function.update_self] at hb'
        obtain rfl := Option.some.inj hb'
        refine ⟨e, he, hseed, ⟨hontime.after_flight, hontime.after_all⟩, ?_⟩
        rintro data ⟨⟩
        exact foresees_served hinj _ _ hseed
      · rw [Function.update_of_ne hc] at hb'
        exact h.began c b' hb'
  · cases hstep

theorem accept (h : Tracked seedAt N n)
    (horderly : ∃ t ∈ N.miner.tasks,
      t.pc.status = .submitting ∧ t.worker.seed = seedAt N.contract.position)
    (hstep : N.accept seedAt = some N') : Tracked seedAt N' n := by
  obtain ⟨t, ht, -, hseed⟩ := horderly
  have hle := h.le_next
  have hactive : seedAt N.contract.position ∈ N.miner.active :=
    Miner.mem_active_iff.mpr (.inl ⟨t, ht, hseed⟩)
  obtain ⟨-, hstep⟩ := Option.ite_none_right_eq_some.mp hstep
  obtain rfl := Option.some.inj hstep
  refine ⟨h.recorded, Nat.le_succ_of_le hle, h.outbox_next, h.active_lt, ?_, ?_⟩
  · intro seed hseed
    rcases List.mem_append.mp hseed with hseed | hseed
    · obtain ⟨k, hk, hseed⟩ := h.accepted_lt seed hseed
      exact ⟨k, Nat.lt_succ_of_lt hk, hseed⟩
    · exact ⟨_, Nat.lt_succ_self _, List.mem_singleton.mp hseed⟩
  · intro c b hb
    obtain ⟨e, he, hbseed, hontime, hread⟩ := h.began c b hb
    refine ⟨e, he, hbseed, hontime, ?_⟩
    intro data hdata
    have hforesees := hread data hdata
    have htooFar : N.contract.accept.position + 1 ≠ e := by
      show N.contract.position + 1 + 1 ≠ e
      omega
    refine ⟨?_, fun hnext ↦ absurd hnext htooFar, fun hnext ↦ absurd hnext htooFar⟩
    intro hposition _ hcalm
    apply hforesees.next_after hposition ?_ hcalm
    -- The accepted session was in flight, or its seed would be gone.
    intro hnone
    exact hontime.after_all hnone _ (by rw [← hposition]; exact Nat.lt_succ_self _) hactive

theorem cancel (hinj : Function.Injective seedAt) (h : Tracked seedAt N n) :
    Tracked seedAt (N.cancel seedAt) n := by
  have hle := h.le_next
  refine ⟨h.recorded, Nat.le_succ_of_le hle, h.outbox_next, h.active_lt, ?_, ?_⟩
  · intro seed hseed
    obtain ⟨k, hk, hseed⟩ := h.accepted_lt seed hseed
    exact ⟨k, Nat.lt_succ_of_lt hk, hseed⟩
  · intro c b hb
    obtain ⟨e, he, hbseed, hontime, hread⟩ := h.began c b hb
    refine ⟨e, he, hbseed, hontime, ?_⟩
    intro data hdata
    have hforesees := hread data hdata
    have htooFar : N.contract.cancel.position + 1 ≠ e := by
      show N.contract.position + 1 + 1 ≠ e
      omega
    refine ⟨?_, fun hnext ↦ absurd hnext htooFar, fun hnext ↦ absurd hnext htooFar⟩
    intro hposition hall _
    apply hforesees.next_alone hposition
    -- A session in flight would have been accepted on the cancelled seed.
    by_contra hsome
    exact hontime.not_accepted hinj hposition h.accepted_lt hsome hall

theorem changeComplexity (hinj : Function.Injective seedAt) (h : Tracked seedAt N n)
    (easy hard : UInt32) : Tracked seedAt (N.changeComplexity easy hard) n := by
  refine ⟨h.recorded.refine_beginnings ?_ ?_, h.le_next, ?_, h.active_lt, h.accepted_lt, ?_⟩
  · intro c hc
    exact Option.map_eq_none_iff.mpr hc
  · intro c b hb
    refine ⟨Beginning.disturb N.accepted b, Option.map_eq_some_iff.mpr ⟨b, hb, rfl⟩, rfl, rfl, ?_⟩
    exact fun _ hdata ↦ hdata
  · show (N.outbox ++ [_]).filterMap seedOf = _
    rw [List.filterMap_append, h.outbox_eq]
    exact List.append_nil _
  · intro c b' hb'
    obtain ⟨b, hb, rfl⟩ := Option.map_eq_some_iff.mp hb'
    obtain ⟨e, he, hbseed, hontime, hread⟩ := h.began c b hb
    refine ⟨e, he, hbseed, ⟨hontime.after_flight, hontime.after_all⟩, ?_⟩
    intro data hdata
    have hforesees := hread data hdata
    constructor
    · intro hposition hall hcalm
      exact hforesees.current hposition hall ((Bool.and_eq_true_iff.mp hcalm).1)
    · exact hforesees.next_alone
    · intro hnext hsome hcalm
      exfalso
      apply hontime.not_accepted hinj hnext h.accepted_lt hsome
      intro seed hseed
      have hall := (Bool.and_eq_true_iff.mp hcalm).2
      simpa using List.all_eq_true.mp hall seed hseed

/-! ### Events -/

/-- The first event on its way brings the next seed or none. -/
theorem outbox_cons (h : Tracked seedAt N n) {e : MinerEvent} {rest : List MinerEvent}
    (houtbox : N.outbox = e :: rest) :
    seedOf e = none ∧ rest.filterMap seedOf = N.outbox.filterMap seedOf ∨
      seedOf e = some (seedAt n) ∧ n + 1 ≤ N.contract.position + 2 ∧
        rest.filterMap seedOf =
          (List.range' (n + 1) (N.contract.position + 2 - (n + 1))).map seedAt := by
  have houtboxEq := h.outbox_eq
  rw [houtbox] at houtboxEq ⊢
  cases hseed : seedOf e with
  | none =>
      left
      exact ⟨rfl, (List.filterMap_cons_none hseed).symm⟩
  | some seed =>
      right
      rw [List.filterMap_cons_some hseed] at houtboxEq
      cases hlength : N.contract.position + 2 - n with
      | zero =>
          rw [hlength] at houtboxEq
          cases houtboxEq
      | succ m =>
          have hm : N.contract.position + 2 - (n + 1) = m := by omega
          rw [hlength, List.range'_succ, List.map_cons] at houtboxEq
          obtain ⟨hfirst, hrest⟩ := List.cons.inj houtboxEq
          rw [hm]
          exact ⟨congrArg some hfirst, by omega, hrest⟩

/-- A seed that leaves the outbox comes after those of all workers. -/
theorem next_seed (hinj : Function.Injective seedAt) (h : Tracked seedAt N n)
    {active : List String} (hactive : ∀ seed ∈ active, seed ∈ N.miner.active ∨ seed = seedAt n)
    {c : ℕ} {b : Beginning} (hb : N.beginnings c = some b) :
    ∃ e < n + 1, b.seed = seedAt e ∧ OnTime seedAt active e b ∧
      ∀ data, b.read = some data → Foresees N.contract N.accepted e b data := by
  obtain ⟨e, he, hbseed, hontime, hread⟩ := h.began c b hb
  refine ⟨e, Nat.lt_succ_of_lt he, hbseed, ⟨hontime.after_flight, ?_⟩, hread⟩
  intro hnone k hk hseed
  rcases hactive _ hseed with hseed | hseed
  · exact hontime.after_all hnone k hk hseed
  · exact absurd (hinj hseed) (Nat.ne_of_lt (Nat.lt_trans hk he))

theorem lose (hinj : Function.Injective seedAt) (h : Tracked seedAt N n)
    (hstep : N.lose = some N') : ∃ n', Tracked seedAt N' n' := by
  rw [Network.lose] at hstep
  split at hstep
  · cases hstep
  · rename_i e rest houtbox
    obtain rfl := Option.some.inj hstep
    rcases h.outbox_cons houtbox with ⟨-, hrest⟩ | ⟨-, hle, hrest⟩
    · exact ⟨n, { h with outbox_eq := hrest.trans h.outbox_eq }⟩
    · refine ⟨n + 1, h.recorded, hle, hrest, ?_, h.accepted_lt, ?_⟩
      · intro seed hseed
        obtain ⟨k, hk, hseed⟩ := h.active_lt seed hseed
        exact ⟨k, Nat.lt_succ_of_lt hk, hseed⟩
      · exact fun c b hb ↦ h.next_seed hinj (fun _ hseed ↦ .inl hseed) hb

/-- A step of the miner that brings no new seed. -/
theorem call (h : Tracked seedAt N n) {s : Miner M} {beginnings : ℕ → Option Beginning}
    {cached : ℕ → UInt32 × UInt32} {lastUpdate : UInt32 × UInt32}
    (hrecorded : Recorded s beginnings cached lastUpdate)
    (hactive : ∀ seed ∈ s.active, seed ∈ N.miner.active)
    (hbegan : ∀ c b, beginnings c = some b → N.beginnings c = some b ∨
      b.read = none ∧ ∃ e < n, b.seed = seedAt e ∧ OnTime seedAt N.miner.active e b) :
    Tracked seedAt { N with
      miner := s
      beginnings := beginnings
      cached := cached
      lastUpdate := lastUpdate } n := by
  refine ⟨hrecorded, h.le_next, h.outbox_eq, ?_, h.accepted_lt, ?_⟩
  · exact fun seed hseed ↦ h.active_lt seed (hactive seed hseed)
  · intro c b hb
    rcases hbegan c b hb with hb | ⟨hread, e, he, hseed, hontime⟩
    · obtain ⟨e, he, hseed, hontime, hread⟩ := h.began c b hb
      exact ⟨e, he, hseed, hontime.mono hactive, hread⟩
    · refine ⟨e, he, hseed, hontime.mono hactive, ?_⟩
      rw [hread]
      exact nofun

theorem handleEvent (h : Tracked seedAt N n) {e : MinerEvent} (he : seedOf e = none) :
    Tracked seedAt { N with
      miner := N.miner.handleEvent e
      lastUpdate := lastUpdateAfter N.lastUpdate e } n := by
  have hquiet : ∀ s, N.miner.Quiet s → Tracked seedAt { N with miner := s } n := fun s hs ↦
    h.call (h.recorded.quiet hs) (fun _ hseed ↦ hs.mem_active hseed) fun _ _ hb ↦ .inl hb
  cases e with
  | sessionInterval data => exact hquiet _ (N.miner.quiet_sendTo _ _)
  | seedUpdated seed => cases he
  | complexityUpdated easy hard =>
      exact h.call { h.recorded with complexity_eq := rfl } (fun _ hseed ↦ hseed)
        fun _ _ hb ↦ .inl hb
  | sessionAccepted data wasmResult => exact hquiet _ (N.miner.quiet_handleSessionResult _ _)
  | sessionRejected data wasmResult => exact hquiet _ (N.miner.quiet_handleSessionResult _ _)

theorem deliver (hinj : Function.Injective seedAt) (h : Tracked seedAt N n)
    (hstep : N.deliver = some N') : ∃ n', Tracked seedAt N' n' := by
  rw [Network.deliver] at hstep
  split at hstep
  · cases hstep
  · rename_i e rest houtbox
    obtain rfl := Option.some.inj hstep
    rcases h.outbox_cons houtbox with ⟨hnone, hrest⟩ | ⟨hseed, hle, hrest⟩
    · exact ⟨n, { h.handleEvent hnone with outbox_eq := hrest.trans h.outbox_eq }⟩
    · cases e with
      | seedUpdated seed =>
          obtain rfl := Option.some.inj hseed
          have hactive : ∀ seed ∈ (N.miner.handleEvent (.seedUpdated (seedAt n))).active,
              seed ∈ N.miner.active ∨ seed = seedAt n := by
            intro seed hseed
            rw [Miner.mem_active_iff] at hseed ⊢
            rcases hseed with hseed | hseed
            · exact .inl (.inl hseed)
            · rcases List.mem_append.mp hseed with hseed | hseed
              · exact .inl (.inr hseed)
              · exact .inr (List.mem_singleton.mp hseed)
          refine ⟨n + 1, { h.recorded with }, hle, hrest, ?_, h.accepted_lt, ?_⟩
          · intro seed hseed
            rcases hactive seed hseed with hseed | hseed
            · obtain ⟨k, hk, hseed⟩ := h.active_lt seed hseed
              exact ⟨k, Nat.lt_succ_of_lt hk, hseed⟩
            · exact ⟨n, Nat.lt_succ_self n, hseed⟩
          · exact fun c b hb ↦ h.next_seed hinj hactive hb
      | sessionInterval data => cases hseed
      | complexityUpdated easy hard => cases hseed
      | sessionAccepted data wasmResult => cases hseed
      | sessionRejected data wasmResult => cases hseed

theorem notify (h : Tracked seedAt N n) {e : MinerEvent} (hstep : N.notify e = some N') :
    Tracked seedAt N' n := by
  have hpush : seedOf e = none → Tracked seedAt { N with outbox := N.outbox ++ [e] } n := by
    intro he
    refine { h with outbox_eq := ?_ }
    rw [List.filterMap_append, h.outbox_eq, List.filterMap_cons_none he]
    exact List.append_nil _
  cases e with
  | seedUpdated seed => cases hstep
  | complexityUpdated easy hard => cases hstep
  | sessionInterval data =>
      obtain rfl := Option.some.inj hstep
      exact hpush rfl
  | sessionAccepted data wasmResult =>
      obtain rfl := Option.some.inj hstep
      exact hpush rfl
  | sessionRejected data wasmResult =>
      obtain rfl := Option.some.inj hstep
      exact hpush rfl

/-! ### Steps -/

/-- A task that begins in turn begins on time. -/
theorem onTime_of_inTurn (hinj : Function.Injective seedAt) (h : Tracked seedAt N n) {t : Task M}
    (ht : t ∈ N.miner.tasks) (hturn : N.InTurn seedAt t) :
    ∃ e < n, t.worker.seed = seedAt e ∧ OnTime seedAt N.miner.active e
      ⟨t.worker.seed, N.miner.shared.inFlight t.worker, none, true⟩ := by
  obtain ⟨e, he, hseed⟩ := h.active_lt _ (Miner.mem_active_iff.mpr (.inl ⟨t, ht, rfl⟩))
  have hle := h.le_next
  refine ⟨e, he, hseed, ?_, ?_⟩
  · intro seed hflight
    obtain ⟨k, -, hk, hnext⟩ := hturn.1 seed hflight
    exact ⟨k, hinj (hnext.symm.trans hseed), hk⟩
  · intro hnone
    exact hturn.2 hnone e (by omega) hseed

theorem callStep (hinj : Function.Injective seedAt) (h : Tracked seedAt N n) {l : Miner.Label}
    {s : Miner M} (horderly : N.Orderly seedAt (.call l)) (hserved : N.served l = true)
    (hchange : N.miner.Change blake3 l s) : Tracked seedAt { N.record l with miner := s } n := by
  have hsame : ∀ c b, N.beginnings c = some b → N.beginnings c = some b ∨
      b.read = none ∧ ∃ e < n, b.seed = seedAt e ∧ OnTime seedAt N.miner.active e b :=
    fun _ _ hb ↦ .inl hb
  cases hchange with
  | quiet _ _ hl hquiet =>
      have hactive : ∀ seed ∈ s.active, seed ∈ N.miner.active := fun _ ↦ hquiet.mem_active
      cases l with
      | start durationMs id =>
          exact h.call ((h.recorded.update_cached N.lastUpdate).quiet hquiet) hactive hsame
      | stop => exact h.call (h.recorded.quiet hquiet) hactive hsame
      | addTap x y => exact h.call (h.recorded.quiet hquiet) hactive hsame
      | removeSeed seed => exact h.call (h.recorded.quiet hquiet) hactive hsame
      | event e => cases hserved
      | task i wake => exact absurd rfl (hl i wake)
  | started durationMs id _ hstart =>
      apply h.call (h.recorded.started hstart) ?_ hsame
      obtain ⟨t, htasks, -, -, -, hseeds, -⟩ := Miner.start_cases hstart
      intro seed hseed
      rw [Miner.mem_active_iff] at hseed ⊢
      rcases hseed with ⟨t', ht', rfl⟩ | hqueued
      · rw [htasks] at ht'
        rcases List.mem_append.mp ht' with ht' | ht'
        · exact .inl ⟨t', ht', rfl⟩
        · obtain rfl := List.mem_singleton.mp ht'
          right
          rw [hseeds]
          exact List.mem_cons_self
      · right
        rw [hseeds]
        exact List.mem_cons_of_mem _ hqueued
  | piece i wake t shared outcome ht hadvance =>
      have hmem := List.mem_of_getElem? ht
      have hactive : ∀ seed ∈ (N.miner.afterPiece shared (Miner.settle N.miner.tasks i
          outcome)).active, seed ∈ N.miner.active := fun _ ↦
        Miner.mem_active_piece ht (Task.moves_of_advance hadvance)
      by_cases hwake : wake = .begin
      · subst hwake
        cases Task.mining_of_advance hadvance with
        | begin hpc =>
            have hturn := h.onTime_of_inTurn hinj hmem (horderly t ht)
            simp only [record, ht]
            apply h.call (h.recorded.begun ht hpc) hactive
            intro c b hb
            by_cases hc : c = t.channel
            · subst hc
              rw [Function.update_self] at hb
              obtain rfl := Option.some.inj hb
              exact .inr ⟨rfl, hturn⟩
            · rw [Function.update_of_ne hc] at hb
              exact .inl hb
        | proceed _ cores _ _ hpc _ =>
            rw [Task.advance] at hadvance
            split at hadvance
            · rename_i hspawned
              rw [hspawned] at hpc
              cases hpc
            · cases hadvance
      · rw [record_of_ne hwake]
        apply h.call (h.recorded.resumed ht hadvance hwake ?_) hactive hsame
        rintro data startMs nowMs rfl
        rw [served, ht, Option.bind_some, Option.any_eq_true] at hserved
        obtain ⟨b, hb, hread⟩ := hserved
        exact ⟨b, hb, of_decide_eq_true hread⟩

theorem step (hinj : Function.Injective seedAt) (h : Tracked seedAt N n) {l : Label}
    (horderly : N.Orderly seedAt l) (hstep : N.Step seedAt blake3 l N') :
    ∃ n', Tracked seedAt N' n' := by
  cases l with
  | call l =>
      obtain ⟨hserved, hstep⟩ := Option.ite_none_right_eq_some.mp hstep
      obtain ⟨s, hs, rfl⟩ := Option.map_eq_some_iff.mp hstep
      have hevent : ∀ e, l ≠ .event e := by
        rintro e rfl
        cases hserved
      exact ⟨n, h.callStep hinj horderly hserved (Miner.change_of_step hevent hs)⟩
  | serveAccount i => exact ⟨n, h.serveAccount hinj hstep⟩
  | accept => exact ⟨n, h.accept horderly hstep⟩
  | cancel =>
      obtain rfl := Option.some.inj hstep
      exact ⟨n, h.cancel hinj⟩
  | changeComplexity easy hard =>
      obtain rfl := Option.some.inj hstep
      exact ⟨n, h.changeComplexity hinj easy hard⟩
  | notify e => exact ⟨n, h.notify hstep⟩
  | deliver => exact h.deliver hinj hstep
  | lose => exact h.lose hinj hstep

/-! ## The selected complexity -/

theorem sessionComplexity (hinj : Function.Injective seedAt) (h : Tracked seedAt N n) :
    N.SessionComplexity seedAt where
  verified m hm data sessionInFlight hview hposition := by
    obtain ⟨b, account, hb, hseed, hview', hcomplexity, hread⟩ := h.recorded.mined m hm
    obtain ⟨rfl, rfl⟩ := Prod.mk.inj (Option.some.inj (hview'.symm.trans hview))
    refine ⟨b, hb, hseed, hread data rfl, ?_⟩
    intro hall hcalm
    obtain ⟨e, -, he, -, hforesees⟩ := h.began _ b hb
    have hcurrent : N.contract.position = e :=
      hinj (hposition.symm.trans (hseed.symm.trans he))
    have hselect := (hforesees data (hread data rfl)).current hcurrent hall hcalm
    rw [hcomplexity, MinerWorker.sessionComplexity, ← hseed, hselect]
    rfl
  fallback m hm hunknown := by
    obtain ⟨b, account, -, -, hview, hcomplexity, -⟩ := h.recorded.mined m hm
    rw [hcomplexity, ← h.recorded.cached_mined m hm]
    cases account with
    | error e => rfl
    | ok data =>
        obtain ⟨hcurrent, hnext⟩ := hunknown data _ hview
        rw [MinerWorker.sessionComplexity, selectSessionComplexity, if_neg hcurrent, if_neg hnext]
        rfl

end Tracked

def seedName (n : ℕ) : String := String.ofList (List.replicate n 'a')

theorem seedName_injective : Function.Injective seedName := by
  intro n n' h
  have hlist := congrArg List.length (String.ofList_injective h)
  rw [List.length_replicate, List.length_replicate] at hlist
  exact hlist

/-- The account before any session, with a complexity that just rose. -/
def account (easy hard : UInt32) : Except String MinerComplexityData :=
  .ok (MinerContract.data seedName ⟨0, (easy, hard), (0, 0)⟩)

/-- The first worker mines and submits its session. -/
def firstSession : List Label :=
  [.call (.addTap 3 4), .serveAccount 0, .call (.task 0 (.accountRead (account 1 1) 0 0)),
    .call (.task 0 (.tick 500)), .call (.task 0 (.tick 1000)), .call (.task 0 (.rootSubmitted true)),
    .notify (.sessionInterval ⟨1, ⟨0, 1⟩, ⟨0, 1⟩⟩), .deliver, .call (.task 0 .command)]

/-- The second worker begins and reads the account while the first session is
in flight, which is then accepted. -/
def oneInFlight : List Label :=
  [.call (.start 1000 1), .call (.task 0 .begin)] ++ firstSession ++
    [.call (.start 1000 2), .call (.task 1 .begin), .serveAccount 1,
      .call (.task 1 (.accountRead (account 1 1) 1000 1000)), .call (.task 0 (.proofSubmitted true)),
      .accept]

def mineFirst (ls : List Label) : Option (Network (RsMerkle.reference Blake3.hash)) :=
  run? (step? seedName Blake3.hash) (init seedName _ (1, 1) (0, 0) false) ls

/-- The second worker begins before the first one submits. -/
def startsTwice : List Label :=
  [.call (.start 1000 1), .call (.start 1000 2), .call (.task 0 .begin), .call (.task 1 .begin),
    .serveAccount 1, .call (.task 1 (.accountRead (account 1 1) 0 0))] ++ firstSession ++
    [.call (.task 0 (.proofSubmitted true)), .accept]

/-- The first worker ends because of a failed reply, and its session is
accepted after the second one has read the account. -/
def losesReply : List Label :=
  [.call (.start 1000 1), .call (.task 0 .begin)] ++ firstSession ++
    [.call (.task 0 (.proofSubmitted false)), .call (.start 1000 2), .call (.task 0 .begin),
      .serveAccount 0, .call (.task 0 (.accountRead (account 1 1) 1000 1000)), .accept]

/-- A seed is removed by hand, and the worker of the seed after it takes the
first session for the one right before its own. -/
def skipsSeed : List Label :=
  [.call (.start 1000 1), .call (.task 0 .begin)] ++ firstSession ++
    [.call (.task 0 (.proofSubmitted true)), .accept, .deliver, .call (.removeSeed (seedName 1)),
      .changeComplexity 2 2, .call (.start 1000 2), .call (.task 1 .begin), .serveAccount 1,
      .call (.task 1 (.accountRead (.ok (MinerContract.data seedName ⟨1, (2, 2), (1, 1)⟩))
        1000 1000)), .cancel]

/-- A worker whose session the contract would refuse, although the session in
flight at its start was accepted and the complexity did not change. -/
def mismatch (seedAt : ℕ → String) (N : Network M) (m : Mined) : Bool :=
  (m.view.any fun v ↦ v.1.isOk) && m.worker.seed = seedAt N.contract.position &&
    ((N.beginnings m.channel).all fun b ↦ b.inFlight.all (· ∈ N.accepted) && b.calm) &&
    m.complexity ≠ N.contract.complexityOld

theorem not_sessionComplexity_of_mismatch {N : Network M}
    (h : N.miner.mined.any (mismatch seedAt N) = true) : ¬N.SessionComplexity seedAt := by
  intro hN
  obtain ⟨m, hm, hmismatch⟩ := List.any_eq_true.mp h
  simp only [mismatch, Bool.and_eq_true, decide_eq_true_eq] at hmismatch
  obtain ⟨⟨⟨hview, hposition⟩, hcalm⟩, hne⟩ := hmismatch
  obtain ⟨⟨account, sessionInFlight⟩, hview, hok⟩ := (Option.any_eq_true _ _).mp hview
  cases account with
  | error e => cases hok
  | ok data =>
      obtain ⟨b, hb, -, -, hequal⟩ := hN.verified m hm data sessionInFlight hview hposition
      rw [hb] at hcalm
      obtain ⟨hall, hcalm⟩ := Bool.and_eq_true_iff.mp hcalm
      apply hne
      apply hequal ?_ hcalm
      intro seed hseed
      simpa using List.all_eq_true.mp hall seed hseed

end Network

end BeeEngine
