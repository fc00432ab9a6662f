import BeeEngine.MinerNetwork

/-!
# What is recorded of a worker

The record of a worker is kept under its channel.  No channel is used twice, so
what a worker mines with is always what its record says.
-/

namespace BeeEngine

variable {M : RsMerkle} {blake3 : Bytes → Bytes32}

namespace Network

/-- Channels are not reused, and what a worker mines with is what its record
says. -/
structure Recorded (s : Miner M) (beginnings : ℕ → Option Beginning)
    (cached : ℕ → UInt32 × UInt32) (lastUpdate : UInt32 × UInt32) : Prop where
  channels_nodup : (s.tasks.map Task.channel).Nodup
  channels_lt : ∀ t ∈ s.tasks, t.channel < s.nextChannel
  beginnings_lt : ∀ c b, beginnings c = some b → c < s.nextChannel
  spawned : ∀ t ∈ s.tasks, t.pc = .spawned → beginnings t.channel = none
  fetching : ∀ t ∈ s.tasks, ∀ sessionInFlight, t.pc = .fetchingAccount sessionInFlight →
    ∃ b, beginnings t.channel = some b ∧ b.seed = t.worker.seed ∧
      sessionInFlight = !b.inFlight.isEmpty
  mined : ∀ m ∈ s.mined, ∃ b account, beginnings m.channel = some b ∧ b.seed = m.worker.seed ∧
    m.view = some (account, !b.inFlight.isEmpty) ∧
    m.complexity = m.worker.sessionComplexity account (!b.inFlight.isEmpty) ∧
    ∀ data, account = .ok data → b.read = some data
  cached_tasks : ∀ t ∈ s.tasks,
    (t.worker.easyComplexity, t.worker.hardComplexity) = cached t.channel
  cached_mined : ∀ m ∈ s.mined,
    (m.worker.easyComplexity, m.worker.hardComplexity) = cached m.channel
  complexity_eq : s.complexity = lastUpdate

theorem recorded_init (seeds : List String) (complexity : UInt32 × UInt32) :
    Recorded (Miner.init M seeds complexity) (fun _ ↦ none) (fun _ ↦ complexity) complexity where
  channels_nodup := List.nodup_nil
  channels_lt t h := by cases h
  beginnings_lt c b h := by cases h
  spawned t h := by cases h
  fetching t h := by cases h
  mined m h := by cases h
  cached_tasks t h := by cases h
  cached_mined m h := by cases h
  complexity_eq := rfl

namespace Recorded

variable {s s' : Miner M} {beginnings : ℕ → Option Beginning} {cached : ℕ → UInt32 × UInt32}
  {lastUpdate : UInt32 × UInt32}

theorem mined_lt (h : Recorded s beginnings cached lastUpdate) {m : Mined} (hm : m ∈ s.mined) :
    m.channel < s.nextChannel := by
  obtain ⟨b, account, hb, -⟩ := h.mined m hm
  exact h.beginnings_lt _ b hb

/-- Later reads and changes only add to the record of a worker. -/
theorem refine_beginnings (h : Recorded s beginnings cached lastUpdate)
    {beginnings' : ℕ → Option Beginning}
    (hnone : ∀ c, beginnings c = none → beginnings' c = none)
    (hsome : ∀ c b, beginnings c = some b → ∃ b', beginnings' c = some b' ∧ b'.seed = b.seed ∧
      b'.inFlight = b.inFlight ∧ ∀ data, b.read = some data → b'.read = some data) :
    Recorded s beginnings' cached lastUpdate where
  channels_nodup := h.channels_nodup
  channels_lt := h.channels_lt
  beginnings_lt c b hb := by
    cases hc : beginnings c with
    | none =>
        rw [hnone c hc] at hb
        cases hb
    | some b₀ => exact h.beginnings_lt c b₀ hc
  spawned t ht hpc := hnone _ (h.spawned t ht hpc)
  fetching t ht sessionInFlight hpc := by
    obtain ⟨b, hb, hseed, hflag⟩ := h.fetching t ht sessionInFlight hpc
    obtain ⟨b', hb', hseed', hinFlight, -⟩ := hsome _ b hb
    exact ⟨b', hb', hseed'.trans hseed, by rw [hinFlight]; exact hflag⟩
  mined m hm := by
    obtain ⟨b, account, hb, hseed, hview, hcomplexity, hread⟩ := h.mined m hm
    obtain ⟨b', hb', hseed', hinFlight, hread'⟩ := hsome _ b hb
    refine ⟨b', account, hb', hseed'.trans hseed, ?_, ?_, ?_⟩
    · rw [hinFlight]
      exact hview
    · rw [hinFlight]
      exact hcomplexity
    · exact fun data hdata ↦ hread' data (hread data hdata)
  cached_tasks := h.cached_tasks
  cached_mined := h.cached_mined
  complexity_eq := h.complexity_eq

/-- The pair for the next channel is free. -/
theorem update_cached (h : Recorded s beginnings cached lastUpdate) (pair : UInt32 × UInt32) :
    Recorded s beginnings (Function.update cached s.nextChannel pair) lastUpdate := by
  refine { h with cached_tasks := ?_, cached_mined := ?_ }
  · intro t ht
    rw [Function.update_of_ne (Nat.ne_of_lt (h.channels_lt t ht))]
    exact h.cached_tasks t ht
  · intro m hm
    rw [Function.update_of_ne (Nat.ne_of_lt (h.mined_lt hm))]
    exact h.cached_mined m hm

theorem quiet (h : Recorded s beginnings cached lastUpdate) (hquiet : s.Quiet s') :
    Recorded s' beginnings cached lastUpdate where
  channels_nodup := by
    rw [hquiet.channels_eq]
    exact h.channels_nodup
  channels_lt t' ht' := by
    obtain ⟨t, ht, hbare⟩ := hquiet.mem_tasks ht'
    rw [(Task.eq_of_bare hbare).1, hquiet.nextChannel_eq]
    exact h.channels_lt t ht
  beginnings_lt c b hb := by
    rw [hquiet.nextChannel_eq]
    exact h.beginnings_lt c b hb
  spawned t' ht' hpc := by
    obtain ⟨t, ht, hbare⟩ := hquiet.mem_tasks ht'
    obtain ⟨hchannel, -, hpc', -⟩ := Task.eq_of_bare hbare
    rw [hchannel]
    exact h.spawned t ht (hpc'.symm.trans hpc)
  fetching t' ht' sessionInFlight hpc := by
    obtain ⟨t, ht, hbare⟩ := hquiet.mem_tasks ht'
    obtain ⟨hchannel, hworker, hpc', -⟩ := Task.eq_of_bare hbare
    rw [hchannel, hworker]
    exact h.fetching t ht sessionInFlight (hpc'.symm.trans hpc)
  mined m hm := h.mined m (hquiet.mem_mined hm)
  cached_tasks t' ht' := by
    obtain ⟨t, ht, hbare⟩ := hquiet.mem_tasks ht'
    obtain ⟨hchannel, hworker, -⟩ := Task.eq_of_bare hbare
    rw [hchannel, hworker]
    exact h.cached_tasks t ht
  cached_mined m hm := h.cached_mined m (hquiet.mem_mined hm)
  complexity_eq := hquiet.complexity_eq.trans h.complexity_eq

theorem started (h : Recorded s beginnings cached lastUpdate) {durationMs : UInt32} {id : UInt64}
    (hstart : s.start durationMs id = .ok s') :
    Recorded s' beginnings (Function.update cached s.nextChannel lastUpdate) lastUpdate := by
  obtain ⟨t, htasks, hchannel, hpc, hpair, -, hsubmissions, hnext, hcomplexity⟩ :=
    Miner.start_cases hstart
  have hlt : s.nextChannel < s'.nextChannel := by rw [hnext]; exact Nat.lt_succ_self _
  have h' := h.update_cached lastUpdate
  have htask : ∀ t' ∈ s'.tasks, t' ∈ s.tasks ∨ t' = t := by
    intro t' ht'
    rw [htasks] at ht'
    rcases List.mem_append.mp ht' with ht' | ht'
    · exact .inl ht'
    · exact .inr (List.mem_singleton.mp ht')
  have hmined : ∀ m ∈ s'.mined, m ∈ s.mined := by
    intro m hm
    rw [Miner.mem_mined_iff] at hm ⊢
    rcases hm with ⟨t', ht', cores, hcores, hm⟩ | hsubmitted
    · left
      rcases htask t' ht' with ht' | rfl
      · exact ⟨t', ht', cores, hcores, hm⟩
      · rw [hpc] at hcores
        cases hcores
    · right
      rw [← hsubmissions]
      exact hsubmitted
  constructor
  · rw [htasks, List.map_append, List.nodup_append]
    refine ⟨h.channels_nodup, by simp, ?_⟩
    intro c hc c' hc'
    obtain ⟨t', ht', rfl⟩ := List.mem_map.mp hc
    obtain rfl := List.mem_singleton.mp hc'
    rw [hchannel]
    exact Nat.ne_of_lt (h.channels_lt t' ht')
  · intro t' ht'
    rcases htask t' ht' with ht' | rfl
    · exact Nat.lt_trans (h.channels_lt t' ht') hlt
    · rw [hchannel]
      exact hlt
  · exact fun c b hb ↦ Nat.lt_trans (h.beginnings_lt c b hb) hlt
  · intro t' ht' hpc'
    rcases htask t' ht' with ht' | rfl
    · exact h.spawned t' ht' hpc'
    · cases hb : beginnings t'.channel with
      | none => rfl
      | some b =>
          have hused := h.beginnings_lt _ b hb
          rw [hchannel] at hused
          exact absurd hused (Nat.lt_irrefl _)
  · intro t' ht' sessionInFlight hpc'
    rcases htask t' ht' with ht' | rfl
    · exact h.fetching t' ht' sessionInFlight hpc'
    · rw [hpc] at hpc'
      cases hpc'
  · exact fun m hm ↦ h.mined m (hmined m hm)
  · intro t' ht'
    rcases htask t' ht' with ht' | rfl
    · exact h'.cached_tasks t' ht'
    · rw [hpair, h.complexity_eq, hchannel, Function.update_self]
  · exact fun m hm ↦ h'.cached_mined m (hmined m hm)
  · exact hcomplexity.trans h.complexity_eq

/-- A worker begins and looks for a session in flight. -/
theorem begun (h : Recorded s beginnings cached lastUpdate) {i : ℕ} {t : Task M}
    (ht : s.tasks[i]? = some t) (hpc : t.pc = .spawned) :
    Recorded (s.afterPiece (t.begin s.shared).1 (Miner.settle s.tasks i (t.begin s.shared).2))
      (Function.update beginnings t.channel
        (some ⟨t.worker.seed, s.shared.inFlight t.worker, none, true⟩)) cached lastUpdate := by
  have hmem := List.mem_of_getElem? ht
  obtain ⟨hnodup, htasks⟩ :=
    Miner.channels_piece h.channels_nodup ht (Task.moves_begin s.shared hpc)
  have hmined : ∀ m ∈ (s.afterPiece (t.begin s.shared).1
      (Miner.settle s.tasks i (t.begin s.shared).2)).mined, m ∈ s.mined := by
    intro m hm
    rcases Miner.mem_mined_piece ht (.begin hpc) hm with hm | ⟨_, _, _, _, hwake, -⟩
    · exact hm
    · cases hwake
  have hnew := h.spawned t hmem hpc
  -- A worker that mines has begun before, on another channel.
  have hold : ∀ c b, beginnings c = some b → c ≠ t.channel := by
    rintro c b hb rfl
    rw [hnew] at hb
    cases hb
  constructor
  · exact hnodup
  · intro t' ht'
    rcases htasks t' ht' with ht' | ⟨ht', -⟩
    · obtain rfl := Option.some.inj ht'
      exact h.channels_lt t hmem
    · exact h.channels_lt t' ht'
  · intro c b hb
    by_cases hc : c = t.channel
    · rw [hc]
      exact h.channels_lt t hmem
    · rw [Function.update_of_ne hc] at hb
      exact h.beginnings_lt c b hb
  · intro t' ht' hpc'
    rcases htasks t' ht' with ht' | ⟨ht', hchannel⟩
    · obtain rfl := Option.some.inj ht'
      cases hpc'
    · rw [Function.update_of_ne hchannel]
      exact h.spawned t' ht' hpc'
  · intro t' ht' sessionInFlight hpc'
    rcases htasks t' ht' with ht' | ⟨ht', hchannel⟩
    · obtain rfl := Option.some.inj ht'
      refine ⟨_, Function.update_self _ _ _, rfl, ?_⟩
      rw [← Shared.any_inFlight s.shared t.worker .computing]
      exact (Pc.fetchingAccount.inj hpc').symm
    · rw [Function.update_of_ne hchannel]
      exact h.fetching t' ht' sessionInFlight hpc'
  · intro m hm
    obtain ⟨b, account, hb, hrest⟩ := h.mined m (hmined m hm)
    rw [Function.update_of_ne (hold _ b hb)]
    exact ⟨b, account, hb, hrest⟩
  · intro t' ht'
    rcases htasks t' ht' with ht' | ⟨ht', -⟩
    · obtain rfl := Option.some.inj ht'
      exact h.cached_tasks t hmem
    · exact h.cached_tasks t' ht'
  · exact fun m hm ↦ h.cached_mined m (hmined m hm)
  · exact h.complexity_eq

/-- A worker goes on; if it has read the account, with what it was served. -/
theorem resumed (h : Recorded s beginnings cached lastUpdate) {i : ℕ} {t : Task M} {wake : Wake}
    {shared : Shared} {outcome : Option (Task M)} (ht : s.tasks[i]? = some t)
    (hadvance : t.advance blake3 s.shared wake = some (shared, outcome)) (hwake : wake ≠ .begin)
    (hserved : ∀ data startMs nowMs, wake = .accountRead (.ok data) startMs nowMs →
      ∃ b, beginnings t.channel = some b ∧ b.read = some data) :
    Recorded (s.afterPiece shared (Miner.settle s.tasks i outcome)) beginnings cached
      lastUpdate := by
  have hmem := List.mem_of_getElem? ht
  have hmove := Task.moves_of_advance hadvance
  have hmining := Task.mining_of_advance hadvance
  obtain ⟨hnodup, htasks⟩ := Miner.channels_piece h.channels_nodup ht hmove
  have houtcome : ∀ t' ∈ outcome, t.SameTask t' ∧ ∃ cores, t'.pc.cores = some cores := by
    intro t' ht'
    obtain rfl := Option.mem_def.mp ht'
    refine ⟨hmove.sameTask, ?_⟩
    cases hmining with
    | begin => exact absurd rfl hwake
    | read _ _ _ _ _ _ _ hproduces =>
        obtain ⟨cores, hcores, -⟩ := hproduces.task t' rfl
        exact ⟨cores, hcores⟩
    | proceed _ _ _ _ _ hproduces =>
        obtain ⟨cores, hcores, -⟩ := hproduces.task t' rfl
        exact ⟨cores, hcores⟩
  constructor
  · exact hnodup
  · intro t' ht'
    rcases htasks t' ht' with ht' | ⟨ht', -⟩
    · rw [(houtcome t' ht').1.1]
      exact h.channels_lt t hmem
    · exact h.channels_lt t' ht'
  · exact h.beginnings_lt
  · intro t' ht' hpc'
    rcases htasks t' ht' with ht' | ⟨ht', -⟩
    · obtain ⟨-, cores, hcores⟩ := houtcome t' ht'
      rw [hpc'] at hcores
      cases hcores
    · exact h.spawned t' ht' hpc'
  · intro t' ht' sessionInFlight hpc'
    rcases htasks t' ht' with ht' | ⟨ht', -⟩
    · obtain ⟨-, cores, hcores⟩ := houtcome t' ht'
      rw [hpc'] at hcores
      cases hcores
    · exact h.fetching t' ht' sessionInFlight hpc'
  · intro m hm
    rcases Miner.mem_mined_piece ht hmining hm with
      hm | ⟨account, startMs, nowMs, sessionInFlight, rfl, hpc, rfl⟩
    · exact h.mined m hm
    · obtain ⟨b, hb, hseed, rfl⟩ := h.fetching t hmem _ hpc
      refine ⟨b, account, hb, hseed, rfl, rfl, ?_⟩
      rintro data rfl
      obtain ⟨b', hb', hread⟩ := hserved data startMs nowMs rfl
      obtain rfl := Option.some.inj (hb.symm.trans hb')
      exact hread
  · intro t' ht'
    rcases htasks t' ht' with ht' | ⟨ht', -⟩
    · obtain ⟨⟨hchannel, hworker⟩, -⟩ := houtcome t' ht'
      rw [hchannel, hworker]
      exact h.cached_tasks t hmem
    · exact h.cached_tasks t' ht'
  · intro m hm
    rcases Miner.mem_mined_piece ht hmining hm with hm | ⟨_, _, _, _, -, -, rfl⟩
    · exact h.cached_mined m hm
    · exact h.cached_tasks t hmem
  · exact h.complexity_eq

end Recorded

end Network

end BeeEngine
