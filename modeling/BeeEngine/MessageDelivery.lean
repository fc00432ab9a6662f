import BeeEngine.Lib.Attempts
import BeeEngine.Lib.Json
import BeeEngine.Lib.Saturating
import BeeEngine.Lib.Text

/-!
# Delivery of a message

`with_queue_overflow_retry`: the same message is sent again while the queue of
the node is full and the message does not expire.
-/

namespace BeeEngine

open Attempts

/-! ## Errors of the client -/

structure ClientError (F : Type) where
  code : UInt32
  message : String
  data : Json.Value F

namespace Json

variable {F : Type}

/-- The index of an array that a token of a pointer stands for. -/
def parseIndex (token : String) : Option ℕ :=
  if token.toList.head? = some '+' ∨ (token.toList.head? = some '0' ∧ token.length ≠ 1) then none
  else Text.parseUnsigned (2 ^ 64) token

/-- One token of `Value::pointer`. -/
def pointTo (value : Json F) (token : String) : Option (Json F) :=
  match value with
  | .object fields => lookupField token fields
  | .array items => (parseIndex token).bind fun index ↦ items[index]?
  | _ => none

/-- `Value::pointer`, whose pointer is cut into its tokens. -/
def pointer (value : Json F) : List String → Option (Json F)
  | [] => some value
  | token :: tokens => (pointTo value token).bind fun value ↦ pointer value tokens

def asStr? : Json F → Option String
  | .str s => some s
  | _ => none

end Json

/-- The node answered that its queue is full. -/
def isQueueOverflow {F : Type} (error : ClientError F) : Bool :=
  (error.data.tree.pointer ["node_error", "extensions", "code"]).bind Json.asStr? =
    some "QUEUE_OVERFLOW"

/-! ## The loop -/

namespace MessageDelivery

def queueOverflowRetryInterval : UInt64 := 1000
def queueOverflowMaxRetries : ℕ := 30

/-- The world of a call.  Attempts are numbered from 0, by the retries before them. -/
structure World (F T : Type) where
  beginsAt : ℕ → ℕ
  outcome : ℕ → Except (ClientError F) T
  /-- The clock that is read after an attempt. -/
  nowMillis : ℕ → UInt64

section

variable {F T : Type} (world : World F T) (expiresAt : Option UInt32)

/-- The body of the loop, for a message that expires. -/
def turn (deadlineMillis : UInt64) (retries : ℕ) :
    Turn (Except (ClientError F) T) UInt64 :=
  match world.outcome retries with
  | .ok result => .done (.ok result)
  | .error error =>
      if ¬isQueueOverflow error ∨ retries ≥ queueOverflowMaxRetries then .done (.error error)
      else
        let nextAttemptAt := Saturating.add (world.nowMillis retries) queueOverflowRetryInterval
        if nextAttemptAt ≥ deadlineMillis then .done (.error error)
        else .again queueOverflowRetryInterval

/-- The loop ends at the latest after the last retry that is allowed. -/
def withQueueOverflowRetry : Option (Ended (Except (ClientError F) T) UInt64) :=
  match expiresAt with
  | none => some ⟨world.outcome 0, 1, []⟩
  | some expiresAt =>
      loop (turn world (expiresAt.toUInt64 * 1000)) (queueOverflowMaxRetries + 1) 0

/-! ## What is claimed -/

structure Bounded (ended : Ended (Except (ClientError F) T) UInt64) : Prop where
  attempts : 1 ≤ ended.calls ∧ ended.calls ≤ 31
  verbatim : ended.result = world.outcome (ended.calls - 1)
  repeated : ∀ i, i + 1 < ended.calls →
    ∃ error, world.outcome i = .error error ∧ isQueueOverflow error = true
  once : expiresAt = none → ended.calls = 1
  /-- With exact sleeps, every repeat begins before the message expires. -/
  unexpired : (∀ i, i + 1 < ended.calls →
      world.beginsAt (i + 1) = (world.nowMillis i).toNat + queueOverflowRetryInterval.toNat) →
    ∀ expires, expiresAt = some expires → ∀ i, 1 ≤ i → i < ended.calls →
      world.beginsAt i < expires.toNat * 1000

/-! ## The loop, attempt by attempt -/

variable {world} {deadlineMillis : UInt64}

theorem eq_outcome_of_turn {i : ℕ} {result : Except (ClientError F) T}
    (h : turn world deadlineMillis i = .done result) : result = world.outcome i := by
  rw [turn] at h
  cases houtcome : world.outcome i with
  | ok value =>
      rw [houtcome] at h
      exact (Turn.done.inj h).symm
  | error error =>
      rw [houtcome] at h
      dsimp only at h
      split_ifs at h
      · exact (Turn.done.inj h).symm
      · exact (Turn.done.inj h).symm

/-- An attempt is repeated only if the queue was full and the next one comes in time. -/
theorem of_turn_again {i : ℕ} {pause : UInt64} (h : turn world deadlineMillis i = .again pause) :
    (∃ error, world.outcome i = .error error ∧ isQueueOverflow error = true) ∧
      i < queueOverflowMaxRetries ∧
      Saturating.add (world.nowMillis i) queueOverflowRetryInterval < deadlineMillis := by
  rw [turn] at h
  cases houtcome : world.outcome i with
  | ok value =>
      rw [houtcome] at h
      cases h
  | error error =>
      rw [houtcome] at h
      dsimp only at h
      split_ifs at h with hstop hdeadline
      obtain ⟨hfull, hleft⟩ := not_or.mp hstop
      exact ⟨⟨error, rfl, not_not.mp hfull⟩, Nat.not_le.mp hleft, UInt64.not_le.mp hdeadline⟩

theorem exists_turn_done (world : World F T) (deadlineMillis : UInt64) :
    ∃ result, turn world deadlineMillis (0 + queueOverflowMaxRetries) = .done result := by
  cases hturn : turn world deadlineMillis (0 + queueOverflowMaxRetries) with
  | done result => exact ⟨result, rfl⟩
  | again pause => exact absurd (of_turn_again hturn).2.1 (by decide)

theorem toNat_deadline (expires : UInt32) :
    (expires.toUInt64 * 1000).toNat = expires.toNat * 1000 := by
  have hlt : expires.toNat * 1000 < 2 ^ 64 := by
    have := expires.toNat_lt
    omega
  rw [UInt64.toNat_mul, UInt32.toNat_toUInt64]
  exact Nat.mod_eq_of_lt hlt

/-- A repeat that the deadline allows begins before it. -/
theorem add_lt_of_lt {now deadline : UInt64}
    (h : Saturating.add now queueOverflowRetryInterval < deadline) :
    now.toNat + queueOverflowRetryInterval.toNat < deadline.toNat := by
  rw [UInt64.lt_iff_toNat_lt, Saturating.toNat_add] at h
  have := deadline.toNat_lt
  omega

/-! ## A whole call -/

variable (world)

/-- A call is bounded, gives the last outcome and never sends an expired message. -/
theorem withQueueOverflowRetry_bounded (expiresAt : Option UInt32) :
    ∃ ended, withQueueOverflowRetry world expiresAt = some ended ∧
      Bounded world expiresAt ended := by
  cases expiresAt with
  | none =>
      refine ⟨_, rfl, ⟨Nat.le_refl 1, ?_⟩, rfl, ?_, fun _ ↦ rfl, ?_⟩
      · exact Nat.le_add_left 1 30
      · exact fun i hi ↦ absurd (Nat.lt_of_succ_lt_succ hi) (Nat.not_lt_zero i)
      · rintro - expires ⟨⟩
  | some expires =>
      obtain ⟨result, hdone⟩ := exists_turn_done world (expires.toUInt64 * 1000)
      obtain ⟨ended, hended⟩ := exists_loop (Nat.lt_succ_self queueOverflowMaxRetries) hdone
      obtain ⟨hends, hle⟩ := ends_of_loop hended
      obtain ⟨n, hcalls, hlast⟩ := hends.last
      have hearlier : ∀ i, i + 1 < ended.calls →
          ∃ pause, turn world (expires.toUInt64 * 1000) i = .again pause := by
        intro i hi
        obtain ⟨pause, -, hturn⟩ := hends.earlier i hi
        rw [Nat.zero_add] at hturn
        exact ⟨pause, hturn⟩
      refine ⟨ended, hended, ⟨by omega, hle⟩, ?_, ?_, ?_, ?_⟩
      · rw [Nat.zero_add] at hlast
        rw [hcalls, Nat.add_sub_cancel]
        exact eq_outcome_of_turn hlast
      · intro i hi
        obtain ⟨pause, hturn⟩ := hearlier i hi
        exact (of_turn_again hturn).1
      · rintro ⟨⟩
      · rintro hexact expires' hexpires i hpos hi
        obtain rfl := Option.some.inj hexpires
        obtain ⟨i, rfl⟩ := Nat.exists_eq_succ_of_ne_zero (Nat.ne_of_gt hpos)
        obtain ⟨pause, hturn⟩ := hearlier i hi
        have htime := add_lt_of_lt (of_turn_again hturn).2.2
        rw [toNat_deadline] at htime
        rw [Nat.succ_eq_add_one, hexact i hi]
        exact htime

end

end MessageDelivery

end BeeEngine
