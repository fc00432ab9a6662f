import BeeEngine.Lib.Outcome
import BeeEngine.Lib.Text

/-!
# Errors and polling

The error type of the wallet, `poll_until`, and how a pending confirmation is
told from other errors.
-/

namespace BeeEngine

/-! ## Errors -/

structure AppError where
  message : String
  details : Option String
  module : Option String
  errorCode : Option String
  kind : Option String
  deriving DecidableEq, Repr

namespace AppError

def new (message : String) : AppError := ⟨message, none, none, none, none⟩

def withDetails (err : AppError) (details : String) : AppError :=
  { err with details := some details }

def withCode (err : AppError) (code : String) : AppError := { err with errorCode := some code }

def withKind (err : AppError) (kind : String) : AppError := { err with kind := some kind }

def withContext (err : AppError) (context : String) : AppError :=
  { err with
    message := context ++ ": " ++ err.message
    details := some (match err.details with
      | some details => context ++ "; " ++ details
      | none => context) }

@[simp] theorem kind_withContext (err : AppError) (context : String) :
    (err.withContext context).kind = err.kind := rfl

end AppError

/-- The error of a step in its context. -/
def inContext {α : Type} (context : String) (x : Except AppError α) : Except AppError α :=
  x.mapError (·.withContext context)

theorem inContext_eq_ok_iff {α : Type} {context : String} {x : Except AppError α} {a : α} :
    inContext context x = .ok a ↔ x = .ok a := by
  rw [inContext, Outcome.mapError_eq_ok_iff]

/-! ## Polling -/

/-- The attempts from the `i`th on: the result, and the number of attempts made
in all. -/
def pollLoop {T E : Type} (fetchData : ℕ → Except E T) (predicate : T → Bool) (maxAttemptsErr : E) :
    ℕ → ℕ → Except E T × ℕ
  | 0, i => (.error maxAttemptsErr, i)
  | left + 1, i =>
      match fetchData i with
      | .error e => (.error e, i + 1)
      | .ok data =>
          if predicate data then (.ok data, i + 1)
          else pollLoop fetchData predicate maxAttemptsErr left (i + 1)

def maxAttemptsText (maxAttempts : UInt32) : String :=
  "Wait for property. Max " ++ toString maxAttempts.toNat ++ " attempts reached."

/-- `poll_until`, whose `i`th attempt fetches `fetch_data i`, with the number of
attempts that were made. -/
def pollUntil {T E : Type} (fromString : String → E) (fetchData : ℕ → Except E T)
    (predicate : T → Bool) (maxAttempts : Option UInt32) : Except E T × ℕ :=
  let maxAttempts := maxAttempts.getD 100
  pollLoop fetchData predicate (fromString (maxAttemptsText maxAttempts)) maxAttempts.toNat 0

section

variable {T E : Type} {fetchData fetchData' : ℕ → Except E T} {predicate : T → Bool}
  {maxAttemptsErr : E}

/-- The data of an attempt do not satisfy the predicate. -/
def NotYet (fetchData : ℕ → Except E T) (predicate : T → Bool) (i : ℕ) : Prop :=
  ∃ data, fetchData i = .ok data ∧ predicate data = false

/-- How a loop over the attempts from `first` up to `last` can end. -/
inductive Polled (fetchData : ℕ → Except E T) (predicate : T → Bool) (maxAttemptsErr : E)
    (first last : ℕ) : Except E T × ℕ → Prop where
  | found {n : ℕ} {data : T} (hfirst : first ≤ n) (hn : n < last)
      (hbefore : ∀ k, first ≤ k → k < n → NotYet fetchData predicate k)
      (hfetch : fetchData n = .ok data) (hdata : predicate data = true) :
      Polled fetchData predicate maxAttemptsErr first last (.ok data, n + 1)
  | failed {n : ℕ} {e : E} (hfirst : first ≤ n) (hn : n < last)
      (hbefore : ∀ k, first ≤ k → k < n → NotYet fetchData predicate k)
      (hfetch : fetchData n = .error e) :
      Polled fetchData predicate maxAttemptsErr first last (.error e, n + 1)
  | exhausted (hall : ∀ k, first ≤ k → k < last → NotYet fetchData predicate k) :
      Polled fetchData predicate maxAttemptsErr first last (.error maxAttemptsErr, last)

theorem NotYet.cons {i : ℕ} (hi : NotYet fetchData predicate i) {n : ℕ}
    (h : ∀ k, i + 1 ≤ k → k < n → NotYet fetchData predicate k) :
    ∀ k, i ≤ k → k < n → NotYet fetchData predicate k := by
  intro k hk hlt
  obtain rfl | hk := Nat.eq_or_lt_of_le hk
  · exact hi
  · exact h k hk hlt

theorem polled_pollLoop (left i : ℕ) :
    Polled fetchData predicate maxAttemptsErr i (i + left)
      (pollLoop fetchData predicate maxAttemptsErr left i) := by
  induction left generalizing i with
  | zero => exact .exhausted fun k hk hlt ↦ absurd hlt (Nat.not_lt.mpr hk)
  | succ left ih =>
      rw [pollLoop]
      cases hfetch : fetchData i with
      | error e =>
          apply Polled.failed (Nat.le_refl i) (by omega) _ hfetch
          exact fun k hk hlt ↦ absurd hlt (Nat.not_lt.mpr hk)
      | ok data =>
          dsimp only
          split
          · rename_i hdata
            apply Polled.found (Nat.le_refl i) (by omega) _ hfetch hdata
            exact fun k hk hlt ↦ absurd hlt (Nat.not_lt.mpr hk)
          · rename_i hdata
            have hi : NotYet fetchData predicate i := ⟨data, hfetch, Bool.eq_false_iff.mpr hdata⟩
            have hrest := ih (i + 1)
            rw [show i + 1 + left = i + (left + 1) by omega] at hrest
            generalize pollLoop fetchData predicate maxAttemptsErr left (i + 1) = polled at hrest ⊢
            cases hrest with
            | found hfirst hn hbefore hfetch hdata =>
                exact .found (by omega) hn (hi.cons hbefore) hfetch hdata
            | failed hfirst hn hbefore hfetch =>
                exact .failed (by omega) hn (hi.cons hbefore) hfetch
            | exhausted hall => exact .exhausted (hi.cons hall)

/-- A poll that succeeds has fetched data that satisfy the predicate. -/
theorem of_pollUntil_eq_ok {fromString : String → E} {maxAttempts : Option UInt32} {data : T}
    (h : (pollUntil fromString fetchData predicate maxAttempts).1 = .ok data) :
    ∃ n, fetchData n = .ok data ∧ predicate data = true := by
  have hpolled := @polled_pollLoop T E fetchData predicate
    (fromString (maxAttemptsText (maxAttempts.getD 100))) (maxAttempts.getD 100).toNat 0
  change (pollLoop _ _ _ _ _).1 = _ at h
  generalize pollLoop fetchData predicate _ _ 0 = polled at hpolled h
  cases hpolled with
  | found hfirst hn hbefore hfetch hdata =>
      obtain rfl := Except.ok.inj h
      exact ⟨_, hfetch, hdata⟩
  | failed hfirst hn hbefore hfetch => cases h
  | exhausted hall => cases h

/-- A poll succeeds exactly if an attempt within the bound satisfies the predicate, and
no attempt before it fails. -/
theorem exists_pollUntil_eq_ok_iff {fromString : String → E} {maxAttempts : Option UInt32} :
    (∃ data, (pollUntil fromString fetchData predicate maxAttempts).1 = .ok data) ↔
      ∃ n < (maxAttempts.getD 100).toNat, (∀ i < n, ∃ data, fetchData i = .ok data) ∧
        ∃ data, fetchData n = .ok data ∧ predicate data = true := by
  have hpolled := @polled_pollLoop T E fetchData predicate
    (fromString (maxAttemptsText (maxAttempts.getD 100))) (maxAttempts.getD 100).toNat 0
  change (∃ data, (pollLoop _ _ _ _ _).1 = _) ↔ _
  generalize pollLoop fetchData predicate _ _ 0 = polled at hpolled ⊢
  rw [Nat.zero_add] at hpolled
  constructor
  · rintro ⟨data, hdata⟩
    cases hpolled with
    | found hfirst hn hbefore hfetch hdata' =>
        refine ⟨_, hn, fun i hi ↦ ?_, _, hfetch, hdata'⟩
        obtain ⟨data, hread, -⟩ := hbefore i (Nat.zero_le i) hi
        exact ⟨data, hread⟩
    | failed hfirst hn hbefore hfetch => cases hdata
    | exhausted hall => cases hdata
  · rintro ⟨n, hn, hreads, data, hread, hdata⟩
    have hsatisfied : ¬NotYet fetchData predicate n := by
      rintro ⟨data', hread', hdata'⟩
      obtain rfl := Except.ok.inj (hread.symm.trans hread')
      rw [hdata] at hdata'
      cases hdata'
    cases hpolled with
    | found hfirst hn hbefore hfetch hdata' => exact ⟨_, rfl⟩
    | @failed m e hfirst hm hbefore hfetch =>
        obtain hlt | rfl | hgt := lt_trichotomy m n
        · obtain ⟨data', hread'⟩ := hreads m hlt
          rw [hread'] at hfetch
          cases hfetch
        · rw [hread] at hfetch
          cases hfetch
        · exact absurd (hbefore n (Nat.zero_le n) hgt) hsatisfied
    | exhausted hall => exact absurd (hall n (Nat.zero_le n) hn) hsatisfied

theorem pollUntil_congr {fromString : String → E} {maxAttempts : Option UInt32}
    (h : ∀ i, fetchData i = fetchData' i) :
    pollUntil fromString fetchData predicate maxAttempts =
      pollUntil fromString fetchData' predicate maxAttempts := by
  rw [funext h]

/-- A first attempt that fails ends the poll. -/
theorem pollUntil_eq_error {fromString : String → E} {e : E} (h : fetchData 0 = .error e) :
    (pollUntil fromString fetchData predicate none).1 = .error e := by
  change (pollLoop fetchData predicate _ (99 + 1) 0).1 = _
  rw [pollLoop, h]

/-- An answer at the second attempt is given. -/
theorem pollUntil_eq_second {fromString : String → E} {data data' : T}
    (h : fetchData 0 = .ok data) (hdata : predicate data = false) (h' : fetchData 1 = .ok data')
    (hdata' : predicate data' = true) :
    (pollUntil fromString fetchData predicate none).1 = .ok data' := by
  change (pollLoop fetchData predicate _ (98 + 1 + 1) 0).1 = _
  rw [pollLoop, h]
  simp only [hdata, Bool.false_eq_true, if_false]
  rw [pollLoop, h']
  simp only [hdata', if_true]

end

/-! ## Pending confirmations -/

/-- The two texts of `poll_until`'s error. -/
def isMaxAttempts (text : String) : Bool :=
  Text.containsText "Wait for property. Max" text && Text.containsText "attempts reached" text

def isTimeout (text : String) : Bool :=
  Text.containsText "timed out" text || Text.containsText "timeout" text

def isConfirmationPendingError (err : AppError) : Bool :=
  isMaxAttempts err.message ||
    (err.details.any fun details ↦ isMaxAttempts details || isTimeout details) ||
    isTimeout err.message

theorem isMaxAttempts_text (n : String) :
    isMaxAttempts ("Wait for property. Max " ++ n ++ " attempts reached.") = true := by
  have hmax : Text.containsText "Wait for property. Max"
      ("Wait for property. Max " ++ n ++ " attempts reached.") = true := by
    apply Text.containsText_of_append "" (" " ++ n ++ " attempts reached.")
    have hfirst : "Wait for property. Max " = "" ++ ("Wait for property. Max" ++ " ") := by
      decide +kernel
    rw [hfirst]
    simp only [String.append_assoc]
  have hreached : Text.containsText "attempts reached"
      ("Wait for property. Max " ++ n ++ " attempts reached.") = true := by
    apply Text.containsText_of_append ("Wait for property. Max " ++ n ++ " ") "."
    have hlast : " attempts reached." = " " ++ ("attempts reached" ++ ".") := by decide +kernel
    rw [hlast]
    simp only [String.append_assoc]
  rw [isMaxAttempts, hmax, hreached]
  rfl

/-- The error of `poll_until` is a pending confirmation. -/
theorem isConfirmationPendingError_maxAttempts (maxAttempts : UInt32) :
    isConfirmationPendingError (.new (maxAttemptsText maxAttempts)) = true := by
  have hmax : isMaxAttempts (AppError.new (maxAttemptsText maxAttempts)).message = true :=
    isMaxAttempts_text (toString maxAttempts.toNat)
  rw [isConfirmationPendingError, hmax, Bool.true_or, Bool.true_or]

/-! ## Transactions -/

structure KeyPair where
  publicKey : String
  secretKey : String
  deriving DecidableEq, Repr

/-- What a send returns. -/
structure ResultOfSendMessage where
  messageHash : Option String
  aborted : Option Bool
  exitCode : Option Int
  deriving DecidableEq, Repr

def ensureTxSuccess (result : ResultOfSendMessage) (context : String) :
    Except AppError ResultOfSendMessage :=
  let aborted := result.aborted.getD false
  let exitCode := result.exitCode.getD 0
  if aborted ∨ exitCode > 0 then
    .error (.new (context ++ ": tx aborted=" ++ toString aborted ++ ", exit_code=" ++
      toString exitCode))
  else .ok result

/-- A transaction that succeeds is returned as it is. -/
theorem eq_of_ensureTxSuccess {result result' : ResultOfSendMessage} {context : String}
    (h : ensureTxSuccess result context = .ok result') : result' = result := by
  rw [ensureTxSuccess] at h
  split at h
  · cases h
  · exact (Except.ok.inj h).symm

end BeeEngine
