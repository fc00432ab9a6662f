import BeeEngine.Infra
import BeeEngine.Lib.Reporting

/-!
# Messages to a multifactor

How a message is sent and its effect awaited.  A computation emits the messages
that it hands to the network.
-/

namespace BeeEngine

namespace Multifactor

variable {Message T : Type}

/-- Sends a message.  The network answers, and the transaction may have failed. -/
def sendMessage (message : Message) (context : String)
    (answer : Except AppError ResultOfSendMessage) (txContext : String) :
    Reporting Message AppError ResultOfSendMessage := do
  Reporting.emit message
  let result ← inContext context answer
  ensureTxSuccess result txContext

/-- `poll_until` with its own bounds, on reads of the account. -/
def waitUntil (read : ℕ → Except AppError T) (predicate : T → Bool) :
    Reporting Message AppError Unit := do
  let _ ← (pollUntil AppError.new (fun i ↦ inContext "Multifactor get details" (read i))
    predicate none).1
  return ()

section

variable {message : Message} {context txContext : String}
  {answer : Except AppError ResultOfSendMessage} {read : ℕ → Except AppError T}
  {predicate : T → Bool}

theorem sendMessage_eq (message : Message) (context : String)
    (answer : Except AppError ResultOfSendMessage) (txContext : String) :
    sendMessage message context answer txContext =
      ⟨[message], inContext context answer >>= fun result ↦ ensureTxSuccess result txContext⟩ := by
  rw [sendMessage, Reporting.bind_of_ok rfl]
  cases inContext context answer <;> rfl

@[simp] theorem events_sendMessage : (sendMessage message context answer txContext).events =
    [message] := by
  rw [sendMessage_eq]

@[simp] theorem events_waitUntil :
    (waitUntil read predicate : Reporting Message AppError Unit).events = [] := by
  rw [waitUntil]
  cases (pollUntil AppError.new (fun i ↦ inContext "Multifactor get details" (read i))
    predicate none).1 <;> rfl

/-- A message whose effect is awaited is the only one that is sent. -/
theorem events_sendMessage_waitUntil {α : Type} (f : ResultOfSendMessage → α) :
    (do
      let result ← sendMessage message context answer txContext
      waitUntil read predicate
      return f result : Reporting Message AppError α).events = [message] := by
  cases hsend : (sendMessage message context answer txContext).result with
  | error e => rw [Reporting.bind_of_error hsend, events_sendMessage]
  | ok result =>
      rw [Reporting.bind_of_ok hsend, events_sendMessage]
      cases hwait : (waitUntil read predicate : Reporting Message AppError Unit).result with
      | error e => rw [Reporting.bind_of_error hwait, events_waitUntil]; rfl
      | ok _ => rw [Reporting.bind_of_ok hwait, events_waitUntil]; rfl

/-- A wait that succeeds has read an account that satisfies the predicate. -/
theorem of_waitUntil_eq_ok
    (h : (waitUntil read predicate : Reporting Message AppError Unit).result = .ok ()) :
    ∃ n data, read n = .ok data ∧ predicate data = true := by
  rw [waitUntil, Reporting.bind_result_eq_ok_iff] at h
  obtain ⟨data, hdata, -⟩ := h
  obtain ⟨n, hread, hpredicate⟩ := of_pollUntil_eq_ok hdata
  exact ⟨n, data, inContext_eq_ok_iff.mp hread, hpredicate⟩

end

end Multifactor

end BeeEngine
