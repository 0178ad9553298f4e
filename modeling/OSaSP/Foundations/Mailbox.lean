import Mathlib.Data.List.Count
import Mathlib.Data.List.Nodup

/-!
# Mailboxes that may drop

A message that is sent while others wait may be dropped; a message sent to an
empty mailbox is kept.  Signals behave like this.  Whatever is dropped, what is
delivered is a part of what was sent, in the same order and beginning with the
same message, so nothing is delivered twice and nothing is invented.
-/

namespace OSaSP

/-- What was sent so far, what was delivered and what waits. -/
structure Mailbox (Message : Type u) where
  sent : List Message
  delivered : List Message
  waiting : List Message

namespace Mailbox

variable {Message : Type u}

/-- The mailbox before the first message. -/
def empty : Mailbox Message where
  sent := []
  delivered := []
  waiting := []

/-- A message is sent; only one that finds others waiting may be dropped. -/
def send
    (mailbox : Mailbox Message)
    (message : Message)
    (kept : Bool) : Option (Mailbox Message) :=
  if kept then
    some { mailbox with
      sent := mailbox.sent ++ [message]
      waiting := mailbox.waiting ++ [message] }
  else if mailbox.waiting ≠ [] then
    some { mailbox with sent := mailbox.sent ++ [message] }
  else none

/-- The first waiting message is delivered. -/
def deliver (mailbox : Mailbox Message) : Option (Mailbox Message) :=
  match mailbox.waiting with
  | [] => none
  | message :: waiting =>
      some { mailbox with
        delivered := mailbox.delivered ++ [message], waiting := waiting }

/-- What has left or waits is a part of what was sent, from the first message
on. -/
structure Honest (mailbox : Mailbox Message) : Prop where
  part : (mailbox.delivered ++ mailbox.waiting).Sublist mailbox.sent
  first : (mailbox.delivered ++ mailbox.waiting).head? = mailbox.sent.head?

theorem honest_empty : (empty : Mailbox Message).Honest where
  part := .slnil
  first := rfl

@[simp] theorem sent_empty : (empty : Mailbox Message).sent = [] := rfl

@[simp] theorem delivered_empty :
    (empty : Mailbox Message).delivered = [] := rfl

section Operations

variable {mailbox next : Mailbox Message} {message : Message} {kept : Bool}

/-- What sending changes. -/
theorem send_cases (sends : mailbox.send message kept = some next) :
    next.sent = mailbox.sent ++ [message] ∧
      next.delivered = mailbox.delivered ∧
      (next.waiting = mailbox.waiting ++ [message] ∨
        next.waiting = mailbox.waiting ∧ mailbox.waiting ≠ []) := by
  unfold send at sends
  split_ifs at sends with keeps others
  · cases sends
    exact ⟨rfl, rfl, .inl rfl⟩
  · cases sends
    exact ⟨rfl, rfl, .inr ⟨rfl, others⟩⟩

/-- What delivering changes. -/
theorem deliver_cases (delivers : mailbox.deliver = some next) :
    ∃ message, mailbox.waiting = message :: next.waiting ∧
      next.delivered = mailbox.delivered ++ [message] ∧
      next.sent = mailbox.sent := by
  unfold deliver at delivers
  split at delivers
  · cases delivers
  · rename_i message waiting present
    cases delivers
    exact ⟨message, present, rfl, rfl⟩

theorem Honest.send
    (honest : mailbox.Honest)
    (sends : mailbox.send message kept = some next) :
    next.Honest := by
  obtain ⟨sent, delivered, waits | ⟨waits, others⟩⟩ := send_cases sends
  · constructor
    · rw [sent, delivered, waits, ← List.append_assoc]
      exact honest.part.append (.refl _)
    · rw [sent, delivered, waits, ← List.append_assoc, List.head?_append,
        honest.first, List.head?_append]
  · constructor
    · rw [sent, delivered, waits]
      exact honest.part.trans (List.sublist_append_left _ _)
    · have some : mailbox.sent ≠ [] := by
        rintro none
        have nothing := honest.part
        rw [none, List.sublist_nil, List.append_eq_nil_iff] at nothing
        exact others nothing.2
      rw [sent, delivered, waits, honest.first,
        List.head?_append_of_ne_nil _ some]

theorem Honest.deliver
    (honest : mailbox.Honest)
    (delivers : mailbox.deliver = some next) :
    next.Honest := by
  obtain ⟨message, waits, delivered, sent⟩ := deliver_cases delivers
  have same : next.delivered ++ next.waiting =
      mailbox.delivered ++ mailbox.waiting := by
    rw [delivered, waits, List.append_assoc, List.singleton_append]
  exact ⟨by rw [same, sent]; exact honest.part,
    by rw [same, sent]; exact honest.first⟩

end Operations

section Consequences

variable {mailbox : Mailbox Message}

/-- Messages are delivered in the order in which they were sent. -/
theorem Honest.delivered_sublist (honest : mailbox.Honest) :
    mailbox.delivered.Sublist mailbox.sent :=
  (List.sublist_append_left _ _).trans honest.part

/-- No message is delivered more often than it was sent. -/
theorem Honest.count_le
    [BEq Message]
    (honest : mailbox.Honest)
    (message : Message) :
    mailbox.delivered.count message ≤ mailbox.sent.count message :=
  honest.delivered_sublist.count_le message

/-- When nothing waits, the first message has been delivered. -/
theorem Honest.head_delivered
    (honest : mailbox.Honest)
    (nothing : mailbox.waiting = []) :
    mailbox.delivered.head? = mailbox.sent.head? := by
  rw [← honest.first, nothing, List.append_nil]

end Consequences

end Mailbox
end OSaSP
