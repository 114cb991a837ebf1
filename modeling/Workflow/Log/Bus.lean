namespace Workflow

/-- Everything that was sent over a bus, oldest first, and how many of the last entries are kept. -/
structure Bus (α : Type) where
  capacity : Nat
  sent : List α := []

/-- What a subscriber receives. -/
inductive Received (α : Type) where
  | entry (entry : α)
  | lagged (missed : Nat)
  | nothing
  deriving DecidableEq, Repr

/-- A subscriber, by the number of entries that lie behind it. -/
structure Subscriber where
  next : Nat
  deriving DecidableEq, Repr

namespace Bus

variable {α : Type}

/-- A bus that keeps the asked number of entries, rounded up to a power of two. -/
def ofCapacity (entries : Nat) : Bus α := { capacity := entries.nextPowerOfTwo }

def send (bus : Bus α) (entry : α) : Bus α := { bus with sent := bus.sent ++ [entry] }

/-- A new subscriber, which sees later entries only. -/
def subscribe (bus : Bus α) : Subscriber := ⟨bus.sent.length⟩

/-- The position of the oldest entry that is kept. -/
def oldest (bus : Bus α) : Nat := bus.sent.length - bus.capacity

/-- The next entry for a subscriber. One that has fallen behind by more than the capacity is told
how many entries it missed and goes on with the oldest one that is kept. -/
def receive (bus : Bus α) (subscriber : Subscriber) : Received α × Subscriber :=
  if subscriber.next < bus.oldest then
    (.lagged (bus.oldest - subscriber.next), ⟨bus.oldest⟩)
  else
    match bus.sent[subscriber.next]? with
    | some entry => (.entry entry, ⟨subscriber.next + 1⟩)
    | none => (.nothing, subscriber)

end Bus

end Workflow
