/-!
# LiveScene.Queue

A queue that is emptied at once: messages are appended one by one, and all that wait are taken
together, oldest first.
-/

namespace LiveScene

/-- Messages that wait, oldest first. -/
structure Queue (α : Type) where
  waiting : List α := []

namespace Queue

variable {α : Type}

instance : Inhabited (Queue α) := ⟨{}⟩

/-- Appends a message. -/
def enqueue (q : Queue α) (message : α) : Queue α := ⟨q.waiting ++ [message]⟩

/-- Takes all messages. -/
def drain (q : Queue α) : List α × Queue α := (q.waiting, {})

/-- The number of messages. -/
def size (q : Queue α) : Nat := q.waiting.length

/-- Whether no message waits. -/
def isEmpty (q : Queue α) : Bool := q.waiting.isEmpty

@[simp] theorem waiting_enqueue (q : Queue α) (message : α) :
    (q.enqueue message).waiting = q.waiting ++ [message] := rfl

@[simp] theorem drain_enqueue (q : Queue α) (message : α) :
    (q.enqueue message).drain = (q.drain.1 ++ [message], {}) := rfl

end Queue

end LiveScene
