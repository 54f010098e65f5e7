import LiveScene.Queue

/-!
# LiveScene.Effects

Requests to play effects. They are numbered from one in the order of their arrival, wait in a
queue, and are played together when they are delivered.
-/

namespace LiveScene

/-- A request that waits to be played. -/
structure EffectRequest where
  /-- Its number. -/
  sequence : Nat
  /-- The effect. -/
  target : String
  volume : Float
  pitch : Float
  /-- The running instance that asked for it. -/
  owner : String
deriving DecidableEq

/-- An effect that was played. -/
structure PlayedEffect where
  name : String
  volume : Float
  pitch : Float
  owner : String
deriving DecidableEq

/-- The effect that a request asks for. -/
def EffectRequest.played (r : EffectRequest) : PlayedEffect :=
  ⟨r.target, r.volume, r.pitch, r.owner⟩

/-- The requests that wait, and the number of the next. -/
structure EffectQueue where
  queue : Queue EffectRequest := {}
  /-- Counted without a bound, where a word of sixty-four bits would do for any run. -/
  next : Nat := 1

namespace EffectQueue

instance : Inhabited EffectQueue := ⟨{}⟩

/-- Appends a request, and answers its number. -/
def request (q : EffectQueue) (owner target : String) (volume pitch : Float) :
    EffectQueue × Nat :=
  (⟨q.queue.enqueue ⟨q.next, target, volume, pitch, owner⟩, q.next + 1⟩, q.next)

/-- Takes all requests. -/
def drain (q : EffectQueue) : List EffectRequest × EffectQueue :=
  (q.queue.drain.1, { q with queue := q.queue.drain.2 })

/-- Takes all requests to play them. -/
def deliver (q : EffectQueue) : List PlayedEffect × EffectQueue :=
  (q.drain.1.map EffectRequest.played, q.drain.2)

/-- The number of requests that wait. -/
def pending (q : EffectQueue) : Nat := q.queue.size

end EffectQueue

end LiveScene
