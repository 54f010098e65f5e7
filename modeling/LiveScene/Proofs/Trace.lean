import LiveScene.Assembly

/-!
# LiveScene.Proofs.Trace

What holds after every event of a log, those inside batches included.

* `Event.trace` lists the assemblies that the application of an event goes through, and
  `Event.traceAll` does so for a log. A batch adds those of its events.
* `Event.forall_mem_traceAll` is the induction: what every event but a batch preserves holds
  all along.
-/

namespace LiveScene

namespace Event

mutual

/-- The assemblies after an event and after each event inside it. -/
def trace : Event → Assembly → List Assembly
  | batch events, a => traceAll events a ++ [applyAll events a]
  | e, a => [e.apply a]

/-- The assemblies after each event of a list, and after each inside those. -/
def traceAll : List Event → Assembly → List Assembly
  | [], _ => []
  | e :: r, a => trace e a ++ traceAll r (e.apply a)

end

/-- Whether an event stands for others. -/
def isBatch : Event → Bool
  | batch _ => true
  | _ => false

theorem trace_of_not_isBatch {e : Event} (h : e.isBatch = false) (a : Assembly) :
    trace e a = [e.apply a] := by
  cases e with
  | batch events => exact absurd h (by simp [isBatch])
  | _ => simp [trace]

/-- What every event but a batch preserves. -/
def Preserved (P : Assembly → Prop) : Prop :=
  ∀ (e : Event) (a : Assembly), e.isBatch = false → P a → P (e.apply a)

variable {P : Assembly → Prop}

mutual

theorem apply_of_preserved (step : Preserved P) (e : Event) (a : Assembly) (h : P a) :
    P (e.apply a) := by
  cases e with
  | batch events =>
      rw [apply]
      exact applyAll_of_preserved step events a h
  | _ => exact step _ a rfl h

/-- What every event but a batch preserves, every list of events does. -/
theorem applyAll_of_preserved (step : Preserved P) (events : List Event) (a : Assembly)
    (h : P a) : P (applyAll events a) := by
  cases events with
  | nil =>
      rw [applyAll]
      exact h
  | cons e r =>
      rw [applyAll]
      exact applyAll_of_preserved step r _ (apply_of_preserved step e a h)

end

mutual

theorem forall_mem_trace (step : Preserved P) (e : Event) (a : Assembly) (h : P a) :
    ∀ b ∈ trace e a, P b := by
  cases e with
  | batch events =>
      intro b hb
      rw [trace, List.mem_append, List.mem_singleton] at hb
      rcases hb with hb | rfl
      · exact forall_mem_traceAll step events a h b hb
      · exact applyAll_of_preserved step events a h
  | _ =>
      intro b hb
      rw [trace_of_not_isBatch rfl, List.mem_singleton] at hb
      exact hb ▸ step _ a rfl h

/-- What every event but a batch preserves holds after each event of a list. -/
theorem forall_mem_traceAll (step : Preserved P) (events : List Event) (a : Assembly)
    (h : P a) : ∀ b ∈ traceAll events a, P b := by
  cases events with
  | nil =>
      intro b hb
      rw [traceAll] at hb
      exact absurd hb List.not_mem_nil
  | cons e r =>
      intro b hb
      rw [traceAll, List.mem_append] at hb
      rcases hb with hb | hb
      · exact forall_mem_trace step e a h b hb
      · exact forall_mem_traceAll step r _ (apply_of_preserved step e a h) b hb

end

end Event

end LiveScene
