import LiveScene.Proofs.Performer.Delay
import LiveScene.Proofs.Performer.Scope
import LiveScene.Proofs.Scene.Deeds

/-!
# LiveScene.Proofs.Scene.Delay

What becomes of actions that are put off in a run of a scene.

* `DelayedRun` singles out one such moment of a run, and the first poll at which the delay is over.
* `DelayedRun.fires_once` says that the actions run once, at this poll, unless their timer was named
  in between. Then they do not run at all.
* `DelayedRun.effect_eq`: what runs is the list of actions with the parameters of the delay, and
  without its item. So a delay only delays where no placeholder of the item is met.
-/

namespace LiveScene

open Performer
open Deed (replay collectedAll fires Along)

namespace Scene

/-- A run of a scene in which a delay is reached in its context, after the deeds `a`, and in which
the timers by the clock are asked for at `now`, after the deeds `b`. The delay is over by then,
and was not when they were asked for before. -/
structure DelayedRun (s : Scene) (ops : List Operation) (i : Invocation) (delay : Action)
    (ms : UInt64) (actions : List Action) (a b : List Deed) (now : Duration) (c : List Deed) :
    Prop where
  reachable : s.performer.scheduler.Reachable
  /-- Others who share the timers ask for theirs only. -/
  apart : Always Apart s ops
  task_eq : delay.task = .delay ms actions
  context_eq : i.context = .fullCapability
  deeds_eq : s.deedsAll ops = a ++ .act i delay :: (b ++ .collect .wallClock now :: c)
  early : ∀ time, .collect .wallClock time ∈ b →
    ¬ i.now + (Duration.ofMillis ms).longer (.ofMillis 1) ≤ time
  due : i.now + (Duration.ofMillis ms).longer (.ofMillis 1) ≤ now

/-- The timer of actions that are put off after some deeds, when its time has come. -/
def delayedFired (s : Scene) (a : List Deed) (i : Invocation) (actions : List Action) :
    FiredTimer where
  owner := (replay a s.performer).owner
  id := delayId (replay a s.performer).delays
  body := .actions actions
  params := i.params
  serial := (replay a s.performer).scheduler.nextSerial
  repeats := false

variable {s : Scene} {ops : List Operation} {i : Invocation} {delay : Action} {ms : UInt64}
  {actions : List Action} {a b c : List Deed} {now : Duration}

namespace DelayedRun

theorem apart_before (h : s.DelayedRun ops i delay ms actions a b now c) :
    Along Deed.Apart a s.performer := by
  have hall := along_apart_deedsAll h.apart
  rw [h.deeds_eq] at hall
  exact (Deed.along_append.mp hall).1

theorem apart_after (h : s.DelayedRun ops i delay ms actions a b now c) :
    Along Deed.Apart (b ++ .collect .wallClock now :: c)
      ((Deed.act i delay).run (replay a s.performer)).1 := by
  have hall := along_apart_deedsAll h.apart
  rw [h.deeds_eq] at hall
  exact (Deed.along_append.mp hall).2.2

/-- When the delay has been reached, its actions wait. -/
theorem waiting (h : s.DelayedRun ops i delay ms actions a b now c) :
    Waiting ((Deed.act i delay).run (replay a s.performer)).1 (replay a s.performer).delays
      (delayedTimer i ms actions (replay a s.performer).scheduler.nextSerial) :=
  waiting_delay (Deed.numbered_replay h.reachable.numbered h.apart_before) h.context_eq h.task_eq

theorem toFired_eq (s : Scene) (a : List Deed) (i : Invocation) (delay : Action) (ms : UInt64)
    (actions : List Action) :
    (delayedTimer i ms actions (replay a s.performer).scheduler.nextSerial).toFired
      ((Deed.act i delay).run (replay a s.performer)).1.owner
      (delayId (replay a s.performer).delays) = s.delayedFired a i actions := by
  rw [Deed.run, owner_act]
  rfl

/-- The timer of the delay is collected once, if it was not named before. -/
theorem filter_collectedAll (h : s.DelayedRun ops i delay ms actions a b now c) :
    (collectedAll (s.deedsAll ops) s.performer).filter
        (fun f => f.serial = (s.delayedFired a i actions).serial) =
      if b.any (Deed.names (s.delayedFired a i actions).id) then []
      else [s.delayedFired a i actions] := by
  have hbefore : (collectedAll a s.performer).filter
      (fun f => f.serial = (s.delayedFired a i actions).serial) = [] := by
    refine List.filter_eq_nil_iff.mpr fun f hf hserial => ?_
    have hlt := Deed.serial_lt_of_mem_collectedAll h.reachable.numbered h.apart_before hf
    exact Nat.ne_of_lt hlt (of_decide_eq_true hserial)
  rw [h.deeds_eq, Deed.collectedAll_append, List.filter_append, hbefore, List.nil_append]
  rw [← toFired_eq s a i delay ms]
  exact h.waiting.filter_collectedAll h.apart_after h.early h.due

/-- The timer of the delay is among those that are collected, if it was not named before. -/
theorem mem_collect (h : s.DelayedRun ops i delay ms actions a b now c)
    (hnames : b.any (Deed.names (s.delayedFired a i actions).id) = false) :
    s.delayedFired a i actions ∈
      ((replay (a ++ .act i delay :: b) s.performer).collect .wallClock now).2 := by
  have hapart := (Deed.along_append.mp h.apart_after).1
  have hwaiting := h.waiting.replay hapart hnames h.early
  rw [Deed.replay_append, Deed.replay_cons]
  generalize hq : replay b ((Deed.act i delay).run (replay a s.performer)).1 = q at hwaiting ⊢
  have hfired := toFired_eq s a i delay ms actions
  rw [← Deed.owner_replay hapart, hq] at hfired
  have hcollected := (hwaiting.waits.filter_due hwaiting.numbered .wallClock now
    q.stage.cells).trans (if_pos ⟨rfl, h.due⟩)
  rw [hfired] at hcollected
  exact (List.mem_filter.mp (hcollected ▸ List.mem_singleton_self _)).1

/-- At the poll at which the delay is over, the actions run when the turn of their timer comes, if
it was not named before. -/
theorem exists_turn (h : s.DelayedRun ops i delay ms actions a b now c)
    (hnames : b.any (Deed.names (s.delayedFired a i actions).id) = false) :
    ∃ p before after later,
      (replay (a ++ .act i delay :: b) s.performer).collect .wallClock now =
        (p, before ++ s.delayedFired a i actions :: after) ∧
      c = batchDeeds .fullCapability now before p ++
        .fire .fullCapability now (s.delayedFired a i actions) ::
          (performAllDeeds ⟨.fullCapability, i.params, none, now⟩ actions
            (replay (batchDeeds .fullCapability now before p) p) ++ later) := by
  have hcollect : s.deedsAll ops = (a ++ .act i delay :: b) ++ .collect .wallClock now :: c := by
    rw [h.deeds_eq, List.append_assoc, List.cons_append]
  obtain ⟨others, hc⟩ := deedsAll_collect hcollect
  have hmem := h.mem_collect hnames
  generalize (replay (a ++ .act i delay :: b) s.performer).collect .wallClock now = collected
    at hc hmem
  obtain ⟨p, fired⟩ := collected
  obtain ⟨before, after, hsplit⟩ := List.append_of_mem hmem
  obtain ⟨rest, hbatch⟩ := batchDeeds_split .fullCapability now before after
    (s.delayedFired a i actions) p
  refine ⟨p, before, after, rest ++ others, Prod.ext rfl hsplit, ?_⟩
  have hfired : fired = before ++ s.delayedFired a i actions :: after := hsplit
  have hcontext : TimerFamily.wallClock.context = .fullCapability := rfl
  rw [hc, hcontext, hfired, hbatch, List.append_assoc, List.append_assoc]
  rfl

end DelayedRun

/-- The item of an identifier, as placeholders name it. -/
def itemOf (id : String) : ItemScope := ⟨"item", .obj [("id", .str id)]⟩

/-- For an item, an effect is put off for ten milliseconds, which the next poll finds over. -/
def chimeLater : List Operation :=
  [.execute [.mk (.delay 10 [chime]) none] (atStart (some (itemOf "a"))), .poll (.ofMillis 10)]

theorem delayedRun_chimeLater :
    blank.DelayedRun chimeLater (atStart (some (itemOf "a"))) (.mk (.delay 10 [chime]) none) 10
      [chime] [] [.playEffects, .takeForwarded] (.ofMillis 10)
      [.fire .fullCapability (.ofMillis 10)
          (blank.delayedFired [] (atStart (some (itemOf "a"))) [chime]),
        .act ⟨.fullCapability, ∅, none, .ofMillis 10⟩ chime] where
  reachable := ⟨_, [], rfl⟩
  apart := ⟨trivial, trivial, trivial⟩
  task_eq := rfl
  context_eq := rfl
  deeds_eq := rfl
  early := fun time hmem => by simp at hmem
  due := by decide

/-! ### When the actions run -/

/-- Actions that are put off run once, and that at the first poll at which the delay is over, unless
their timer was named in between. Then they do not run at all. -/
theorem DelayedRun.fires_once (h : s.DelayedRun ops i delay ms actions a b now c) :
    (fires (s.deedsAll ops)).filter
        (fun f => f.serial = (s.delayedFired a i actions).serial) =
      (if b.any (Deed.names (s.delayedFired a i actions).id) then []
        else [s.delayedFired a i actions]) ∧
    (b.any (Deed.names (s.delayedFired a i actions).id) = false →
      ∃ p before after later,
        (replay (a ++ .act i delay :: b) s.performer).collect .wallClock now =
          (p, before ++ s.delayedFired a i actions :: after) ∧
        c = batchDeeds .fullCapability now before p ++
          .fire .fullCapability now (s.delayedFired a i actions) ::
            (performAllDeeds ⟨.fullCapability, i.params, none, now⟩ actions
              (replay (batchDeeds .fullCapability now before p) p) ++ later)) := by
  refine ⟨?_, h.exists_turn⟩
  rw [← h.filter_collectedAll]
  refine (s.accounted_deedsAll ops).filter_serial fun f hf hserial => ?_
  have hmem : f ∈ (collectedAll (s.deedsAll ops) s.performer).filter
      (fun f => f.serial = (s.delayedFired a i actions).serial) :=
    List.mem_filter.mpr ⟨hf, decide_eq_true hserial⟩
  rw [h.filter_collectedAll] at hmem
  split at hmem
  · cases hmem
  · rw [List.mem_singleton.mp hmem]
    rfl

theorem fires_once_chimeLater :
    (fires (blank.deedsAll chimeLater)).filter (fun f => f.serial = 0) =
      [blank.delayedFired [] (atStart (some (itemOf "a"))) [chime]] :=
  delayedRun_chimeLater.fires_once.1

/-- An effect is put off, and then a timer is started under the id that was made for the delay. -/
def chimeReplaced : List Operation :=
  [.execute [.mk (.delay 10 [chime]) none,
      .mk (.startTimer "delay#0" (.millis 1000) [] false) none] (atStart none),
    .poll (.ofMillis 10)]

/-- The delay is over at the poll, nothing was stopped, and its actions do not run. -/
theorem fires_chimeReplaced :
    (blank.deedsAll chimeReplaced).any Deed.isCollect = true ∧
      (fires (blank.deedsAll chimeReplaced)).map FiredTimer.id = [] := by
  decide +kernel

/-! ### What the actions do -/

/-- At the first poll at which the delay is over, unless their timer was named in between, the
actions do what they would do if they were run there with the parameters of the delay and without
its item. If no placeholder of the item is met, they do what they would do with both. -/
theorem DelayedRun.effect_eq (h : s.DelayedRun ops i delay ms actions a b now c)
    (hnames : b.any (Deed.names (s.delayedFired a i actions).id) = false) :
    ∃ p before after body later,
      (replay (a ++ .act i delay :: b) s.performer).collect .wallClock now =
        (p, before ++ s.delayedFired a i actions :: after) ∧
      c = batchDeeds .fullCapability now before p ++
        .fire .fullCapability now (s.delayedFired a i actions) :: (body ++ later) ∧
      ∀ q, q = replay (batchDeeds .fullCapability now before p) p →
        runEach Deed.run body q =
          performAll ⟨.fullCapability, i.params, none, now⟩ actions q ∧
        ((∀ e ∈ reachedAll ⟨.fullCapability, i.params, i.scope, now⟩ actions q,
            e.task.IsPlain i.scope) →
          runEach Deed.run body q =
            performAll ⟨.fullCapability, i.params, i.scope, now⟩ actions q) := by
  obtain ⟨p, before, after, later, hcollect, hc⟩ := h.exists_turn hnames
  refine ⟨p, before, after, _, later, hcollect, hc, ?_⟩
  rintro q rfl
  have hbody := runEach_performAllDeeds ⟨.fullCapability, i.params, none, now⟩ actions
    (replay (batchDeeds .fullCapability now before p) p)
  exact ⟨hbody, fun hplain => hbody.trans (performAll_unscoped rfl actions _ hplain)⟩

theorem effect_eq_chimeLater :
    ∃ p before body later,
      [.fire .fullCapability (.ofMillis 10)
          (blank.delayedFired [] (atStart (some (itemOf "a"))) [chime]),
        .act ⟨.fullCapability, ∅, none, .ofMillis 10⟩ chime] =
        batchDeeds .fullCapability (.ofMillis 10) before p ++
          .fire .fullCapability (.ofMillis 10)
            (blank.delayedFired [] (atStart (some (itemOf "a"))) [chime]) :: (body ++ later) ∧
      ∀ q, q = replay (batchDeeds .fullCapability (.ofMillis 10) before p) p →
        runEach Deed.run body q =
          performAll ⟨.fullCapability, ∅, some (itemOf "a"), .ofMillis 10⟩ [chime] q := by
  obtain ⟨p, before, -, body, later, -, hdeeds, heffect⟩ := delayedRun_chimeLater.effect_eq rfl
  refine ⟨p, before, body, later, hdeeds, fun q hq => (heffect q hq).2 fun e he => ?_⟩
  -- The effect is all that is reached, and names no item.
  rw [List.mem_singleton.mp he]
  trivial

/-- A record with an id. -/
def todo (id : String) : Json.Record := Dict.ofList [("id", .str id)]

/-- An action that removes the record of the item. -/
def strike : Action := .mk (.dataDelete "todos" "\x7b\x7bitem.id\x7d\x7d") none

/-- Two records, and for the first of them its removal, which is put off for ten milliseconds. -/
def strikeLater : List Operation :=
  [.execute [.mk (.dataCreate "todos" (todo "a")) none, .mk (.dataCreate "todos" (todo "b")) none]
      (atStart none),
    .execute [.mk (.delay 10 [strike]) none] (atStart (some (itemOf "a")))]

/-- The poll at which the delay is over leaves both records, where the run of the action for the
item removes one of them. -/
theorem records_strikeLater :
    ((blank.run (strikeLater ++ [.poll (.ofMillis 10)])).1.performer.records.all "todos").map
        RecordStore.idOf? = [some "a", some "b"] ∧
      ((performAll ⟨.fullCapability, ∅, some (itemOf "a"), .ofMillis 10⟩ [strike]
          (blank.run strikeLater).1.performer).1.records.all "todos").map RecordStore.idOf? =
        [some "b"] := by
  decide +kernel

end Scene

end LiveScene
