import LiveScene.CommandLine.Outcome
import LiveScene.Proofs.Scene.Twin
import LiveScene.Proofs.Timer.Overflow

/-!
# LiveScene.Proofs.CommandLine.Clock

When the clock of a replay comes to its end.

A replay is a list of turns, one for each press and each frame after them. A turn puts the clock
forward by the time between frames and asks three things of the scene at most (`turn_eq`). No turn
stops the next one but by the clock or by timers that fail, and timers that have failed stay so.
So a replay ends well exactly if all of its turns fit into the longest duration and the timers have
not failed when the last one is over (`run_replay`).
-/

namespace LiveScene

/-! ### Equal steps of a clock -/

namespace Duration

/-- A point in time after a number of equal steps, unless one of the sums is too long. -/
def addTimes? (interval : Duration) : Nat → Duration → Option Duration
  | 0, d => some d
  | n + 1, d => (d.add? interval).bind (addTimes? interval n)

variable {d e interval : Duration} {n : Nat}

theorem add?_eq_some_iff {next : Duration} :
    d.add? e = some next ↔ next.nanos = d.nanos + e.nanos := by
  have hnext := next.le_longest
  rw [add?]
  split
  · rw [Option.some_inj, Duration.ext_nanos_iff, eq_comm]
  · next hlong =>
      constructor
      · intro h
        cases h
      · intro h
        exact absurd (h ▸ hnext) hlong

/-- A sum that is not too long is the sum that stops at the longest duration. -/
theorem add_of_add? {next : Duration} (h : d.add? e = some next) : d + e = next := by
  have hnext := next.le_longest
  rw [add?_eq_some_iff] at h
  ext
  rw [nanos_add, ← h, Nat.min_eq_left hnext]

theorem addTimes?_eq_some_iff :
    addTimes? interval n d = some e ↔ e.nanos = d.nanos + n * interval.nanos := by
  induction n generalizing d with
  | zero =>
      rw [addTimes?, Option.some_inj, Nat.zero_mul, Nat.add_zero, Duration.ext_nanos_iff, eq_comm]
  | succ n ih =>
      have he := e.le_longest
      rw [addTimes?, Option.bind_eq_some_iff, Nat.succ_mul]
      constructor
      · rintro ⟨next, hnext, hrest⟩
        rw [add?_eq_some_iff] at hnext
        rw [ih] at hrest
        omega
      · intro h
        refine ⟨⟨d.nanos + interval.nanos, by omega⟩, add?_eq_some_iff.mpr rfl, ih.mpr ?_⟩
        show e.nanos = d.nanos + interval.nanos + n * interval.nanos
        omega

theorem addTimes?_eq_none_iff :
    addTimes? interval n d = none ↔ longestNanos < d.nanos + n * interval.nanos := by
  rw [Option.eq_none_iff_forall_ne_some]
  constructor
  · intro h
    by_contra hfits
    exact h ⟨_, not_lt.mp hfits⟩ (addTimes?_eq_some_iff.mpr rfl)
  · intro hlong e he
    have hle := e.le_longest
    rw [addTimes?_eq_some_iff] at he
    omega

end Duration

/-! ### Scenes in a turn -/

namespace Scene

/-- Whether the timers of a scene have failed. -/
def overflowed (s : Scene) : Bool := s.performer.scheduler.overflowed

/-- Timers that have failed stay so. -/
theorem overflowed_run {s : Scene} {ops : List Operation} (hown : ∀ op ∈ ops, op.isOwn = true)
    (h : s.overflowed = true) : (s.run ops).1.overflowed = true := by
  induction ops generalizing s with
  | nil => exact h
  | cons op r ih =>
      obtain ⟨-, rs, -, hscheduler⟩ := s.scheduler_step (hown op List.mem_cons_self)
      refine ih (fun q hq => hown q (List.mem_cons_of_mem op hq)) ?_
      rw [overflowed, hscheduler, Scheduler.overflowed_serveAll_iff]
      exact .inl h

end Scene

namespace Command

/-- What a turn asks of the scene: at the time before, the press of a node if there is one, and at
the next one a frame and a poll. -/
def turnOperations (press : Option String) (now next : Duration) : List Operation :=
  (press.map fun node => .handle node .press ∅ now).toList ++ [.frame next, .poll next]

/-- What turns ask of the scene. -/
def operations (interval : Duration) : List (Option String) → Duration → List Operation
  | [], _ => []
  | press :: r, now =>
    turnOperations press now (now + interval) ++ operations interval r (now + interval)

theorem isOwn_of_mem_turnOperations {press : Option String} {now next : Duration} :
    ∀ op ∈ turnOperations press now next, op.isOwn = true := by
  cases press <;> simp [turnOperations, Operation.isOwn]

theorem isOwn_of_mem_operations {interval now : Duration} {turns : List (Option String)} :
    ∀ op ∈ operations interval turns now, op.isOwn = true := by
  induction turns generalizing now with
  | nil => simp [operations]
  | cons press r ih =>
      intro op hop
      rcases List.mem_append.mp hop with hop | hop
      · exact isOwn_of_mem_turnOperations op hop
      · exact ih op hop

/-- Without a press, a turn is a frame and a poll. -/
theorem run_turn (s : Scene) (now next : Duration) :
    (s.run (turnOperations none now next)).1 = ((s.frame next).1.poll next).1 := by
  simp only [turnOperations, Option.map_none, Option.toList_none, List.nil_append, Scene.run,
    Scene.step]

/-- A press that is answered goes before the frame. -/
theorem run_turn_press {s pressed : Scene} {node : String} {now : Duration} {report : Report}
    (h : s.handle node .press ∅ now = (pressed, .ok report)) (next : Duration) :
    (s.run (turnOperations (some node) now next)).1 =
      (pressed.run (turnOperations none now next)).1 := by
  simp only [turnOperations, Option.map_some, Option.toList_some, Option.map_none,
    Option.toList_none, List.cons_append, List.nil_append, Scene.run, Scene.step, h,
    Scene.answered]

/-- What a turn asks of a scene changes nothing but what performs its actions. -/
theorem exists_performer_step {press : Option String} {now next : Duration} {op : Operation}
    (hop : op ∈ turnOperations press now next) (s : Scene) :
    ∃ performer, (s.step op).1 = { s with performer := performer } := by
  rcases List.mem_append.mp hop with hop | hop
  · obtain ⟨node, -, rfl⟩ := Option.map_eq_some_iff.mp (Option.mem_toList.mp hop)
    rw [Scene.step, Scene.handle, Scene.handleIn]
    cases s.graph.find? node with
    | none => exact ⟨s.performer, rfl⟩
    | some found => exact ⟨_, rfl⟩
  · have hcases : op = .frame next ∨ op = .poll next := by simpa using hop
    rcases hcases with rfl | rfl
    · rw [Scene.step, Scene.frame]
      split
      · exact ⟨s.performer, rfl⟩
      · exact ⟨_, rfl⟩
    · rw [Scene.step, Scene.poll]
      split
      · exact ⟨s.performer, rfl⟩
      · exact ⟨_, rfl⟩

theorem exists_performer_turn (s : Scene) (press : Option String) (now next : Duration) :
    ∃ performer, (s.run (turnOperations press now next)).1 = { s with performer := performer } := by
  have hrun : ∀ ops : List Operation, (∀ op ∈ ops, op ∈ turnOperations press now next) →
      ∀ s : Scene, ∃ performer, (s.run ops).1 = { s with performer := performer } := by
    intro ops
    induction ops with
    | nil => exact fun _ s => ⟨s.performer, rfl⟩
    | cons op r ih =>
        intro hops s
        obtain ⟨first, hfirst⟩ := exists_performer_step (hops op List.mem_cons_self) s
        obtain ⟨last, hlast⟩ :=
          ih (fun q hq => hops q (List.mem_cons_of_mem op hq)) (s.step op).1
        refine ⟨last, ?_⟩
        rw [Scene.run, hlast, hfirst]
  exact hrun _ (fun _ hop => hop) s

/-! ### One turn -/

namespace Playback

/-- A turn: the press of a node if there is one, and a step of the clock. -/
def turn (p : Playback) : Option String → Except Failure Playback
  | some node => p.press node
  | none => p.step

variable {p : Playback} {interval : Duration}

theorem checked_of_overflowed (h : p.scene.overflowed = true) : p.checked = .error .clock :=
  if_pos h

theorem checked_of_not_overflowed (h : p.scene.overflowed = false) : p.checked = .ok p :=
  if_neg (Bool.eq_false_iff.mp h)

/-- A check can be left out where one that follows fails as well. -/
theorem checked_bind {f : Playback → Except Failure Playback}
    (h : p.scene.overflowed = true → f p = .error .clock) : p.checked >>= f = f p := by
  cases hfailed : p.scene.overflowed with
  | true =>
      rw [checked_of_overflowed hfailed, h hfailed]
      rfl
  | false =>
      rw [checked_of_not_overflowed hfailed]
      rfl

-- The time between frames is a variable here and below, and the step is unfolded as a function:
-- written out, the time is a multiple of a million that would be counted down.
theorem step_eq (hinterval : p.scene.settings.frame.interval = interval) :
    p.step =
      match p.now.add? interval with
      | none => .error .clock
      | some next => checked ⟨(p.scene.run (turnOperations none p.now next)).1, next⟩ := by
  have hstep : step = fun p =>
      match p.now.add? p.scene.settings.frame.interval with
      | none => .error .clock
      | some next =>
        checked ⟨(p.scene.frame next).1, next⟩ >>=
          fun q => checked { q with scene := (q.scene.poll next).1 } := rfl
  rw [hstep]
  dsimp only
  rw [hinterval]
  cases p.now.add? interval with
  | none => dsimp only
  | some next =>
      have hpoll : ∀ q : Playback, q.scene.overflowed = true →
          checked { q with scene := (q.scene.poll next).1 } = .error .clock := by
        intro q hq
        have hown : ∀ op ∈ [Operation.poll next], op.isOwn = true := by simp [Operation.isOwn]
        have hrun := Scene.overflowed_run hown hq
        simp only [Scene.run, Scene.step] at hrun
        exact checked_of_overflowed hrun
      simp only [run_turn]
      exact checked_bind (f := fun q => checked { q with scene := (q.scene.poll next).1 })
        (hpoll ⟨(p.scene.frame next).1, next⟩)

theorem step_of_overflowed (h : p.scene.overflowed = true) : p.step = .error .clock := by
  rw [step_eq rfl]
  cases p.now.add? p.scene.settings.frame.interval with
  | none => rfl
  | some next => exact checked_of_overflowed (Scene.overflowed_run isOwn_of_mem_turnOperations h)

/-- A press that is answered comes before a step of the scene that it leaves. -/
theorem press_eq_step {node : String} {scene : Scene} {report : Report}
    (h : p.scene.handle node .press ∅ p.now = (scene, .ok report)) :
    p.press node = step ⟨scene, p.now⟩ := by
  rw [press, h]
  exact checked_bind (f := fun q => q.step) step_of_overflowed

/-- A turn fails if the clock has no room for it, or the timers have failed when it is over. -/
theorem turn_eq {press : Option String}
    (hinterval : p.scene.settings.frame.interval = interval)
    (hknown : ∀ node ∈ press, (p.scene.graph.find? node).isSome = true) :
    p.turn press =
      match p.now.add? interval with
      | none => .error .clock
      | some next => checked ⟨(p.scene.run (turnOperations press p.now next)).1, next⟩ := by
  cases press with
  | none => exact step_eq hinterval
  | some node =>
      obtain ⟨found, hfound⟩ := Option.isSome_iff_exists.mp (hknown node rfl)
      obtain ⟨scene, report, hhandle, hsettings⟩ : ∃ scene report,
          p.scene.handle node .press ∅ p.now = (scene, .ok report) ∧
            scene.settings = p.scene.settings := by
        rw [Scene.handle, Scene.handleIn, hfound]
        exact ⟨_, _, rfl, rfl⟩
      rw [← hsettings] at hinterval
      rw [turn, press_eq_step hhandle, step_eq (p := ⟨scene, p.now⟩) hinterval]
      simp only [run_turn_press hhandle]

/-! ### All turns -/

/-- Turns fail if the clock has no room for all of them, or the timers have failed when they are
over. -/
theorem foldlM_turn {turns : List (Option String)}
    (hinterval : p.scene.settings.frame.interval = interval)
    (hlive : p.scene.overflowed = false)
    (hknown : ∀ node, some node ∈ turns → (p.scene.graph.find? node).isSome = true) :
    turns.foldlM turn p =
      match interval.addTimes? turns.length p.now with
      | none => .error .clock
      | some last => checked ⟨(p.scene.run (operations interval turns p.now)).1, last⟩ := by
  induction turns generalizing p with
  | nil => exact (checked_of_not_overflowed hlive).symm
  | cons press r ih =>
      have hfirst : ∀ node ∈ press, (p.scene.graph.find? node).isSome = true :=
        fun node hnode => hknown node (hnode ▸ List.mem_cons_self)
      rw [List.foldlM_cons, turn_eq hinterval hfirst, List.length_cons, Duration.addTimes?]
      cases hnext : p.now.add? interval with
      | none => rfl
      | some next =>
          obtain ⟨performer, hturn⟩ := exists_performer_turn p.scene press p.now next
          simp only [Option.bind_some, operations, Duration.add_of_add? hnext, Scene.run_append,
            hturn]
          cases hfailed : ({ p.scene with performer := performer } : Scene).overflowed with
          | true =>
              rw [checked_of_overflowed hfailed]
              cases interval.addTimes? r.length next with
              | none => rfl
              | some last =>
                  exact (checked_of_overflowed
                    (Scene.overflowed_run isOwn_of_mem_operations hfailed)).symm
          | false =>
              rw [checked_of_not_overflowed hfailed]
              exact ih hinterval hfailed fun node hnode =>
                hknown node (List.mem_cons_of_mem press hnode)

theorem steps_eq_foldlM (n : Nat) (p : Playback) :
    steps n p = (List.replicate n none).foldlM turn p := by
  induction n generalizing p with
  | zero => rfl
  | succ n ih =>
      rw [steps, List.replicate_succ, List.foldlM_cons]
      exact congrArg (p.step >>= ·) (funext ih)

end Playback

/-! ### Replays -/

/-- The turns of a replay: the presses and then the frames. -/
def turns (presses : List String) (frames : Nat) : List (Option String) :=
  presses.map some ++ List.replicate frames none

/-- The scene at the end of a replay, if nothing fails. -/
def replayed (settings : Settings) (chance : Chance) (log : List Event) (presses : List String)
    (frames : Nat) : Scene :=
  ((sceneOf replayName settings chance log).run
    (operations settings.frame.interval (turns presses frames) .zero)).1

/-- A replay before its first turn. -/
def start (settings : Settings) (chance : Chance) (log : List Event) : Playback :=
  ⟨sceneOf replayName settings chance log, .zero⟩

variable {files : Files} {chance : Chance} {log : String} {config : Option String} {frames : Nat}
  {presses : List String} {settings : Settings} {events : List Event}

/-- A replay fails if the clock has no room for its turns, or its timers have failed at the end. -/
theorem run_replay (hsettings : settingsIn files config = .ok settings)
    (hlog : logIn files log = .ok events)
    (hknown : ∀ node ∈ presses,
      ((sceneOf replayName settings chance events).graph.find? node).isSome = true) :
    (replay log config frames presses).run files chance =
      match settings.frame.interval.addTimes? (presses.length + frames) .zero with
      | none => .error .clock
      | some _ =>
        if (replayed settings chance events presses frames).overflowed then .error .clock
        else .ok ((cellsDocument (replayed settings chance events presses frames).cells).prettyText
          ++ "\n") := by
  have hturns : (presses.foldlM Playback.press (start settings chance events) >>=
      Playback.steps frames) =
      (turns presses frames).foldlM Playback.turn (start settings chance events) := by
    rw [turns, List.foldlM_append, List.foldlM_map]
    exact congrArg (_ >>= ·) (funext (Playback.steps_eq_foldlM frames))
  have hrun : (replay log config frames presses).run files chance =
      (presses.foldlM Playback.press (start settings chance events) >>= Playback.steps frames) >>=
        fun last => .ok ((cellsDocument last.scene.cells).prettyText ++ "\n") := by
    rw [run, hsettings, hlog, bind_assoc]
    rfl
  have hnodes : ∀ node, some node ∈ turns presses frames →
      ((start settings chance events).scene.graph.find? node).isSome = true := by
    intro node hnode
    exact hknown node (by simpa [turns] using hnode)
  have hlength : (turns presses frames).length = presses.length + frames := by simp [turns]
  rw [hrun, hturns, Playback.foldlM_turn rfl rfl hnodes, hlength]
  show (match settings.frame.interval.addTimes? (presses.length + frames) .zero with
    | none => Except.error Failure.clock
    | some last => Playback.checked ⟨replayed settings chance events presses frames, last⟩) >>= _ =
      _
  cases settings.frame.interval.addTimes? (presses.length + frames) .zero with
  | none => rfl
  | some last =>
      dsimp only
      cases hfailed : (replayed settings chance events presses frames).overflowed with
      | true =>
          rw [Playback.checked_of_overflowed hfailed]
          rfl
      | false =>
          rw [Playback.checked_of_not_overflowed hfailed]
          rfl

/-- The turns of a replay fit the clock up to a number that the time between frames sets. -/
theorem isSome_addTimes?_iff (settings : FrameSettings) (n : Nat) :
    (settings.interval.addTimes? n .zero).isSome = true ↔
      n * max settings.intervalMs.toNat 1 < 1000 * 2 ^ 64 := by
  have hinterval : settings.interval.nanos = max settings.intervalMs.toNat 1 * 1000000 := by
    have hmax : (max settings.intervalMs 1).toNat = max settings.intervalMs.toNat 1 :=
      UInt64.toNat_max _ _
    rw [← hmax]
    rfl
  have hlongest : longestNanos = 18446744073709551615999999999 := rfl
  have hzero : Duration.zero.nanos = 0 := rfl
  rw [Option.isSome_iff_ne_none, ne_eq, Duration.addTimes?_eq_none_iff, hinterval, hlongest, hzero,
    ← Nat.mul_assoc]
  omega

/-- The turns of a replay fit the clock exactly if their number times the milliseconds between
frames is less than a thousand times two to the sixty-fourth. If they do not fit, a replay of known
nodes fails, and if they do, only timers that fail stop it. -/
theorem replay_fits_iff (hsettings : settingsIn files config = .ok settings)
    (hlog : logIn files log = .ok events)
    (hknown : ∀ node ∈ presses,
      ((sceneOf replayName settings chance events).graph.find? node).isSome = true) :
    ((settings.frame.interval.addTimes? (presses.length + frames) .zero).isSome = true ↔
      (presses.length + frames) * max settings.frame.intervalMs.toNat 1 < 1000 * 2 ^ 64) ∧
    (1000 * 2 ^ 64 ≤ (presses.length + frames) * max settings.frame.intervalMs.toNat 1 →
      (replay log config frames presses).run files chance = .error .clock) ∧
    ((presses.length + frames) * max settings.frame.intervalMs.toNat 1 < 1000 * 2 ^ 64 →
      (replay log config frames presses).run files chance =
        if (replayed settings chance events presses frames).overflowed then .error .clock
        else .ok ((cellsDocument (replayed settings chance events presses frames).cells).prettyText
          ++ "\n")) := by
  rw [run_replay hsettings hlog hknown]
  have hfits := isSome_addTimes?_iff settings.frame (presses.length + frames)
  refine ⟨hfits, ?_⟩
  cases hsum : settings.frame.interval.addTimes? (presses.length + frames) .zero with
  | none =>
      rw [hsum] at hfits
      exact ⟨fun _ => rfl, fun h => absurd (hfits.mpr h) (by decide)⟩
  | some last =>
      rw [hsum] at hfits
      exact ⟨fun h => absurd (hfits.mp rfl) (not_lt.mpr h), fun _ => rfl⟩

/-- A log that creates one node. -/
def bellText : String :=
  "[\x7b\"event\":\"createNode\",\"id\":\"bell\",\"type\":\"actionable\"\x7d]"

/-- A log of a scene with one node, and settings with the longest time between frames. -/
def bellFiles : Files
  | "log.json" => some bellText
  | "config.json" => some "\x7b\"frame\":\x7b\"intervalMs\":18446744073709551615\x7d\x7d"
  | _ => none

/-- The settings in `bellFiles`. -/
def longestFrames : Settings := { frame := ⟨18446744073709551615⟩ }

/-- The log in `bellFiles`. -/
def bellLog : List Event := [.createNode ⟨{ id := "bell", kind := .actionable }, []⟩]

theorem settingsIn_bellFiles : settingsIn bellFiles (some "config.json") = .ok longestFrames := by
  decide +kernel

/-- The tree of the log. -/
def bellTree : Json :=
  .arr [.obj [("event", .str "createNode"), ("id", .str "bell"), ("type", .str "actionable")]]

-- The text is read token by token: in one step, too much would be unfolded at once.
theorem ofText?_bellText : Json.ofText? bellText = some bellTree := by
  have htokens : Json.tokens? false bellText.toList =
      some [.openArray, .openObject, .text "event", .colon, .text "createNode", .comma,
        .text "id", .colon, .text "bell", .comma, .text "type", .colon, .text "actionable",
        .closeObject, .closeArray] := rfl
  rw [Json.ofText?, Json.read?, htokens]
  rfl

theorem logIn_bellFiles : logIn bellFiles "log.json" = .ok bellLog := by
  have hlog : Event.logOfText? bellText = some bellLog := by
    have hcanonical : bellTree.canonical = bellTree := rfl
    have hdecoded : Event.logOfJson? bellTree = some bellLog := rfl
    rw [Event.logOfText?, Json.decodeText?, ofText?_bellText, Option.bind_some, Json.decodeTree?,
      hcanonical, hdecoded]
    rfl
  have hfile : bellFiles "log.json" = some bellText := rfl
  rw [logIn, document, hfile]
  dsimp only
  rw [hlog]

theorem known_bell (settings : Settings) : ∀ node ∈ ["bell"],
    ((sceneOf replayName settings default bellLog).graph.find? node).isSome = true := by
  intro node hnode
  obtain rfl := List.mem_singleton.mp hnode
  rfl

/-- Of the longest frames a thousand turns fit, here one press and the frames after it. -/
theorem replay_fits_bell :
    settingsIn bellFiles (some "config.json") = .ok longestFrames ∧
      logIn bellFiles "log.json" = .ok bellLog ∧
      (∀ node ∈ ["bell"],
        ((sceneOf replayName longestFrames default bellLog).graph.find? node).isSome = true) ∧
      (longestFrames.frame.interval.addTimes? (["bell"].length + 999) .zero).isSome = true ∧
      (replay "log.json" (some "config.json") 999 ["bell"]).run bellFiles default =
        if (replayed longestFrames default bellLog ["bell"] 999).overflowed then .error .clock
        else
          .ok ((cellsDocument
            (replayed longestFrames default bellLog ["bell"] 999).cells).prettyText ++ "\n") := by
  obtain ⟨hiff, -, hfits⟩ := @replay_fits_iff bellFiles default "log.json" (some "config.json") 999
    ["bell"] longestFrames bellLog settingsIn_bellFiles logIn_bellFiles (known_bell longestFrames)
  have hfew : (["bell"].length + 999) * max longestFrames.frame.intervalMs.toNat 1 <
      1000 * 2 ^ 64 := by decide
  exact ⟨settingsIn_bellFiles, logIn_bellFiles, known_bell longestFrames, hiff.mpr hfew, hfits hfew⟩

/-- One turn more does not fit. -/
theorem replay_stops_bell :
    longestFrames.frame.interval.addTimes? (["bell"].length + 1000) .zero = none ∧
      (replay "log.json" (some "config.json") 1000 ["bell"]).run bellFiles default =
        .error .clock := by
  have hlong : longestFrames.frame.interval.addTimes? (["bell"].length + 1000) .zero = none := by
    rw [Duration.addTimes?_eq_none_iff]
    decide
  refine ⟨hlong, ?_⟩
  rw [run_replay settingsIn_bellFiles logIn_bellFiles (known_bell longestFrames), hlong]

end Command

end LiveScene
