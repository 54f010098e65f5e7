import LiveScene.CellStore

/-!
# LiveScene.Proofs.CellStore.Clients

Clients that share the cells of an instance.

* `CellCall` lists what a client may ask, and a `Turn` is one call with its answer. Calls are served
  one after the other, so a list of turns is a history of any number of clients, their calls
  interleaved in any way. `CellStore.Answers` says that a store gives the answers of a history.
* `fate_of_answer` says all that a turn can do to a cell: assign it, create it, or leave it
  alone. The version of a cell therefore counts the turns that have assigned it
  (`version?_after`).
* A conditional write is done exactly if nobody has assigned the cell since its client asked for the
  version. Then the value that the client has read in between is still there, and no update gets
  lost (`updatesKept_of_answers`).
-/

namespace LiveScene

/-- What a client asks of a store. -/
inductive CellCall where
  | create (id : String) (initial : Value)
  | read (id : String)
  | version (id : String)
  | write (id : String) (value : Value)
  | update (id : String) (f : Value → Value)
  | compareAndWrite (id : String) (expected : Nat) (value : Value)

/-- What a client is answered. -/
inductive CellAnswer where
  /-- Whether the cell is new. -/
  | created (fresh : Bool)
  | value (value : Option Value)
  | version (version : Option Nat)
  /-- The version that the cell has now. -/
  | assigned (version : Option Nat)
  | outcome (outcome : CasOutcome)

/-- A call of a client, and its answer. -/
structure Turn (κ : Type) where
  client : κ
  call : CellCall
  answer : CellAnswer

namespace Turn

variable {κ : Type}

/-- Whether a turn created a cell. -/
def creates (id : String) (t : Turn κ) : Bool :=
  match t.call, t.answer with
  | .create i _, .created true => decide (i = id)
  | _, _ => false

/-- Whether a turn assigned a cell. -/
def assigns (id : String) (t : Turn κ) : Bool :=
  match t.call, t.answer with
  | .write i _, .assigned (some _) => decide (i = id)
  | .update i _, .assigned (some _) => decide (i = id)
  | .compareAndWrite i _ _, .outcome (.written _) => decide (i = id)
  | _, _ => false

/-- Whether a conditional write was refused. -/
def isRefused (t : Turn κ) : Bool :=
  match t.answer with
  | .outcome (.stale _) | .outcome .missing => true
  | _ => false

end Turn

namespace CellStore

variable {κ : Type} {s : CellStore} {t : Turn κ}

/-- The store after a call, and the answer. -/
def answer (s : CellStore) : CellCall → CellStore × CellAnswer
  | .create id initial => ((s.create id initial).1, .created (s.create id initial).2)
  | .read id => (s, .value (s.read? id))
  | .version id => (s, .version (s.version? id))
  | .write id value => ((s.write id value).1, .assigned (s.write id value).2)
  | .update id f => ((s.update id f).1, .assigned (s.update id f).2)
  | .compareAndWrite id expected value =>
    ((s.compareAndWrite id expected value).1, .outcome (s.compareAndWrite id expected value).2)

/-- The store after the calls of a history. -/
def after (s : CellStore) (turns : List (Turn κ)) : CellStore :=
  turns.foldl (fun s t => (s.answer t.call).1) s

/-- The answers of a history are those of a store. -/
def Answers (s : CellStore) : List (Turn κ) → Prop
  | [] => True
  | t :: r => (s.answer t.call).2 = t.answer ∧ (s.answer t.call).1.Answers r

@[simp] theorem after_nil (s : CellStore) : s.after ([] : List (Turn κ)) = s := rfl

@[simp] theorem after_cons (s : CellStore) (t : Turn κ) (r : List (Turn κ)) :
    s.after (t :: r) = (s.answer t.call).1.after r := rfl

theorem after_append (s : CellStore) (xs ys : List (Turn κ)) :
    s.after (xs ++ ys) = (s.after xs).after ys := List.foldl_append

theorem answers_append {xs ys : List (Turn κ)} :
    s.Answers (xs ++ ys) ↔ s.Answers xs ∧ (s.after xs).Answers ys := by
  induction xs generalizing s with
  | nil => simp [Answers]
  | cons t r ih => simp [Answers, ih, and_assoc]

/-! ### One turn -/

theorem update_of_cell? {id : String} {c : Cell} (h : s.cell? id = some c) (f : Value → Value) :
    (s.update id f).2 = some (c.version + 1) := by
  simp only [update, h]

theorem update_of_none {id : String} (h : s.cell? id = none) (f : Value → Value) :
    s.update id f = (s, none) := by
  simp only [update, h]

theorem compareAndWrite_of_none {id : String} (h : s.cell? id = none) (expected : Nat)
    (value : Value) : s.compareAndWrite id expected value = (s, .missing) := by
  simp only [compareAndWrite, h]

/-- A conditional write whose condition holds is a write. -/
theorem compareAndWrite_of_version_eq {id : String} {c : Cell} (h : s.cell? id = some c)
    (value : Value) :
    s.compareAndWrite id c.version value =
      ((s.update id fun _ => value).1, .written (c.version + 1)) := by
  simp only [compareAndWrite, update, h, if_true]

theorem compareAndWrite_of_version_ne {id : String} {c : Cell} (h : s.cell? id = some c)
    {expected : Nat} (hne : c.version ≠ expected) (value : Value) :
    s.compareAndWrite id expected value = (s, .stale c.version) := by
  simp only [compareAndWrite, h, if_neg hne]

theorem create_of_contains {id : String} (h : s.contains id = true) (initial : Value) :
    s.create id initial = (s, false) := if_pos h

theorem create_of_not_contains {id : String} (h : ¬ s.contains id = true) (initial : Value) :
    (s.create id initial).2 = true := by
  simp only [create, if_neg h]

/-- What becomes of a cell in a turn. -/
inductive Fate (s : CellStore) (t : Turn κ) (id : String) : Prop where
  /-- It is assigned, and its version grows. -/
  | assigned (assigns : t.assigns id = true) (creates : t.creates id = false) (c : Cell)
      (value : Value) (before : s.cell? id = some c)
      (after : (s.answer t.call).1.cell? id = some ⟨value, c.version + 1⟩)
  /-- It is created. -/
  | created (assigns : t.assigns id = false) (creates : t.creates id = true) (initial : Value)
      (before : s.cell? id = none) (after : (s.answer t.call).1.cell? id = some ⟨initial, 0⟩)
  /-- It is left alone. -/
  | alone (assigns : t.assigns id = false) (creates : t.creates id = false)
      (after : (s.answer t.call).1.cell? id = s.cell? id)

/-- A turn that updates a cell which exists. -/
theorem fate_of_update {i : String} {c : Cell} (hc : s.cell? i = some c) {f : Value → Value}
    (hstore : (s.answer t.call).1 = (s.update i f).1)
    (hassigns : ∀ id, t.assigns id = decide (i = id)) (hcreates : ∀ id, t.creates id = false)
    (id : String) : s.Fate t id := by
  have hafter := s.cell?_update i id f
  rw [← hstore, hc, Option.map_some] at hafter
  by_cases hid : id = i
  · subst hid
    rw [if_pos rfl] at hafter
    exact .assigned (by simp [hassigns]) (hcreates id) c (f c.value) hc hafter
  · rw [if_neg hid] at hafter
    exact .alone (by simp [hassigns, Ne.symm hid]) (hcreates id) hafter

/-- A turn that creates a cell. -/
theorem fate_of_create {i : String} (hi : ¬ s.contains i = true) {initial : Value}
    (hstore : (s.answer t.call).1 = (s.create i initial).1)
    (hassigns : ∀ id, t.assigns id = false) (hcreates : ∀ id, t.creates id = decide (i = id))
    (id : String) : s.Fate t id := by
  have hafter := s.cell?_create i id initial
  rw [← hstore] at hafter
  by_cases hid : id = i
  · subst hid
    have hbefore : s.cell? id = none := by simpa [contains, Dict.contains, cell?] using hi
    rw [if_pos rfl, hbefore, Option.getD_none] at hafter
    exact .created (hassigns id) (by simp [hcreates]) initial hbefore hafter
  · rw [if_neg hid] at hafter
    exact .alone (hassigns id) (by simp [hcreates, Ne.symm hid]) hafter

/-- A turn of which the store gives the answer assigns a cell, creates it, or leaves it alone. -/
theorem fate_of_answer (h : (s.answer t.call).2 = t.answer) (id : String) : s.Fate t id := by
  obtain ⟨client, call, answered⟩ := t
  cases call with
  | create i initial =>
      by_cases hfresh : s.contains i = true
      · have hcreate := create_of_contains hfresh initial
        simp only [answer, hcreate] at h
        subst h
        exact .alone rfl rfl (by simp only [answer, hcreate])
      · simp only [answer, create_of_not_contains hfresh] at h
        subst h
        exact fate_of_create hfresh rfl (fun _ => rfl) (fun _ => rfl) id
  | read i =>
      simp only [answer] at h
      subst h
      exact .alone rfl rfl rfl
  | version i =>
      simp only [answer] at h
      subst h
      exact .alone rfl rfl rfl
  | write i value =>
      cases hc : s.cell? i with
      | none =>
          have hwrite : s.write i value = (s, none) := update_of_none hc _
          simp only [answer, hwrite] at h
          subst h
          exact .alone rfl rfl (by simp only [answer, hwrite])
      | some c =>
          have hwrite : (s.write i value).2 = some (c.version + 1) := update_of_cell? hc _
          simp only [answer, hwrite] at h
          subst h
          exact fate_of_update hc (f := fun _ => value) rfl (fun _ => rfl) (fun _ => rfl) id
  | update i f =>
      cases hc : s.cell? i with
      | none =>
          have hupdate := update_of_none hc f
          simp only [answer, hupdate] at h
          subst h
          exact .alone rfl rfl (by simp only [answer, hupdate])
      | some c =>
          have hupdate := update_of_cell? hc f
          simp only [answer, hupdate] at h
          subst h
          exact fate_of_update hc rfl (fun _ => rfl) (fun _ => rfl) id
  | compareAndWrite i expected value =>
      cases hc : s.cell? i with
      | none =>
          have hcas := compareAndWrite_of_none hc expected value
          simp only [answer, hcas] at h
          subst h
          exact .alone rfl rfl (by simp only [answer, hcas])
      | some c =>
          by_cases hv : c.version = expected
          · subst hv
            have hcas := compareAndWrite_of_version_eq hc value
            simp only [answer, hcas] at h
            subst h
            have hstore : (s.answer (.compareAndWrite i c.version value)).1 =
                (s.update i fun _ => value).1 := by simp only [answer, hcas]
            exact fate_of_update hc hstore (fun _ => rfl) (fun _ => rfl) id
          · have hcas := compareAndWrite_of_version_ne hc hv value
            simp only [answer, hcas] at h
            subst h
            exact .alone rfl rfl (by simp only [answer, hcas])

/-! ### What versions count -/

/-- The turns after the one that created a cell. -/
def sinceCreation (id : String) : List (Turn κ) → Option (List (Turn κ))
  | [] => none
  | t :: r => if t.creates id then some r else sinceCreation id r

variable {turns : List (Turn κ)} {id : String}

/-- The version of a cell that exists grows by one with each turn that assigns the cell. -/
theorem version?_after_of_some (h : s.Answers turns) {n : Nat} (hn : s.version? id = some n) :
    (s.after turns).version? id = some (n + turns.countP (Turn.assigns id)) := by
  induction turns generalizing s n with
  | nil => simpa using hn
  | cons t r ih =>
      obtain ⟨hanswer, hrest⟩ := h
      obtain ⟨c, hc, rfl⟩ := Option.map_eq_some_iff.mp hn
      rw [after_cons]
      cases fate_of_answer hanswer id with
      | assigned hassigns hcreates d value hbefore hafter =>
          rw [hc, Option.some.injEq] at hbefore
          subst hbefore
          have hnext : (s.answer t.call).1.version? id = some (c.version + 1) := by
            rw [version?, hafter, Option.map_some]
          rw [ih hrest hnext, List.countP_cons_of_pos hassigns, Nat.add_right_comm, Nat.add_assoc]
      | created hassigns hcreates initial hbefore hafter =>
          rw [hc] at hbefore
          cases hbefore
      | alone hassigns hcreates hafter =>
          have hsame : (s.answer t.call).1.version? id = some c.version := by
            rw [version?, hafter, hc, Option.map_some]
          rw [ih hrest hsame, List.countP_cons_of_neg (by simp [hassigns])]

/-- A cell that does not exist yet has the version of those that have assigned it since it was
created. -/
theorem version?_after_of_none (h : s.Answers turns) (hn : s.cell? id = none) :
    (s.after turns).version? id =
      (sinceCreation id turns).map (List.countP (Turn.assigns id)) := by
  induction turns generalizing s with
  | nil => simp [version?, hn, sinceCreation]
  | cons t r ih =>
      obtain ⟨hanswer, hrest⟩ := h
      rw [after_cons, sinceCreation]
      cases fate_of_answer hanswer id with
      | assigned hassigns hcreates c value hbefore hafter =>
          rw [hn] at hbefore
          cases hbefore
      | created hassigns hcreates initial hbefore hafter =>
          have hzero : (s.answer t.call).1.version? id = some 0 := by
            rw [version?, hafter, Option.map_some]
          rw [version?_after_of_some hrest hzero, if_pos hcreates, Option.map_some, Nat.zero_add]
      | alone hassigns hcreates hafter =>
          rw [ih hrest (hafter.trans hn), if_neg (by simp [hcreates])]

/-- A cell that nobody assigns stays as it is. -/
theorem cell?_after (h : s.Answers turns) {c : Cell} (hc : s.cell? id = some c)
    (hno : ∀ t ∈ turns, t.assigns id = false) : (s.after turns).cell? id = some c := by
  induction turns generalizing s with
  | nil => exact hc
  | cons t r ih =>
      obtain ⟨hanswer, hrest⟩ := h
      refine ih hrest ?_ fun u hu => hno u (List.mem_cons_of_mem t hu)
      cases fate_of_answer hanswer id with
      | assigned hassigns hcreates d value hbefore hafter =>
          rw [hno t List.mem_cons_self] at hassigns
          cases hassigns
      | created hassigns hcreates initial hbefore hafter =>
          rw [hc] at hbefore
          cases hbefore
      | alone hassigns hcreates hafter => exact hafter.trans hc

/-! ### Conditional writes -/

/-- A conditional write that is refused changes nothing. -/
theorem answer_of_isRefused (h : (s.answer t.call).2 = t.answer) (hrefused : t.isRefused = true) :
    (s.answer t.call).1 = s := by
  obtain ⟨client, call, answered⟩ := t
  simp only at h
  subst h
  cases call with
  | compareAndWrite id expected value =>
      cases hc : s.cell? id with
      | none => simp only [answer, compareAndWrite_of_none hc]
      | some c =>
          by_cases hv : c.version = expected
          · subst hv
            simp [Turn.isRefused, answer, compareAndWrite_of_version_eq hc] at hrefused
          · simp only [answer, compareAndWrite_of_version_ne hc hv]
  | _ => simp [Turn.isRefused, answer] at hrefused

/-- The turns in which a client asks for the version of a cell and then for its value. Others have
their turns in between and after. -/
def readings (client : κ) (id : String) (version : Nat) (value : Value)
    (first second : List (Turn κ)) : List (Turn κ) :=
  ⟨client, .version id, .version (some version)⟩ ::
    (first ++ ⟨client, .read id, .value (some value)⟩ :: second)

variable {client : κ} {v : Nat} {x : Value} {first second : List (Turn κ)}

/-- The version of a cell has grown by the assignments since it was asked for. -/
theorem version?_after_readings (h : s.Answers (readings client id v x first second)) :
    (s.after (readings client id v x first second)).version? id =
      some (v + (first ++ second).countP (Turn.assigns id)) := by
  have hversion : s.version? id = some v := by
    have hasked := h.1
    simpa [answer] using hasked
  rw [version?_after_of_some h hversion]
  simp [readings, List.countP_append, Turn.assigns]

/-- If nobody assigns a cell, then it holds what was read. -/
theorem read?_after_readings (h : s.Answers (readings client id v x first second))
    (hno : ∀ t ∈ first ++ second, t.assigns id = false) :
    (s.after (readings client id v x first second)).read? id = some x := by
  obtain ⟨hfirst, hread, hsecond⟩ := answers_append.mp h.2
  have hvalue : (s.after first).read? id = some x := by simpa [answer] using hread
  obtain ⟨c, hc, hcx⟩ := Option.map_eq_some_iff.mp hvalue
  have hkept := cell?_after hsecond hc fun t ht => hno t (List.mem_append_right first ht)
  have hafter : s.after (readings client id v x first second) = (s.after first).after second := by
    rw [readings, after_cons, after_append, after_cons]
    rfl
  rw [hafter, read?, ← hcx]
  exact congrArg (Option.map Cell.value) hkept

/-- A client reads the version and the value of a cell, and then writes on the condition that the
version is the same. That is done exactly if nobody has assigned the cell since the version was
read, and then it replaces the value that was read. -/
theorem compareAndWrite_after_readings (h : s.Answers (readings client id v x first second))
    (value : Value) {o : CasOutcome}
    (ho : ((s.after (readings client id v x first second)).compareAndWrite id v value).2 = o) :
    ((∃ n, o = .written n) ↔ ∀ t ∈ first ++ second, t.assigns id = false) ∧
      ((∃ n, o = .written n) →
        (s.after (readings client id v x first second)).read? id = some x ∧
        ((s.after (readings client id v x first second)).compareAndWrite id v value).1.read? id =
          some value) := by
  have hversion := version?_after_readings h
  have hread := read?_after_readings h
  generalize s.after (readings client id v x first second) = now at ho hversion hread ⊢
  obtain ⟨c, hc, hcv⟩ := Option.map_eq_some_iff.mp hversion
  have hcount : (∀ t ∈ first ++ second, t.assigns id = false) ↔ c.version = v := by
    rw [hcv, Nat.add_eq_left, List.countP_eq_zero]
    simp only [Bool.not_eq_true]
  rw [hcount] at hread ⊢
  by_cases hv : c.version = v
  · have hcas := compareAndWrite_of_version_eq hc value
    rw [hv] at hcas
    rw [hcas] at ho ⊢
    refine ⟨⟨fun _ => hv, fun _ => ⟨_, ho.symm⟩⟩, fun _ => ⟨hread hv, ?_⟩⟩
    rw [read?, cell?_update, if_pos rfl, hc]
    rfl
  · rw [compareAndWrite_of_version_ne hc hv value] at ho
    have hno : ¬ ∃ n, o = .written n := by
      rintro ⟨n, rfl⟩
      cases ho
    exact ⟨⟨fun hwritten => absurd hwritten hno, fun heq => absurd heq hv⟩,
      fun hwritten => absurd hwritten hno⟩

/-! ### Histories -/

/-- No update gets lost in a history of clients that share a store. -/
structure UpdatesKept (s : CellStore) (turns : List (Turn κ)) : Prop where
  /-- The version of a cell is the number of turns that have assigned it since it was created. -/
  version? : ∀ id, (s.after turns).version? id =
    (sinceCreation id turns).map (List.countP (Turn.assigns id))
  /-- What is refused changes nothing. -/
  refused : ∀ before t rest, turns = before ++ t :: rest → t.isRefused = true →
    s.after (before ++ [t]) = s.after before
  /-- A client asks for the version of a cell, then for its value, and then writes what it makes of
  the value if the version is the same. This is done exactly if nobody has assigned the cell in
  the meantime. -/
  written_iff : ∀ before client id v x first second (f : Value → Value) o rest,
    turns = before ++ (readings client id v x first second ++
      ⟨client, .compareAndWrite id v (f x), .outcome o⟩ :: rest) →
    ((∃ n, o = .written n) ↔ ∀ t ∈ first ++ second, t.assigns id = false)
  /-- Then the new value is made of the one that it replaces. -/
  of_written : ∀ before client id v x first second (f : Value → Value) n rest,
    turns = before ++ (readings client id v x first second ++
      ⟨client, .compareAndWrite id v (f x), .outcome (.written n)⟩ :: rest) →
    ∃ y, (s.after (before ++ readings client id v x first second)).read? id = some y ∧
      (s.after (before ++ readings client id v x first second ++
        [⟨client, .compareAndWrite id v (f x), .outcome (.written n)⟩])).read? id = some (f y)

/-- Whatever clients ask of a new store, and in whatever order their calls are served, no update
gets lost. -/
theorem updatesKept_of_answers (owner : String) (h : (new owner).Answers turns) :
    (new owner).UpdatesKept turns where
  version? id := version?_after_of_none h rfl
  refused := by
    rintro before t rest rfl hrefused
    obtain ⟨-, hanswer, -⟩ := answers_append.mp h
    rw [after_append]
    exact answer_of_isRefused hanswer hrefused
  written_iff := by
    rintro before client id v x first second f o rest rfl
    obtain ⟨-, hattempt⟩ := answers_append.mp h
    obtain ⟨hreadings, hanswer, -⟩ := answers_append.mp hattempt
    simp only [answer, CellAnswer.outcome.injEq] at hanswer
    exact (compareAndWrite_after_readings hreadings (f x) hanswer).1
  of_written := by
    rintro before client id v x first second f n rest rfl
    obtain ⟨-, hattempt⟩ := answers_append.mp h
    obtain ⟨hreadings, hanswer, -⟩ := answers_append.mp hattempt
    simp only [answer, CellAnswer.outcome.injEq] at hanswer
    have hwritten := (compareAndWrite_after_readings hreadings (f x) hanswer).2 ⟨n, rfl⟩
    refine ⟨x, ?_, ?_⟩
    · rw [after_append]
      exact hwritten.1
    · rw [after_append, after_append]
      exact hwritten.2

/-- Two clients share a cell. The first reads it, the second assigns it, and the first one's write
is refused. It tries again, and no one comes in between. -/
def race : List (Turn Nat) :=
  ⟨1, .create "x" (.text "a"), .created true⟩ ::
    (readings 1 "x" 0 (.text "a") []
        [⟨2, .update "x" fun _ => .text "b", .assigned (some 1)⟩] ++
      ⟨1, .compareAndWrite "x" 0 (.text "ac"), .outcome (.stale 1)⟩ ::
        (readings 1 "x" 1 (.text "b") [] [] ++
          [⟨1, .compareAndWrite "x" 1 (.text "bc"), .outcome (.written 2)⟩]))

theorem updatesKept_race :
    (new "scene").Answers race ∧ ((new "scene").after race).version? "x" = some 2 ∧
      ((new "scene").after (race.take 5)) = (new "scene").after (race.take 4) := by
  have h : (new "scene").Answers race :=
    ⟨rfl, rfl, rfl, rfl, rfl, rfl, rfl, rfl, trivial⟩
  have hkept := updatesKept_of_answers "scene" h
  exact ⟨h, hkept.version? "x", hkept.refused (race.take 4) _ (race.drop 5) rfl rfl⟩

end CellStore

end LiveScene
