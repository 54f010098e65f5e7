import LiveScene.Action.Document
import LiveScene.Proofs.Document.Expr

/-!
# LiveScene.Proofs.Document.Action

Actions decode to what they were encoded from, if all their numbers are finite.

The members of a task are a tag and fields of which none is the context. So the context is taken
apart from the task, wherever it stands (`ofLayer?_toJson_mk`), and the rest is one case for each
task.
-/

namespace LiveScene

open Json

theorem AssignOp.lookupEntry_name (o : AssignOp) :
    lookupEntry o.name AssignOp.choices = some o := by
  cases o <;> rfl

theorem Context.lookupEntry_name (c : Context) : lookupEntry c.name Context.choices = some c := by
  cases c <;> rfl

theorem Curve.lookupEntry_name (c : Curve) : lookupEntry c.name Curve.choices = some c := by
  cases c <;> rfl

/-- What may be absent, if nothing else is encoded as nothing. -/
theorem nullable_ofMaybe {γ : Type} {decode : Json → Option γ} {encode : γ → Json}
    {o : Option γ} (h : ∀ c ∈ o, encode c ≠ .null ∧ decode (encode c) = some c) :
    nullable decode (ofMaybe encode o) = some o := by
  cases o with
  | none => rfl
  | some c =>
      obtain ⟨hsome, hdecode⟩ := h c rfl
      have hone : nullable decode (encode c) = (decode (encode c)).map some := by
        rw [nullable]
        exact hsome
      rw [ofMaybe, hone, hdecode]
      rfl

@[simp] theorem nullable_ofMaybe_str (o : Option String) :
    nullable str? (ofMaybe .str o) = some o :=
  nullable_ofMaybe fun _ _ => ⟨nofun, rfl⟩

@[simp] theorem nullable_ofMaybe_word (o : Option UInt64) :
    nullable word? (ofMaybe (fun w => .ofNat w.toNat) o) = some o :=
  nullable_ofMaybe fun w _ => ⟨nofun, word?_ofNat w⟩

/-- Whether an interval is finite, or all numbers in its expression. -/
def IntervalSpec.IsFinite : IntervalSpec → Prop
  | millis ms => ms.isFinite = true
  | expr e => e.IsFinite

namespace Expr

/-- An expression is an object. -/
theorem exists_toJson (e : Expr) : ∃ ms, e.toJson = .obj ms := by
  cases e <;> exact ⟨_, rfl⟩

theorem nullable_ofMaybe_toJson {o : Option Expr} (h : ∀ e ∈ o, e.IsFinite) :
    nullable ofPart? (ofMaybe toJson o) = some o := by
  refine nullable_ofMaybe fun e he => ⟨?_, ofPart?_toJson (h e he)⟩
  obtain ⟨ms, hms⟩ := e.exists_toJson
  rw [hms]
  nofun

end Expr

theorem IntervalSpec.ofJson?_toJson {i : IntervalSpec} (h : i.IsFinite) :
    IntervalSpec.ofJson? i.toJson = some i := by
  cases i with
  | millis ms =>
      have hfinite : ms.isFinite = true := h
      simp [toJson, ofJson?, ofFloat, hfinite, Number.toFloat]
  | expr e =>
      -- An expression is no number, so the first choice does not take it.
      have hpart := Expr.ofPart?_toJson h
      obtain ⟨ms, hms⟩ := e.exists_toJson
      rw [hms] at hpart
      simp [toJson, ofJson?, hms, hpart]

namespace Action

mutual

/-- Whether all numbers in an action are finite. -/
def IsFinite : Action → Prop
  | mk task _ => TaskIsFinite task

/-- Whether all numbers in a task are finite. Those in records always are. -/
def TaskIsFinite : Task → Prop
  | .assignCell _ _ value => value.IsFinite
  | .log _ value => ∀ e ∈ value, e.IsFinite
  | .branch condition yes no => condition.IsFinite ∧ AreFinite yes ∧ AreFinite no
  | .delay _ actions => AreFinite actions
  | .animate _ goal _ _ => goal.IsFinite
  | .dataCreate .. | .dataUpdate .. | .dataDelete .. | .stopTimer _ => True
  | .playEffect _ volume pitch => volume.isFinite = true ∧ pitch.isFinite = true
  | .startTimer _ interval actions _ => interval.IsFinite ∧ AreFinite actions
  | .randomAssign _ low high => low.isFinite = true ∧ high.isFinite = true

/-- Whether all numbers in several actions are finite. -/
def AreFinite : List Action → Prop
  | [] => True
  | a :: r => IsFinite a ∧ AreFinite r

end

/-- The members of a task but for the tag. -/
def taskFields (task : Task) : List (String × Json) := (taskMembers task).tail

theorem taskMembers_eq (task : Task) :
    taskMembers task = (tag, .str task.name) :: taskFields task := by
  cases task <;> rfl

theorem name_mem_variants (task : Task) : task.name ∈ variants := by
  cases task <;> simp [Task.name, variants]

/-- No field of a task has the name of the tag or of the context. -/
theorem notMem_names_taskFields (task : Task) :
    tag ∉ names (taskFields task) ∧ contextField ∉ names (taskFields task) := by
  cases task <;> simp [taskFields, taskMembers, tag, contextField]

/-- The member for a context that is asked for. -/
def contextMembers (context : Option Context) : List (String × Json) :=
  (context.map fun c => (contextField, .str c.name)).toList

theorem toJson_mk (task : Task) (context : Option Context) :
    toJson (mk task context) =
      .obj ((tag, .str task.name) :: taskFields task ++ contextMembers context) := by
  rw [← taskMembers_eq]
  cases context <;> simp [toJson, contextMembers]

/-- The context is found behind the members of the task, and the task by its tag. -/
theorem ofLayer?_toJson_mk (inner : Bool) (task : Task) (context : Option Context) :
    ofLayer? inner (readLayer (ofLayer? true) (toJson (mk task context))) =
      (taskOfFields? task.name
        (.members (memberReadings (ofLayer? true) (taskFields task)))).map (mk · context) := by
  obtain ⟨htag, hcontext⟩ := notMem_names_taskFields task
  have hnone : contextField ∉ names ((tag, Json.str task.name) :: taskFields task) := by
    simpa [tag, contextField] using hcontext
  have honce : occurrences contextField (memberReadings (ofLayer? true)
      ((tag, .str task.name) :: taskFields task ++ contextMembers context)) ≤ 1 := by
    rw [occurrences_memberReadings, occurrences_append, occurrences_eq_zero hnone]
    cases context <;> simp [contextMembers, occurrences]
  have hfound : maybe Reading.raw (choiceIn? inner Context.choices) contextField
      (memberReadings (ofLayer? true)
        ((tag, .str task.name) :: taskFields task ++ contextMembers context)) = some context := by
    rw [maybe_memberReadings, lookupEntry_append, lookupEntry_eq_none_of_not_mem hnone]
    cases context with
    | none => rfl
    | some c => simp [contextMembers, nullable, c.lookupEntry_name]
  have hrest : (memberReadings (ofLayer? true)
      ((tag, .str task.name) :: taskFields task ++ contextMembers context)).filter
        (fun m => m.1 ≠ contextField) =
      memberReadings (ofLayer? true) ((tag, .str task.name) :: taskFields task) := by
    rw [memberReadings_append, List.filter_append,
      filter_ne_of_notMem (by rwa [names_memberReadings])]
    cases context <;> simp [contextMembers, memberReadings]
  rw [toJson_mk, readLayer, ofLayer?, if_pos honce, hfound, hrest]
  simp only [Option.bind_eq_bind, Option.bind_some, Option.pure_def,
    tagged?_members (ofLayer? true) (name_mem_variants task) htag]
  cases taskOfFields? task.name (.members (memberReadings (ofLayer? true) (taskFields task))) <;>
    rfl

mutual

/-- An action decodes to what it was encoded from. -/
theorem ofLayer?_toJson (a : Action) (h : a.IsFinite) (inner : Bool) :
    ofLayer? inner (readLayer (ofLayer? true) a.toJson) = some a := by
  obtain ⟨task, context⟩ := a
  rw [ofLayer?_toJson_mk, taskOfFields?_taskFields task h]
  rfl

theorem taskOfFields?_taskFields (task : Task) (h : TaskIsFinite task) :
    taskOfFields? task.name (.members (memberReadings (ofLayer? true) (taskFields task))) =
      some task := by
  cases task with
  | assignCell target op value =>
      have hvalue := Expr.ofPart?_toJson h
      simp [Task.name, taskFields, taskMembers, taskOfFields?, occurrences,
        op.lookupEntry_name, hvalue]
  | log message value =>
      have hvalue := Expr.nullable_ofMaybe_toJson h
      simp [Task.name, taskFields, taskMembers, taskOfFields?, occurrences, hvalue]
  | branch condition yes no =>
      obtain ⟨hcondition, hyes, hno⟩ := h
      have hyes := collect_listToJson yes hyes
      have hno := collect_listToJson no hno
      simp [Task.name, taskFields, taskMembers, taskOfFields?, occurrences,
        Expr.ofPart?_toJson hcondition, hyes, hno]
  | delay ms actions =>
      have hactions := collect_listToJson actions h
      -- Steps that hold by computation would have the bound of the number computed.
      simp -implicitDefEqProofs [Task.name, taskFields, taskMembers, taskOfFields?, occurrences,
        hactions]
  | animate target goal durationMs curve =>
      have hgoal := Expr.ofPart?_toJson h
      have hcurve : nullable (innerChoice? Curve.choices)
          (ofMaybe (fun curve => .str curve.name) curve) = some curve :=
        nullable_ofMaybe fun c _ => ⟨nofun, c.lookupEntry_name⟩
      simp [Task.name, taskFields, taskMembers, taskOfFields?, occurrences, hgoal,
        hcurve]
  | playEffect name volume pitch =>
      obtain ⟨hvolume, hpitch⟩ := h
      simp [Task.name, taskFields, taskMembers, taskOfFields?, occurrences,
        float?_ofFloat hvolume, float?_ofFloat hpitch]
  | startTimer id interval actions lowLatency =>
      obtain ⟨hinterval, hactions⟩ := h
      have hactions := collect_listToJson actions hactions
      simp [Task.name, taskFields, taskMembers, taskOfFields?, occurrences,
        IntervalSpec.ofJson?_toJson hinterval, hactions]
  | randomAssign target low high =>
      obtain ⟨hlow, hhigh⟩ := h
      simp [Task.name, taskFields, taskMembers, taskOfFields?, occurrences,
        float?_ofFloat hlow, float?_ofFloat hhigh]
  | _ =>
      simp [Task.name, taskFields, taskMembers, taskOfFields?, occurrences]

theorem collect_listToJson (actions : List Action) (h : AreFinite actions) :
    collect ((readings (ofLayer? true) (listToJson actions)).map Reading.one) = some actions := by
  cases actions with
  | nil => rfl
  | cons a r =>
      obtain ⟨hhead, hrest⟩ := h
      have hhead := ofLayer?_toJson a hhead true
      have hrest := collect_listToJson r hrest
      exact collect_readings_cons _ hhead hrest

end

theorem ofJson?_toJson {a : Action} (h : a.IsFinite) : ofJson? a.toJson = some a :=
  ofLayer?_toJson a h false

/-- A list of actions, as handlers have it. -/
theorem listOfJson?_listToJson {actions : List Action} (h : AreFinite actions) (inner : Bool) :
    listOfJson? inner (.arr (listToJson actions)) = some actions := by
  rw [listOfJson?, list?]
  induction actions with
  | nil => rfl
  | cons a r ih =>
      have hhead : ofPart? inner a.toJson = some a := ofLayer?_toJson a h.1 inner
      simp [listToJson, collect, hhead, ih h.2]

end Action

end LiveScene
