import LiveScene.Event.Document
import LiveScene.Proofs.Document.Node

/-!
# LiveScene.Proofs.Document.Event

Decoding undoes encoding. Events decode to what they were encoded from, if all their numbers are
finite; with them everything that a document of events can hold.

An event that creates a node has the members of the specification beside its own tag. They are
read twice, as members of an event and then of a specification (`Json.map_memberReadings`), so
that the specification has no field with the name of the tag is all that is needed of it.
-/

namespace LiveScene

open Json

theorem ValueType.lookupEntry_name (t : ValueType) :
    lookupEntry t.name ValueType.choices = some t := by
  cases t <;> rfl

namespace Event

mutual

/-- Whether all numbers in an event are finite. -/
def IsFinite : Event → Prop
  | createCell _ _ initial => initial.IsFinite
  | updateCell _ value _ _ => value.IsFinite
  | createNode spec => spec.IsFinite
  | batch events => AreFinite events
  | addChild .. | removeChild .. | updateStyle .. | updateText .. | deleteNode .. | setRoot _ =>
    True

/-- Whether all numbers in several events are finite. -/
def AreFinite : List Event → Prop
  | [] => True
  | e :: r => IsFinite e ∧ AreFinite r

end

/-- An object with the tag in front of its fields is decoded by these. -/
theorem ofLayer?_tagged {variant : String} {ms : List (String × Json)}
    (hvariant : variant ∈ variants) (htag : tag ∉ names ms) (indexed : Bool) :
    ofLayer? indexed (readLayer (ofLayer? true) (.obj ((tag, .str variant) :: ms))) =
      ofFields? variant (.members (memberReadings (ofLayer? true) ms)) := by
  rw [ofLayer?, readLayer, tagged?_members (ofLayer? true) hvariant htag]
  rfl

@[simp] theorem nullable_durationToJson (durationMs : Option UInt64) :
    nullable word? (durationToJson durationMs) = some durationMs :=
  nullable_ofMaybe_word durationMs

mutual

/-- An event decodes to what it was encoded from. -/
theorem ofLayer?_toJson (e : Event) (h : e.IsFinite) (indexed : Bool) :
    ofLayer? indexed (readLayer (ofLayer? true) e.toJson) = some e := by
  cases e with
  | createCell id type initial =>
      have hinitial := Value.ofJson?_toJson h
      rw [toJson, ofLayer?_tagged (by decide) (by simp [tag])]
      simp [ofFields?, occurrences, type.lookupEntry_name, hinitial]
  | updateCell id value animated durationMs =>
      have hvalue := Value.ofJson?_toJson h
      rw [toJson, ofLayer?_tagged (by decide) (by simp [tag])]
      simp [ofFields?, occurrences, hvalue]
  | createNode spec =>
      have hspec := NodeSpec.ofLayer?_members spec h true
      have htag : tag ∉ names spec.members := by
        rw [spec.names_members]
        decide
      rw [toJson, ofLayer?_tagged (by decide) htag]
      simp [ofFields?, map_memberReadings, hspec]
  | batch events =>
      have hevents := collect_listToJson events h
      rw [toJson, ofLayer?_tagged (by decide) (by simp [tag])]
      simp [ofFields?, occurrences, hevents]
  | _ =>
      rw [toJson, ofLayer?_tagged (by decide) (by simp [tag])]
      simp [ofFields?, occurrences]

theorem collect_listToJson (events : List Event) (h : AreFinite events) :
    collect ((readings (ofLayer? true) (listToJson events)).map Reading.one) = some events := by
  cases events with
  | nil => rfl
  | cons e r =>
      obtain ⟨hhead, hrest⟩ := h
      have hhead := ofLayer?_toJson e hhead true
      have hrest := collect_listToJson r hrest
      exact collect_readings_cons _ hhead hrest

end

theorem ofJson?_toJson {e : Event} (h : e.IsFinite) : ofJson? e.toJson = some e :=
  ofLayer?_toJson e h false

/-- A log is read back as it was written. -/
theorem logOfJson?_logToJson {log : List Event} (h : AreFinite log) :
    logOfJson? (logToJson log) = some log := by
  rw [logOfJson?, logToJson, list?]
  induction log with
  | nil => rfl
  | cons e r ih => simp [listToJson, collect, ofJson?_toJson h.1, ih h.2]

end Event

/-- Decoding undoes encoding: what is encoded and has only finite numbers decodes, and to itself.
This holds of events, of the specifications and actions and expressions in them, and of nodes. -/
theorem decode_encode :
    (∀ e : Event, e.IsFinite → Event.ofJson? e.toJson = some e) ∧
    (∀ a : Action, a.IsFinite → Action.ofJson? a.toJson = some a) ∧
    (∀ e : Expr, e.IsFinite → Expr.ofJson? e.toJson = some e) ∧
    (∀ spec : NodeSpec, spec.IsFinite → NodeSpec.ofJson? spec.toJson = some spec) ∧
    (∀ n : Node, n.IsFinite → Node.ofJson? n.toJson = some n) :=
  ⟨fun _ => Event.ofJson?_toJson, fun _ => Action.ofJson?_toJson, fun _ => Expr.ofJson?_toJson,
    fun _ => NodeSpec.ofJson?_toJson, fun _ => Node.ofJson?_toJson⟩

/-- Half the power of the kettle. -/
def halfPower : Expr := .op .mul [.param "power", .literal (.number 0.5)]

/-- Warms the kettle with half its power as long as it is cold, and lets it rest otherwise. -/
def warm : Action :=
  .mk (.branch (.conditional (.cell "heat") .lt (.literal (.number 100)) (.literal (.bool true))
      (.literal (.bool false)))
    [.mk (.assignCell "heat" .add halfPower) none]
    [.mk (.startTimer "rest" (.expr (.cell "pause")) [.mk (.stopTimer "rest") none] false)
      (some .fullCapability)]) none

/-- A kettle with a knob inside. -/
def kettle : NodeSpec :=
  ⟨{ id := "kettle", kind := .container, style := Dict.ofList [("width", .num (.int 8))] },
    [⟨{ id := "knob", kind := .actionable, handlers := { press := [warm] } }, []⟩]⟩

/-- A batch inside a batch, with a cell and the kettle. -/
def kitchen : Event :=
  .batch [.createCell "heat" .number (.number 20), .batch [.createNode kettle, .setRoot "kettle"]]

theorem isFinite_halfPower : halfPower.IsFinite := by
  have hhalf : Float.isFinite 0.5 = true := by decide +kernel
  exact ⟨trivial, hhalf, trivial⟩

theorem isFinite_warm : warm.IsFinite := by
  have hfull : Float.isFinite 100 = true := by decide +kernel
  exact ⟨⟨trivial, hfull, trivial, trivial⟩, ⟨isFinite_halfPower, trivial⟩,
    ⟨trivial, trivial, trivial⟩, trivial⟩

theorem isFinite_press {actions : List Action} (h : Action.AreFinite actions) :
    Handlers.IsFinite { press := actions } := by
  intro kind
  cases kind with
  | press => exact h
  | _ => trivial

theorem decode_encode_kitchen :
    kitchen.IsFinite ∧ Event.ofJson? kitchen.toJson = some kitchen ∧
      Action.ofJson? warm.toJson = some warm ∧ Expr.ofJson? halfPower.toJson = some halfPower ∧
      NodeSpec.ofJson? kettle.toJson = some kettle ∧
      Node.ofJson? (kettle.toNode none).toJson = some (kettle.toNode none) := by
  have hknob : Handlers.IsFinite { press := [warm] } := isFinite_press ⟨isFinite_warm, trivial⟩
  have hkettle : kettle.IsFinite := ⟨isFinite_press trivial, ⟨hknob, trivial⟩, trivial⟩
  have hnode : (kettle.toNode none).IsFinite :=
    ⟨isFinite_press trivial, ⟨hknob, trivial⟩, trivial⟩
  have hheat : Float.isFinite 20 = true := by decide +kernel
  have hkitchen : kitchen.IsFinite := ⟨hheat, ⟨hkettle, trivial, trivial⟩, trivial⟩
  obtain ⟨hevents, hactions, hexprs, hspecs, hnodes⟩ := decode_encode
  exact ⟨hkitchen, hevents kitchen hkitchen, hactions warm isFinite_warm,
    hexprs halfPower isFinite_halfPower, hspecs kettle hkettle, hnodes _ hnode⟩

end LiveScene
