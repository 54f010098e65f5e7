import LiveScene.Expr.Document
import LiveScene.Proofs.Json.Shape

/-!
# LiveScene.Proofs.Document.Expr

Expressions decode to what they were encoded from, if all their numbers are finite.
-/

namespace LiveScene

open Json

/-- Whether a value is finite, if it is a number. -/
def Value.IsFinite : Value → Prop
  | number x => x.isFinite = true
  | _ => True

theorem Value.ofJson?_toJson {v : Value} (h : v.IsFinite) : Value.ofJson? v.toJson = some v := by
  cases v with
  | number x =>
      have hfinite : x.isFinite = true := h
      simp [toJson, ofJson?, ofFloat, hfinite, Number.toFloat]
  | bool b => rfl
  | text s => rfl

theorem Operator.lookupEntry_name (o : Operator) :
    lookupEntry o.name Operator.choices = some o := by
  cases o <;> rfl

theorem Comparison.lookupEntry_name (c : Comparison) :
    lookupEntry c.name Comparison.choices = some c := by
  cases c <;> rfl

namespace Expr

mutual

/-- Whether all numbers in an expression are finite. -/
def IsFinite : Expr → Prop
  | literal value => value.IsFinite
  | cell _ => True
  | param _ => True
  | op _ args => AreFinite args
  | interpolate input breakpoints outputs =>
    IsFinite input ∧ (∀ x ∈ breakpoints, x.isFinite = true) ∧ ∀ x ∈ outputs, x.isFinite = true
  | interpolateColor input breakpoints _ =>
    IsFinite input ∧ ∀ x ∈ breakpoints, x.isFinite = true
  | conditional left _ right yes no =>
    IsFinite left ∧ IsFinite right ∧ IsFinite yes ∧ IsFinite no

/-- Whether all numbers in several expressions are finite. -/
def AreFinite : List Expr → Prop
  | [] => True
  | e :: r => IsFinite e ∧ AreFinite r

end

/-- An object with the tag in front of its fields is decoded by these. -/
theorem ofLayer?_tagged {variant : String} {ms : List (String × Json)}
    (hvariant : variant ∈ variants) (htag : tag ∉ names ms) (indexed : Bool) :
    ofLayer? indexed (readLayer (ofLayer? true) (.obj ((tag, .str variant) :: ms))) =
      ofFields? variant (.members (memberReadings (ofLayer? true) ms)) := by
  rw [ofLayer?, readLayer, tagged?_members (ofLayer? true) hvariant htag]
  rfl

mutual

/-- An expression decodes to what it was encoded from. -/
theorem ofLayer?_toJson (e : Expr) (h : e.IsFinite) (indexed : Bool) :
    ofLayer? indexed (readLayer (ofLayer? true) e.toJson) = some e := by
  cases e with
  | literal value =>
      have hvalue := Value.ofJson?_toJson h
      rw [toJson, ofLayer?_tagged (by decide) (by simp [tag])]
      simp [ofFields?, occurrences, hvalue]
  | cell id =>
      rw [toJson, ofLayer?_tagged (by decide) (by simp [tag])]
      simp [ofFields?, occurrences]
  | param name =>
      rw [toJson, ofLayer?_tagged (by decide) (by simp [tag])]
      simp [ofFields?, occurrences]
  | op operator args =>
      have hoperator := operator.lookupEntry_name
      have hargs := collect_listToJson args h
      rw [toJson, ofLayer?_tagged (by decide) (by simp [tag])]
      simp [ofFields?, occurrences, hoperator, hargs]
  | interpolate input breakpoints outputs =>
      obtain ⟨hinput, hbreakpoints, houtputs⟩ := h
      have hread := ofLayer?_toJson input hinput true
      rw [toJson, ofLayer?_tagged (by decide) (by simp [tag])]
      simp [ofFields?, occurrences, hread, list?_ofFloat hbreakpoints,
        list?_ofFloat houtputs]
  | interpolateColor input breakpoints outputs =>
      obtain ⟨hinput, hbreakpoints⟩ := h
      have hread := ofLayer?_toJson input hinput true
      rw [toJson, ofLayer?_tagged (by decide) (by simp [tag])]
      simp [ofFields?, occurrences, hread, list?_ofFloat hbreakpoints]
  | conditional left test right yes no =>
      obtain ⟨hleft, hright, hyes, hno⟩ := h
      have htest := test.lookupEntry_name
      have hleft := ofLayer?_toJson left hleft true
      have hright := ofLayer?_toJson right hright true
      have hyes := ofLayer?_toJson yes hyes true
      have hno := ofLayer?_toJson no hno true
      rw [toJson, ofLayer?_tagged (by decide) (by simp [tag])]
      simp [ofFields?, occurrences, htest, hleft, hright, hyes, hno]

theorem collect_listToJson (es : List Expr) (h : AreFinite es) :
    collect ((readings (ofLayer? true) (listToJson es)).map Reading.one) = some es := by
  cases es with
  | nil => rfl
  | cons e r =>
      obtain ⟨hhead, hrest⟩ := h
      have hhead := ofLayer?_toJson e hhead true
      have hrest := collect_listToJson r hrest
      exact collect_readings_cons _ hhead hrest

end

theorem ofPart?_toJson {e : Expr} (h : e.IsFinite) : ofPart? e.toJson = some e := by
  rw [ofPart?, one_reading]
  exact ofLayer?_toJson e h true

theorem ofJson?_toJson {e : Expr} (h : e.IsFinite) : ofJson? e.toJson = some e :=
  ofLayer?_toJson e h false

end Expr

end LiveScene
