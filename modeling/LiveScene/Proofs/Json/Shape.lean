import LiveScene.Json.Shape
import LiveScene.Proofs.Dict

/-!
# LiveScene.Proofs.Json.Shape

Decoding of shapes that were encoded.

* What is looked up among the readings of members is the reading of what is looked up
  (`lookupEntry_memberReadings`). So a decoder can be followed on the members themselves.
* The members of an encoded record have names of their own. Then no field is given twice
  (`fields?_members`), and a tag in front is found and taken off (`tagged?_members`).
* Texts, numbers, lists and free-form objects decode to what they were encoded from. Doubles do if
  they are finite, since a document has no other.
-/

namespace LiveScene

namespace Json

section

variable {α β γ : Type} (decode : Layer (Reading α) → Option α)

/-! ### Members -/

theorem names_memberReadings (ms : List (String × Json)) :
    names (memberReadings decode ms) = names ms := by
  induction ms with
  | nil => rfl
  | cons m r ih => simp [memberReadings, ih]

theorem lookupEntry_memberReadings (name : String) (ms : List (String × Json)) :
    lookupEntry name (memberReadings decode ms) = (lookupEntry name ms).map (reading decode) := by
  induction ms with
  | nil => rfl
  | cons m r ih =>
      by_cases h : name = m.1
      · simp [memberReadings, lookupEntry, h]
      · simp [memberReadings, lookupEntry, h, ih]

theorem occurrences_memberReadings (name : String) (ms : List (String × Json)) :
    occurrences name (memberReadings decode ms) = occurrences name ms := by
  induction ms with
  | nil => rfl
  | cons m r ih =>
      simp only [occurrences] at ih
      by_cases h : m.1 = name <;> simp [memberReadings, occurrences, h, ih]

/-- The members can be read again, by another decoder. -/
theorem map_memberReadings (other : Layer (Reading β) → Option β) (ms : List (String × Json)) :
    (Layer.members (memberReadings decode ms)).map (fun r => reading other r.raw) =
      .members (memberReadings other ms) := by
  rw [Layer.map]
  congr 1
  induction ms with
  | nil => rfl
  | cons m r ih => simp [memberReadings, ih]

theorem memberReadings_append (xs ys : List (String × Json)) :
    memberReadings decode (xs ++ ys) = memberReadings decode xs ++ memberReadings decode ys := by
  induction xs with
  | nil => rfl
  | cons m r ih => simp [memberReadings, ih]

theorem occurrences_eq_zero {name : String} {ms : List (String × β)} (h : name ∉ names ms) :
    occurrences name ms = 0 := by
  rw [occurrences, List.length_eq_zero_iff, List.filter_eq_nil_iff]
  intro m hm
  have hne : m.1 ≠ name := fun heq => h (heq ▸ List.mem_map_of_mem hm)
  simpa using hne

theorem occurrences_append (name : String) (xs ys : List (String × β)) :
    occurrences name (xs ++ ys) = occurrences name xs + occurrences name ys := by
  simp [occurrences]

/-- Where all names differ, none occurs twice. -/
theorem occurrences_le_one {ms : List (String × β)} (h : (names ms).Nodup) (name : String) :
    occurrences name ms ≤ 1 := by
  induction ms with
  | nil => simp [occurrences]
  | cons m r ih =>
      rw [names_cons, List.nodup_cons] at h
      by_cases hname : m.1 = name
      · have hrest : occurrences name r = 0 := occurrences_eq_zero (hname ▸ h.1)
        simp only [occurrences] at hrest ⊢
        simp [hname, hrest]
      · have hrest := ih h.2
        simp only [occurrences] at hrest ⊢
        simpa [hname] using hrest

theorem fields?_members {ms : List (String × β)} (h : (names ms).Nodup) (fields : List String) :
    (Layer.members ms).fields? fields = some ms := by
  have hall : (fields.all fun name => occurrences name ms ≤ 1) = true := by
    simp [occurrences_le_one h]
  simp only [Layer.fields?, hall, if_true]

@[simp] theorem fields?_memberReadings (fields : List String) (ms : List (String × Json)) :
    (Layer.members (memberReadings decode ms)).fields? fields =
      if fields.all fun name => occurrences name ms ≤ 1 then some (memberReadings decode ms)
      else none := by
  simp only [Layer.fields?, occurrences_memberReadings]

theorem optional_eq_elim (default : γ) (read : β → Option γ) (name : String)
    (ms : List (String × β)) :
    optional default read name ms = (lookupEntry name ms).elim (some default) read := by
  rw [optional]
  cases lookupEntry name ms <;> rfl

@[simp] theorem required_raw (read : Json → Option γ) (name : String)
    (ms : List (String × Json)) :
    required (fun r => read r.raw) name (memberReadings decode ms) =
      (lookupEntry name ms).bind read := by
  rw [required, lookupEntry_memberReadings]
  cases lookupEntry name ms with
  | none => rfl
  | some j => simp

@[simp] theorem required_one (name : String) (ms : List (String × Json)) :
    required Reading.one name (memberReadings decode ms) =
      (lookupEntry name ms).bind fun j => decode (readLayer decode j) := by
  rw [required, lookupEntry_memberReadings]
  cases lookupEntry name ms with
  | none => rfl
  | some j => simp [one_reading]

@[simp] theorem optional_raw (default : γ) (read : Json → Option γ) (name : String)
    (ms : List (String × Json)) :
    optional default (fun r => read r.raw) name (memberReadings decode ms) =
      (lookupEntry name ms).elim (some default) read := by
  rw [optional_eq_elim, lookupEntry_memberReadings]
  cases lookupEntry name ms <;> simp

@[simp] theorem optional_many (default : List α) (name : String) (ms : List (String × Json)) :
    optional default Reading.many name (memberReadings decode ms) =
      (lookupEntry name ms).elim (some default) fun j => (reading decode j).many := by
  rw [optional_eq_elim, lookupEntry_memberReadings]
  cases lookupEntry name ms <;> rfl

@[simp] theorem maybe_memberReadings (read : Json → Option γ) (name : String)
    (ms : List (String × Json)) :
    maybe Reading.raw read name (memberReadings decode ms) =
      (lookupEntry name ms).elim (some none) (nullable read) := by
  rw [maybe, optional_raw]

@[simp] theorem many_reading (items : List Json) :
    (reading decode (.arr items)).many = collect ((readings decode items).map Reading.one) := by
  rw [reading]

/-- An array whose items decode is decoded item by item. -/
theorem collect_readings_cons {a : α} {j : Json} {items : List Json} {list : List α}
    (hhead : decode (readLayer decode j) = some a)
    (hrest : collect ((readings decode items).map Reading.one) = some list) :
    collect ((readings decode (j :: items)).map Reading.one) = some (a :: list) := by
  rw [readings, List.map_cons, one_reading, hhead, collect, hrest]
  rfl

/-- Taking out the members of a name that does not occur takes out none. -/
theorem filter_ne_of_notMem {name : String} {ms : List (String × β)} (h : name ∉ names ms) :
    ms.filter (fun m => m.1 ≠ name) = ms := by
  refine List.filter_eq_self.mpr fun m hm => ?_
  have hne : m.1 ≠ name := fun heq => h (heq ▸ List.mem_map_of_mem hm)
  simpa using hne

/-- A tag in front of the fields is found and taken off. -/
theorem tagged?_members {tag variant : String} {variants : List String} {ms : List (String × Json)}
    (hvariant : variant ∈ variants) (htag : tag ∉ names ms) (indexed : Bool) :
    (Layer.members (memberReadings decode ((tag, .str variant) :: ms))).tagged? tag variants
        indexed = some (variant, .members (memberReadings decode ms)) := by
  have hrest : tag ∉ names (memberReadings decode ms) := by rwa [names_memberReadings]
  have honce : occurrences tag (memberReadings decode ((tag, .str variant) :: ms)) = 1 := by
    have hnone := occurrences_eq_zero hrest
    simp only [occurrences] at hnone
    simp [occurrences, memberReadings, hnone]
  have hfilter : (memberReadings decode ((tag, .str variant) :: ms)).filter (fun m => m.1 ≠ tag) =
      memberReadings decode ms := by
    rw [memberReadings, List.filter_cons_of_neg (by simp)]
    exact filter_ne_of_notMem hrest
  rw [Layer.tagged?, if_pos honce, hfilter]
  simp [memberReadings, tagName?, hvariant]

end

/-! ### Values -/

@[simp] theorem str?_str (s : String) : str? (.str s) = some s := rfl

@[simp] theorem bool?_bool (b : Bool) : bool? (.bool b) = some b := rfl

@[simp] theorem choice?_str {γ : Type} (choices : List (String × γ)) (s : String) :
    choice? choices (.str s) = lookupEntry s choices := rfl

@[simp] theorem innerChoice?_str {γ : Type} (choices : List (String × γ)) (s : String) :
    innerChoice? choices (.str s) = lookupEntry s choices := rfl

@[simp] theorem choiceIn?_str {γ : Type} (inner : Bool) (choices : List (String × γ))
    (s : String) : choiceIn? inner choices (.str s) = lookupEntry s choices := by
  cases inner <;> rfl

theorem float?_ofFloat {x : Float} (h : x.isFinite = true) : float? (ofFloat x) = some x := by
  simp [ofFloat, h, float?, Number.toFloat]

@[simp] theorem word?_ofNat (w : UInt64) : word? (ofNat w.toNat) = some w := by
  have hlt : w.toNat < 18446744073709551616 := w.toNat_lt_size
  have hfits : 0 ≤ (w.toNat : Int) ∧ (w.toNat : Int) < UInt64.size := by
    refine ⟨Int.natCast_nonneg _, ?_⟩
    show (w.toNat : Int) < 18446744073709551616
    omega
  rw [ofNat, word?, if_pos hfits]
  simp

@[simp] theorem record?_ofRecord (r : Record) : record? (ofRecord r) = some r :=
  congrArg some (Dict.ofList_entries r)

/-- A list that is encoded item by item is decoded item by item. -/
theorem collect_map {α γ : Type} {decode : α → Option γ} {encode : γ → α} {items : List γ}
    (h : ∀ c ∈ items, decode (encode c) = some c) :
    collect ((items.map encode).map decode) = some items := by
  induction items with
  | nil => rfl
  | cons c r ih =>
      have hrest := ih fun d hd => h d (List.mem_cons_of_mem c hd)
      simp only [List.map_cons, h c List.mem_cons_self, collect, hrest, Option.map_some]

theorem list?_ofFloat {xs : List Float} (h : ∀ x ∈ xs, x.isFinite = true) :
    list? float? (.arr (xs.map .ofFloat)) = some xs :=
  collect_map fun x hx => float?_ofFloat (h x hx)

@[simp] theorem list?_ofStrings (texts : List String) :
    list? str? (.ofStrings texts) = some texts :=
  collect_map fun _ _ => rfl

end Json

end LiveScene
