import LiveScene.Proofs.Text
import LiveScene.Template

/-!
# LiveScene.Proofs.Template.Spans

Which parts of a text its placeholders are, and what becomes of them.

* `Cuts` cuts a text into spans, each up to the first closing marker behind the first opening
  marker that is left. It looks at the text alone, so no placeholder can come from an item: every
  text has one cut (`exists_cuts`, `Cuts.unique`).
* The text that comes out is that of the spans, each with its placeholder replaced if it has a
  value (`resolveChars_of_cuts`). It is the text itself if none has.
* A text of a document that is a single placeholder (`IsOnly`) takes another way. A document
  stays as it is if neither way finds a value in any of its texts (`resolve_eq_self`).
-/

namespace LiveScene

/-! ### The texts of a document -/

namespace Json

mutual

/-- The texts in a document. Names of members are none. -/
def texts : Json → List String
  | .str s => [s]
  | .arr items => itemsTexts items
  | .obj members => membersTexts members
  | _ => []

/-- `texts` of the items. -/
def itemsTexts : List Json → List String
  | [] => []
  | j :: r => texts j ++ itemsTexts r

/-- `texts` of the values of members. -/
def membersTexts : List (String × Json) → List String
  | [] => []
  | (_, j) :: r => texts j ++ membersTexts r

end

end Json

namespace ItemScope

open Text (BreaksAt)

variable {scope : ItemScope} {cs opened before path rest tail : List Char}

/-! ### One placeholder -/

theorem opening_ne_nil : opening ≠ [] := List.cons_ne_nil _ _

theorem closing_ne_nil : closing ≠ [] := List.cons_ne_nil _ _

/-- An opening marker with a closing marker behind it. -/
def HasSpan (cs : List Char) : Prop :=
  ∃ before path rest, cs = before ++ opening ++ path ++ closing ++ rest

/-- Behind the first opening marker there is a closing marker if there is one behind any. -/
theorem closing_infix_of_hasSpan (h : HasSpan cs) (hopen : BreaksAt opening cs before opened) :
    closing <:+: opened := by
  obtain ⟨b, p, r, heq⟩ := h
  have hbehind : cs = b ++ opening ++ (p ++ closing ++ r) := by
    simpa only [List.append_assoc] using heq
  have hle := hopen.first b _ hbehind
  have hsuffix : p ++ closing ++ r <:+ opened := by
    refine List.suffix_of_suffix_length_le (hbehind ▸ List.suffix_append _ _)
      (hopen.eq ▸ List.suffix_append _ opened) ?_
    have hlength := congrArg List.length (hopen.eq.symm.trans hbehind)
    simp only [List.length_append] at hlength ⊢
    omega
  exact (List.infix_append p closing r).trans hsuffix.isInfix

theorem hasSpan_of_breaksAt (hopen : BreaksAt opening cs before opened)
    (hclose : BreaksAt closing opened path rest) : HasSpan cs := by
  refine ⟨before, path, rest, ?_⟩
  rw [hopen.eq, hclose.eq]
  simp only [List.append_assoc]

/-- The first placeholder of a text is replaced, and what follows it is a text of its own. -/
theorem resolveChars_of_breaksAt (scope : ItemScope) (hopen : BreaksAt opening cs before opened)
    (hclose : BreaksAt closing opened path rest) :
    scope.resolveChars cs = before ++ scope.replacement path ++ scope.resolveChars rest := by
  have hopen' := Text.breakAt?_eq_some_iff.mpr hopen
  have hclose' := Text.breakAt?_eq_some_iff.mpr hclose
  rw [resolveChars]
  split
  · next hnone => rw [hopen'] at hnone; cases hnone
  · next hsome =>
      rw [hopen', Option.some.injEq, Prod.mk.injEq] at hsome
      obtain ⟨rfl, rfl⟩ := hsome
      split
      · next hnone => rw [hclose'] at hnone; cases hnone
      · next hfound =>
          rw [hclose', Option.some.injEq, Prod.mk.injEq] at hfound
          obtain ⟨rfl, rfl⟩ := hfound
          rfl

/-- A text without a placeholder stays as it is. -/
theorem resolveChars_of_not_hasSpan (scope : ItemScope) (h : ¬ HasSpan cs) :
    scope.resolveChars cs = cs := by
  rw [resolveChars]
  split
  · rfl
  · next hopen =>
      split
      · rfl
      · next hclose =>
          exact absurd (hasSpan_of_breaksAt (Text.breaksAt_of_breakAt? hopen)
            (Text.breaksAt_of_breakAt? hclose)) h

/-! ### All placeholders -/

/-- A placeholder of a text, and what stands in front of it. -/
structure Span where
  before : List Char
  path : List Char

namespace Span

/-- The part of the text, as it is written. -/
def written (span : Span) : List Char := span.before ++ (opening ++ span.path ++ closing)

/-- The part of the text with the placeholder replaced: by a text as it is, by any other value as
a compact document, by itself if it has no value. -/
def resolved (scope : ItemScope) (span : Span) : List Char :=
  span.before ++
    match scope.lookup? span.path with
    | some (.str s) => s.toList
    | some j => j.text.toList
    | none => opening ++ span.path ++ closing

theorem resolved_eq (scope : ItemScope) (span : Span) :
    span.resolved scope = span.before ++ scope.replacement span.path := by
  rw [resolved, replacement]
  cases scope.lookup? span.path with
  | none => rfl
  | some j => cases j <;> simp [insertedText, Json.text]

theorem resolved_of_none {span : Span} (h : scope.lookup? span.path = none) :
    span.resolved scope = span.written := by
  rw [resolved, h]
  rfl

end Span

/-- A text is cut from left to right, at the first opening marker and the first closing marker
behind it, into spans and a rest without a placeholder. -/
inductive Cuts : List Char → List Span → List Char → Prop where
  | rest {cs : List Char} (h : ¬ HasSpan cs) : Cuts cs [] cs
  | span {cs opened before path rest tail : List Char} {spans : List Span}
      (hopen : BreaksAt opening cs before opened) (hclose : BreaksAt closing opened path rest)
      (h : Cuts rest spans tail) : Cuts cs (⟨before, path⟩ :: spans) tail

variable {spans : List Span}

/-- Every text has a cut. -/
theorem exists_cuts (cs : List Char) : ∃ spans tail, Cuts cs spans tail := by
  by_cases hspan : HasSpan cs
  · obtain ⟨b, p, r, heq⟩ := hspan
    have hoccurs : opening <:+: cs := ⟨b, p ++ closing ++ r, by simp [heq]⟩
    obtain ⟨before, opened, hopen⟩ := Text.exists_breaksAt hoccurs
    obtain ⟨path, rest, hclose⟩ :=
      Text.exists_breaksAt (closing_infix_of_hasSpan ⟨b, p, r, heq⟩ hopen)
    have hshorter : rest.length < cs.length := by
      rw [hopen.eq, hclose.eq]
      simp only [opening, List.length_append, List.length_cons]
      omega
    obtain ⟨spans, tail, h⟩ := exists_cuts rest
    exact ⟨⟨before, path⟩ :: spans, tail, .span hopen hclose h⟩
  · exact ⟨[], cs, .rest hspan⟩
termination_by cs.length

/-- A text has one cut. -/
theorem Cuts.unique {spans' : List Span} {tail' : List Char} (h : Cuts cs spans tail)
    (h' : Cuts cs spans' tail') : spans = spans' ∧ tail = tail' := by
  induction h generalizing spans' with
  | rest hno =>
      cases h' with
      | rest => exact ⟨rfl, rfl⟩
      | span hopen hclose => exact absurd (hasSpan_of_breaksAt hopen hclose) hno
  | span hopen hclose hrest ih =>
      cases h' with
      | rest hno => exact absurd (hasSpan_of_breaksAt hopen hclose) hno
      | span hopen' hclose' hrest' =>
          obtain ⟨rfl, rfl⟩ := hopen.unique hopen'
          obtain ⟨rfl, rfl⟩ := hclose.unique hclose'
          obtain ⟨rfl, rfl⟩ := ih hrest'
          exact ⟨rfl, rfl⟩

/-- A cut loses nothing of the text. -/
theorem Cuts.eq_written (h : Cuts cs spans tail) : cs = spans.flatMap Span.written ++ tail := by
  induction h with
  | rest => rfl
  | span hopen hclose _ ih =>
      rw [List.flatMap_cons, List.append_assoc, ← ih, hopen.eq, hclose.eq, Span.written]
      simp only [List.append_assoc]

/-- The placeholders of the spans are replaced, and all else is copied. -/
theorem resolveChars_of_cuts (scope : ItemScope) (h : Cuts cs spans tail) :
    scope.resolveChars cs = spans.flatMap (Span.resolved scope) ++ tail := by
  induction h with
  | rest hno => exact resolveChars_of_not_hasSpan scope hno
  | span hopen hclose _ ih =>
      rw [resolveChars_of_breaksAt scope hopen hclose, ih, List.flatMap_cons, Span.resolved_eq,
        List.append_assoc _ (List.flatMap _ _)]

/-- No placeholder of a text has a value. -/
def NoValue (scope : ItemScope) (cs : List Char) : Prop :=
  ∀ spans tail, Cuts cs spans tail → ∀ span ∈ spans, scope.lookup? span.path = none

theorem resolveChars_eq_self (h : scope.NoValue cs) : scope.resolveChars cs = cs := by
  obtain ⟨spans, tail, hcuts⟩ := exists_cuts cs
  have hsame : spans.flatMap (Span.resolved scope) = spans.flatMap Span.written :=
    List.flatMap_congr fun span hspan => Span.resolved_of_none (h spans tail hcuts span hspan)
  rw [resolveChars_of_cuts scope hcuts, hsame, ← hcuts.eq_written]

theorem resolveText_eq_self {s : String} (h : scope.NoValue s.toList) :
    scope.resolveText s = s := by
  rw [resolveText, resolveChars_eq_self h, String.ofList_toList]

/-! ### Single placeholders and documents -/

/-- A text is a single placeholder between blanks. -/
structure IsOnly (cs path : List Char) : Prop where
  trim_eq : Text.trim cs = opening ++ path ++ closing
  not_opening : ¬ opening <:+: path
  not_closing : ¬ closing <:+: path

theorem onlyPath?_eq_some_iff : onlyPath? cs = some path ↔ IsOnly cs path := by
  constructor
  · intro h
    obtain ⟨opened, hopened, h⟩ := Option.bind_eq_some_iff.mp h
    obtain ⟨inside, hinside, h⟩ := Option.bind_eq_some_iff.mp h
    rw [Text.after?_eq_some_iff] at hopened
    rw [Text.before?_eq_some_iff] at hinside
    split at h
    · cases h
    · next hmarkers =>
        obtain rfl := Option.some.inj h
        rw [Bool.or_eq_true, not_or, Text.occurs_iff, Text.occurs_iff] at hmarkers
        exact ⟨by rw [hopened, hinside, List.append_assoc], hmarkers.1, hmarkers.2⟩
  · intro h
    have hopened : Text.after? opening (Text.trim cs) = some (path ++ closing) := by
      rw [Text.after?_eq_some_iff, h.trim_eq, List.append_assoc]
    have hinside : Text.before? closing (path ++ closing) = some path :=
      Text.before?_eq_some_iff.mpr rfl
    have hmarkers : ¬ (Text.occurs opening path || Text.occurs closing path) = true := by
      rw [Bool.or_eq_true, not_or, Text.occurs_iff, Text.occurs_iff]
      exact ⟨h.not_opening, h.not_closing⟩
    simp only [onlyPath?, hopened, hinside, Option.bind_eq_bind, Option.bind_some, if_neg hmarkers]

/-- Neither way finds a value for a placeholder of a text. -/
structure Leaves (scope : ItemScope) (s : String) : Prop where
  noValue : scope.NoValue s.toList
  only : ∀ path, IsOnly s.toList path → scope.lookup? path = none

theorem resolveString_eq_self {s : String} (h : scope.Leaves s) :
    scope.resolveString s = .str s := by
  have honly : scope.onlyValue? s = none := by
    rw [onlyValue?, Option.bind_eq_none_iff]
    exact fun path hpath => h.only path (onlyPath?_eq_some_iff.mp hpath)
  rw [resolveString, honly, resolveText_eq_self h.noValue]

mutual

/-- A document stays as it is if no text in it has a placeholder with a value. -/
theorem resolve_eq_self (j : Json) (h : ∀ s ∈ j.texts, scope.Leaves s) : scope.resolve j = j := by
  cases j with
  | str s => exact resolveString_eq_self (h s List.mem_cons_self)
  | arr items => rw [resolve, resolveItems_eq_self items h]
  | obj members => rw [resolve, resolveMembers_eq_self members h]
  | _ => rfl

theorem resolveItems_eq_self (items : List Json)
    (h : ∀ s ∈ Json.itemsTexts items, scope.Leaves s) : scope.resolveItems items = items := by
  cases items with
  | nil => rfl
  | cons j r =>
      rw [resolveItems, resolve_eq_self j fun s hs => h s (List.mem_append_left _ hs),
        resolveItems_eq_self r fun s hs => h s (List.mem_append_right _ hs)]

theorem resolveMembers_eq_self (members : List (String × Json))
    (h : ∀ s ∈ Json.membersTexts members, scope.Leaves s) :
    scope.resolveMembers members = members := by
  cases members with
  | nil => rfl
  | cons e r =>
      obtain ⟨name, j⟩ := e
      rw [resolveMembers, resolve_eq_self j fun s hs => h s (List.mem_append_left _ hs),
        resolveMembers_eq_self r fun s hs => h s (List.mem_append_right _ hs)]

end

theorem entries_resolveRecord (scope : ItemScope) (record : Json.Record) :
    (scope.resolveRecord record).entries = scope.resolveMembers record.entries := by
  obtain ⟨entries, ascending⟩ := record
  suffices h : entries.map (fun e => (e.1, scope.resolve e.2)) = scope.resolveMembers entries from h
  clear ascending
  induction entries with
  | nil => rfl
  | cons e r ih => rw [List.map_cons, ih, resolveMembers]

theorem resolveRecord_eq_self {record : Json.Record}
    (h : ∀ s ∈ (Json.ofRecord record).texts, scope.Leaves s) :
    scope.resolveRecord record = record := by
  have hentries := entries_resolveRecord scope record
  rw [resolveMembers_eq_self record.entries h] at hentries
  exact Dict.ext_get? fun name => congrArg (lookupEntry name) hentries

/-! ### One pass -/

/-- Placeholders are replaced in one pass, and all else stays as it is. -/
structure ReplacesOnce (scope : ItemScope) : Prop where
  /-- A text has one cut, which says nothing of an item. The placeholder of each span is replaced by
  its value, if it has one, and the value is not looked at again. -/
  text : ∀ s : String, ∃ spans tail, Cuts s.toList spans tail ∧
    (∀ spans' tail', Cuts s.toList spans' tail' → spans' = spans ∧ tail' = tail) ∧
    s.toList = spans.flatMap Span.written ++ tail ∧
    (scope.resolveText s).toList = spans.flatMap (Span.resolved scope) ++ tail
  /-- A text without a placeholder that has a value stays as it is. -/
  text_eq : ∀ s : String, scope.NoValue s.toList → scope.resolveText s = s
  /-- So does a document of such texts, if none of them is a single placeholder with a value. -/
  document_eq : ∀ j : Json, (∀ s ∈ j.texts, scope.Leaves s) → scope.resolve j = j
  /-- So does a record. -/
  record_eq : ∀ record : Json.Record, (∀ s ∈ (Json.ofRecord record).texts, scope.Leaves s) →
    scope.resolveRecord record = record

/-- Every scope replaces placeholders in one pass. -/
theorem replacesOnce (scope : ItemScope) : scope.ReplacesOnce where
  text s := by
    obtain ⟨spans, tail, hcuts⟩ := exists_cuts s.toList
    refine ⟨spans, tail, hcuts, fun _ _ h' => h'.unique hcuts, hcuts.eq_written, ?_⟩
    rw [resolveText, String.toList_ofList, resolveChars_of_cuts scope hcuts]
  text_eq _ := resolveText_eq_self
  document_eq := resolve_eq_self
  record_eq _ := resolveRecord_eq_self

/-- An order with a number of pieces and a note that looks like a placeholder. -/
def order : ItemScope :=
  ⟨"order", .obj [("note", .str "\x7b\x7border.pieces\x7d\x7d"), ("pieces", .num (.int 3))]⟩

/-- A text with three placeholders, of which the last has no value. -/
def orderText : String :=
  "\x7b\x7border.pieces\x7d\x7d: \x7b\x7b order.note \x7d\x7d, \x7b\x7border.day\x7d\x7d."

theorem cuts_orderText : Cuts orderText.toList
    [⟨[], "order.pieces".toList⟩, ⟨": ".toList, " order.note ".toList⟩,
      ⟨", ".toList, "order.day".toList⟩] ['.'] := by
  refine .span (Text.breakAt?_eq_some_iff.mp rfl) (Text.breakAt?_eq_some_iff.mp rfl) <|
    .span (Text.breakAt?_eq_some_iff.mp rfl) (Text.breakAt?_eq_some_iff.mp rfl) <|
    .span (Text.breakAt?_eq_some_iff.mp rfl) (Text.breakAt?_eq_some_iff.mp rfl) <| .rest ?_
  rintro ⟨before, path, rest, h⟩
  have hlength := congrArg List.length h
  simp [opening, closing] at hlength
  omega

/-- The pieces and the note are put in, and the note is not looked at again. -/
theorem replacesOnce_order : ∃ spans tail, Cuts orderText.toList spans tail ∧ spans.length = 3 ∧
    order.resolveText orderText =
      "3: \x7b\x7border.pieces\x7d\x7d, \x7b\x7border.day\x7d\x7d." := by
  obtain ⟨spans, tail, hcuts, hunique, -, hresolved⟩ := (replacesOnce order).text orderText
  obtain ⟨rfl, rfl⟩ := hunique _ _ cuts_orderText
  refine ⟨_, _, hcuts, rfl, String.toList_injective (hresolved.trans ?_)⟩
  decide +kernel

end ItemScope

end LiveScene
