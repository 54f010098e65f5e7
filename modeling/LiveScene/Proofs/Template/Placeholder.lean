import LiveScene.Proofs.Template.Spans

/-!
# LiveScene.Proofs.Template.Placeholder

What becomes of one placeholder.

* Between other texts a placeholder is replaced if no opening marker begins further to the left
  (`OpensNone`). One that does, and has no closing marker of its own, takes the placeholder into a
  longer one, and it is the longer path that is looked up (`resolveText_placeholder_iff`).
* Alone between blanks a placeholder gives a document its value. A text gets the text of that value
  in its place, and keeps the blanks (`resolveText_of_onlyValue?`).
-/

namespace LiveScene.ItemScope

open Text (BreaksAt isBlank)

variable {scope : ItemScope} {u v path before inside : List Char}

/-! ### Markers -/

theorem dropLast_opening : opening.dropLast = ['\x7b'] := rfl

theorem dropLast_closing : closing.dropLast = ['\x7d'] := rfl

/-- Where no closing marker stands in front of an opening one, and no closing brace in the path
behind it, the first closing marker is the one behind the path. -/
theorem not_closing_infix_opened (hu : ¬ closing <:+: u) (hpath : '\x7d' ∉ path) :
    ¬ closing <:+: u ++ (opening ++ path ++ ['\x7d']) := by
  rw [List.infix_append_iff]
  rintro (hoccurs | hoccurs | ⟨front, back, heq, hfront, hback⟩)
  · exact hu hoccurs
  · -- There is one closing brace, and the marker needs two.
    have hcount := hoccurs.sublist.count_le '\x7d'
    simp [closing, opening, List.count_eq_zero_of_not_mem hpath] at hcount
  · cases back with
    | nil =>
        rw [List.append_nil] at heq
        exact hu (heq ▸ hfront.isInfix)
    | cons c r =>
        -- The marker would go on with an opening brace.
        obtain ⟨t, ht⟩ := hback
        have hopening : c = '\x7b' := (List.cons.inj ht).1
        have hclosing : c ∈ closing := heq ▸ List.mem_append_right front List.mem_cons_self
        exact absurd (hopening ▸ hclosing) (by decide)

/-! ### A placeholder between texts -/

/-- No opening marker begins in a text, whatever follows it: there is none in it, and no brace at
its end. -/
def OpensNone (u : List Char) : Prop := ¬ opening <:+: u ∧ u.getLast? ≠ some '\x7b'

instance (u : List Char) : Decidable (OpensNone u) := instDecidableAnd

/-- A text opens no placeholder exactly if an opening marker behind it is the first one. -/
theorem opensNone_iff : OpensNone u ↔ BreaksAt opening (u ++ opening) u [] := by
  have hfirst := @Text.breaksAt_append_iff opening u [] opening_ne_nil
  rw [List.append_nil, dropLast_opening] at hfirst
  rw [hfirst, opening, Text.pair_infix_concat_iff, not_or, OpensNone, opening]

theorem opensNone_of_notMem (h : '\x7b' ∉ u) : OpensNone u :=
  ⟨fun hoccurs => h (hoccurs.subset List.mem_cons_self),
    fun hlast => h (List.mem_of_getLast? hlast)⟩

theorem exists_breaksAt_opening (u : List Char) :
    ∃ before inside, BreaksAt opening (u ++ opening) before inside :=
  Text.exists_breaksAt (List.suffix_append u opening).isInfix

/-- The first opening marker and the first closing marker make a placeholder. It is the one that is
written behind a text, or a longer one that begins in the text. -/
theorem resolveChars_of_opened (hopen : BreaksAt opening (u ++ opening) before inside)
    (hclosing : ¬ closing <:+: inside ++ path ++ ['\x7d']) :
    scope.resolveChars (u ++ (opening ++ path ++ closing) ++ v) =
      before ++ scope.replacement (inside ++ path) ++ scope.resolveChars v := by
  have heq : u ++ (opening ++ path ++ closing) ++ v = u ++ opening ++ (path ++ closing ++ v) := by
    simp only [List.append_assoc]
  have hclose : BreaksAt closing (inside ++ (path ++ closing ++ v)) (inside ++ path) v := by
    rw [← List.append_assoc, ← List.append_assoc, Text.breaksAt_append_iff closing_ne_nil,
      dropLast_closing]
    exact hclosing
  rw [heq]
  exact resolveChars_of_breaksAt scope (hopen.append opening_ne_nil _) hclose

/-- What lies behind the first opening marker lies behind the text in front of it. -/
theorem infix_opened (hopen : BreaksAt opening (u ++ opening) before inside) (rest : List Char) :
    inside ++ rest <:+: u ++ (opening ++ rest) := by
  refine ⟨before ++ opening, [], ?_⟩
  calc before ++ opening ++ (inside ++ rest) ++ []
      = before ++ opening ++ inside ++ rest := by
        rw [List.append_nil, List.append_assoc (before ++ opening)]
    _ = u ++ (opening ++ rest) := by rw [← hopen.eq, List.append_assoc]

/-- A placeholder for a path. -/
def placeholder (path : String) : String := String.ofList (opening ++ path.toList ++ closing)

/-- The text of a value. -/
def inserted (j : Json) : String := String.ofList (insertedText j)

theorem replacement_of_some {j : Json} (h : scope.lookup? path = some j) :
    scope.replacement path = insertedText j := by
  rw [replacement, h]

/-- Behind a text without a closing marker stands a placeholder that has a value, without a closing
brace in its path. What is replaced is the placeholder that begins at the first opening marker. This
is the one, by its value, exactly if no opening marker begins in the text, or if the same text comes
out of the longer one. -/
theorem resolveText_placeholder_iff (scope : ItemScope) {u path v : String} {j : Json}
    (hu : ¬ closing <:+: u.toList) (hpath : '\x7d' ∉ path.toList)
    (hj : scope.lookup? path.toList = some j) :
    (∀ before inside, BreaksAt opening (u.toList ++ opening) before inside →
      (scope.resolveText (u ++ placeholder path ++ v)).toList =
        before ++ scope.replacement (inside ++ path.toList) ++ (scope.resolveText v).toList) ∧
      (scope.resolveText (u ++ placeholder path ++ v) = u ++ inserted j ++ scope.resolveText v ↔
        OpensNone u.toList ∨ ∃ before inside, BreaksAt opening (u.toList ++ opening) before inside ∧
          before ++ scope.replacement (inside ++ path.toList) = u.toList ++ insertedText j) := by
  have hall : ∀ before inside, BreaksAt opening (u.toList ++ opening) before inside →
      (scope.resolveText (u ++ placeholder path ++ v)).toList =
        before ++ scope.replacement (inside ++ path.toList) ++ (scope.resolveText v).toList := by
    intro before inside hopen
    have hclosing : ¬ closing <:+: inside ++ path.toList ++ ['\x7d'] := by
      intro hoccurs
      rw [List.append_assoc] at hoccurs
      have hopened := hoccurs.trans (infix_opened hopen _)
      rw [← List.append_assoc opening] at hopened
      exact not_closing_infix_opened hu hpath hopened
    simp only [resolveText, placeholder, String.toList_append, String.toList_ofList]
    exact resolveChars_of_opened hopen hclosing
  refine ⟨hall, ?_⟩
  rw [← String.toList_inj, String.toList_append, String.toList_append, inserted,
    String.toList_ofList]
  constructor
  · intro h
    obtain ⟨before, inside, hopen⟩ := exists_breaksAt_opening u.toList
    rw [hall before inside hopen] at h
    exact .inr ⟨before, inside, hopen, List.append_cancel_right h⟩
  · rintro (hnone | ⟨before, inside, hopen, heq⟩)
    · rw [hall _ _ (opensNone_iff.mp hnone), List.nil_append, replacement_of_some hj]
    · rw [hall before inside hopen, heq]

/-- The scope of a task in a list. -/
def taskScope : ItemScope :=
  ⟨"item", .obj [("count", .num (.int 4)), ("id", .str "todo-3")]⟩

theorem resolveText_placeholder_braced :
    ¬ closing <:+: "\x7d \x7b todos/".toList ∧ OpensNone "\x7d \x7b todos/".toList ∧
      taskScope.resolveText ("\x7d \x7b todos/" ++ placeholder "item.id" ++ " \x7b\x7b") =
        "\x7d \x7b todos/" ++ inserted (.str "todo-3") ++ taskScope.resolveText " \x7b\x7b" := by
  have hu : ¬ closing <:+: "\x7d \x7b todos/".toList := by decide
  have hnone : OpensNone "\x7d \x7b todos/".toList := by decide
  have hpath : '\x7d' ∉ "item.id".toList := by decide
  exact ⟨hu, hnone, (resolveText_placeholder_iff taskScope hu hpath rfl).2.mpr (.inl hnone)⟩

/-- An opening marker that is never closed keeps the placeholder behind it from being replaced,
although it has a value. -/
theorem resolveText_stray_opening :
    taskScope.lookup? "item.id".toList = some (.str "todo-3") ∧
      ¬ closing <:+: "use \x7b\x7b for ".toList ∧
      taskScope.resolveText ("use \x7b\x7b for " ++ placeholder "item.id" ++ "") =
        "use \x7b\x7b for " ++ placeholder "item.id" ∧
      taskScope.resolveText ("use \x7b\x7b for " ++ placeholder "item.id" ++ "") ≠
        "use \x7b\x7b for " ++ inserted (.str "todo-3") ++ taskScope.resolveText "" := by
  refine ⟨rfl, by decide, ?_, ?_⟩
  · decide +kernel
  · decide +kernel

/-! ### A placeholder alone -/

theorem opening_notMem_of_blank {cs : List Char} (h : ∀ c ∈ cs, isBlank c = true) :
    '\x7b' ∉ cs := fun hmem => absurd (h _ hmem) (by decide)

/-- A text without opening braces has no placeholder. -/
theorem not_hasSpan_of_notMem (h : '\x7b' ∉ u) : ¬ HasSpan u := by
  rintro ⟨before, path, rest, rfl⟩
  exact h (by simp [opening])

/-- If a text gives a document the value of its single placeholder, then as a text it is the text of
that value between the blanks that it had. This is so unless the path ends in a closing brace, of
which three stand in a row then. -/
theorem resolveText_of_onlyValue? (scope : ItemScope) {s : String} {w : Json}
    (hw : scope.onlyValue? s = some w)
    (hlast : ∀ path, IsOnly s.toList path → path.getLast? ≠ some '\x7d') :
    scope.resolve (.str s) = w ∧
      (∃ lead trail, s.toList = lead ++ Text.trim s.toList ++ trail ∧
        (∀ c ∈ lead, isBlank c = true) ∧ (∀ c ∈ trail, isBlank c = true) ∧
        (scope.resolveText s).toList = lead ++ insertedText w ++ trail) ∧
      (Text.trim s.toList = s.toList → scope.resolveText s = inserted w) := by
  obtain ⟨path, hpath, hlookup⟩ := Option.bind_eq_some_iff.mp hw
  have honly := onlyPath?_eq_some_iff.mp hpath
  obtain ⟨lead, trail, heq, hlead, htrail⟩ := Text.exists_blank_around_trim s.toList
  have hchars : scope.resolveChars s.toList = lead ++ insertedText w ++ trail := by
    have hopen := opensNone_iff.mp (opensNone_of_notMem (opening_notMem_of_blank hlead))
    have hclosing : ¬ closing <:+: path ++ ['\x7d'] := by
      rw [closing, Text.pair_infix_concat_iff, not_or]
      exact ⟨honly.not_closing, hlast path honly⟩
    have htail := not_hasSpan_of_notMem (opening_notMem_of_blank htrail)
    rw [heq, honly.trim_eq, resolveChars_of_opened hopen hclosing,
      resolveChars_of_not_hasSpan scope htail, List.nil_append, replacement_of_some hlookup]
  have htext : (scope.resolveText s).toList = lead ++ insertedText w ++ trail := by
    rw [resolveText, String.toList_ofList, hchars]
  refine ⟨?_, ⟨lead, trail, heq, hlead, htrail, htext⟩, fun htrim => ?_⟩
  · rw [resolve, resolveString, hw]
  · -- Where nothing is trimmed, there are no blanks.
    have hlength := congrArg List.length heq
    rw [htrim, List.length_append, List.length_append] at hlength
    obtain rfl : lead = [] := List.length_eq_zero_iff.mp (by omega)
    obtain rfl : trail = [] := List.length_eq_zero_iff.mp (by omega)
    rw [List.nil_append, List.append_nil] at htext
    rw [inserted, ← htext, String.ofList_toList]

theorem resolveText_of_onlyValue?_count :
    taskScope.onlyValue? "\t\x7b\x7b item.count \x7d\x7d" = some (.num (.int 4)) ∧
      taskScope.resolve (.str "\t\x7b\x7b item.count \x7d\x7d") = .num (.int 4) ∧
      ∃ lead trail, "\t\x7b\x7b item.count \x7d\x7d".toList =
          lead ++ "\x7b\x7b item.count \x7d\x7d".toList ++ trail ∧
        (taskScope.resolveText "\t\x7b\x7b item.count \x7d\x7d").toList =
          lead ++ "4".toList ++ trail := by
  have hw : taskScope.onlyValue? "\t\x7b\x7b item.count \x7d\x7d" = some (.num (.int 4)) := rfl
  have hlast : ∀ path, IsOnly "\t\x7b\x7b item.count \x7d\x7d".toList path →
      path.getLast? ≠ some '\x7d' := by
    intro path honly
    have hpath := onlyPath?_eq_some_iff.mpr honly
    obtain rfl : " item.count ".toList = path := Option.some.inj hpath
    decide
  obtain ⟨hdocument, ⟨lead, trail, heq, -, -, htext⟩, -⟩ :=
    resolveText_of_onlyValue? taskScope hw hlast
  exact ⟨hw, hdocument, lead, trail, heq, htext⟩

/-- Blanks around a placeholder are lost in a document and kept in a text. -/
theorem resolveText_onlyValue?_blanks :
    taskScope.onlyValue? " \x7b\x7bitem.count\x7d\x7d " = some (.num (.int 4)) ∧
      taskScope.resolveText " \x7b\x7bitem.count\x7d\x7d " = " 4 " ∧
      taskScope.resolveText " \x7b\x7bitem.count\x7d\x7d " ≠ inserted (.num (.int 4)) := by
  refine ⟨rfl, ?_, ?_⟩
  · decide +kernel
  · decide +kernel

end LiveScene.ItemScope
