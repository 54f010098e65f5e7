import LiveScene.Text.Blank
import LiveScene.Text.Search
import Mathlib.Data.List.DropRight
import Mathlib.Data.List.Infix

/-!
# LiveScene.Proofs.Text

Where texts break, and what trimming takes away.

* `BreaksAt` says without a search where the first occurrence of a marker is. The search finds it
  (`breakAt?_eq_some_iff`), and finds nothing exactly if the marker does not occur
  (`breakAt?_eq_none_iff`).
* Whether an occurrence is the first one depends on nothing behind it: no other may begin in front
  of it, and one that does ends before the last character of the marker (`breaksAt_append_iff`).
-/

namespace LiveScene.Text

/-- A text breaks into what stands before the first occurrence of a marker, and what follows it. -/
structure BreaksAt (marker cs before rest : List Char) : Prop where
  eq : cs = before ++ marker ++ rest
  first : ∀ b r, cs = b ++ marker ++ r → before.length ≤ b.length

variable {marker cs before rest : List Char}

/-! ### Occurrences -/

theorem after?_eq_none_iff : after? marker cs = none ↔ ¬ marker <+: cs := by
  rw [Option.eq_none_iff_forall_ne_some]
  constructor
  · rintro h ⟨rest, rfl⟩
    exact h rest (after?_eq_some_iff.mpr rfl)
  · intro h rest hrest
    exact h ⟨rest, (after?_eq_some_iff.mp hrest).symm⟩

/-- What stands in front of a marker at the end. -/
theorem before?_eq_some_iff : before? marker cs = some before ↔ cs = before ++ marker := by
  simp only [before?, Option.map_eq_some_iff, after?_eq_some_iff]
  constructor
  · rintro ⟨reversed, h, rfl⟩
    rw [← List.reverse_reverse cs, h, List.reverse_append, List.reverse_reverse]
  · rintro rfl
    exact ⟨before.reverse, List.reverse_append, List.reverse_reverse before⟩

/-- The search finds nothing exactly if the marker does not occur. -/
theorem breakAt?_eq_none_iff : breakAt? marker cs = none ↔ ¬ marker <:+: cs := by
  induction cs with
  | nil =>
      cases hafter : after? marker [] with
      | none => simpa [breakAt?, hafter] using after?_eq_none_iff.mp hafter
      | some r =>
          have hmarker := after?_eq_some_iff.mp hafter
          simp_all [breakAt?]
  | cons c r ih =>
      rw [List.infix_cons_iff, not_or, ← ih, ← after?_eq_none_iff, breakAt?]
      cases after? marker (c :: r) <;> simp

theorem occurs_iff : occurs marker cs = true ↔ marker <:+: cs := by
  rw [occurs, Option.isSome_iff_ne_none, ne_eq, breakAt?_eq_none_iff, not_not]

/-- A marker of two equal characters, with one of them put at the end of a text. -/
theorem pair_infix_concat_iff {c : Char} :
    [c, c] <:+: cs ++ [c] ↔ [c, c] <:+: cs ∨ cs.getLast? = some c := by
  rw [List.infix_concat_iff, List.suffix_concat_iff, or_comm]
  refine or_congr_right ⟨?_, ?_⟩
  · rintro (hnil | ⟨front, heq, t, rfl⟩)
    · cases hnil
    · have hfront : [c] = front := List.append_cancel_right (heq : [c] ++ [c] = front ++ [c])
      rw [← hfront, List.getLast?_concat]
  · intro hlast
    obtain ⟨t, rfl⟩ := List.getLast?_eq_some_iff.mp hlast
    exact .inr ⟨[c], rfl, List.suffix_append t [c]⟩

/-! ### First occurrences -/

/-- There is one first occurrence at most. -/
theorem BreaksAt.unique {before' rest' : List Char} (h : BreaksAt marker cs before rest)
    (h' : BreaksAt marker cs before' rest') : before = before' ∧ rest = rest' := by
  have hlength : before.length = before'.length :=
    Nat.le_antisymm (h.first _ _ h'.eq) (h'.first _ _ h.eq)
  have heq : before ++ (marker ++ rest) = before' ++ (marker ++ rest') := by
    rw [← List.append_assoc, ← List.append_assoc, ← h.eq, ← h'.eq]
  obtain ⟨hbefore, hrest⟩ := List.append_inj heq hlength
  exact ⟨hbefore, List.append_cancel_left hrest⟩

/-- What the search finds is the first occurrence. -/
theorem breaksAt_of_breakAt? (h : breakAt? marker cs = some (before, rest)) :
    BreaksAt marker cs before rest := by
  refine ⟨eq_of_breakAt?_eq_some h, ?_⟩
  induction cs generalizing before with
  | nil =>
      intro b r hb
      have heq := eq_of_breakAt?_eq_some h
      simp_all
  | cons c r ih =>
      rintro (_ | ⟨d, b⟩) s hs
      · -- The marker stands at the start, and there the search stops.
        have hafter : after? marker (c :: r) = some s := after?_eq_some_iff.mpr hs
        rw [breakAt?, hafter, Option.some.injEq, Prod.mk.injEq] at h
        simp [← h.1]
      · rw [breakAt?] at h
        cases hafter : after? marker (c :: r) with
        | some t =>
            rw [hafter, Option.some.injEq, Prod.mk.injEq] at h
            simp [← h.1]
        | none =>
            rw [hafter] at h
            obtain ⟨⟨front, t⟩, hfront, heq⟩ := Option.map_eq_some_iff.mp h
            rw [Prod.mk.injEq] at heq
            obtain ⟨rfl, rfl⟩ := heq
            have hr : r = b ++ marker ++ s := (List.cons.inj hs).2
            exact Nat.succ_le_succ (ih hfront b s hr)

theorem breakAt?_eq_some_iff :
    breakAt? marker cs = some (before, rest) ↔ BreaksAt marker cs before rest := by
  refine ⟨breaksAt_of_breakAt?, fun h => ?_⟩
  cases hbreak : breakAt? marker cs with
  | none => exact absurd ⟨before, rest, h.eq.symm⟩ (breakAt?_eq_none_iff.mp hbreak)
  | some parts =>
      obtain ⟨hbefore, hrest⟩ := h.unique (breaksAt_of_breakAt? hbreak)
      rw [hbefore, hrest]

/-- Where a marker occurs, it occurs for a first time. -/
theorem exists_breaksAt (h : marker <:+: cs) : ∃ before rest, BreaksAt marker cs before rest := by
  cases hbreak : breakAt? marker cs with
  | none => exact absurd h (breakAt?_eq_none_iff.mp hbreak)
  | some parts => exact ⟨parts.1, parts.2, breaksAt_of_breakAt? hbreak⟩

/-- An occurrence is the first one exactly if none is in what stands before its last character. -/
theorem breaksAt_append_iff (hmarker : marker ≠ []) :
    BreaksAt marker (before ++ marker ++ rest) before rest ↔
      ¬ marker <:+: before ++ marker.dropLast := by
  have hpositive := List.length_pos_iff.mpr hmarker
  constructor
  · rintro h ⟨b, t, heq⟩
    have hlast := List.dropLast_concat_getLast hmarker
    have hle := h.first b (t ++ [marker.getLast hmarker] ++ rest) (by
      calc before ++ marker ++ rest
          = before ++ marker.dropLast ++ [marker.getLast hmarker] ++ rest := by
            rw [List.append_assoc before marker.dropLast, hlast]
        _ = b ++ marker ++ (t ++ [marker.getLast hmarker] ++ rest) := by
            rw [← heq, List.append_assoc (b ++ marker), List.append_assoc (b ++ marker)])
    have hlength := congrArg List.length heq
    simp only [List.length_append, List.length_dropLast] at hlength
    omega
  · refine fun hno => ⟨rfl, fun b r heq => Nat.le_of_not_lt fun hlt => hno ?_⟩
    -- One that begins further to the left has its end there as well.
    have hfront : before ++ marker.dropLast <+: before ++ marker ++ rest :=
      ((List.prefix_append_right_inj before).mpr (List.dropLast_prefix marker)).trans
        (List.prefix_append _ rest)
    have hprefix : b ++ marker <+: before ++ marker.dropLast := by
      refine List.prefix_of_prefix_length_le (heq ▸ List.prefix_append _ r) hfront ?_
      simp only [List.length_append, List.length_dropLast]
      omega
    exact (List.suffix_append b marker).isInfix.trans hprefix.isInfix

/-- What is appended to a text does not move the first occurrence. -/
theorem BreaksAt.append (hmarker : marker ≠ []) (h : BreaksAt marker cs before rest)
    (tail : List Char) : BreaksAt marker (cs ++ tail) before (rest ++ tail) := by
  obtain rfl := h.eq
  rw [List.append_assoc (before ++ marker)]
  exact (breaksAt_append_iff hmarker).mpr ((breaksAt_append_iff hmarker).mp h)

/-! ### Parts -/

/-- A text without the separator is one part. -/
theorem splitAt_of_notMem {separator : Char} (h : separator ∉ cs) :
    splitAt separator cs = [cs] := by
  induction cs with
  | nil => rfl
  | cons c r ih =>
      rw [List.mem_cons, not_or] at h
      rw [splitAt, if_neg (Ne.symm h.1), ih h.2]

/-- The first part ends at the first separator. -/
theorem splitAt_append_cons {separator : Char} (h : separator ∉ cs) (r : List Char) :
    splitAt separator (cs ++ separator :: r) = cs :: splitAt separator r := by
  induction cs with
  | nil => rw [List.nil_append, splitAt, if_pos rfl]
  | cons c cs ih =>
      rw [List.mem_cons, not_or] at h
      rw [List.cons_append, splitAt, if_neg (Ne.symm h.1), ih h.2]

/-! ### Numbers -/

/-- Numbers with the same digits are the same. -/
theorem repr_inj {m n : Nat} (h : m.repr = n.repr) : m = n :=
  calc m = Nat.ofDigitChars 10 m.repr.toList 0 := by
        rw [Nat.toList_repr, Nat.ofDigitChars_toDigits (by decide) (by decide)]
    _ = Nat.ofDigitChars 10 n.repr.toList 0 := by rw [h]
    _ = n := by rw [Nat.toList_repr, Nat.ofDigitChars_toDigits (by decide) (by decide)]

/-! ### Blanks -/

/-- Trimming takes blanks away at both ends, and nothing else. -/
theorem exists_blank_around_trim (cs : List Char) :
    ∃ lead trail, cs = lead ++ trim cs ++ trail ∧ (∀ c ∈ lead, isBlank c = true) ∧
      ∀ c ∈ trail, isBlank c = true := by
  refine ⟨cs.takeWhile isBlank, (cs.dropWhile isBlank).rtakeWhile isBlank, ?_, ?_, ?_⟩
  · have htrim : trim cs = (cs.dropWhile isBlank).rdropWhile isBlank := rfl
    rw [htrim, List.append_assoc, List.rdropWhile_append_rtakeWhile,
      List.takeWhile_append_dropWhile]
  · exact fun c hc => List.mem_takeWhile_imp hc
  · exact fun c hc => List.mem_rtakeWhile_imp hc

theorem isBlank_of_isDigit {c : Char} (h : c.isDigit = true) : isBlank c = false := by
  rw [Char.isDigit, Bool.and_eq_true, decide_eq_true_eq, decide_eq_true_eq] at h
  have hlow : 48 ≤ c.toNat := UInt32.le_iff_toNat_le.mp h.1
  have hhigh : c.toNat ≤ 57 := UInt32.le_iff_toNat_le.mp h.2
  rw [isBlank, List.any_eq_false]
  intro range hrange hin
  rw [Bool.and_eq_true, decide_eq_true_eq, decide_eq_true_eq] at hin
  have hapart : ∀ range ∈ blankRanges, range.2 < 48 ∨ 57 < range.1 := by decide
  rcases hapart range hrange with hbelow | habove <;> omega

/-- A text without blanks is left as it is. -/
theorem trim_eq_self {cs : List Char} (h : ∀ c ∈ cs, isBlank c = false) : trim cs = cs := by
  have hkept : ∀ {ds : List Char}, (∀ c ∈ ds, isBlank c = false) → ds.dropWhile isBlank = ds := by
    intro ds hds
    cases ds with
    | nil => rfl
    | cons d r => exact List.dropWhile_cons_of_neg (by simp [hds d List.mem_cons_self])
  rw [trim, hkept h, hkept fun c hc => h c (List.mem_reverse.mp hc), List.reverse_reverse]

end LiveScene.Text
