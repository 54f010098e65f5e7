import LiveScene.Decimal.Printer
import LiveScene.Decimal.Reader
import LiveScene.Proofs.Binary64.Magnitude

/-!
# LiveScene.Proofs.Decimal.Text

What no number is read from, and what numbers are written with.

* A text that is read stands for no number exactly if it is the word for that
  (`isNaN_of_ofText?`): decimals have a closest double, and it is infinity at most.
* The plain text of a finite double has digits, a point and a sign (`mem_finiteText_plain`), so it
  is never mistaken for that word.
-/

namespace LiveScene

/-! ### Reading -/

namespace Decimal

theorem nearest_le_infinity (d : Decimal) : d.nearest ≤ Binary64.infinity := by
  rw [nearest]
  split
  · exact Nat.zero_le _
  · split
    · exact le_rfl
    · split
      · exact Nat.zero_le _
      · split <;> exact Binary64.nearest_le_infinity _ _

/-- A decimal begins with a digit or a point. -/
theorem ofText?_cons_eq_none {c : Char} (hdigit : c.isDigit = false) (hpoint : c ≠ '.')
    (r : List Char) : ofText? (c :: r) = none := by
  have hspan : (c :: r).span Char.isDigit = ([], c :: r) := by
    simp [List.span_eq_takeWhile_dropWhile, hdigit]
  have hfraction : fraction (c :: r) = ([], c :: r) := by
    unfold fraction
    split
    · next heq => exact absurd (List.cons.inj heq).1 hpoint
    · rfl
  simp only [ofText?, hspan, hfraction]
  rfl

end Decimal

namespace Binary64

/-- The word for what is no number, in any case. -/
def IsNaNWord (cs : List Char) : Prop := cs.map Char.toLower = "nan".toList

/-- The word with or without a sign. -/
def IsNaNText (cs : List Char) : Prop :=
  IsNaNWord cs ∨ ∃ word, IsNaNWord word ∧ (cs = '-' :: word ∨ cs = '+' :: word)

theorem toLower_of_isDigit {c : Char} (h : c.isDigit = true) : c.toLower = c := by
  rw [Char.isDigit, Bool.and_eq_true, decide_eq_true_eq, decide_eq_true_eq] at h
  rw [Char.toLower, dif_neg]
  rintro ⟨hlow, -⟩
  exact absurd (UInt32.le_trans hlow h.2) (by decide)

/-- The word is no decimal. -/
theorem IsNaNWord.ofText?_eq_none {cs : List Char} (h : IsNaNWord cs) :
    Decimal.ofText? cs = none := by
  rcases cs with _ | ⟨c, r⟩
  · cases h
  · have hc : c.toLower = 'n' := (List.cons.inj h).1
    refine Decimal.ofText?_cons_eq_none ?_ ?_ r
    · cases hdigit : c.isDigit with
      | false => rfl
      | true =>
          rw [toLower_of_isDigit hdigit] at hc
          rw [hc] at hdigit
          exact absurd hdigit (by decide)
    · rintro rfl
      exact absurd hc (by decide)

variable {negative : Bool} {cs : List Char} {x : Float}

theorem isNaN_of_unsignedText? (h : unsignedText? negative cs = some x) :
    x.isNaN = true ↔ IsNaNWord cs := by
  unfold unsignedText? at h
  split at h
  · next d hd =>
      rw [← Option.some.inj h, isNaN_signed negative d.nearest_le_infinity]
      refine ⟨fun hfalse => absurd hfalse (by decide), fun hword => ?_⟩
      rw [hword.ofText?_eq_none] at hd
      exact absurd hd (by simp)
  · unfold word? at h
    dsimp only at h
    split at h
    · next hword =>
        rw [← Option.some.inj h, isNaN_signed negative le_rfl]
        refine ⟨fun hfalse => absurd hfalse (by decide), fun hnan => ?_⟩
        rw [IsNaNWord] at hnan
        rw [hnan] at hword
        exact absurd hword (by decide)
    · split at h
      · next hword =>
          rw [← Option.some.inj h]
          exact iff_of_true (by decide) hword
      · exact absurd h (by simp)

/-- A text is read as no number exactly if it is the word for it. -/
theorem isNaN_of_ofText? (h : ofText? cs = some x) : x.isNaN = true ↔ IsNaNText cs := by
  have hsigned : ∀ {sign : Char} {r : List Char}, sign = '-' ∨ sign = '+' →
      (IsNaNText (sign :: r) ↔ IsNaNWord r) := by
    rintro sign r hsign
    constructor
    · rintro (hword | ⟨word, hword, heq | heq⟩)
      · have hn : sign.toLower = 'n' := (List.cons.inj hword).1
        rcases hsign with rfl | rfl <;> exact absurd hn (by decide)
      · rwa [(List.cons.inj heq).2]
      · rwa [(List.cons.inj heq).2]
    · rcases hsign with rfl | rfl
      · exact fun hword => .inr ⟨r, hword, .inl rfl⟩
      · exact fun hword => .inr ⟨r, hword, .inr rfl⟩
  unfold ofText? at h
  split at h
  · rw [hsigned (.inl rfl), isNaN_of_unsignedText? h]
  · rw [hsigned (.inr rfl), isNaN_of_unsignedText? h]
  · next hminus hplus =>
      rw [isNaN_of_unsignedText? h]
      refine ⟨.inl, ?_⟩
      rintro (hword | ⟨word, -, heq | heq⟩)
      · exact hword
      · exact absurd heq (hminus word)
      · exact absurd heq (hplus word)

end Binary64

/-! ### Writing -/

namespace Decimal

theorem isDigit_of_mem_digits {d : Decimal} {c : Char} (h : c ∈ d.digits) : c.isDigit = true := by
  rw [digits, List.mem_reverse] at h
  have hmem := (List.dropWhile_sublist _).mem h
  exact Nat.isDigit_of_mem_toDigits (by decide) (by decide) (List.mem_reverse.mp hmem)

/-- A positional text has digits and a point. -/
theorem mem_positional {digits : List Char} {point : Int} {c : Char}
    (hdigits : ∀ c ∈ digits, c.isDigit = true) (h : c ∈ positional [] digits point) :
    c.isDigit = true ∨ c = '.' := by
  unfold positional at h
  split at h
  · simp only [List.cons_append, List.mem_cons, List.mem_append, List.mem_replicate] at h
    rcases h with rfl | rfl | ⟨-, rfl⟩ | h
    · exact .inl (by decide)
    · exact .inr rfl
    · exact .inl (by decide)
    · exact .inl (hdigits c h)
  · dsimp only at h
    split at h
    · simp only [List.append_nil, List.mem_append, List.mem_replicate] at h
      rcases h with h | ⟨-, rfl⟩
      · exact .inl (hdigits c h)
      · exact .inl (by decide)
    · rw [List.mem_append, List.mem_cons] at h
      rcases h with h | rfl | h
      · exact .inl (hdigits c (List.mem_of_mem_take h))
      · exact .inr rfl
      · exact .inl (hdigits c (List.mem_of_mem_drop h))

end Decimal

namespace Binary64

/-- The plain text of a finite double has digits, a point and a sign. -/
theorem mem_finiteText_plain {x : Float} {c : Char} (h : c ∈ finiteText plain x) :
    c.isDigit = true ∨ c = '.' ∨ c = '-' := by
  have hsign : ∀ {d : Char}, d ∈ (if isNegative x then ['-'] else []) → d = '-' := by
    intro d hd
    split at hd
    · exact List.mem_singleton.mp hd
    · cases hd
  unfold finiteText at h
  dsimp only at h
  split at h
  · rcases List.mem_append.mp h with h | h
    · exact .inr (.inr (hsign h))
    · rw [List.mem_singleton.mp h]
      exact .inl (by decide)
  · rcases List.mem_append.mp h with h | h
    · exact .inr (.inr (hsign h))
    · have hpositional : c ∈ Decimal.positional [] (Decimal.shortest plain.tie (magnitude x)).digits
          (Decimal.shortest plain.tie (magnitude x)).point := h
      exact (Decimal.mem_positional (fun _ => Decimal.isDigit_of_mem_digits) hpositional).imp_right
        .inl

/-- The capital letter of the word for no number is in no other plain text of a finite double. -/
theorem notMem_plainText {x : Float} (h : x.isFinite = true) : 'N' ∉ (plainText x).toList := by
  intro hmem
  rw [plainText, isNaN_of_isFinite h, if_neg (by decide), if_pos h, String.toList_ofList] at hmem
  exact absurd (mem_finiteText_plain hmem) (by decide)

end Binary64

end LiveScene
