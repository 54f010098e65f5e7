import LiveScene.Expr.Eval
import LiveScene.Proofs.Binary64.Rank

/-!
# LiveScene.Proofs.Expr.Segment

Which outputs a piecewise map uses.

* Whatever the breakpoints are, those that the search looks up are there (`locateAt?_eq`), and a
  number is located at positions of theirs (`lt_of_mem_positions_locate`).
* What a number is located between encloses it (`encloses_of_locate`).
* Among breakpoints that are numbers, a number above the first and below the last is located in the
  first pair of neighbours that encloses it, with the lower one below it (`locate_of_inner`). If the
  breakpoints increase there is only one such pair (`Brackets.unique`).
-/

namespace LiveScene

open Binary64 (isNaN_of_le isNaN_of_lt le_iff_rank lt_iff_rank rank)

namespace Segment

variable {x : Float} {breakpoints : List Float} {i j : Nat} {low high : Float}

/-! ### Positions -/

/-- The positions of the outputs that are used. -/
def positions : Segment → List Nat
  | empty => []
  | endpoint i => [i]
  | between i _ => [i, i + 1]

theorem positions_of_scan? {start : Nat} {s : Segment} (h : scan? x start breakpoints = some s) :
    ∀ k ∈ s.positions, k < start + breakpoints.length := by
  induction breakpoints generalizing start with
  | nil => cases h
  | cons low r ih =>
      cases r with
      | nil => cases h
      | cons high r =>
          rw [scan?] at h
          split at h
          · split at h <;> cases h <;> simp [positions]
          · intro k hk
            have hlt := ih h k hk
            simp only [List.length_cons] at hlt ⊢
            omega

/-- A number is located at positions of breakpoints. -/
theorem lt_of_mem_positions_locate :
    ∀ k ∈ (locate x breakpoints).positions, k < breakpoints.length := by
  unfold locate
  split
  · simp [positions]
  · next first rest =>
      dsimp only
      split
      · simp [positions]
      · split
        · simp [positions]
        · cases hscan : scan? x 0 (first :: rest) with
          | none => simp [positions]
          | some s =>
              have hlt := positions_of_scan? hscan
              simpa using hlt

/-! ### Search by position -/

/-- The scan by position, for a number of pairs from one on, with every breakpoint looked up; none
if a position is beyond the breakpoints. -/
def scanAt? (x : Float) (breakpoints : List Float) (i : Nat) : Nat → Option (Option Segment)
  | 0 => some none
  | n + 1 => do
    let low ← breakpoints[i]?
    let high ← breakpoints[i + 1]?
    if low ≤ x ∧ x ≤ high then
      if high == low then pure (some (endpoint (i + 1)))
      else pure (some (between i ((x - low) / (high - low))))
    else scanAt? x breakpoints (i + 1) n

/-- Where a number lies, by position. -/
def locateAt? (x : Float) (breakpoints : List Float) : Option Segment :=
  match breakpoints.length with
  | 0 => some empty
  | 1 => some (endpoint 0)
  | last + 1 => do
    if x ≤ (← breakpoints[0]?) then pure (endpoint 0)
    else if (← breakpoints[last]?) ≤ x then pure (endpoint last)
    else pure ((← scanAt? x breakpoints 0 last).getD (endpoint last))

theorem scanAt?_eq {n : Nat} (h : i + n + 1 = breakpoints.length) :
    scanAt? x breakpoints i n = some (scan? x i (breakpoints.drop i)) := by
  induction n generalizing i with
  | zero =>
      have hlast : breakpoints.drop i = [breakpoints[i]] := by
        rw [List.drop_eq_getElem_cons (by omega), List.drop_eq_nil_of_le (by omega)]
      rw [hlast]
      rfl
  | succ n ih =>
      have hnext : breakpoints.drop (i + 1) =
          breakpoints[i + 1] :: breakpoints.drop (i + 1 + 1) := List.drop_eq_getElem_cons (by omega)
      rw [scanAt?, List.drop_eq_getElem_cons (by omega : i < breakpoints.length), hnext, scan?,
        ← hnext, List.getElem?_eq_getElem (by omega : i < breakpoints.length),
        List.getElem?_eq_getElem (by omega : i + 1 < breakpoints.length), ih (by omega)]
      simp only [Option.bind_eq_bind, Option.bind_some, Option.pure_def]
      split
      · split <;> rfl
      · rfl

/-- Every breakpoint that is looked up is there. -/
theorem locateAt?_eq (x : Float) (breakpoints : List Float) :
    locateAt? x breakpoints = some (locate x breakpoints) := by
  match breakpoints with
  | [] => rfl
  | [b] => simp [locateAt?, locate]
  | b :: c :: r =>
      have hscan : scanAt? x (b :: c :: r) 0 (r.length + 1) = some (scan? x 0 (b :: c :: r)) :=
        scanAt?_eq (by simp)
      have hlast : (b :: c :: r)[r.length + 1]? = some ((c :: r).getLast?.getD b) := by
        rw [List.getElem?_cons_succ, List.getLast?_cons, Option.getD_some,
          show r.length = (c :: r).length - 1 from rfl, ← List.getLast?_eq_getElem?,
          List.getLast?_cons]
      simp only [locateAt?, locate, List.length_cons, hscan, hlast]
      by_cases hfirst : x ≤ b
      · simp [hfirst]
      · by_cases hle : (c :: r).getLast?.getD b ≤ x
        · simp [hfirst, hle]
        · simp [hfirst, hle]

/-! ### Outputs -/

variable {α : Type}

/-- What is made of the outputs at the positions. -/
def pick (nothing : α) (mix : α → α → Float → α) (output : Nat → α) : Segment → α
  | empty => nothing
  | endpoint i => output i
  | between i t => mix (output i) (output (i + 1)) t

/-- The same with every output looked up; none if one of the positions is beyond them. -/
def pick? (nothing : α) (mix : α → α → Float → α) (outputs : List α) : Segment → Option α
  | empty => some nothing
  | endpoint i => outputs[i]?
  | between i t => do pure (mix (← outputs[i]?) (← outputs[i + 1]?) t)

theorem pick?_eq_some {nothing : α} {mix : α → α → Float → α} {outputs : List α}
    {output : Nat → α} {s : Segment} (h : ∀ k ∈ s.positions, outputs[k]? = some (output k)) :
    s.pick? nothing mix outputs = some (s.pick nothing mix output) := by
  cases s with
  | empty => rfl
  | endpoint i => exact h i (by simp [positions])
  | between i t =>
      have hlow := h i (by simp [positions])
      have hhigh := h (i + 1) (by simp [positions])
      simp [pick?, pick, hlow, hhigh]

/-! ### What encloses a number -/

variable {t : Float}

/-- A number lies between two breakpoints at a part of their distance. -/
structure Encloses (breakpoints : List Float) (x : Float) (i : Nat) (t low high : Float) :
    Prop where
  atLow : breakpoints[i]? = some low
  atHigh : breakpoints[i + 1]? = some high
  le : low ≤ x
  ge : x ≤ high
  ne : (high == low) = false
  part : t = (x - low) / (high - low)

theorem encloses_of_scan? {start : Nat} (h : scan? x start breakpoints = some (between i t)) :
    ∃ j low high, i = start + j ∧ Encloses breakpoints x j t low high := by
  induction breakpoints generalizing start with
  | nil => cases h
  | cons low r ih =>
      cases r with
      | nil => cases h
      | cons high r =>
          rw [scan?] at h
          split at h
          · next hin =>
              split at h
              · cases h
              · next hne =>
                  injection Option.some.inj h with hi ht
                  refine ⟨0, low, high, hi.symm, rfl, rfl, hin.1, hin.2, ?_, ht.symm⟩
                  exact (Bool.not_eq_true _).mp hne
          · obtain ⟨j, low', high', hi, henc⟩ := ih h
            exact ⟨j + 1, low', high', by omega, henc.atLow, henc.atHigh, henc.le, henc.ge,
              henc.ne, henc.part⟩

/-- What a number is located between encloses it. -/
theorem encloses_of_locate (h : locate x breakpoints = between i t) :
    ∃ low high, Encloses breakpoints x i t low high := by
  unfold locate at h
  split at h
  · cases h
  · next first rest =>
      dsimp only at h
      split at h
      · cases h
      · split at h
        · cases h
        · cases hscan : scan? x 0 (first :: rest) with
          | none =>
              rw [hscan] at h
              cases h
          | some found =>
              rw [hscan, Option.getD_some] at h
              subst h
              obtain ⟨j, low, high, hi, henc⟩ := encloses_of_scan? hscan
              rw [Nat.zero_add] at hi
              exact ⟨low, high, hi ▸ henc⟩

/-! ### The pair around a number -/

/-- Two breakpoints that follow each other, the first one below a number and the second one not. -/
structure Brackets (breakpoints : List Float) (x : Float) (i : Nat) (low high : Float) : Prop where
  atLow : breakpoints[i]? = some low
  atHigh : breakpoints[i + 1]? = some high
  lt : low < x
  le : x ≤ high

theorem Brackets.ne (h : Brackets breakpoints x i low high) : (high == low) = false := by
  have hlt := Binary64.lt_of_lt_le h.lt h.le
  obtain ⟨hlow, hhigh⟩ := isNaN_of_lt hlt
  rw [lt_iff_rank hlow hhigh] at hlt
  rw [← Bool.not_eq_true, Binary64.beq_iff_rank hhigh hlow]
  exact hlt.ne'

theorem Brackets.distance_ne (h : Brackets breakpoints x i low high) :
    (high - low == 0) = false :=
  Binary64.beq_zero_of_lt (Binary64.lt_of_lt_le h.lt h.le)

/-- The scan from a breakpoint below a number on comes to the first pair around it, and the pair is
there if the last breakpoint is above. -/
theorem scan?_of_lt (start : Nat) {rest : List Float} (hnan : ∀ b ∈ rest, b.isNaN = false)
    (hlow : low < x) (hlast : ∀ b, (low :: rest).getLast? = some b → x < b) :
    ∃ i below above, Brackets (low :: rest) x i below above ∧
      (∀ j b c, Brackets (low :: rest) x j b c → i ≤ j) ∧
      scan? x start (low :: rest) =
        some (between (start + i) ((x - below) / (above - below))) := by
  induction rest generalizing low start with
  | nil =>
      have hup := hlast low rfl
      exact absurd hup (Binary64.not_lt_of_lt hlow)
  | cons high r ih =>
      have hx := (isNaN_of_lt hlow).2
      have hhigh := hnan high List.mem_cons_self
      by_cases hle : x ≤ high
      · -- The first pair is around the number.
        have hpair : Brackets (low :: high :: r) x 0 low high := ⟨rfl, rfl, hlow, hle⟩
        refine ⟨0, low, high, hpair, fun j b c _ => Nat.zero_le j, ?_⟩
        have hne : ¬ (high == low) = true := by simp [hpair.ne]
        rw [scan?, if_pos ⟨Binary64.le_of_lt hlow, hle⟩, if_neg hne, Nat.add_zero]
      · obtain ⟨i, below, above, hpair, hleast, hscan⟩ := ih (start + 1)
          (fun b hb => hnan b (List.mem_cons_of_mem _ hb))
          (Binary64.lt_of_not_le hx hhigh hle)
          (fun b hb => hlast b (by rwa [List.getLast?_cons_cons]))
        refine ⟨i + 1, below, above, ⟨hpair.atLow, hpair.atHigh, hpair.lt, hpair.le⟩, ?_, ?_⟩
        · intro j b c h
          cases j with
          | zero =>
              obtain rfl : high = c := Option.some.inj h.atHigh
              exact absurd h.le hle
          | succ j => exact Nat.succ_le_succ (hleast j b c ⟨h.atLow, h.atHigh, h.lt, h.le⟩)
        · rw [scan?, if_neg (fun h => hle h.2), hscan,
            show start + 1 + i = start + (i + 1) by omega]

/-- Increasing breakpoints have one pair around a number. -/
theorem Brackets.unique (hsorted : breakpoints.IsChain (· ≤ ·)) {low' high' : Float}
    (hi : Brackets breakpoints x i low high) (hj : Brackets breakpoints x j low' high') :
    i = j := by
  have htrans : IsTrans Float (· ≤ ·) := ⟨fun _ _ _ => Binary64.le_of_le_of_le⟩
  have hpairwise := List.isChain_iff_pairwise.mp hsorted
  -- A pair further up begins at or above the end of one further down.
  have hle : ∀ {i j : Nat} {low high low' high' : Float}, Brackets breakpoints x i low high →
      Brackets breakpoints x j low' high' → ¬ i < j := by
    intro i j low high low' high' hi hj hlt
    obtain ⟨hnext, hhigh⟩ := List.getElem?_eq_some_iff.mp hi.atHigh
    obtain ⟨hbound, hlow⟩ := List.getElem?_eq_some_iff.mp hj.atLow
    obtain ⟨hxnan, hhighnan⟩ := isNaN_of_le hi.le
    obtain ⟨hlownan, -⟩ := isNaN_of_lt hj.lt
    have hle : rank high ≤ rank low' := by
      rcases Nat.lt_or_eq_of_le hlt with hlt | rfl
      · rw [← le_iff_rank hhighnan hlownan, ← hhigh, ← hlow]
        exact List.pairwise_iff_getElem.mp hpairwise _ _ hnext hbound hlt
      · rw [← hhigh, ← hlow]
    have hbelow := (le_iff_rank hxnan hhighnan).mp hi.le
    have habove := (lt_iff_rank hlownan hxnan).mp hj.lt
    linarith
  have hij := hle hi hj
  have hji := hle hj hi
  omega

/-! ### Where a number is located -/

/-- At or below the first breakpoint, or beside a single one, a number is located at the first. -/
theorem locate_of_first {first : Float} (hfirst : breakpoints.head? = some first)
    (h : breakpoints.length = 1 ∨ x ≤ first) : locate x breakpoints = endpoint 0 := by
  cases breakpoints with
  | nil => cases hfirst
  | cons b rest =>
      obtain rfl : b = first := Option.some.inj hfirst
      have hcond : rest.length = 0 ∨ x ≤ b := by simpa using h
      simp only [locate, if_pos hcond]

theorem locate_of_not_first {first last : Float} (hfirst : breakpoints.head? = some first)
    (hlast : breakpoints.getLast? = some last) (h : ¬ (breakpoints.length = 1 ∨ x ≤ first)) :
    locate x breakpoints =
      if last ≤ x then endpoint (breakpoints.length - 1)
      else (scan? x 0 breakpoints).getD (endpoint (breakpoints.length - 1)) := by
  cases breakpoints with
  | nil => cases hfirst
  | cons b rest =>
      obtain rfl : b = first := Option.some.inj hfirst
      have hcond : ¬ (rest.length = 0 ∨ x ≤ b) := by simpa using h
      obtain rfl : rest.getLast?.getD b = last := by simpa [List.getLast?_cons] using hlast
      simp only [locate, if_neg hcond, List.length_cons, Nat.add_sub_cancel]

/-- Between the first breakpoint and the last a number is located in the first pair around it; the
scan does not come to its end. -/
theorem locate_of_inner {first last : Float} (hnan : ∀ b ∈ breakpoints, b.isNaN = false)
    (hx : x.isNaN = false) (hfirst : breakpoints.head? = some first)
    (hlast : breakpoints.getLast? = some last) (habove : ¬ (breakpoints.length = 1 ∨ x ≤ first))
    (hbelow : ¬ last ≤ x) :
    ∃ i low high, Brackets breakpoints x i low high ∧
      (∀ j b c, Brackets breakpoints x j b c → i ≤ j) ∧
      scan? x 0 breakpoints = some (between i ((x - low) / (high - low))) ∧
      locate x breakpoints = between i ((x - low) / (high - low)) := by
  have hlocate := locate_of_not_first hfirst hlast habove
  rw [if_neg hbelow] at hlocate
  cases breakpoints with
  | nil => cases hfirst
  | cons b rest =>
      obtain rfl : b = first := Option.some.inj hfirst
      have hlow : b < x :=
        Binary64.lt_of_not_le hx (hnan b List.mem_cons_self) fun h => habove (.inr h)
      have hup : ∀ c, (b :: rest).getLast? = some c → x < c := by
        intro c hc
        obtain rfl : c = last := Option.some.inj (hc.symm.trans hlast)
        exact Binary64.lt_of_not_le (hnan c (List.mem_of_getLast? hc)) hx hbelow
      obtain ⟨i, low, high, hpair, hleast, hscan⟩ :=
        scan?_of_lt 0 (fun c hc => hnan c (List.mem_cons_of_mem _ hc)) hlow hup
      rw [Nat.zero_add] at hscan
      exact ⟨i, low, high, hpair, hleast, hscan, by rw [hlocate, hscan, Option.getD_some]⟩

end Segment

end LiveScene
