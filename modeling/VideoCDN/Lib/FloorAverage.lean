import Mathlib.Algebra.Order.Floor.Semiring
import Mathlib.Algebra.Order.Field.Basic
import Mathlib.Logic.Function.Iterate
import Mathlib.Order.Iterate
import Mathlib.Tactic.FieldSimp
import Mathlib.Tactic.Linarith
import Mathlib.Tactic.Ring

/-!
# Weighted averages rounded down

The average of a target and a value, rounded down to a natural number, and where its iteration
ends: from above it comes down to the target, from below it stops short of it.
-/

namespace VideoCDN.FloorAverage

open Function

variable {K : Type*} [Field K] [LinearOrder K] [IsStrictOrderedRing K]

lemma average_nonneg {a : K} (h0 : 0 ≤ a) (h1 : a ≤ 1) (x y : ℕ) : 0 ≤ a * x + (1 - a) * y :=
  add_nonneg (mul_nonneg h0 x.cast_nonneg) (mul_nonneg (sub_nonneg.mpr h1) y.cast_nonneg)

variable [FloorSemiring K]

def floorAverage (a : K) (x y : ℕ) : ℕ := ⌊a * x + (1 - a) * y⌋₊

/-! ## One step -/

section Step

variable {a : K} {x y : ℕ}

theorem min_le_floorAverage (h0 : 0 ≤ a) (h1 : a ≤ 1) : min x y ≤ floorAverage a x y := by
  apply Nat.le_floor
  have hx : ((min x y : ℕ) : K) ≤ x := Nat.cast_le.mpr (min_le_left x y)
  have hy : ((min x y : ℕ) : K) ≤ y := Nat.cast_le.mpr (min_le_right x y)
  calc ((min x y : ℕ) : K) = a * (min x y : ℕ) + (1 - a) * (min x y : ℕ) := by ring
    _ ≤ a * x + (1 - a) * y :=
      add_le_add (mul_le_mul_of_nonneg_left hx h0) (mul_le_mul_of_nonneg_left hy (sub_nonneg.mpr h1))

theorem floorAverage_le_max (h0 : 0 ≤ a) (h1 : a ≤ 1) : floorAverage a x y ≤ max x y := by
  apply Nat.floor_le_of_le
  have hx : (x : K) ≤ (max x y : ℕ) := Nat.cast_le.mpr (le_max_left x y)
  have hy : (y : K) ≤ (max x y : ℕ) := Nat.cast_le.mpr (le_max_right x y)
  calc a * x + (1 - a) * y ≤ a * (max x y : ℕ) + (1 - a) * (max x y : ℕ) :=
        add_le_add (mul_le_mul_of_nonneg_left hx h0) (mul_le_mul_of_nonneg_left hy (sub_nonneg.mpr h1))
    _ = (max x y : ℕ) := by ring

/-- A larger value leads to a larger one. -/
lemma floorAverage_mono (h1 : a ≤ 1) : Monotone (floorAverage a x) := by
  intro y z hyz
  have hcast : (y : K) ≤ z := Nat.cast_le.mpr hyz
  exact Nat.floor_le_floor (add_le_add_right (mul_le_mul_of_nonneg_left hcast (sub_nonneg.mpr h1)) (a * x))

@[simp] lemma floorAverage_self (a : K) (x : ℕ) : floorAverage a x x = x := by
  have h : a * x + (1 - a) * x = (x : K) := by ring
  rw [floorAverage, h, Nat.floor_natCast]

@[simp] lemma floorAverage_one (x y : ℕ) : floorAverage (1 : K) x y = x := by
  simp [floorAverage]

/-- A greater weight leads nearer to a target below. -/
lemma floorAverage_le_of_weight {b : K} (hab : a ≤ b) (h : x ≤ y) : floorAverage b x y ≤ floorAverage a x y := by
  have hxy : (x : K) ≤ y := Nat.cast_le.mpr h
  have hstep : a * (y - x) ≤ b * (y - x) := mul_le_mul_of_nonneg_right hab (sub_nonneg.mpr hxy)
  apply Nat.floor_le_floor
  linarith

/-- A step from above goes down. -/
lemma floorAverage_lt_of_lt (h0 : 0 < a) (h1 : a ≤ 1) (h : x < y) : floorAverage a x y < y := by
  rw [floorAverage, Nat.floor_lt (average_nonneg h0.le h1 x y)]
  have hxy : (x : K) < y := Nat.cast_lt.mpr h
  have hstep := mul_lt_mul_of_pos_left hxy h0
  linarith

/-- A step from below does not arrive. -/
lemma floorAverage_lt_target (h0 : 0 ≤ a) (h1 : a < 1) (h : y < x) : floorAverage a x y < x := by
  rw [floorAverage, Nat.floor_lt (average_nonneg h0 h1.le x y)]
  have hyx : (y : K) < x := Nat.cast_lt.mpr h
  have hstep := mul_lt_mul_of_pos_left hyx (sub_pos.mpr h1)
  linarith

/-- From below, the fixpoints are the values nearer to the target than `1 / a`. -/
lemma floorAverage_eq_iff (h0 : 0 < a) (h1 : a ≤ 1) (h : y ≤ x) :
    floorAverage a x y = y ↔ (x : K) - 1 / a < y := by
  have hyx : (y : K) ≤ x := Nat.cast_le.mpr h
  have hstep := mul_le_mul_of_nonneg_left hyx h0.le
  have hdiv : (x : K) - 1 / a < y ↔ a * (x - y) < 1 := by
    rw [sub_lt_comm, lt_div_iff₀ h0, mul_comm]
  rw [floorAverage, Nat.floor_eq_iff (average_nonneg h0.le h1 x y), hdiv]
  constructor
  · rintro ⟨-, hlt⟩
    linarith
  · intro hlt
    constructor <;> linarith

end Step

/-! ## The iteration -/

/-- A step that moves everything but the fixpoints nearer reaches a fixpoint. -/
lemma exists_iterate_fixed {α : Type*} (f : α → α) (P : α → Prop) (m : α → ℕ) (hP : ∀ y, P y → P (f y))
    (hm : ∀ y, P y → f y ≠ y → m (f y) < m y) {y : α} (hy : P y) :
    ∃ n, P (f^[n] y) ∧ f (f^[n] y) = f^[n] y := by
  induction h : m y using Nat.strong_induction_on generalizing y with
  | _ k ih =>
    by_cases hfix : f y = y
    · exact ⟨0, hy, hfix⟩
    · obtain ⟨n, hn, hfixed⟩ := ih (m (f y)) (h ▸ hm y hy hfix) (hP y hy) rfl
      exact ⟨n + 1, hn, hfixed⟩

lemma iterate_eq_of_fixed {α : Type*} {f : α → α} {y : α} {n : ℕ} (h : f (f^[n] y) = f^[n] y) :
    ∀ k, n ≤ k → f^[k] y = f^[n] y := by
  intro k hk
  induction k, hk using Nat.le_induction with
  | base => rfl
  | succ k hk ih => rw [iterate_succ_apply', ih, h]

section Iterate

variable {a : K} {x y : ℕ}

/-- From above the target is reached. -/
theorem iterate_reaches (h0 : 0 < a) (h1 : a ≤ 1) (h : x ≤ y) : ∃ n, ∀ k, n ≤ k → (floorAverage a x)^[k] y = x := by
  obtain ⟨n, hn, hfixed⟩ := exists_iterate_fixed (floorAverage a x) (x ≤ ·) id
    (fun z hz => by simpa [hz] using min_le_floorAverage (x := x) (y := z) h0.le h1)
    (fun z hz hne => floorAverage_lt_of_lt h0 h1 (lt_of_le_of_ne hz fun hxz => hne (hxz ▸ floorAverage_self a x))) h
  have hx : (floorAverage a x)^[n] y = x := by
    by_contra hne
    exact absurd hfixed (floorAverage_lt_of_lt h0 h1 (lt_of_le_of_ne hn (Ne.symm hne))).ne
  exact ⟨n, fun k hk => (iterate_eq_of_fixed hfixed k hk).trans hx⟩

/-- From above the values never go up, from below never down. -/
lemma iterate_antitone (h0 : 0 ≤ a) (h1 : a ≤ 1) (h : x ≤ y) : Antitone fun k => (floorAverage a x)^[k] y :=
  (floorAverage_mono h1).antitone_iterate_of_map_le (by simpa [h] using floorAverage_le_max (x := x) (y := y) h0 h1)

lemma iterate_monotone (h0 : 0 ≤ a) (h1 : a ≤ 1) (h : y ≤ x) : Monotone fun k => (floorAverage a x)^[k] y :=
  (floorAverage_mono h1).monotone_iterate_of_le_map (by simpa [h] using min_le_floorAverage (x := x) (y := y) h0 h1)

lemma min_le_iterate (h0 : 0 ≤ a) (h1 : a ≤ 1) (k : ℕ) : min x y ≤ (floorAverage a x)^[k] y := by
  induction k with
  | zero => exact min_le_right x y
  | succ k ih =>
    rw [iterate_succ_apply']
    exact (le_min (min_le_left x y) ih).trans (min_le_floorAverage h0 h1)

/-- From above, the iteration with the greater weight is never behind. -/
theorem iterate_le_of_weight {b : K} (h0 : 0 ≤ a) (hab : a ≤ b) (h1 : b ≤ 1) (h : x ≤ y) (k : ℕ) :
    (floorAverage b x)^[k] y ≤ (floorAverage a x)^[k] y := by
  induction k with
  | zero => exact le_rfl
  | succ k ih =>
    have habove : x ≤ (floorAverage a x)^[k] y := (le_min le_rfl h).trans (min_le_iterate h0 (hab.trans h1) k)
    rw [iterate_succ_apply', iterate_succ_apply']
    exact (floorAverage_mono h1 ih).trans (floorAverage_le_of_weight hab habove)

/-- From below the values stay below. -/
lemma iterate_lt_target (h0 : 0 ≤ a) (h1 : a < 1) (h : y < x) (k : ℕ) : (floorAverage a x)^[k] y < x := by
  induction k with
  | zero => exact h
  | succ k ih =>
    rw [iterate_succ_apply']
    exact floorAverage_lt_target h0 h1 ih

/-- From below the iteration stops nearer to the target than `1 / a`. -/
theorem iterate_stops_below (h0 : 0 < a) (h1 : a < 1) (h : y < x) :
    ∃ (n z : ℕ), (x : K) - 1 / a < z ∧ z < x ∧ ∀ k, n ≤ k → (floorAverage a x)^[k] y = z := by
  obtain ⟨n, hn, hfixed⟩ := exists_iterate_fixed (floorAverage a x) (· < x) (x - ·)
    (fun z hz => floorAverage_lt_target h0.le h1 hz) (fun z hz hne => by
      have hlow := min_le_floorAverage (x := x) (y := z) h0.le h1.le
      have hhigh := floorAverage_lt_target h0.le h1 hz
      rw [min_eq_right hz.le] at hlow
      omega) h
  exact ⟨n, _, (floorAverage_eq_iff h0 h1.le hn.le).mp hfixed, hn, iterate_eq_of_fixed hfixed⟩

/-- The target is reached exactly from above, or where the old value has no weight. -/
theorem iterate_reaches_iff (h0 : 0 < a) (h1 : a ≤ 1) :
    (∃ n, ∀ k, n ≤ k → (floorAverage a x)^[k] y = x) ↔ a = 1 ∨ x ≤ y := by
  constructor
  · rintro ⟨n, hn⟩
    by_contra hneither
    obtain ⟨hne, hlt⟩ := not_or.mp hneither
    exact absurd (hn n le_rfl) (iterate_lt_target h0.le (lt_of_le_of_ne h1 hne) (not_le.mp hlt) n).ne
  · rintro (rfl | h)
    · refine ⟨1, fun k hk => ?_⟩
      obtain ⟨k, rfl⟩ := Nat.exists_eq_add_of_le' hk
      rw [iterate_succ_apply', floorAverage_one]
    · exact iterate_reaches h0 h1 h

end Iterate

/-! ## Sequences of targets -/

/-- The averages with one target after the other, exact and rounded down. -/
def averages (a y : K) (xs : List ℕ) : K := xs.foldl (fun (y : K) (x : ℕ) => a * x + (1 - a) * y) y

def floorAverages (a : K) (y : ℕ) (xs : List ℕ) : ℕ := xs.foldl (fun y x => floorAverage a x y) y

omit [IsStrictOrderedRing K] in
lemma floorAverages_append (a : K) (y : ℕ) (xs zs : List ℕ) :
    floorAverages a y (xs ++ zs) = floorAverages a (floorAverages a y xs) zs := List.foldl_append

omit [IsStrictOrderedRing K] in
/-- One target, again and again. -/
lemma floorAverages_replicate (a : K) (x y k : ℕ) :
    floorAverages a y (List.replicate k x) = (floorAverage a x)^[k] y := by
  induction k generalizing y with
  | zero => rfl
  | succ k ih => exact ih _

/-- Targets that are not below `lo` lead nowhere below it. -/
lemma le_floorAverages {a : K} (h0 : 0 ≤ a) (h1 : a ≤ 1) {lo y : ℕ} (hy : lo ≤ y) {xs : List ℕ}
    (hxs : ∀ x ∈ xs, lo ≤ x) : lo ≤ floorAverages a y xs := by
  induction xs generalizing y with
  | nil => exact hy
  | cons x xs ih =>
    have hstep : lo ≤ floorAverage a x y :=
      (le_min (hxs x List.mem_cons_self) hy).trans (min_le_floorAverage h0 h1)
    exact ih hstep fun z hz => hxs z (List.mem_cons_of_mem x hz)

lemma floorAverages_le {a : K} (h0 : 0 ≤ a) (h1 : a ≤ 1) {hi y : ℕ} (hy : y ≤ hi) {xs : List ℕ}
    (hxs : ∀ x ∈ xs, x ≤ hi) : floorAverages a y xs ≤ hi := by
  induction xs generalizing y with
  | nil => exact hy
  | cons x xs ih =>
    have hstep : floorAverage a x y ≤ hi :=
      (floorAverage_le_max h0 h1).trans (max_le (hxs x List.mem_cons_self) hy)
    exact ih hstep fun z hz => hxs z (List.mem_cons_of_mem x hz)

/-- What a value is above all targets fades, step by step. -/
theorem floorAverages_sub_le {a : K} (h0 : 0 ≤ a) (h1 : a ≤ 1) {hi : ℕ} (y : ℕ) {xs : List ℕ}
    (hxs : ∀ x ∈ xs, x ≤ hi) : (floorAverages a y xs : K) - hi ≤ (1 - a) ^ xs.length * (y - hi) := by
  induction xs generalizing y with
  | nil => simp [floorAverages]
  | cons x xs ih =>
    have hx : (x : K) ≤ hi := Nat.cast_le.mpr (hxs x List.mem_cons_self)
    have hfloor : (floorAverage a x y : K) ≤ a * x + (1 - a) * y := Nat.floor_le (average_nonneg h0 h1 x y)
    have hstep : (floorAverage a x y : K) - hi ≤ (1 - a) * (y - hi) := by
      have hweight := mul_le_mul_of_nonneg_left hx h0
      linarith
    have hpow : 0 ≤ (1 - a) ^ xs.length := pow_nonneg (sub_nonneg.mpr h1) _
    calc (floorAverages a y (x :: xs) : K) - hi = (floorAverages a (floorAverage a x y) xs : K) - hi := rfl
      _ ≤ (1 - a) ^ xs.length * (floorAverage a x y - hi) := ih _ fun z hz => hxs z (List.mem_cons_of_mem x hz)
      _ ≤ (1 - a) ^ xs.length * ((1 - a) * (y - hi)) := mul_le_mul_of_nonneg_left hstep hpow
      _ = (1 - a) ^ (x :: xs).length * (y - hi) := by rw [List.length_cons, pow_succ]; ring

/-- What rounding loses in all steps together stays below that of one step, times `1 / a`, and the
difference of the first values fades. -/
theorem averages_sub_floorAverages {a : K} (h0 : 0 < a) (h1 : a ≤ 1) (y : K) (z : ℕ) (xs : List ℕ) :
    (1 - a) ^ xs.length * (y - z) ≤ averages a y xs - floorAverages a z xs ∧
      averages a y xs - floorAverages a z xs ≤
        (1 - a) ^ xs.length * (y - z) + (1 - (1 - a) ^ xs.length) / a := by
  induction xs generalizing y z with
  | nil => simp [averages, floorAverages]
  | cons x xs ih =>
    obtain ⟨hlow, hhigh⟩ := ih (a * x + (1 - a) * y) (floorAverage a x z)
    have hle : (floorAverage a x z : K) ≤ a * x + (1 - a) * z :=
      Nat.floor_le (average_nonneg h0.le h1 x z)
    have hlt : a * x + (1 - a) * z < floorAverage a x z + 1 := Nat.lt_floor_add_one _
    have hpow : 0 ≤ (1 - a) ^ xs.length := pow_nonneg (sub_nonneg.mpr h1) _
    have hdiff : a * x + (1 - a) * y - (a * x + (1 - a) * z) = (1 - a) * (y - z) := by ring
    change _ ≤ averages a (a * x + (1 - a) * y) xs - floorAverages a (floorAverage a x z) xs ∧
      averages a (a * x + (1 - a) * y) xs - floorAverages a (floorAverage a x z) xs ≤ _
    rw [List.length_cons, pow_succ]
    constructor
    · refine le_trans ?_ hlow
      rw [mul_assoc]
      apply mul_le_mul_of_nonneg_left _ hpow
      linarith
    · have hstep := mul_le_mul_of_nonneg_left
        (show a * x + (1 - a) * y - floorAverage a x z ≤ (1 - a) * (y - z) + 1 by linarith) hpow
      have hsplit : (1 - (1 - a) ^ xs.length * (1 - a)) / a = (1 - a) ^ xs.length + (1 - (1 - a) ^ xs.length) / a := by
        field_simp
        ring
      rw [hsplit]
      linarith

end VideoCDN.FloorAverage
