import Mathlib.Data.List.Induction
import Mathlib.Logic.Function.Basic
import VideoCDN.Lib.LinkState

/-!
# Records

Items with a key and a rank arrive one after another. An item is a record when its rank is above those of all
earlier items with its key. Whoever keeps the best item of every key replaces it at the records, so what is kept
in the end is the first item of the greatest rank.
-/

namespace Records

open LinkState

variable {α K V : Type*} [LT V] (key : α → K) (rank : α → V)

/-- The rank of `x` is above those of the items before `i` with its key. -/
def IsRecord (xs : List α) (i : Nat) (x : α) : Prop :=
  xs[i]? = some x ∧ ∀ j < i, ∀ y, xs[j]? = some y → key y = key x → rank y < rank x

/-- In a list of keys and marks, `i` is the last position where `u` is marked. -/
def IsLastMark (log : List (K × Bool)) (u : K) (i : Nat) : Prop :=
  log[i]? = some (u, true) ∧ ∀ j, log[j]? = some (u, true) → j ≤ i

variable {key rank} {xs : List α} {u : K} {i : Nat} {x : α}

/-! ## Marking the records -/

/-- The keys of the items, with a mark where the best rank so far is exceeded. -/
def records [DecidableEq K] [DecidableLT V] (key : α → K) (rank : α → V) (best : K → Option V) :
    List α → List (K × Bool)
  | [] => []
  | x :: xs =>
    if ∀ r ∈ best (key x), r < rank x then
      (key x, true) :: records key rank (Function.update best (key x) (some (rank x))) xs
    else (key x, false) :: records key rank best xs

lemma isRecord_cons_zero {a : α} : IsRecord key rank (a :: xs) 0 x ↔ a = x := by
  constructor
  · intro h
    exact Option.some.inj h.1
  · rintro rfl
    exact ⟨rfl, fun j hj => absurd hj (Nat.not_lt_zero j)⟩

lemma isRecord_cons_succ {a : α} : IsRecord key rank (a :: xs) (i + 1) x ↔
    IsRecord key rank xs i x ∧ (key a = key x → rank a < rank x) := by
  constructor
  · intro h
    exact ⟨⟨h.1, fun j hj y hy => h.2 (j + 1) (Nat.succ_lt_succ hj) y hy⟩, h.2 0 (Nat.succ_pos i) a rfl⟩
  · rintro ⟨h, ha⟩
    refine ⟨h.1, ?_⟩
    intro j hj y hy
    cases j with
    | zero =>
      obtain rfl := Option.some.inj hy
      exact ha
    | succ j => exact h.2 j (Nat.lt_of_succ_lt_succ hj) y hy

/-! ## The greatest items -/

variable [LE V]

/-- `x`, at position `i`, is the first item with the key `u` of the greatest rank. -/
def IsFirstGreatest (key : α → K) (rank : α → V) (xs : List α) (u : K) (i : Nat) (x : α) : Prop :=
  xs[i]? = some x ∧ key x = u ∧
    ∀ j y, xs[j]? = some y → key y = u → rank y ≤ rank x ∧ (j < i → rank y < rank x)

lemma IsFirstGreatest.isRecord (h : IsFirstGreatest key rank xs u i x) : IsRecord key rank xs i x :=
  ⟨h.1, fun j hj y hy hkey => (h.2.2 j y hy (hkey.trans h.2.1)).2 hj⟩

lemma IsFirstGreatest.append_old {y : α} (h : IsFirstGreatest key rank xs u i x)
    (hy : key y = u → rank y ≤ rank x) : IsFirstGreatest key rank (xs ++ [y]) u i x := by
  refine ⟨(getElem?_append_singleton _ _ _ _).mpr (Or.inl h.1), h.2.1, ?_⟩
  intro j z hz hkey
  rcases (getElem?_append_singleton _ _ _ _).mp hz with hz | ⟨rfl, rfl⟩
  · exact h.2.2 j z hz hkey
  · have hi := lt_of_getElem?_eq_some h.1
    exact ⟨hy hkey, fun hj => absurd hj (by omega)⟩

section Linear

variable [Std.LawfulOrderLT V]

/-- A record comes no later than the first greatest item of its key. -/
lemma IsRecord.le_firstGreatest (h : IsRecord key rank xs i x) {j : Nat} {y : α}
    (hy : IsFirstGreatest key rank xs (key x) j y) : i ≤ j := by
  by_contra hlt
  have habove := h.2 j (by omega) y hy.1 hy.2.1
  have hbelow := (hy.2.2 i x h.1 rfl).1
  exact Std.not_lt_of_ge hbelow habove

variable [Std.IsLinearOrder V]

lemma isFirstGreatest_append_new {y : α}
    (h : ∀ (j : Nat) (z : α), xs[j]? = some z → key z = key y → rank z < rank y) :
    IsFirstGreatest key rank (xs ++ [y]) (key y) xs.length y := by
  refine ⟨(getElem?_append_singleton _ _ _ _).mpr (Or.inr ⟨rfl, rfl⟩), rfl, ?_⟩
  intro j z hz hkey
  rcases (getElem?_append_singleton _ _ _ _).mp hz with hz | ⟨rfl, rfl⟩
  · have hlt := h j z hz hkey
    exact ⟨Std.le_of_lt hlt, fun _ => hlt⟩
  · exact ⟨Std.le_refl _, fun hj => absurd hj (Nat.lt_irrefl _)⟩

variable (key rank) in
/-- Every key that occurs has a first greatest item. -/
lemma exists_isFirstGreatest (xs : List α) (hx : x ∈ xs) : ∃ i y, IsFirstGreatest key rank xs (key x) i y := by
  induction xs using List.reverseRecOn generalizing x with
  | nil => cases hx
  | append_singleton xs y ih =>
    by_cases hold : ∃ z ∈ xs, key z = key x
    · obtain ⟨z, hz, hzx⟩ := hold
      obtain ⟨i, w, hw⟩ := ih hz
      rw [hzx] at hw
      by_cases hbetter : key y = key x ∧ rank w < rank y
      · refine ⟨xs.length, y, ?_⟩
        rw [← hbetter.1]
        apply isFirstGreatest_append_new
        intro j v hv hkey
        exact Std.lt_of_le_of_lt (hw.2.2 j v hv (hkey.trans hbetter.1)).1 hbetter.2
      · refine ⟨i, w, hw.append_old ?_⟩
        intro hkey
        exact Std.not_lt.mp fun hlt => hbetter ⟨hkey, hlt⟩
    · have hyx : y = x := by
        rcases List.mem_append.mp hx with hx | hx
        · exact absurd ⟨x, hx, rfl⟩ hold
        · exact (List.mem_singleton.mp hx).symm
      subst hyx
      refine ⟨xs.length, y, ?_⟩
      apply isFirstGreatest_append_new
      intro j v hv hkey
      exact absurd ⟨v, List.mem_of_getElem? hv, hkey⟩ hold

variable [DecidableEq K] [DecidableLT V]

/-- The marks are at the items above the best rank before them. -/
lemma records_getElem?_iff (best : K → Option V) (xs : List α) (u : K) (i : Nat) :
    (records key rank best xs)[i]? = some (u, true) ↔
      ∃ x, IsRecord key rank xs i x ∧ key x = u ∧ ∀ r ∈ best u, r < rank x := by
  induction xs generalizing best i with
  | nil => simp [records, IsRecord]
  | cons a xs ih =>
    by_cases hnew : ∀ r ∈ best (key a), r < rank a
    · rw [records, if_pos hnew]
      cases i with
      | zero =>
        simp only [List.getElem?_cons_zero, Option.some.injEq, Prod.mk.injEq, and_true, isRecord_cons_zero,
          exists_eq_left']
        constructor
        · rintro rfl
          exact ⟨rfl, hnew⟩
        · exact And.left
      | succ i =>
        rw [List.getElem?_cons_succ, ih]
        apply exists_congr
        intro x
        rw [isRecord_cons_succ]
        by_cases hu : u = key a
        · subst hu
          simp only [Function.update_self, Option.mem_some_iff, forall_eq']
          constructor
          · rintro ⟨hrec, hkey, hlt⟩
            exact ⟨⟨hrec, fun _ => hlt⟩, hkey, fun r hr => Std.lt_trans (hnew r hr) hlt⟩
          · rintro ⟨⟨hrec, hlt⟩, hkey, -⟩
            exact ⟨hrec, hkey, hlt hkey.symm⟩
        · rw [Function.update_of_ne hu]
          constructor
          · rintro ⟨hrec, rfl, hlt⟩
            exact ⟨⟨hrec, fun h => absurd h.symm hu⟩, rfl, hlt⟩
          · rintro ⟨⟨hrec, -⟩, hkey, hlt⟩
            exact ⟨hrec, hkey, hlt⟩
    · rw [records, if_neg hnew]
      cases i with
      | zero =>
        simp only [List.getElem?_cons_zero, Option.some.injEq, Prod.mk.injEq, Bool.false_eq_true, and_false, false_iff,
          isRecord_cons_zero, exists_eq_left', not_and]
        rintro rfl
        exact hnew
      | succ i =>
        rw [List.getElem?_cons_succ, ih]
        apply exists_congr
        intro x
        rw [isRecord_cons_succ]
        push Not at hnew
        obtain ⟨r, hr, hle⟩ := hnew
        constructor
        · rintro ⟨hrec, rfl, hlt⟩
          refine ⟨⟨hrec, fun hkey => ?_⟩, rfl, hlt⟩
          rw [hkey] at hr
          exact Std.lt_of_le_of_lt (Std.not_lt.mp hle) (hlt r hr)
        · rintro ⟨⟨hrec, -⟩, hkey, hlt⟩
          exact ⟨hrec, hkey, hlt⟩

/-- What is kept of a key in the end is its first greatest item. -/
theorem isLastMark_records_iff (xs : List α) (u : K) (i : Nat) :
    IsLastMark (records key rank (fun _ => none) xs) u i ↔ ∃ x, IsFirstGreatest key rank xs u i x := by
  have hmark : ∀ j, (records key rank (fun _ => none) xs)[j]? = some (u, true) ↔
      ∃ x, IsRecord key rank xs j x ∧ key x = u := by
    intro j
    rw [records_getElem?_iff]
    simp
  unfold IsLastMark
  simp only [hmark]
  constructor
  · rintro ⟨⟨x, hrec, rfl⟩, hlast⟩
    obtain ⟨j, y, hy⟩ := exists_isFirstGreatest key rank xs (List.mem_of_getElem? hrec.1)
    have hij := hrec.le_firstGreatest hy
    have hji := hlast j ⟨y, hy.isRecord, hy.2.1⟩
    obtain rfl : i = j := by omega
    exact ⟨y, hy⟩
  · rintro ⟨x, hx⟩
    refine ⟨⟨x, hx.isRecord, hx.2.1⟩, ?_⟩
    rintro j ⟨y, hy, hkey⟩
    exact hy.le_firstGreatest (hkey ▸ hx)

end Linear

end Records
