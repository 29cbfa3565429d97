import Mathlib.Data.Int.CardIntervalMod
import Mathlib.Data.List.Induction

/-!
# Taking turns

A sequence that goes through the items of a list in turn, from the first one on. It has each of
them as often as any other, up to one.
-/

namespace Rotation

variable {α : Type*} {items xs : List α} {x y : α} {i : Nat}

/-- The elements of `xs` are the items, in turn. -/
def Rotates (items xs : List α) : Prop := ∀ k x, xs[k]? = some x → items[k % items.length]? = some x

lemma rotates_nil : Rotates items [] := fun k x h => by simp at h

lemma Rotates.append (h : Rotates items xs) (hx : items[xs.length % items.length]? = some x) :
    Rotates items (xs ++ [x]) := by
  intro k y hy
  by_cases hk : k < xs.length
  · rw [List.getElem?_append_left hk] at hy
    exact h k y hy
  · rw [List.getElem?_append_right (not_lt.mp hk)] at hy
    obtain ⟨hlt, rfl⟩ := List.getElem?_eq_some_iff.mp hy
    have hlen : k = xs.length := by
      rw [List.length_singleton] at hlt
      omega
    subst hlen
    simpa using hx

lemma Rotates.split_last (h : Rotates items (xs ++ [x])) :
    Rotates items xs ∧ items[xs.length % items.length]? = some x := by
  constructor
  · intro k y hy
    apply h
    rwa [List.getElem?_append_left (List.getElem?_eq_some_iff.mp hy).1]
  · apply h
    simp

variable [BEq α] [LawfulBEq α]

/-- The turn of an item comes at the positions congruent to its own. -/
lemma Rotates.count_eq (hdistinct : items.Nodup) (h : Rotates items xs) (hx : items[i]? = some x) :
    xs.count x = Nat.count (· ≡ i [MOD items.length]) xs.length := by
  obtain ⟨hi, -⟩ := List.getElem?_eq_some_iff.mp hx
  induction xs using List.reverseRecOn with
  | nil => simp
  | append_singleton xs z ih =>
    obtain ⟨hxs, hz⟩ := h.split_last
    have hturn : z = x ↔ xs.length ≡ i [MOD items.length] := by
      rw [Nat.ModEq, Nat.mod_eq_of_lt hi]
      constructor
      · rintro rfl
        exact (List.getElem?_inj (List.getElem?_eq_some_iff.mp hz).1 hdistinct).mp (hz.trans hx.symm)
      · intro heq
        rw [heq, hx] at hz
        exact (Option.some.inj hz).symm
    rw [List.count_append, List.length_append, List.length_singleton, Nat.count_succ, ih hxs, List.count_singleton]
    by_cases hzx : z = x
    · rw [if_pos (hturn.mp hzx), if_pos (beq_iff_eq.mpr hzx)]
    · rw [if_neg fun hmod => hzx (hturn.mpr hmod), if_neg (by simpa using hzx)]

/-- Every item had its turn in each round that is over, and the first ones in the round that is not. -/
theorem Rotates.count (hdistinct : items.Nodup) (h : Rotates items xs) (hx : items[i]? = some x) :
    xs.count x = xs.length / items.length + if i < xs.length % items.length then 1 else 0 := by
  have hi := (List.getElem?_eq_some_iff.mp hx).1
  rw [h.count_eq hdistinct hx, Nat.count_modEq_card xs.length (Nat.zero_lt_of_lt hi), Nat.mod_eq_of_lt hi]

theorem Rotates.balanced (hdistinct : items.Nodup) (h : Rotates items xs) (hx : x ∈ items) (hy : y ∈ items) :
    xs.count x ≤ xs.count y + 1 := by
  obtain ⟨i, hi⟩ := List.mem_iff_getElem?.mp hx
  obtain ⟨j, hj⟩ := List.mem_iff_getElem?.mp hy
  rw [h.count hdistinct hi, h.count hdistinct hj]
  split <;> split <;> omega

end Rotation
