import Mathlib.Order.Lattice

/-!
# The greatest element with a property

Where no element has the property, the least one is picked. Two picks that are made by properties which
smaller elements inherit are equal exactly where the properties agree, up to the least element.
-/

namespace Greatest

variable {α : Type*} [LinearOrder α] {list : List α} {P Q : α → Prop} {c d : α}

/-- The greatest element of the list with `P`, or the least where none has it. -/
def Picks (list : List α) (P : α → Prop) (c : α) : Prop :=
  c ∈ list ∧ ((P c ∧ ∀ b ∈ list, P b → b ≤ c) ∨ ((∀ b ∈ list, ¬P b) ∧ ∀ b ∈ list, c ≤ b))

/-- Some element of the list is smaller. -/
def NotLeast (list : List α) (b : α) : Prop := ∃ a ∈ list, a < b

/-- What has more elements to pick picks no smaller one. -/
lemma Picks.le (hc : Picks list P c) (hd : Picks list Q d) (h : ∀ b ∈ list, NotLeast list b → P b → Q b) :
    c ≤ d := by
  obtain ⟨hmem, ⟨hP, -⟩ | ⟨-, hleast⟩⟩ := hc
  · obtain ⟨hmem', hd⟩ := hd
    by_cases hnot : NotLeast list c
    · rcases hd with ⟨-, hgreatest⟩ | ⟨hnone, -⟩
      · exact hgreatest c hmem (h c hmem hnot hP)
      · exact absurd (h c hmem hnot hP) (hnone c hmem)
    · exact not_lt.mp fun hlt => hnot ⟨d, hmem', hlt⟩
  · exact hleast d hd.1

/-- From a pick that is no smaller, the property of all but the least is inherited. -/
lemma Picks.of_le (hc : Picks list P c) (hd : Picks list Q d) (hQ : ∀ a b, a ≤ b → Q b → Q a) (h : c ≤ d) {b : α}
    (hb : b ∈ list) (hnot : NotLeast list b) (hP : P b) : Q b := by
  have hbc : b ≤ c := by
    rcases hc.2 with ⟨-, hgreatest⟩ | ⟨hnone, -⟩
    · exact hgreatest b hb hP
    · exact absurd hP (hnone b hb)
  obtain ⟨a, ha, hlt⟩ := hnot
  rcases hd.2 with ⟨hQd, -⟩ | ⟨-, hleast⟩
  · exact hQ b d (hbc.trans h) hQd
  · exact absurd (hleast a ha) (not_le.mpr (hlt.trans_le (hbc.trans h)))

/-- Two picks are equal exactly where the properties agree on all elements but the least. -/
theorem Picks.eq_iff (hc : Picks list P c) (hd : Picks list Q d) (hP : ∀ a b, a ≤ b → P b → P a)
    (hQ : ∀ a b, a ≤ b → Q b → Q a) : c = d ↔ ∀ b ∈ list, NotLeast list b → (P b ↔ Q b) := by
  constructor
  · rintro rfl b hb hnot
    exact ⟨hc.of_le hd hQ le_rfl hb hnot, hd.of_le hc hP le_rfl hb hnot⟩
  · intro h
    exact le_antisymm (hc.le hd fun b hb hnot => (h b hb hnot).mp) (hd.le hc fun b hb hnot => (h b hb hnot).mpr)

end Greatest
