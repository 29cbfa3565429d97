import Mathlib.Data.List.Basic

/-!
# Doubly linked lists

Cells are known by their addresses, and `next` and `prev` are the links of a cell. A list whose
links are consistent has no repetition, and stays consistent when a cell is put in front of it
and when any cell is taken out.
-/

namespace LinkedList

variable {A : Type*} {next prev next' prev' : A → Option A} {before head : Option A} {l : List A}

/-- From `head`, following `next` visits the cells `l` and ends. -/
def Path (next : A → Option A) : Option A → List A → Prop
  | head, [] => head = none
  | head, a :: l => head = some a ∧ Path next (next a) l

/-- `l` is linked both ways, from `head` on; the cell in front of it is `before`. -/
def Linked (next prev : A → Option A) : Option A → Option A → List A → Prop
  | _, head, [] => head = none
  | before, head, a :: l => head = some a ∧ prev a = before ∧ Linked next prev (some a) (next a) l

/-! ## What the links determine -/

lemma Path.congr (h : Path next head l) (hnext : ∀ a ∈ l, next' a = next a) : Path next' head l := by
  induction l generalizing head with
  | nil => exact h
  | cons a l ih =>
    obtain ⟨hhead, hrest⟩ := h
    refine ⟨hhead, ?_⟩
    rw [hnext a List.mem_cons_self]
    apply ih hrest
    exact fun b hb => hnext b (List.mem_cons_of_mem a hb)

lemma Path.unique {l' : List A} (h : Path next head l) (h' : Path next head l') : l = l' := by
  induction l generalizing head l' with
  | nil =>
    obtain rfl : head = none := h
    cases l' with
    | nil => rfl
    | cons b l' => exact absurd h'.1 (Option.some_ne_none b).symm
  | cons a l ih =>
    obtain ⟨rfl, hrest⟩ := h
    cases l' with
    | nil => exact absurd h' (Option.some_ne_none a)
    | cons b l' =>
      obtain ⟨hhead, hrest'⟩ := h'
      obtain rfl := Option.some.inj hhead
      rw [ih hrest hrest']

lemma Path.suffix {l₁ l₂ : List A} {a : A} (h : Path next head (l₁ ++ a :: l₂)) : Path next (some a) (a :: l₂) := by
  induction l₁ generalizing head with
  | nil => exact ⟨rfl, h.2⟩
  | cons b l₁ ih => exact ih h.2

lemma Path.nodup (h : Path next head l) : l.Nodup := by
  induction l generalizing head with
  | nil => exact List.nodup_nil
  | cons a l ih =>
    refine List.nodup_cons.mpr ⟨fun hmem => ?_, ih h.2⟩
    obtain ⟨l₁, l₂, rfl⟩ := List.append_of_mem hmem
    have hagain : a :: (l₁ ++ a :: l₂) = a :: l₂ := Path.unique ⟨rfl, h.2⟩ h.2.suffix
    have hlength := congrArg List.length hagain
    simp only [List.length_cons, List.length_append] at hlength
    omega

lemma Linked.path (h : Linked next prev before head l) : Path next head l := by
  induction l generalizing before head with
  | nil => exact h
  | cons a l ih => exact ⟨h.1, ih h.2.2⟩

lemma Linked.nodup (h : Linked next prev before head l) : l.Nodup := h.path.nodup

lemma Linked.congr (h : Linked next prev before head l) (hnext : ∀ a ∈ l, next' a = next a)
    (hprev : ∀ a ∈ l, prev' a = prev a) : Linked next' prev' before head l := by
  induction l generalizing before head with
  | nil => exact h
  | cons a l ih =>
    obtain ⟨hhead, hbefore, hrest⟩ := h
    refine ⟨hhead, ?_, ?_⟩
    · rw [hprev a List.mem_cons_self]
      exact hbefore
    · rw [hnext a List.mem_cons_self]
      apply ih hrest
      · exact fun b hb => hnext b (List.mem_cons_of_mem a hb)
      · exact fun b hb => hprev b (List.mem_cons_of_mem a hb)

lemma Linked.head_eq (h : Linked next prev before head l) : head = l.head? := by
  cases l with
  | nil => exact h
  | cons a l => exact h.1

lemma Linked.links {l₁ l₂ : List A} {a : A} (h : Linked next prev before head (l₁ ++ a :: l₂)) :
    prev a = l₁.getLast?.or before ∧ next a = l₂.head? := by
  induction l₁ generalizing before head with
  | nil => exact ⟨h.2.1, h.2.2.head_eq⟩
  | cons b l₁ ih =>
    obtain ⟨hprev, hnext⟩ := ih h.2.2
    refine ⟨?_, hnext⟩
    rw [hprev, List.getLast?_cons]
    cases l₁.getLast? with
    | none => rfl
    | some c => rfl

/-! ## Insertion and removal -/

lemma Linked.cons [DecidableEq A] {a : A} (h : Linked next prev none head l) (hnext : next' a = head)
    (hprev : prev' a = none) (hnexts : ∀ x ∈ l, next' x = next x)
    (hprevs : ∀ x ∈ l, prev' x = if head = some x then some a else prev x) :
    Linked next' prev' none (some a) (a :: l) := by
  refine ⟨rfl, hprev, ?_⟩
  rw [hnext]
  cases l with
  | nil => exact h
  | cons b l =>
    have hb : b ∉ l := (List.nodup_cons.mp h.nodup).1
    obtain ⟨rfl, -, hrest⟩ := h
    refine ⟨rfl, ?_, ?_⟩
    · rw [hprevs b List.mem_cons_self, if_pos rfl]
    · rw [hnexts b List.mem_cons_self]
      apply hrest.congr
      · exact fun x hx => hnexts x (List.mem_cons_of_mem b hx)
      · intro x hx
        have hne : b ≠ x := fun heq => hb (heq ▸ hx)
        rw [hprevs x (List.mem_cons_of_mem b hx), if_neg (fun heq => hne (Option.some.inj heq))]

/-- The cell behind `l₁` is taken out: its neighbors are linked to each other. -/
lemma Linked.remove [DecidableEq A] {a : A} {l₁ l₂ : List A}
    (h : Linked next prev before head (l₁ ++ a :: l₂)) (hbefore : ∀ x ∈ l₁ ++ a :: l₂, before ≠ some x)
    (hnext : ∀ x ∈ l₁ ++ l₂, next' x = if prev a = some x then next a else next x)
    (hprev : ∀ x ∈ l₁ ++ l₂, prev' x = if next a = some x then prev a else prev x) :
    Linked next' prev' before (if prev a = before then next a else head) (l₁ ++ l₂) := by
  induction l₁ generalizing before head with
  | nil =>
    obtain ⟨-, hprevA, hrest⟩ := h
    have ha : a ∉ l₂ := (List.nodup_cons.mp (Linked.nodup ⟨rfl, hprevA, hrest⟩ : (a :: l₂).Nodup)).1
    rw [if_pos hprevA]
    cases l₂ with
    | nil => exact hrest
    | cons b l₂ =>
      have hb : b ∉ l₂ := (List.nodup_cons.mp hrest.nodup).1
      obtain ⟨hnextA, hprevB, hrest⟩ := hrest
      have hne : ∀ x ∈ b :: l₂, prev a ≠ some x := by
        rw [hprevA]
        exact fun x hx => hbefore x (List.mem_cons_of_mem a hx)
      refine ⟨hnextA, ?_, ?_⟩
      · rw [hprev b List.mem_cons_self, if_pos hnextA]
        exact hprevA
      · rw [hnext b List.mem_cons_self, if_neg (hne b List.mem_cons_self)]
        apply hrest.congr
        · intro x hx
          rw [hnext x (List.mem_cons_of_mem b hx), if_neg (hne x (List.mem_cons_of_mem b hx))]
        · intro x hx
          have hother : next a ≠ some x := by
            rw [hnextA]
            exact fun heq => hb (Option.some.inj heq ▸ hx)
          rw [hprev x (List.mem_cons_of_mem b hx), if_neg hother]
  | cons c l₁ ih =>
    have hc : c ∉ l₁ ++ a :: l₂ := (List.nodup_cons.mp h.nodup).1
    have hlinks := h.links
    obtain ⟨hhead, hprevC, hrest⟩ := h
    have hnextA : next a ≠ some c := by
      rw [hlinks.2]
      intro heq
      apply hc
      exact List.mem_append_right l₁ (List.mem_cons_of_mem a (List.mem_of_head? heq))
    -- The cell in front of `a` is `c` or one of `l₁`, never `before`.
    have hprevA : prev a ≠ before := by
      rw [hlinks.1, List.getLast?_cons]
      intro heq
      have hmem : (l₁.getLast?.getD c) ∈ c :: l₁ := by
        cases hlast : l₁.getLast? with
        | none => exact List.mem_cons_self
        | some d => exact List.mem_cons_of_mem c (List.mem_of_getLast? hlast)
      exact hbefore _ (List.mem_append_left _ hmem) heq.symm
    rw [if_neg hprevA]
    refine ⟨hhead, ?_, ?_⟩
    · rw [hprev c List.mem_cons_self, if_neg hnextA]
      exact hprevC
    · have hsame : next' c = if prev a = some c then next a else next c := hnext c List.mem_cons_self
      rw [hsame]
      apply ih hrest
      · exact fun x hx heq => hc (Option.some.inj heq ▸ hx)
      · exact fun x hx => hnext x (List.mem_cons_of_mem c hx)
      · exact fun x hx => hprev x (List.mem_cons_of_mem c hx)

end LinkedList
