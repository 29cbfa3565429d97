import Mathlib.Data.List.Basic
import Mathlib.Logic.Relation

/-!
# Sessions over a shared state

Any number of sessions read and write a state that they share. A session is opened, or one of them acts,
after which it stays or ends. What the acts keep, of the shared state and of each session, holds whatever
the order of the acts.
-/

namespace Sessions

variable {S C : Type*}

/-- The shared state and the open sessions. -/
structure World (S C : Type*) where
  shared : S
  sessions : List C

/-- One session acts; the list of the others stays as it is. -/
inductive Step (opens : S → C → Prop) (acts : S → C → S → Option C → Prop) : World S C → World S C → Prop
  | opens {s : S} {cs : List C} (c : C) (h : opens s c) : Step opens acts ⟨s, cs⟩ ⟨s, c :: cs⟩
  | acts {s s' : S} {before after : List C} {c : C} {c' : Option C} (h : acts s c s' c') :
      Step opens acts ⟨s, before ++ c :: after⟩ ⟨s', before ++ (c'.toList ++ after)⟩

/-- What the acts keep: `shared` of the state, `own` of the state and each session, and `apart` of any
two sessions. An act must keep what belongs to the sessions that are apart from the acting one. -/
structure Keeps (opens : S → C → Prop) (acts : S → C → S → Option C → Prop) (shared : S → Prop)
    (own : S → C → Prop) (apart : C → C → Prop) : Prop where
  symm : ∀ c d, apart c d → apart d c
  opened : ∀ s c, shared s → opens s c → own s c ∧ ∀ d, apart c d
  acted : ∀ s c s' c', shared s → own s c → acts s c s' c' →
    shared s' ∧ ∀ c₁ ∈ c', own s' c₁ ∧ ∀ d, apart c d → apart c₁ d
  others : ∀ s c s' c' d, shared s → own s c → own s d → apart c d → acts s c s' c' → own s' d

/-- All of it holds. -/
structure World.Sound (shared : S → Prop) (own : S → C → Prop) (apart : C → C → Prop) (w : World S C) : Prop where
  shared : shared w.shared
  own : ∀ c ∈ w.sessions, own w.shared c
  apart : w.sessions.Pairwise apart

variable {opens : S → C → Prop} {acts : S → C → S → Option C → Prop} {shared : S → Prop} {own : S → C → Prop}
  {apart : C → C → Prop} {w w' : World S C}

/-- The acting session and the others are apart. -/
lemma pairwise_middle {before after : List C} {c : C} (hsymm : ∀ c d, apart c d → apart d c) :
    (before ++ c :: after).Pairwise apart ↔
      (before ++ after).Pairwise apart ∧ ∀ d ∈ before ++ after, apart c d := by
  rw [List.pairwise_middle (fun hxy => hsymm _ _ hxy), List.pairwise_cons, and_comm]

lemma Keeps.step (h : Keeps opens acts shared own apart) (hw : w.Sound shared own apart)
    (hstep : Step opens acts w w') : w'.Sound shared own apart := by
  obtain ⟨hshared, hown, hapart⟩ := hw
  cases hstep with
  | opens c hopens =>
    obtain ⟨hc, hfrom⟩ := h.opened _ c hshared hopens
    refine ⟨hshared, ?_, List.pairwise_cons.mpr ⟨fun d _ => hfrom d, hapart⟩⟩
    intro d hd
    rcases List.mem_cons.mp hd with rfl | hd
    · exact hc
    · exact hown d hd
  | @acts s s' before after c c' hact =>
    obtain ⟨hrest, hfrom⟩ := (pairwise_middle h.symm).mp hapart
    have hc : own s c := hown c (by simp)
    obtain ⟨hshared', hc'⟩ := h.acted s c s' c' hshared hc hact
    -- the others keep what is theirs
    have hothers : ∀ d ∈ before ++ after, own s' d := by
      intro d hd
      apply h.others s c s' c' d hshared hc _ (hfrom d hd) hact
      apply hown
      rcases List.mem_append.mp hd with hd | hd <;> simp [hd]
    cases c' with
    | none => exact ⟨hshared', hothers, hrest⟩
    | some c₁ =>
      obtain ⟨hc₁, hfrom₁⟩ := hc' c₁ rfl
      refine ⟨hshared', ?_, ?_⟩
      · intro d hd
        simp only [Option.toList_some, List.cons_append, List.nil_append, List.mem_append, List.mem_cons] at hd
        rcases hd with hd | rfl | hd
        · exact hothers d (List.mem_append_left _ hd)
        · exact hc₁
        · exact hothers d (List.mem_append_right _ hd)
      · exact (pairwise_middle h.symm).mpr ⟨hrest, fun d hd => hfrom₁ d (hfrom d hd)⟩

/-- Everything kept by the acts holds in every state of a run. -/
theorem Keeps.run (h : Keeps opens acts shared own apart) (hw : w.Sound shared own apart)
    (hrun : Relation.ReflTransGen (Step opens acts) w w') : w'.Sound shared own apart := by
  induction hrun with
  | refl => exact hw
  | tail _ hstep ih => exact h.step ih hstep

end Sessions
