import Mathlib.Data.Option.Basic

/-!
# Machines and simulation

A machine takes a state and an operation to the next state and an output, or has no result. A
machine that follows another one in every step follows it through every history, with the same
outputs; a quantity that one step keeps is kept by the history.
-/

namespace Simulation

variable {S T O R A : Type*} {step : S → O → Option (S × R)} {astep : T → O → Option (T × R)}

/-- The operations one after the other, and their outputs in the same order. -/
def run (step : S → O → Option (S × R)) (s : S) : List O → Option (S × List R)
  | [] => some (s, [])
  | o :: ops => do
    let (s, r) ← step s o
    let (s, rs) ← run step s ops
    return (s, r :: rs)

/-- Whatever the machine `astep` does, `step` does from every related state. -/
def Simulates (step : S → O → Option (S × R)) (astep : T → O → Option (T × R)) (rel : S → T → Prop) : Prop :=
  ∀ s t, rel s t → ∀ o t' r, astep t o = some (t', r) → ∃ s', step s o = some (s', r) ∧ rel s' t'

@[simp] lemma run_nil (s : S) : run step s [] = some (s, []) := rfl

lemma run_cons_eq_some {s s' : S} {o : O} {ops : List O} {rs : List R} :
    run step s (o :: ops) = some (s', rs) ↔
      ∃ s₁ r rs', step s o = some (s₁, r) ∧ run step s₁ ops = some (s', rs') ∧ rs = r :: rs' := by
  simp only [run, Option.bind_eq_bind, Option.bind_eq_some_iff, Option.pure_def, Option.some.injEq,
    Prod.mk.injEq, Prod.exists]
  constructor
  · rintro ⟨s₁, r, hstep, s₂, rs', hrun, rfl, rfl⟩
    exact ⟨s₁, r, rs', hstep, hrun, rfl⟩
  · rintro ⟨s₁, r, rs', hstep, hrun, rfl⟩
    exact ⟨s₁, r, hstep, s', rs', hrun, rfl, rfl⟩

lemma Simulates.run {rel : S → T → Prop} (h : Simulates step astep rel) {s : S} {t t' : T} {ops : List O}
    {rs : List R} (hrel : rel s t) (hrun : Simulation.run astep t ops = some (t', rs)) :
    ∃ s', Simulation.run step s ops = some (s', rs) ∧ rel s' t' := by
  induction ops generalizing s t rs with
  | nil =>
    obtain ⟨rfl, rfl⟩ : t = t' ∧ [] = rs := by simpa using hrun
    exact ⟨s, rfl, hrel⟩
  | cons o ops ih =>
    obtain ⟨t₁, r, rs', hstep, hrest, rfl⟩ := run_cons_eq_some.mp hrun
    obtain ⟨s₁, hstep', hrel₁⟩ := h s t hrel o t₁ r hstep
    obtain ⟨s', hrest', hrel'⟩ := ih hrel₁ hrest
    exact ⟨s', run_cons_eq_some.mpr ⟨s₁, r, rs', hstep', hrest', rfl⟩, hrel'⟩

/-- If every step moves what it takes in to the output or keeps it in the state, so does a
history. -/
lemma run_conserved (content : T → List A) (taken : O → List A) (given : R → List A)
    (h : ∀ t o t' r, astep t o = some (t', r) → content t ++ taken o = given r ++ content t')
    {t t' : T} {ops : List O} {rs : List R} (hrun : run astep t ops = some (t', rs)) :
    content t ++ ops.flatMap taken = rs.flatMap given ++ content t' := by
  induction ops generalizing t rs with
  | nil =>
    obtain ⟨rfl, rfl⟩ : t = t' ∧ [] = rs := by simpa using hrun
    simp
  | cons o ops ih =>
    obtain ⟨t₁, r, rs', hstep, hrest, rfl⟩ := run_cons_eq_some.mp hrun
    calc content t ++ (o :: ops).flatMap taken
        = content t ++ taken o ++ ops.flatMap taken := by simp
      _ = given r ++ (content t₁ ++ ops.flatMap taken) := by rw [h t o t₁ r hstep, List.append_assoc]
      _ = given r ++ (rs'.flatMap given ++ content t') := by rw [ih hrest]
      _ = (r :: rs').flatMap given ++ content t' := by simp

lemma run_map {P : Type*} (f : P → O) (s : S) (ps : List P) :
    run step s (ps.map f) = run (fun s p => step s (f p)) s ps := by
  induction ps generalizing s with
  | nil => rfl
  | cons p ps ih => simp only [List.map_cons, run, ih]

/-- If step `k` of every history goes on and gives an output of its kind, so does the history. -/
lemma run_counted {inv : Nat → S → Prop} {output : Nat → O → R → Prop}
    (h : ∀ k s o, inv k s → ∃ s' r, step s o = some (s', r) ∧ inv (k + 1) s' ∧ output k o r) {k : Nat} {s : S}
    (hs : inv k s) (ops : List O) :
    ∃ s' rs, run step s ops = some (s', rs) ∧ rs.length = ops.length ∧
      ∀ i o, ops[i]? = some o → ∃ r, rs[i]? = some r ∧ output (k + i) o r := by
  induction ops generalizing k s with
  | nil => exact ⟨s, [], rfl, rfl, fun i o ho => by simp at ho⟩
  | cons o ops ih =>
    obtain ⟨s₁, r, hstep, hs₁, hout⟩ := h k s o hs
    obtain ⟨s', rs, hrun, hlength, hall⟩ := ih hs₁
    refine ⟨s', r :: rs, run_cons_eq_some.mpr ⟨s₁, r, rs, hstep, hrun, rfl⟩, by simp [hlength], fun i x hx => ?_⟩
    cases i with
    | zero =>
      obtain rfl := Option.some.inj hx
      exact ⟨r, rfl, hout⟩
    | succ i =>
      obtain ⟨r', hr', hout'⟩ := hall i x hx
      refine ⟨r', hr', ?_⟩
      rwa [Nat.add_assoc, Nat.add_comm 1 i] at hout'

end Simulation
