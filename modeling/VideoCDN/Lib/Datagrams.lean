import Mathlib.Logic.Relation

/-!
# Parties that exchange datagrams

The parties of a service share a network that loses datagrams, delivers them more than once and in any
order. What every act of the parties keeps, for the datagrams they may receive, holds in every state.
-/

namespace Datagrams

variable {S M : Type*}

/-- The parties, and the datagrams in flight. -/
structure World (S M : Type*) where
  parties : S
  inFlight : List M

/-- The parties act on a datagram, or on none, and send others. A datagram at any place of the list may be
received, which takes it out; it may be lost, or be there once more. -/
inductive Step (act : S → Option M → S → List M → Prop) : World S M → World S M → Prop
  | act {s s' : S} {net out : List M} (h : act s none s' out) : Step act ⟨s, net⟩ ⟨s', net ++ out⟩
  | receive {s s' : S} {before after out : List M} (m : M) (h : act s (some m) s' out) :
      Step act ⟨s, before ++ m :: after⟩ ⟨s', before ++ after ++ out⟩
  | lose {s : S} {before after : List M} (m : M) : Step act ⟨s, before ++ m :: after⟩ ⟨s, before ++ after⟩
  | duplicate {s : S} {net : List M} (m : M) (h : m ∈ net) : Step act ⟨s, net⟩ ⟨s, net ++ [m]⟩

/-- The states that a world runs to. -/
def Runs (act : S → Option M → S → List M → Prop) : World S M → World S M → Prop :=
  Relation.ReflTransGen (Step act)

/-- Every act of parties that meet `inv` on a datagram that meets `ok` keeps both. -/
def Keeps (act : S → Option M → S → List M → Prop) (inv : S → Prop) (ok : M → Prop) : Prop :=
  ∀ s m s' out, inv s → (∀ x ∈ m, ok x) → act s m s' out → inv s' ∧ ∀ x ∈ out, ok x

/-- The parties and the datagrams in flight are as they should be. -/
structure World.Sound (inv : S → Prop) (ok : M → Prop) (w : World S M) : Prop where
  parties : inv w.parties
  inFlight : ∀ m ∈ w.inFlight, ok m

variable {act : S → Option M → S → List M → Prop} {inv : S → Prop} {ok : M → Prop} {w w' : World S M}

/-- The only datagram in flight is received. -/
lemma Step.receive_only {s s' : S} {m : M} {out : List M} (h : act s (some m) s' out) :
    Step act ⟨s, [m]⟩ ⟨s', out⟩ := @Step.receive S M act s s' [] [] out m h

lemma Keeps.step (h : Keeps act inv ok) (hw : w.Sound inv ok) (hstep : Step act w w') : w'.Sound inv ok := by
  cases hstep with
  | act hact =>
    obtain ⟨hinv, hout⟩ := h _ none _ _ hw.parties (by simp) hact
    refine ⟨hinv, fun m hm => ?_⟩
    rcases List.mem_append.mp hm with hm | hm
    · exact hw.inFlight m hm
    · exact hout m hm
  | receive m hact =>
    obtain ⟨hparties, hflight⟩ := hw
    obtain ⟨hinv, hout⟩ := h _ (some m) _ _ hparties (by simpa using hflight m (by simp)) hact
    refine ⟨hinv, fun x hx => ?_⟩
    rcases List.mem_append.mp hx with hx | hx
    · apply hflight
      rcases List.mem_append.mp hx with hx | hx <;> simp [hx]
    · exact hout x hx
  | lose m =>
    obtain ⟨hparties, hflight⟩ := hw
    refine ⟨hparties, fun x hx => hflight x ?_⟩
    rcases List.mem_append.mp hx with hx | hx <;> simp [hx]
  | duplicate m hmem =>
    obtain ⟨hparties, hflight⟩ := hw
    refine ⟨hparties, fun x hx => ?_⟩
    rcases List.mem_append.mp hx with hx | hx
    · exact hflight x hx
    · rw [List.mem_singleton.mp hx]
      exact hflight m hmem

/-- Whatever the network does, the parties stay as they should be. -/
theorem Keeps.runs (h : Keeps act inv ok) (hw : w.Sound inv ok) (hruns : Runs act w w') : w'.Sound inv ok := by
  induction hruns with
  | refl => exact hw
  | tail _ hstep ih => exact h.step ih hstep

end Datagrams
