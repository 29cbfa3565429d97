import Mathlib.Data.List.Forall2

/-!
# Traces and refinement

Some steps of a system are visible, with a label. A system refines another one when each of its steps is
one of the other with the same label, or is not visible and changes nothing there; then it has no trace
that the other one does not have. A relay is a system that asks for something that suits each
request, and gives the answers in the order of the requests. A journal is one whose entries name the last
request.
-/

namespace Refinement

variable {S T L : Type*} {step : S → Option L → S → Prop} {astep : T → Option L → T → Prop}

/-- The labels of a run. -/
inductive Traces (step : S → Option L → S → Prop) (s : S) : List L → S → Prop
  | refl : Traces step s [] s
  | tail {trace : List L} {s' s'' : S} {l : Option L} (h : Traces step s trace s') (hstep : step s' l s'') :
      Traces step s (trace ++ l.toList) s''

def Refines (step : S → Option L → S → Prop) (astep : T → Option L → T → Prop) (rel : S → T → Prop) : Prop :=
  ∀ s t l s', rel s t → step s l s' → (l = none ∧ rel s' t) ∨ ∃ t', astep t l t' ∧ rel s' t'

theorem Refines.traces {rel : S → T → Prop} (h : Refines step astep rel) {s s' : S} {t : T} {trace : List L}
    (hrel : rel s t) (htrace : Traces step s trace s') : ∃ t', Traces astep t trace t' ∧ rel s' t' := by
  induction htrace with
  | refl => exact ⟨t, .refl, hrel⟩
  | tail _ hstep ih =>
    obtain ⟨t', hrun, hrel'⟩ := ih
    rcases h _ _ _ _ hrel' hstep with ⟨rfl, hsame⟩ | ⟨t'', hastep, hnext⟩
    · refine ⟨t', ?_, hsame⟩
      rwa [Option.toList_none, List.append_nil]
    · exact ⟨t'', hrun.tail hastep, hnext⟩

/-! ## Relays -/

variable {Q X R : Type*}

/-- What is visible of a relay. -/
inductive Label (Q R : Type*)
  | request (q : Q)
  | answer (r : R)

/-- What was asked for is outstanding until the answer is given. -/
inductive Relay (suits : Q → X → Prop) (answers : X → R → Prop) : List X → Option (Label Q R) → List X → Prop
  | request (q : Q) (x : X) (outstanding : List X) (h : suits q x) :
      Relay suits answers outstanding (some (.request q)) (outstanding ++ [x])
  | answer (x : X) (r : R) (outstanding : List X) (h : answers x r) :
      Relay suits answers (x :: outstanding) (some (.answer r)) outstanding

def Label.request? : Label Q R → Option Q
  | request q => some q
  | answer _ => none

def Label.answer? : Label Q R → Option R
  | request _ => none
  | answer r => some r

/-- What is remembered is the last request, and what is answered names it. -/
inductive Journal (names : Q → R → Prop) : Option Q → Option (Label Q R) → Option Q → Prop
  | request (last : Option Q) (q : Q) : Journal names last (some (.request q)) (some q)
  | answer (q : Q) (r : R) (h : names q r) : Journal names (some q) (some (.answer r)) (some q)

/-- The last request of a trace. -/
def latest (trace : List (Label Q R)) : Option Q := (trace.filterMap Label.request?).getLast?

lemma latest_request (trace : List (Label Q R)) (q : Q) : latest (trace ++ [.request q]) = some q := by
  simp [latest, Label.request?]

lemma latest_answer (trace : List (Label Q R)) (r : R) : latest (trace ++ [.answer r]) = latest trace := by
  simp [latest, Label.request?]

/-- Every entry names the last request before it. -/
theorem journal_names_latest {names : Q → R → Prop} {trace : List (Label Q R)} {last : Option Q}
    (h : Traces (Journal names) none trace last) :
    latest trace = last ∧
      ∀ pre r post, trace = pre ++ .answer r :: post → ∃ q, latest pre = some q ∧ names q r := by
  induction h with
  | refl => exact ⟨rfl, fun pre r post h => by simp at h⟩
  | tail _ hstep ih =>
    obtain ⟨hlast, hnames⟩ := ih
    cases hstep with
    | request last q =>
      refine ⟨latest_request _ q, fun pre r post h => ?_⟩
      rcases List.eq_nil_or_concat post with rfl | ⟨post, l, rfl⟩
      · have hend := (List.append_inj' h rfl).2
        cases hend
      · rw [List.concat_eq_append, ← List.cons_append, ← List.append_assoc] at h
        exact hnames pre r post (List.append_inj' h rfl).1
    | answer q r hname =>
      refine ⟨(latest_answer _ r).trans hlast, fun pre r' post h => ?_⟩
      rcases List.eq_nil_or_concat post with rfl | ⟨post, l, rfl⟩
      · obtain ⟨rfl, hend⟩ := List.append_inj' h rfl
        obtain rfl := Label.answer.inj (List.singleton_inj.mp hend)
        exact ⟨q, hlast, hname⟩
      · rw [List.concat_eq_append, ← List.cons_append, ← List.append_assoc] at h
        exact hnames pre r' post (List.append_inj' h rfl).1

end Refinement
