import VideoCDN.Lib.Simulation
import VideoCDN.Nameserver.Queue

/-!
# Histories of the queue

Pushes of fresh cells and pops of a non-empty queue in any order: the linked cells follow a
list that grows at its end and shrinks at its front.
-/

namespace VideoCDN.Nameserver

open Simulation

/-- A push of the cell `cell` that carries the node `n`, or a pop. -/
inductive QueueOp
  | push (cell n : Nat)
  | pop
  deriving DecidableEq, Repr

/-- The operations on the linked cells; a pop gives its cell and the node it carries. What the links of
a cell are before it is pushed does not matter. -/
def queueStep (header tail : Nat) (m : QueueMem) : QueueOp → Option (QueueMem × Option (Nat × Nat))
  | .push cell n => do
    let m ← pushBack (Function.update m cell { m cell with n := n }) tail cell
    return (m, none)
  | .pop => do
    let (m, node) ← popFront m header
    return (m, some (node, (m node).n))

/-- The same operations on the list of cells and their nodes, for the histories that are allowed: a
pushed cell is neither header nor tail nor in the queue, and there is something to pop. -/
def fifoStep (header tail : Nat) (l : List (Nat × Nat)) :
    QueueOp → Option (List (Nat × Nat) × Option (Nat × Nat))
  | .push cell n =>
    if cell ∈ header :: (l.map Prod.fst ++ [tail]) then none else some (l ++ [(cell, n)], none)
  | .pop =>
    match l with
    | [] => none
    | c :: l => some (l, some c)

/-- The cell and node of a push. -/
def QueueOp.pushed : QueueOp → List (Nat × Nat)
  | .push cell n => [(cell, n)]
  | .pop => []

/-- The linked cells are those of `l`, and carry their nodes. -/
structure Represents (header tail : Nat) (m : QueueMem) (l : List (Nat × Nat)) : Prop where
  isQueue : IsQueue m header tail (l.map Prod.fst)
  carried : ∀ c ∈ l, (m c.1).n = c.2

variable {header tail : Nat}

lemma Represents.push {m : QueueMem} {l : List (Nat × Nat)} {cell n : Nat} (h : Represents header tail m l)
    (hcell : cell ∉ header :: (l.map Prod.fst ++ [tail])) :
    ∃ m', queueStep header tail m (.push cell n) = some (m', none) ∧ Represents header tail m' (l ++ [(cell, n)]) := by
  have hqueue : IsQueue (Function.update m cell { m cell with n := n }) header tail (l.map Prod.fst) := by
    apply h.isQueue.congr
    intro x hx
    have hne : x ≠ cell := fun heq => hcell (heq ▸ hx)
    rw [Function.update_of_ne hne]
  obtain ⟨m', hpush, hqueue', hn⟩ := pushBack_spec hqueue cell hcell
  refine ⟨m', by simp only [queueStep, hpush, Option.bind_eq_bind, Option.bind_some, Option.pure_def], ?_, ?_⟩
  · simpa using hqueue'
  · intro c hc
    rw [hn]
    rcases List.mem_append.mp hc with hc | hc
    · have hmem : c.1 ∈ l.map Prod.fst := List.mem_map_of_mem hc
      have hne : c.1 ≠ cell := fun heq => hcell (heq ▸ List.mem_cons_of_mem _ (List.mem_append_left _ hmem))
      rw [Function.update_of_ne hne]
      exact h.carried c hc
    · obtain rfl := List.mem_singleton.mp hc
      rw [Function.update_self]

lemma Represents.pop {m : QueueMem} {c : Nat × Nat} {l : List (Nat × Nat)} (h : Represents header tail m (c :: l)) :
    ∃ m', queueStep header tail m .pop = some (m', some c) ∧ Represents header tail m' l := by
  obtain ⟨m', hpop, hqueue, hn⟩ := popFront_spec (x := c.1) (l := l.map Prod.fst) (by simpa using h.isQueue)
  have hc : (m' c.1).n = c.2 := by
    rw [hn]
    exact h.carried c List.mem_cons_self
  refine ⟨m', ?_, hqueue, fun d hd => ?_⟩
  · simp only [queueStep, hpop, hc, Option.bind_eq_bind, Option.bind_some, Option.pure_def]
  · rw [hn]
    exact h.carried d (List.mem_cons_of_mem c hd)

/-- The linked cells follow the list. -/
theorem queueStep_simulates (header tail : Nat) :
    Simulates (queueStep header tail) (fifoStep header tail) (Represents header tail) := by
  intro m l h o l' r hstep
  cases o with
  | push cell n =>
    rw [fifoStep, Option.ite_none_left_eq_some, Option.some.injEq, Prod.mk.injEq] at hstep
    obtain ⟨hcell, rfl, rfl⟩ := hstep
    exact h.push hcell
  | pop =>
    cases l with
    | nil => exact absurd hstep (Option.some_ne_none _).symm
    | cons c l =>
      obtain ⟨rfl, rfl⟩ : l = l' ∧ some c = r := by simpa [fifoStep] using hstep
      exact h.pop

/-- A step of the list: what comes out is its front, what is pushed goes to its end. -/
lemma fifoStep_order {l l' : List (Nat × Nat)} {o : QueueOp} {r : Option (Nat × Nat)}
    (h : fifoStep header tail l o = some (l', r)) : l ++ o.pushed = r.toList ++ l' := by
  cases o with
  | push cell n =>
    rw [fifoStep, Option.ite_none_left_eq_some, Option.some.injEq, Prod.mk.injEq] at h
    obtain ⟨-, rfl, rfl⟩ := h
    simp [QueueOp.pushed]
  | pop =>
    cases l with
    | nil => exact absurd h (Option.some_ne_none _).symm
    | cons c l =>
      obtain ⟨rfl, rfl⟩ : l = l' ∧ some c = r := by simpa [fifoStep] using h
      simp [QueueOp.pushed]

/-- The queue is first in, first out, and empty when everything pushed has been popped. -/
theorem queue_refines_fifo {m : QueueMem} {header tail : Nat} (hne : header ≠ tail)
    (hnext : (m header).next = some tail) (hprev : (m tail).prev = some header) {ops : List QueueOp}
    {rest : List (Nat × Nat)} {popped : List (Option (Nat × Nat))}
    (hops : run (fifoStep header tail) [] ops = some (rest, popped)) :
    ∃ m', run (queueStep header tail) m ops = some (m', popped) ∧ Represents header tail m' rest ∧
      ops.flatMap QueueOp.pushed = popped.flatMap Option.toList ++ rest ∧
      (isEmpty m' header tail = true ↔ popped.flatMap Option.toList = ops.flatMap QueueOp.pushed) := by
  have hstart : Represents header tail m [] := ⟨isQueue_nil hne hnext hprev, fun c hc => absurd hc List.not_mem_nil⟩
  obtain ⟨m', hrun, hholds⟩ := (queueStep_simulates header tail).run hstart hops
  have horder : ops.flatMap QueueOp.pushed = popped.flatMap Option.toList ++ rest := by
    have hconserved := run_conserved id QueueOp.pushed Option.toList (fun l o l' r h => fifoStep_order h) hops
    simpa using hconserved
  refine ⟨m', hrun, hholds, horder, ?_⟩
  rw [isEmpty_iff hholds.isQueue, List.map_eq_nil_iff, horder]
  constructor
  · rintro rfl
    rw [List.append_nil]
  · intro h
    exact List.append_right_eq_self.mp h.symm

section Example

/-- Two cells pushed and popped again, with a third one pushed between the pops. -/
def threeOps : List QueueOp := [.push 2 20, .push 3 30, .pop, .push 4 40, .pop]

def linkedPair : QueueMem := fun a => if a = 0 then ⟨0, some 1, none⟩ else ⟨0, none, some 0⟩

lemma run_threeOps : run (fifoStep 0 1) [] threeOps = some ([(4, 40)], [none, none, some (2, 20), none, some (3, 30)]) := by
  decide

theorem queue_refines_fifo_three :
    ∃ m', run (queueStep 0 1) linkedPair threeOps = some (m', [none, none, some (2, 20), none, some (3, 30)]) ∧
      Represents 0 1 m' [(4, 40)] ∧ isEmpty m' 0 1 = false := by
  obtain ⟨m', hrun, hholds, -, hempty⟩ := queue_refines_fifo (m := linkedPair) (by decide) (by decide) (by decide)
    run_threeOps
  refine ⟨m', hrun, hholds, ?_⟩
  rw [Bool.eq_false_iff, ne_eq, hempty]
  decide

end Example

end VideoCDN.Nameserver
