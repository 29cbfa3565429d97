import Mathlib.Data.List.Chain
import Mathlib.Data.List.Nodup
import Mathlib.Logic.Function.Basic

/-!
# The queue of the search

`load_balance.c` queues nodes in a doubly linked list between a header and a tail. Cells are
addressed by numbers; following a null link has no result. Between header and tail the links
represent a list, pushed at its end and popped at its front.
-/

namespace VideoCDN.Nameserver

/-- A `queue_node`; `n` is the address of the node it carries. -/
structure QueueNode where
  n : Nat
  next : Option Nat
  prev : Option Nat
  deriving DecidableEq, Repr

/-- The cells of the queue by their addresses. -/
abbrev QueueMem := Nat → QueueNode

def pushBack (m : QueueMem) (tail newNode : Nat) : Option QueueMem := do
  let m := Function.update m newNode { m newNode with next := some tail }
  let m := Function.update m newNode { m newNode with prev := (m tail).prev }
  let last ← (m tail).prev
  let m := Function.update m last { m last with next := some newNode }
  return Function.update m tail { m tail with prev := some newNode }

/-- Unlinks the first cell and returns it. -/
def popFront (m : QueueMem) (header : Nat) : Option (QueueMem × Nat) := do
  let node ← (m header).next
  let m := Function.update m header { m header with next := (m node).next }
  let first ← (m header).next
  return (Function.update m first { m first with prev := some header }, node)

def isEmpty (m : QueueMem) (header tail : Nat) : Bool :=
  (m header).next = some tail || (m tail).prev = some header

/-- `x` and `y` are linked both ways. -/
def Linked (m : QueueMem) (x y : Nat) : Prop := (m x).next = some y ∧ (m y).prev = some x

/-- The cells between header and tail are those of `l`, in this order. -/
structure IsQueue (m : QueueMem) (header tail : Nat) (l : List Nat) : Prop where
  links : (header :: (l ++ [tail])).IsChain (Linked m)
  nodup : (header :: (l ++ [tail])).Nodup

variable {m : QueueMem} {header tail : Nat} {l : List Nat}

lemma isQueue_nil (h : header ≠ tail) (hnext : (m header).next = some tail)
    (hprev : (m tail).prev = some header) : IsQueue m header tail [] := by
  refine ⟨?_, by simpa using h⟩
  rw [List.nil_append, List.isChain_cons_cons]
  exact ⟨⟨hnext, hprev⟩, List.isChain_singleton tail⟩

/-- Links outside a chain may change. -/
lemma isChain_linked_congr {m m' : QueueMem} {l : List Nat} (h : l.IsChain (Linked m))
    (hnext : ∀ x ∈ l.dropLast, (m' x).next = (m x).next) (hprev : ∀ y ∈ l.tail, (m' y).prev = (m y).prev) :
    l.IsChain (Linked m') := by
  rw [List.isChain_iff_getElem] at h ⊢
  intro i hi
  have hx : l[i] ∈ l.dropLast := by
    rw [← List.getElem_dropLast (h := by rw [List.length_dropLast]; omega)]
    exact List.getElem_mem _
  have hy : l[i + 1] ∈ l.tail := by
    rw [← List.getElem_tail (h := by rw [List.length_tail]; omega)]
    exact List.getElem_mem _
  exact ⟨(hnext _ hx).trans (h i hi).1, (hprev _ hy).trans (h i hi).2⟩

/-- Only the cells of the queue matter. -/
lemma IsQueue.congr {m' : QueueMem} (h : IsQueue m header tail l)
    (heq : ∀ x ∈ header :: (l ++ [tail]), m' x = m x) : IsQueue m' header tail l := by
  refine ⟨isChain_linked_congr h.links (fun x hx => ?_) (fun x hx => ?_), h.nodup⟩
  · rw [heq x (List.dropLast_subset _ hx)]
  · rw [heq x (List.mem_of_mem_tail hx)]

/-- What `push_back` writes, for `y` the last cell. -/
lemma pushBack_cells {new y : Nat} (hy : (m tail).prev = some y) (hnt : new ≠ tail) (hny : new ≠ y)
    (hyt : y ≠ tail) :
    ∃ m', pushBack m tail new = some m' ∧ (∀ x, (m' x).n = (m x).n) ∧
      (∀ x, (m' x).next = if x = new then some tail else if x = y then some new else (m x).next) ∧
      ∀ x, (m' x).prev = if x = tail then some new else if x = new then some y else (m x).prev := by
  simp only [pushBack, Function.update_of_ne hnt.symm, hy, Option.bind_eq_bind, Option.bind_some,
    Option.pure_def, Option.some.injEq, exists_eq_left']
  refine ⟨fun x => ?_, fun x => ?_, fun x => ?_⟩ <;>
    by_cases hxt : x = tail <;> by_cases hxy : x = y <;> by_cases hxn : x = new <;>
    simp_all

/-- What `pop_front` writes, for `x` the first cell and `y` the one after it. -/
lemma popFront_cells {x y : Nat} (hx : (m header).next = some x) (hy : (m x).next = some y)
    (hyh : y ≠ header) :
    ∃ m', popFront m header = some (m', x) ∧ (∀ z, (m' z).n = (m z).n) ∧
      (∀ z, (m' z).next = if z = header then some y else (m z).next) ∧
      ∀ z, (m' z).prev = if z = y then some header else (m z).prev := by
  simp only [popFront, hx, hy, Function.update_self, Option.bind_eq_bind, Option.bind_some,
    Option.pure_def, Option.some.injEq, Prod.mk.injEq, and_true, exists_eq_left']
  refine ⟨fun z => ?_, fun z => ?_, fun z => ?_⟩ <;>
    by_cases hzh : z = header <;> by_cases hzy : z = y <;> simp_all

/-- Pushing a fresh cell appends it to the list. -/
theorem pushBack_spec (h : IsQueue m header tail l) (new : Nat) (hnew : new ∉ header :: (l ++ [tail])) :
    ∃ m', pushBack m tail new = some m' ∧ IsQueue m' header tail (l ++ [new]) ∧ ∀ x, (m' x).n = (m x).n := by
  obtain ⟨links, nodup⟩ := h
  -- `y` is the last cell before the tail
  obtain ⟨pre, y, hy⟩ : ∃ pre y, header :: l = pre ++ [y] :=
    ⟨_, _, (List.dropLast_append_getLast (List.cons_ne_nil header l)).symm⟩
  have hcons : header :: (l ++ [tail]) = pre ++ y :: [tail] := by
    rw [← List.cons_append, hy]
    simp
  rw [hcons] at links nodup hnew
  obtain ⟨hpre, hlast⟩ := List.isChain_split.mp links
  have hyt : Linked m y tail := (List.isChain_cons_cons.mp hlast).1
  have hne : new ≠ tail ∧ new ≠ y ∧ new ∉ pre := by
    simp only [List.mem_append, List.mem_cons, List.not_mem_nil, or_false, not_or] at hnew
    exact ⟨hnew.2.2, hnew.2.1, hnew.1⟩
  have hnd : y ≠ tail ∧ y ∉ pre ∧ tail ∉ pre := by
    rw [List.nodup_append] at nodup
    obtain ⟨-, hyt, hdisj⟩ := nodup
    exact ⟨by simpa using hyt, fun hmem => hdisj y hmem y (by simp) rfl,
      fun hmem => hdisj tail hmem tail (by simp) rfl⟩
  obtain ⟨m', hpush, hn, hnext, hprev⟩ := pushBack_cells hyt.2 hne.1 hne.2.1 hnd.1
  refine ⟨m', hpush, ⟨?_, ?_⟩, hn⟩
  · have hnew' : header :: (l ++ [new] ++ [tail]) = pre ++ y :: [new, tail] := by
      rw [List.append_assoc, ← List.cons_append, hy]
      simp
    rw [hnew', List.isChain_split]
    refine ⟨isChain_linked_congr hpre (fun x hx => ?_) (fun x hx => ?_), ?_⟩
    · rw [List.dropLast_concat] at hx
      have hxy : x ≠ y := fun h => hnd.2.1 (h ▸ hx)
      have hxt : x ≠ tail := fun h => hnd.2.2 (h ▸ hx)
      have hxn : x ≠ new := fun h => hne.2.2 (h ▸ hx)
      rw [hnext, if_neg hxn, if_neg hxy]
    · have hx := List.mem_of_mem_tail hx
      have hxt : x ≠ tail := by
        rintro rfl
        rcases List.mem_append.mp hx with hx | hx
        · exact hnd.2.2 hx
        · exact hnd.1 (List.mem_singleton.mp hx).symm
      have hxn : x ≠ new := by
        rintro rfl
        rcases List.mem_append.mp hx with hx | hx
        · exact hne.2.2 hx
        · exact hne.2.1 (List.mem_singleton.mp hx)
      rw [hprev, if_neg hxt, if_neg hxn]
    · simp [List.isChain_cons_cons, Linked, hnext, hprev, hne.1, hne.2.1.symm]
  · have hperm : (header :: (l ++ [new] ++ [tail])).Perm (new :: (pre ++ y :: [tail])) := by
      rw [← hcons, List.append_assoc]
      exact (List.Perm.cons header List.perm_middle).trans (List.Perm.swap new header _)
    exact hperm.nodup_iff.mpr (List.nodup_cons.mpr ⟨hnew, nodup⟩)

/-- Popping takes the first cell off the list. -/
theorem popFront_spec {x : Nat} (h : IsQueue m header tail (x :: l)) :
    ∃ m', popFront m header = some (m', x) ∧ IsQueue m' header tail l ∧ ∀ y, (m' y).n = (m y).n := by
  obtain ⟨links, nodup⟩ := h
  obtain ⟨y, rest, hy⟩ : ∃ y rest, l ++ [tail] = y :: rest := List.exists_cons_of_ne_nil (by simp)
  rw [List.cons_append, hy] at links nodup
  obtain ⟨hx, hrest⟩ := List.isChain_cons_cons.mp links
  obtain ⟨hxy, hchain⟩ := List.isChain_cons_cons.mp hrest
  simp only [List.nodup_cons, List.mem_cons, not_or] at nodup
  obtain ⟨⟨hhx, hhy, hhr⟩, ⟨-, -⟩, hyr, hnd⟩ := nodup
  obtain ⟨m', hpop, hn, hnext, hprev⟩ := popFront_cells hx.1 hxy.1 (Ne.symm hhy)
  refine ⟨m', hpop, ⟨?_, ?_⟩, hn⟩
  · rw [hy, List.isChain_cons_cons]
    refine ⟨?_, isChain_linked_congr hchain (fun z hz => ?_) (fun z hz => ?_)⟩
    · simp [Linked, hnext, hprev]
    · have hz := List.dropLast_subset _ hz
      have hzh : z ≠ header := by
        rintro rfl
        rcases List.mem_cons.mp hz with hz | hz
        · exact hhy hz
        · exact hhr hz
      rw [hnext, if_neg hzh]
    · rw [List.tail_cons] at hz
      have hzy : z ≠ y := fun h => hyr (h ▸ hz)
      rw [hprev, if_neg hzy]
  · rw [hy]
    simp only [List.nodup_cons, List.mem_cons, not_or]
    exact ⟨⟨hhy, hhr⟩, hyr, hnd⟩

/-- The emptiness test looks at one link and is right about the whole list. -/
theorem isEmpty_iff (h : IsQueue m header tail l) : isEmpty m header tail = true ↔ l = [] := by
  obtain ⟨links, nodup⟩ := h
  unfold isEmpty
  rw [Bool.or_eq_true, decide_eq_true_eq, decide_eq_true_eq]
  cases l with
  | nil =>
    rw [List.nil_append, List.isChain_cons_cons] at links
    simp [links.1.1]
  | cons x l =>
    rw [List.cons_append] at links nodup
    have hnext := (List.isChain_cons_cons.mp links).1.1
    have hxt : x ≠ tail := by
      rintro rfl
      simp at nodup
    -- the cell before the tail is not the header
    obtain ⟨pre, y, hy⟩ : ∃ pre y, x :: l = pre ++ [y] :=
      ⟨_, _, (List.dropLast_append_getLast (List.cons_ne_nil x l)).symm⟩
    have hcons : header :: x :: (l ++ [tail]) = (header :: pre) ++ y :: [tail] := by
      rw [← List.cons_append, hy]
      simp
    rw [hcons] at links nodup
    have hprev := (List.isChain_cons_cons.mp (List.isChain_split.mp links).2).1.2
    have hyh : y ≠ header := by
      rintro rfl
      simp at nodup
    simp [hnext, hprev, hxt, hyh]

end VideoCDN.Nameserver
