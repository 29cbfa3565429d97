import VideoCDN.Lib.HopGraph
import Mathlib.Data.List.Nodup

/-!
# The reference search

`Dijkstra` of the reference implementation `dns/dijkstra.py`, where every step costs one hop.
A vertex that is no key of `dist` has no distance there, and the default distance -1.
-/

namespace VideoCDN.Reference

open HopGraph

variable {α : Type} [DecidableEq α]

/-- `dist[v] < d` -/
def distLt (dist : α → Option Nat) (v : α) (d : Nat) : Bool :=
  match dist v with
  | none => true
  | some e => e < d

/-- The loop over `Q` that picks the unvisited vertex with the smallest distance. -/
def pickVertex (dist : α → Option Nat) (visited : α → Bool) : List α → Option α → Option α
  | [], u => u
  | v :: Q, u =>
    let closer := match u.bind dist with
      | none => true
      | some d => distLt dist v d
    pickVertex dist visited Q (if !visited v && closer then some v else u)

/-- The loop over the neighbors of a vertex at distance `alt - 1`. -/
def relaxNeighbors (visited : α → Bool) (alt : Nat) :
    List α → (α → Option Nat) → List α → (α → Option Nat) × List α
  | [], dist, Q => (dist, Q)
  | v :: vs, dist, Q =>
    let shorter := match dist v with
      | none => true
      | some d => alt < d
    if !visited v && shorter then relaxNeighbors visited alt vs (Function.update dist v (some alt)) (Q ++ [v])
    else relaxNeighbors visited alt vs dist Q

/-- `dist[u] + 1` -/
def distSucc (dist : α → Option Nat) (u : α) : Nat :=
  match dist u with
  | none => 0
  | some d => d + 1

/-- The main loop: no result out of fuel, or when `Q.remove` fails. -/
def dijkstraLoop (neighbors : α → List α) :
    Nat → (α → Option Nat) → (α → Bool) → List α → Option (α → Option Nat)
  | 0, _, _, _ => none
  | _ + 1, dist, _, [] => some dist
  | fuel + 1, dist, visited, v :: Q => do
    let u ← pickVertex dist visited (v :: Q) none
    let Q := (v :: Q).erase u
    let visited := Function.update visited u true
    let (dist, Q) := relaxNeighbors visited (distSucc dist u) (neighbors u) dist Q
    dijkstraLoop neighbors fuel dist visited Q

/-- `Dijkstra(Graph, source)`; every round visits another vertex, so their number is enough fuel. -/
def dijkstra (neighbors : α → List α) (vertices : Nat) (source : α) : Option (α → Option Nat) :=
  dijkstraLoop neighbors (vertices + 1) (Function.update (fun _ => none) source (some 0)) (fun _ => false)
    [source]

section Pick

variable {dist : α → Option Nat} {visited : α → Bool}

omit [DecidableEq α] in
lemma pickVertex_from {Q : List α} (hQ : ∀ v ∈ Q, visited v = false ∧ ∃ d, dist v = some d) {u : α} {d : Nat}
    (hu : dist u = some d) :
    ∃ u' d', pickVertex dist visited Q (some u) = some u' ∧ dist u' = some d' ∧ d' ≤ d ∧
      (u' = u ∨ u' ∈ Q) ∧ ∀ v ∈ Q, ∀ e, dist v = some e → d' ≤ e := by
  induction Q generalizing u d with
  | nil => exact ⟨u, d, rfl, hu, le_rfl, Or.inl rfl, by simp⟩
  | cons v Q ih =>
    obtain ⟨hv, e, he⟩ := hQ v (by simp)
    have hQ' : ∀ w ∈ Q, visited w = false ∧ ∃ d, dist w = some d := fun w hw => hQ w (by simp [hw])
    rw [pickVertex]
    by_cases hlt : e < d
    · obtain ⟨u', d', hpick, hd', hle, hmem, hmin⟩ := ih hQ' he
      refine ⟨u', d', by simpa [distLt, hu, he, hv, hlt] using hpick, hd', by omega, ?_, fun w hw f hf => ?_⟩
      · rcases hmem with rfl | hmem
        · exact Or.inr (by simp)
        · exact Or.inr (by simp [hmem])
      · rcases List.mem_cons.mp hw with rfl | hw
        · rw [he] at hf
          obtain rfl := Option.some.inj hf
          exact hle
        · exact hmin w hw f hf
    · obtain ⟨u', d', hpick, hd', hle, hmem, hmin⟩ := ih hQ' hu
      refine ⟨u', d', by simpa [distLt, hu, he, hv, hlt] using hpick, hd', hle, ?_, fun w hw f hf => ?_⟩
      · rcases hmem with rfl | hmem
        · exact Or.inl rfl
        · exact Or.inr (by simp [hmem])
      · rcases List.mem_cons.mp hw with rfl | hw
        · rw [he] at hf
          obtain rfl := Option.some.inj hf
          omega
        · exact hmin w hw f hf

omit [DecidableEq α] in
/-- A queue of unvisited vertices has one at the smallest distance. -/
lemma pickVertex_min {Q : List α} (hQ : ∀ v ∈ Q, visited v = false ∧ ∃ d, dist v = some d) (hne : Q ≠ []) :
    ∃ u d, pickVertex dist visited Q none = some u ∧ dist u = some d ∧ u ∈ Q ∧
      ∀ v ∈ Q, ∀ e, dist v = some e → d ≤ e := by
  obtain ⟨v, Q, rfl⟩ := List.exists_cons_of_ne_nil hne
  obtain ⟨hv, e, he⟩ := hQ v (by simp)
  have hQ' : ∀ w ∈ Q, visited w = false ∧ ∃ d, dist w = some d := fun w hw => hQ w (by simp [hw])
  obtain ⟨u, d, hpick, hd, hle, hmem, hmin⟩ := pickVertex_from hQ' he
  refine ⟨u, d, by simpa [pickVertex, hv] using hpick, hd, ?_, fun w hw f hf => ?_⟩
  · rcases hmem with rfl | hmem
    · simp
    · simp [hmem]
  · rcases List.mem_cons.mp hw with rfl | hw
    · rw [he] at hf
      obtain rfl := Option.some.inj hf
      exact hle
    · exact hmin w hw f hf

end Pick

/-- Relaxing appends the neighbors that have no distance yet, when no other distance shrinks. -/
lemma relaxNeighbors_spec {visited : α → Bool} {alt : Nat} {vs : List α} (dist : α → Option Nat) (Q : List α)
    (hvis : ∀ v, visited v = true → dist v ≠ none)
    (hle : ∀ v ∈ vs, visited v = false → ∀ d, dist v = some d → d ≤ alt) :
    ∃ new, relaxNeighbors visited alt vs dist Q =
        (fun v => if v ∈ new then some alt else dist v, Q ++ new) ∧ new.Nodup ∧
      ∀ v, v ∈ new ↔ v ∈ vs ∧ dist v = none := by
  induction vs generalizing dist Q with
  | nil => exact ⟨[], by simp [relaxNeighbors], by simp, by simp⟩
  | cons v vs ih =>
    rw [relaxNeighbors]
    cases hd : dist v with
    | none =>
      have hv : visited v = false := by
        by_contra h
        exact hvis v (by simpa using h) hd
      obtain ⟨new, hrun, hnodup, hmem⟩ := ih (Function.update dist v (some alt)) (Q ++ [v])
        (fun w hw => by
          by_cases hwv : w = v
          · simp [hwv]
          · simpa [hwv] using hvis w hw)
        (fun w hw hwvis d hwd => by
          by_cases hwv : w = v
          · subst hwv
            simp only [Function.update_self, Option.some.injEq] at hwd
            omega
          · exact hle w (by simp [hw]) hwvis d (by simpa [hwv] using hwd))
      have hvnew : v ∉ new := fun h => by simpa using ((hmem v).mp h).2
      refine ⟨v :: new, ?_, List.nodup_cons.mpr ⟨hvnew, hnodup⟩, fun w => ?_⟩
      · simp only [hv, Bool.not_false, Bool.and_self, if_true, hrun, List.append_assoc, List.singleton_append,
          Prod.mk.injEq, and_true]
        funext w
        by_cases hwv : w = v
        · simp [hwv, hvnew]
        · by_cases hw : w ∈ new <;> simp [hwv, hw]
      · rw [List.mem_cons, hmem]
        by_cases hwv : w = v
        · simp [hwv, hd]
        · simp [hwv]
    | some d =>
      have hskip : (!visited v && decide (alt < d)) = false := by
        cases hv : visited v with
        | true => rfl
        | false =>
          have := hle v (by simp) hv d hd
          simp [this]
      obtain ⟨new, hrun, hnodup, hmem⟩ := ih dist Q hvis fun w hw => hle w (by simp [hw])
      refine ⟨new, by simp [hskip, hrun], hnodup, fun w => ?_⟩
      rw [hmem, List.mem_cons]
      by_cases hwv : w = v
      · simp [hwv, hd]
      · simp [hwv]

section Search

variable {neighbors : α → List α} {source : α}

/-- Between two rounds: the queue holds the unvisited vertices with a distance, all of them
within one hop of each other, and no visited vertex is farther away. -/
structure SearchInv (neighbors : α → List α) (source : α) (dist : α → Option Nat) (visited : α → Bool)
    (Q : List α) : Prop where
  nodup : Q.Nodup
  mem_iff : ∀ v, v ∈ Q ↔ dist v ≠ none ∧ visited v = false
  visited_dist : ∀ v, visited v = true → dist v ≠ none
  walk : ∀ v d, dist v = some d → Walk (fun v w => w ∈ neighbors v) source d v
  relaxed : ∀ u d, visited u = true → dist u = some d → ∀ w ∈ neighbors u, ∃ e ≤ d + 1, dist w = some e
  near : ∃ m, (∀ v ∈ Q, ∀ d, dist v = some d → m ≤ d ∧ d ≤ m + 1) ∧
    ∀ v d, visited v = true → dist v = some d → d ≤ m
  start : dist source = some 0

lemma searchInv_init : SearchInv neighbors source (Function.update (fun _ => none) source (some 0))
    (fun _ => false) [source] := by
  have hdist : ∀ v d, Function.update (fun _ => none) source (some 0) v = some d → v = source ∧ d = 0 := by
    intro v d h
    by_cases hv : v = source
    · subst hv
      simp only [Function.update_self, Option.some.injEq] at h
      exact ⟨rfl, h.symm⟩
    · simp [hv] at h
  refine ⟨List.nodup_singleton _, fun v => ?_, by simp, fun v d h => ?_, by simp,
    ⟨0, fun v _ d h => ?_, by simp⟩, by simp⟩
  · by_cases hv : v = source <;> simp [hv]
  · obtain ⟨rfl, rfl⟩ := hdist v d h
    exact .zero
  · obtain ⟨-, rfl⟩ := hdist v d h
    omega

/-- A vertex of the queue at the smallest distance `d`: no other is farther than one hop behind it, and the visited
ones are not behind it. -/
structure Picked (neighbors : α → List α) (source : α) (dist : α → Option Nat) (visited : α → Bool) (Q : List α)
    (u : α) (d : Nat) : Prop where
  inv : SearchInv neighbors source dist visited Q
  mem : u ∈ Q
  dist_eq : dist u = some d
  queue : ∀ v ∈ Q, ∀ e, dist v = some e → d ≤ e ∧ e ≤ d + 1
  visited : ∀ v e, visited v = true → dist v = some e → e ≤ d

omit [DecidableEq α] in
lemma SearchInv.pick {dist : α → Option Nat} {visited : α → Bool} {Q : List α}
    (I : SearchInv neighbors source dist visited Q) (hne : Q ≠ []) :
    ∃ u d, pickVertex dist visited Q none = some u ∧ Picked neighbors source dist visited Q u d := by
  have hQ : ∀ v ∈ Q, visited v = false ∧ ∃ d, dist v = some d := by
    intro v hv
    obtain ⟨hd, hvis⟩ := (I.mem_iff v).mp hv
    exact ⟨hvis, Option.ne_none_iff_exists'.mp hd⟩
  obtain ⟨u, d, hpick, hd, hu, hmin⟩ := pickVertex_min hQ hne
  obtain ⟨m, hm, hold⟩ := I.near
  have hmd := hm u hu d hd
  refine ⟨u, d, hpick, I, hu, hd, fun v hv e he => ?_, fun v e hv he => ?_⟩
  · have hle := hm v hv e he
    exact ⟨hmin v hv e he, by omega⟩
  · have hle := hold v e hv he
    omega

namespace Picked

variable {dist : α → Option Nat} {visited : α → Bool} {Q : List α} {u : α} {d : Nat}
  (P : Picked neighbors source dist visited Q u d)

include P

lemma visited_le {v : α} (hv : Function.update visited u true v = true) : ∃ e ≤ d, dist v = some e := by
  by_cases hvu : v = u
  · exact ⟨d, le_rfl, hvu ▸ P.dist_eq⟩
  · have hold : visited v = true := by simpa [hvu] using hv
    obtain ⟨e, he⟩ := Option.ne_none_iff_exists'.mp (P.inv.visited_dist v hold)
    exact ⟨e, P.visited v e hold he, he⟩

omit [DecidableEq α] in
/-- Every vertex with a distance is visited or in the queue. -/
lemma dist_le {v : α} {e : Nat} (he : dist v = some e) : e ≤ d + 1 := by
  cases hvis : visited v with
  | true =>
    have hle := P.visited v e hvis he
    omega
  | false => exact (P.queue v ((P.inv.mem_iff v).mpr ⟨by simp [he], hvis⟩) e he).2

/-- The queue stays within one hop of `u`. -/
lemma queue_new {new : List α} {v : α} (hv : v ∈ Q.erase u ++ new) {e : Nat}
    (he : (if v ∈ new then some (d + 1) else dist v) = some e) : d ≤ e ∧ e ≤ d + 1 := by
  by_cases hvnew : v ∈ new
  · rw [if_pos hvnew] at he
    have heq := Option.some.inj he
    omega
  · rw [if_neg hvnew] at he
    exact P.queue v (List.mem_of_mem_erase ((List.mem_append.mp hv).resolve_right hvnew)) e he

section New

variable {new : List α} (hnew : ∀ v, v ∈ new ↔ v ∈ neighbors u ∧ dist v = none)

include hnew

omit P in
lemma dist_old {v : α} {e : Nat} (he : dist v = some e) : (if v ∈ new then some (d + 1) else dist v) = some e := by
  have hv : v ∉ new := fun h => by simp [((hnew v).mp h).2] at he
  rw [if_neg hv, he]

lemma nodup_queue (hnodup : new.Nodup) : (Q.erase u ++ new).Nodup := by
  refine List.nodup_append.mpr ⟨P.inv.nodup.erase u, hnodup, fun v hv w hw => ?_⟩
  rintro rfl
  have hvQ := (P.inv.mem_iff v).mp (List.mem_of_mem_erase hv)
  exact hvQ.1 ((hnew v).mp hw).2

/-- The new queue holds the unvisited vertices with a distance. -/
lemma mem_queue (v : α) : v ∈ Q.erase u ++ new ↔
    (if v ∈ new then some (d + 1) else dist v) ≠ none ∧ Function.update visited u true v = false := by
  rw [List.mem_append, P.inv.nodup.mem_erase_iff, P.inv.mem_iff]
  by_cases hvu : v = u
  · subst hvu
    have hunew : v ∉ new := fun h => by
      rw [hnew, P.dist_eq] at h
      simp at h
    simp [hunew]
  · by_cases hv : v ∈ new
    · have hvis : visited v = false := by
        by_contra h
        exact P.inv.visited_dist v (by simpa using h) ((hnew v).mp hv).2
      simp [hv, hvu, hvis]
    · simp [hv, hvu]

lemma walk_new {v : α} {e : Nat} (he : (if v ∈ new then some (d + 1) else dist v) = some e) :
    Walk (fun v w => w ∈ neighbors v) source e v := by
  by_cases hv : v ∈ new
  · rw [if_pos hv] at he
    obtain rfl := Option.some.inj he
    exact .step (P.inv.walk u d P.dist_eq) ((hnew v).mp hv).1
  · rw [if_neg hv] at he
    exact P.inv.walk v e he

/-- The neighbors of `u` have a distance now. -/
lemma relaxed_new {w : α} (hw : w ∈ neighbors u) :
    ∃ e ≤ d + 1, (if w ∈ new then some (d + 1) else dist w) = some e := by
  by_cases hdw : dist w = none
  · exact ⟨d + 1, le_rfl, if_pos ((hnew w).mpr ⟨hw, hdw⟩)⟩
  · obtain ⟨e, he⟩ := Option.ne_none_iff_exists'.mp hdw
    exact ⟨e, P.dist_le he, dist_old hnew he⟩

end New

end Picked

/-- A round visits the picked vertex and keeps the invariant. -/
lemma searchInv_round {dist : α → Option Nat} {visited : α → Bool} {Q : List α}
    (I : SearchInv neighbors source dist visited Q) (hne : Q ≠ []) :
    ∃ u d, pickVertex dist visited Q none = some u ∧ dist u = some d ∧ u ∈ Q ∧
      ∃ dist' Q', relaxNeighbors (Function.update visited u true) (d + 1) (neighbors u) dist (Q.erase u) =
          (dist', Q') ∧ SearchInv neighbors source dist' (Function.update visited u true) Q' := by
  obtain ⟨u, d, hpick, P⟩ := I.pick hne
  have hvis : ∀ v, Function.update visited u true v = true → dist v ≠ none := by
    intro v hv
    obtain ⟨e, -, he⟩ := P.visited_le hv
    simp [he]
  have hle : ∀ v ∈ neighbors u, Function.update visited u true v = false → ∀ e, dist v = some e → e ≤ d + 1 :=
    fun v _ _ e he => P.dist_le he
  obtain ⟨new, hrelax, hnodup, hnew⟩ := relaxNeighbors_spec dist (Q.erase u) hvis hle
  refine ⟨u, d, hpick, P.dist_eq, P.mem, _, _, hrelax, P.nodup_queue hnew hnodup, P.mem_queue hnew, fun v hv => ?_,
    fun v e => P.walk_new hnew, fun v e hv he w hw => ?_, ⟨d, fun v hv e => P.queue_new hv, fun v e hv he => ?_⟩,
    Picked.dist_old hnew I.start⟩
  · obtain ⟨e, -, he⟩ := P.visited_le hv
    rw [Picked.dist_old hnew he]
    simp
  · by_cases hvu : v = u
    · subst hvu
      obtain rfl := Option.some.inj ((Picked.dist_old hnew P.dist_eq).symm.trans he)
      exact P.relaxed_new hnew hw
    · obtain ⟨f, -, hf⟩ := P.visited_le hv
      obtain rfl := Option.some.inj ((Picked.dist_old hnew hf).symm.trans he)
      obtain ⟨g, hg, hdw⟩ := I.relaxed v f (by simpa [hvu] using hv) hf w hw
      exact ⟨g, hg, Picked.dist_old hnew hdw⟩
  · obtain ⟨f, hf, hdv⟩ := P.visited_le hv
    obtain rfl := Option.some.inj ((Picked.dist_old hnew hdv).symm.trans he)
    exact hf

omit [DecidableEq α] in
lemma searchInv_end {dist : α → Option Nat} {visited : α → Bool}
    (I : SearchInv neighbors source dist visited []) (v : α) (d : Nat) :
    dist v = some d ↔ IsDist (fun v w => w ∈ neighbors v) source v d := by
  have hvis : ∀ v, dist v ≠ none → visited v = true := by
    intro v hv
    by_contra h
    have hmem := (I.mem_iff v).mpr ⟨hv, by simpa using h⟩
    cases hmem
  have hreach : ∀ n v, Walk (fun v w => w ∈ neighbors v) source n v → ∃ e ≤ n, dist v = some e := by
    intro n v hw
    induction hw with
    | zero => exact ⟨0, le_rfl, I.start⟩
    | step _ hstep ih =>
      obtain ⟨e, he, hdist⟩ := ih
      obtain ⟨f, hf, hdist'⟩ := I.relaxed _ e (hvis _ (by simp [hdist])) hdist _ hstep
      exact ⟨f, by omega, hdist'⟩
  have hdist : ∀ d, dist v = some d → IsDist (fun v w => w ∈ neighbors v) source v d := by
    intro d hd
    refine ⟨I.walk v d hd, fun n hn => ?_⟩
    obtain ⟨e, he, hdist⟩ := hreach n v hn
    rw [hd] at hdist
    have := Option.some.inj hdist
    omega
  constructor
  · exact hdist d
  · intro hd
    obtain ⟨e, -, he⟩ := hreach d v hd.1
    rw [he, isDist_unique (hdist e he) hd]

lemma dijkstraLoop_spec (U : Finset α) (hU : ∀ v ∈ U, ∀ w ∈ neighbors v, w ∈ U) (hsource : source ∈ U)
    {fuel : Nat} {dist : α → Option Nat} {visited : α → Bool} {Q : List α}
    (I : SearchInv neighbors source dist visited Q) (hfuel : (U.filter fun v => visited v = false).card < fuel) :
    ∃ dist', dijkstraLoop neighbors fuel dist visited Q = some dist' ∧
      ∀ v d, dist' v = some d ↔ IsDist (fun v w => w ∈ neighbors v) source v d := by
  induction fuel generalizing dist visited Q with
  | zero => omega
  | succ fuel ih =>
    cases Q with
    | nil => exact ⟨dist, rfl, searchInv_end I⟩
    | cons v Q =>
      obtain ⟨u, d, hpick, hd, hu, dist', Q', hrelax, I'⟩ := searchInv_round I (by simp)
      have hwalk : ∀ n v, Walk (fun v w => w ∈ neighbors v) source n v → v ∈ U := by
        intro n v hw
        induction hw with
        | zero => exact hsource
        | step _ hstep ih => exact hU _ ih _ hstep
      have hcard : (U.filter fun v => Function.update visited u true v = false).card <
          (U.filter fun v => visited v = false).card := by
        apply Finset.card_lt_card
        rw [Finset.ssubset_iff_of_subset]
        · refine ⟨u, Finset.mem_filter.mpr ⟨hwalk d u (I.walk u d hd), ((I.mem_iff u).mp hu).2⟩, ?_⟩
          simp
        · intro w hw
          obtain ⟨hwU, hwvis⟩ := Finset.mem_filter.mp hw
          by_cases hwu : w = u
          · simp [hwu] at hwvis
          · exact Finset.mem_filter.mpr ⟨hwU, by simpa [hwu] using hwvis⟩
      obtain ⟨dist'', hrun, hspec⟩ := ih I' (by omega)
      refine ⟨dist'', ?_, hspec⟩
      simp only [dijkstraLoop, hpick, Option.bind_eq_bind, Option.bind_some, distSucc, hd, hrelax]
      exact hrun

/-- The search ends and its keys are the reachable vertices with their hop distances. -/
theorem dijkstra_spec (U : Finset α) (hU : ∀ v ∈ U, ∀ w ∈ neighbors v, w ∈ U) (hsource : source ∈ U)
    {vertices : Nat} (hvertices : U.card ≤ vertices) :
    ∃ dist, dijkstra neighbors vertices source = some dist ∧
      ∀ v d, dist v = some d ↔ IsDist (fun v w => w ∈ neighbors v) source v d := by
  refine dijkstraLoop_spec U hU hsource searchInv_init (Nat.lt_succ_of_le ?_)
  exact (Finset.card_le_card (Finset.filter_subset _ _)).trans hvertices

end Search

end VideoCDN.Reference
