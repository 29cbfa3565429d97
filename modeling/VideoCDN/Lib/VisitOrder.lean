import VideoCDN.Lib.HopGraph

/-!
# The order of a breadth-first visit

A visit keeps the nodes it took out of its queue and looks the others up in the queue itself. It starts with
the successors of the source in the queue. It takes out every other reachable node, nearer ones first.
-/

namespace HopGraph

variable {α : Type*} [DecidableEq α]

/-- The successors that were not taken out before and do not wait yet are queued. -/
def addUnseen (visited : List α) : List α → List α → List α
  | [], queue => queue
  | w :: ws, queue => addUnseen visited ws (if w ∈ visited ∨ w ∈ queue then queue else queue ++ [w])

/-- The nodes in the order they are taken out: `none` out of fuel. -/
def visitLoop (succ : α → List α) : Nat → List α → List α → Option (List α)
  | 0, _, _ => none
  | _ + 1, _, [] => some []
  | fuel + 1, visited, v :: queue =>
    (visitLoop succ fuel (v :: visited) (addUnseen (v :: visited) (succ v) queue)).map (v :: ·)

/-- The marks of a search are the nodes that were taken out or wait. -/
def Seen (visited queue : List α) (seen : α → Bool) : Prop := ∀ x, seen x = true ↔ x ∈ visited ∨ x ∈ queue

/-- Queueing the successors is the scan of the search without a target. -/
lemma scan_addUnseen {visited queue : List α} {seen : α → Bool} (h : Seen visited queue seen) (ws : List α) :
    ∃ seen', scan (fun _ => false) ws queue seen = .inr (addUnseen visited ws queue, seen') ∧
      Seen visited (addUnseen visited ws queue) seen' := by
  induction ws generalizing queue seen with
  | nil => exact ⟨seen, rfl, h⟩
  | cons w ws ih =>
    rw [scan, addUnseen]
    by_cases hw : w ∈ visited ∨ w ∈ queue
    · rw [if_pos ((h w).mpr hw), if_pos hw]
      exact ih h
    · have hunseen : ¬seen w = true := fun hseen => hw ((h w).mp hseen)
      rw [if_neg hunseen, if_neg Bool.false_ne_true, if_neg hw]
      apply ih
      intro x
      by_cases hx : x = w
      · simp [hx]
      · rw [Function.update_of_ne hx, h x]
        simp [hx]

variable {succ : α → List α} {src : α}

/-- The state of a visit: `cur` is the rest of level `k`, whose nodes are at distance `k`. -/
structure VisitInv (succ : α → List α) (src : α) (k : Nat) (cur nxt : List α) (seen : α → Bool) : Prop where
  level : LevelInv succ (fun _ => false) src k cur nxt seen
  dist : ∀ v ∈ cur, IsDist (fun v w => w ∈ succ v) src v k

omit [DecidableEq α] in
lemma visitInv_start (hsrc : src ∉ succ src) {seen : α → Bool} (hseen : Seen [src] (succ src) seen) :
    VisitInv succ src 1 (succ src) [] seen := by
  have hmem : ∀ v, seen v = true ↔ Ball (fun v w => w ∈ succ v) src 1 v := by
    intro v
    rw [hseen, List.mem_singleton]
    constructor
    · rintro (rfl | hv)
      · exact ball_start 1
      · exact ball_step (ball_start 0) hv
    · intro hball
      rcases ball_succ hball with ⟨n, hn, hwalk⟩ | ⟨u, ⟨n, hn, hwalk⟩, huv⟩
      · obtain rfl : n = 0 := Nat.le_zero.mp hn
        cases hwalk
        exact Or.inl rfl
      · obtain rfl : n = 0 := Nat.le_zero.mp hn
        cases hwalk
        exact Or.inr huv
  refine ⟨⟨fun v hv => (hmem v).mpr hv, fun v hv => ball_mono (by omega) ((hmem v).mp hv),
    fun v hv => ball_step (ball_start 0) hv, fun v => ?_, fun v hv hcur _ w hw => ?_, fun _ _ => rfl⟩, fun v hv => ?_⟩
  · rw [hmem]
    simp
  · rcases (hseen v).mp hv with hv | hv
    · rw [List.mem_singleton.mp hv] at hw
      exact (hseen w).mpr (Or.inr hw)
    · exact absurd hv hcur
  · refine ⟨.step .zero hv, fun n hwalk => ?_⟩
    cases hwalk with
    | zero => exact absurd hv hsrc
    | step _ _ => exact Nat.succ_le_succ (Nat.zero_le _)

omit [DecidableEq α] in
lemma VisitInv.shift {k : Nat} {nxt : List α} {seen : α → Bool} (I : VisitInv succ src k [] nxt seen) :
    VisitInv succ src (k + 1) nxt [] seen := by
  refine ⟨levelInv_shift I.level, fun v hv => ?_⟩
  obtain ⟨hseen, hfar⟩ := (I.level.nxt_iff v).mp hv
  have hmin : ∀ n, Walk (fun v w => w ∈ succ v) src n v → k + 1 ≤ n := by
    intro n hwalk
    by_contra hlt
    exact hfar ⟨n, by omega, hwalk⟩
  obtain ⟨n, hn, hwalk⟩ := I.level.bound v hseen
  obtain rfl : n = k + 1 := Nat.le_antisymm hn (hmin n hwalk)
  exact ⟨hwalk, hmin⟩

/-- Nearer nodes come first. -/
def NearerFirst (adj : α → α → Prop) (src : α) (order : List α) : Prop :=
  order.Pairwise fun v w => ∀ d e, IsDist adj src v d → IsDist adj src w e → d ≤ e

/-- What is left to be visited from a state: the queue and what was never seen, at distance `k` or more. -/
structure VisitRest (succ : α → List α) (src : α) (k : Nat) (queue : List α) (seen : α → Bool) (order : List α) :
    Prop where
  mem : ∀ x, x ∈ order ↔ x ∈ queue ∨ (∃ n, Walk (fun v w => w ∈ succ v) src n x) ∧ seen x = false
  far : ∀ x ∈ order, ∃ d, k ≤ d ∧ IsDist (fun v w => w ∈ succ v) src x d
  nearerFirst : NearerFirst (fun v w => w ∈ succ v) src order
  nodup : queue.Nodup → order.Nodup

omit [DecidableEq α] in
lemma VisitRest.mono {k k' : Nat} (hk : k ≤ k') {queue order : List α} {seen : α → Bool}
    (h : VisitRest succ src k' queue seen order) : VisitRest succ src k queue seen order := by
  refine ⟨h.mem, fun x hx => ?_, h.nearerFirst, h.nodup⟩
  obtain ⟨d, hd, hdist⟩ := h.far x hx
  exact ⟨d, hk.trans hd, hdist⟩

omit [DecidableEq α] in
/-- The step: a node of level `k` goes before what is left after its successors were queued. -/
lemma VisitRest.cons {k : Nat} {v : α} {cur nxt new order : List α} {seen seen' : α → Bool}
    (I : VisitInv succ src k (v :: cur) nxt seen) (hqueued : ∀ x ∈ v :: cur ++ nxt, seen x = true)
    (hnodup : new.Nodup) (hnew : ∀ x ∈ new, seen x = false ∧ x ∈ succ v)
    (hseen' : ∀ x, seen' x = true ↔ seen x = true ∨ x ∈ new)
    (h : VisitRest succ src k (cur ++ (nxt ++ new)) seen' order) :
    VisitRest succ src k (v :: cur ++ nxt) seen (v :: order) := by
  have hv := I.dist v List.mem_cons_self
  have hfresh : ∀ x ∈ new, x ∉ v :: cur ++ nxt := by
    intro x hx hmem
    have hunseen := (hnew x hx).1
    rw [hqueued x hmem] at hunseen
    cases hunseen
  have hunseen : ∀ x, seen' x = false ↔ seen x = false ∧ x ∉ new := by
    intro x
    rw [← Bool.not_eq_true, hseen', not_or, Bool.not_eq_true]
  refine ⟨fun x => ?_, fun x hx => ?_, List.pairwise_cons.mpr ⟨fun w hw d e hd he => ?_, h.nearerFirst⟩,
    fun hqueue => ?_⟩
  · rw [List.mem_cons, h.mem, hunseen]
    constructor
    · rintro (rfl | hx | ⟨hwalk, hx, -⟩)
      · exact Or.inl List.mem_cons_self
      · rw [← List.append_assoc] at hx
        rcases List.mem_append.mp hx with hx | hx
        · exact Or.inl (List.mem_cons_of_mem v hx)
        · obtain ⟨hx', hmem⟩ := hnew x hx
          exact Or.inr ⟨⟨k + 1, .step hv.1 hmem⟩, hx'⟩
      · exact Or.inr ⟨hwalk, hx⟩
    · rintro (hx | ⟨hwalk, hx⟩)
      · rw [List.cons_append, List.mem_cons] at hx
        rcases hx with rfl | hx
        · exact Or.inl rfl
        · exact Or.inr (Or.inl (by rw [← List.append_assoc]; exact List.mem_append_left new hx))
      · by_cases hmem : x ∈ new
        · exact Or.inr (Or.inl (List.mem_append_right cur (List.mem_append_right nxt hmem)))
        · exact Or.inr (Or.inr ⟨hwalk, hx, hmem⟩)
  · rcases List.mem_cons.mp hx with rfl | hx
    · exact ⟨k, le_rfl, hv⟩
    · exact h.far x hx
  · obtain ⟨d', hd', hdist⟩ := h.far w hw
    rw [isDist_unique hd hv, isDist_unique he hdist]
    exact hd'
  · obtain ⟨hvq, hrest⟩ := List.nodup_cons.mp hqueue
    refine List.nodup_cons.mpr ⟨fun hmem => ?_, h.nodup ?_⟩
    · rcases (h.mem v).mp hmem with hmem | ⟨-, hv'⟩
      · rw [← List.append_assoc] at hmem
        rcases List.mem_append.mp hmem with hmem | hmem
        · exact hvq hmem
        · exact hfresh v hmem List.mem_cons_self
      · have hseen := ((hunseen v).mp hv').1
        rw [hqueued v List.mem_cons_self] at hseen
        cases hseen
    · rw [← List.append_assoc]
      refine List.nodup_append.mpr ⟨hrest, hnodup, fun a ha b hb hab => ?_⟩
      exact hfresh b hb (hab ▸ List.mem_cons_of_mem v ha)

/-- The run: what a visit takes out from a state on. -/
lemma visitLoop_rest {fuel k : Nat} {cur nxt visited order : List α} {seen : α → Bool}
    (I : VisitInv succ src k cur nxt seen) (hseen : Seen visited (cur ++ nxt) seen)
    (h : visitLoop succ fuel visited (cur ++ nxt) = some order) : VisitRest succ src k (cur ++ nxt) seen order := by
  induction fuel generalizing k cur nxt visited order seen with
  | zero => cases h
  | succ fuel ih =>
    -- a level is never started empty unless the visit is over
    obtain ⟨k', cur, nxt, I, hk, hsplit, hne⟩ : ∃ k' cur' nxt', VisitInv succ src k' cur' nxt' seen ∧ k ≤ k' ∧
        cur' ++ nxt' = cur ++ nxt ∧ (cur' = [] → nxt' = []) := by
      cases cur with
      | nil => exact ⟨k + 1, nxt, [], I.shift, Nat.le_succ k, by simp, fun _ => rfl⟩
      | cons v cur => exact ⟨k, v :: cur, nxt, I, le_rfl, rfl, fun hnil => by cases hnil⟩
    rw [← hsplit] at hseen h ⊢
    apply VisitRest.mono hk
    cases cur with
    | nil =>
      obtain rfl := hne rfl
      obtain rfl := Option.some.inj h
      refine ⟨fun x => ?_, by simp, List.Pairwise.nil, fun _ => List.nodup_nil⟩
      simp only [List.append_nil, List.not_mem_nil, false_or, false_iff, not_and, Bool.not_eq_false]
      rintro ⟨n, hwalk⟩
      induction hwalk with
      | zero => exact I.level.ball src (ball_start k')
      | step _ hvw ihw => exact I.level.done _ ihw (by simp) (by simp) _ hvw
    | cons v cur =>
      rw [List.cons_append, visitLoop] at h
      obtain ⟨order, hrun, rfl⟩ := Option.map_eq_some_iff.mp h
      have hvisited : Seen (v :: visited) (cur ++ nxt) seen := by
        intro x
        rw [hseen x, List.cons_append, List.mem_cons, List.mem_cons]
        tauto
      obtain ⟨seen', hscan, hseen'⟩ := scan_addUnseen hvisited (succ v)
      obtain ⟨new, hqueue, hnodup, hnew, hmarks, hlevel⟩ := levelInv_scan I.level hscan
      rw [hqueue] at hrun hseen'
      have I' : VisitInv succ src k' cur (nxt ++ new) seen' :=
        ⟨hlevel, fun x hx => I.dist x (List.mem_cons_of_mem v hx)⟩
      exact VisitRest.cons I (fun x hx => (hseen x).mpr (Or.inr hx)) hnodup hnew hmarks (ih I' hseen' hrun)

/-- A visit ends when the search without a target does. -/
lemma visitLoop_isSome {fuel : Nat} {visited queue : List α} {seen : α → Bool} (hseen : Seen visited queue seen)
    (h : (bfsLoop succ (fun _ => false) fuel queue seen).isSome) : (visitLoop succ fuel visited queue).isSome := by
  induction fuel generalizing visited queue seen with
  | zero => cases h
  | succ fuel ih =>
    cases queue with
    | nil => rfl
    | cons v queue =>
      have hvisited : Seen (v :: visited) queue seen := by
        intro x
        rw [hseen x, List.mem_cons, List.mem_cons]
        tauto
      obtain ⟨seen', hscan, hseen'⟩ := scan_addUnseen hvisited (succ v)
      rw [bfsLoop, hscan] at h
      rw [visitLoop, Option.isSome_map]
      exact ih hseen' h

/-- From the successors of the source on, every other node that is reachable is taken out, nearer ones first,
and once where no successor of the source is listed twice. -/
theorem visit_correct (U : Finset α) (hU : ∀ v ∈ U, ∀ w ∈ succ v, w ∈ U) (hsrcU : src ∈ U) (hsrc : src ∉ succ src)
    {fuel : Nat} (hfuel : U.card + (succ src).length < fuel) :
    ∃ order, visitLoop succ fuel [src] (succ src) = some order ∧
      (∀ x, x ∈ order ↔ (∃ n, Walk (fun v w => w ∈ succ v) src n x) ∧ x ≠ src) ∧
      NearerFirst (fun v w => w ∈ succ v) src order ∧ ((succ src).Nodup → order.Nodup) := by
  obtain ⟨seen, hseen⟩ : ∃ seen, Seen [src] (succ src) seen :=
    ⟨fun x => decide (x ∈ [src] ∨ x ∈ succ src), fun x => decide_eq_true_iff⟩
  have hcard := Finset.card_le_card (Finset.filter_subset (fun v => seen v = false) U)
  have hends : (bfsLoop succ (fun _ => false) fuel (succ src) seen).isSome :=
    bfsLoop_isSome U hU (hU src hsrcU) (by omega)
  obtain ⟨order, horder⟩ := Option.isSome_iff_exists.mp (visitLoop_isSome hseen hends)
  have hrest := visitLoop_rest (visitInv_start hsrc hseen) (by simpa using hseen)
    (by simpa using horder)
  rw [List.append_nil] at hrest
  refine ⟨order, horder, fun x => ?_, hrest.nearerFirst, hrest.nodup⟩
  rw [hrest.mem, ← Bool.not_eq_true, hseen, List.mem_singleton]
  constructor
  · rintro (hx | ⟨hwalk, hx⟩)
    · refine ⟨⟨1, .step .zero hx⟩, ?_⟩
      rintro rfl
      exact hsrc hx
    · exact ⟨hwalk, fun heq => hx (Or.inl heq)⟩
  · rintro ⟨hwalk, hx⟩
    by_cases hmem : x ∈ succ src
    · exact Or.inl hmem
    · refine Or.inr ⟨hwalk, ?_⟩
      rintro (heq | hmem')
      · exact hx heq
      · exact hmem hmem'

end HopGraph
