import Mathlib.Data.Finset.Card
import Mathlib.Order.Basic
import Mathlib.Data.Fintype.Basic

/-!
# Hop distance and breadth-first search

Walks of a relation counted by their steps, and a breadth-first search that stops at the
first target it sees. The search returns a target at minimal hop distance, and nothing
exactly when no target is reachable.
-/

namespace HopGraph

section Distance

variable {α : Type*} (adj : α → α → Prop) (u : α)

/-- `v` is reached from `u` in `n` steps. -/
inductive Walk : Nat → α → Prop
  | zero : Walk 0 u
  | step {n : Nat} {v w : α} (h : Walk n v) (hvw : adj v w) : Walk (n + 1) w

/-- `v` is reached from `u` in at most `k` steps. -/
def Ball (k : Nat) (v : α) : Prop := ∃ n ≤ k, Walk adj u n v

/-- The hop distance of `v` from `u` is `d`. -/
def IsDist (v : α) (d : Nat) : Prop := Walk adj u d v ∧ ∀ n, Walk adj u n v → d ≤ n

/-- `t` is a reachable target and no target is at a smaller hop distance. -/
def IsNearest (target : α → Prop) (t : α) : Prop :=
  target t ∧ ∃ d, IsDist adj u t d ∧ ∀ t', target t' → ∀ n, Walk adj u n t' → d ≤ n

variable {adj u}

lemma ball_mono {k k' : Nat} (h : k ≤ k') {v : α} (hv : Ball adj u k v) : Ball adj u k' v := by
  obtain ⟨n, hn, hw⟩ := hv
  exact ⟨n, hn.trans h, hw⟩

lemma ball_start (k : Nat) : Ball adj u k u := ⟨0, Nat.zero_le k, .zero⟩

lemma ball_step {k : Nat} {v w : α} (hv : Ball adj u k v) (hvw : adj v w) : Ball adj u (k + 1) w := by
  obtain ⟨n, hn, hw⟩ := hv
  exact ⟨n + 1, by omega, .step hw hvw⟩

lemma ball_succ {k : Nat} {w : α} (hw : Ball adj u (k + 1) w) :
    Ball adj u k w ∨ ∃ v, Ball adj u k v ∧ adj v w := by
  obtain ⟨n, hn, hwalk⟩ := hw
  cases hwalk with
  | zero => exact Or.inl (ball_start k)
  | step hv hvw => exact Or.inr ⟨_, ⟨_, by omega, hv⟩, hvw⟩

lemma walk_trans {v w : α} {m n : Nat} (h : Walk adj u m v) (h' : Walk adj v n w) : Walk adj u (m + n) w := by
  induction h' with
  | zero => exact h
  | step _ hvw ih => exact .step ih hvw

/-- Over a symmetric relation a walk can be gone back. -/
lemma walk_symm (hsymm : ∀ v w, adj v w → adj w v) {v : α} {n : Nat} (h : Walk adj u n v) : Walk adj v n u := by
  induction h with
  | zero => exact .zero
  | step _ hvw ih =>
    have hback := walk_trans (.step .zero (hsymm _ _ hvw)) ih
    rwa [Nat.add_comm] at hback

lemma isDist_unique {v : α} {d d' : Nat} (h : IsDist adj u v d) (h' : IsDist adj u v d') : d = d' :=
  Nat.le_antisymm (h.2 _ h'.1) (h'.2 _ h.1)

lemma exists_isDist {v : α} (h : ∃ n, Walk adj u n v) : ∃ d, IsDist adj u v d := by
  classical
  exact ⟨Nat.find h, Nat.find_spec h, fun n hn => Nat.find_min' h hn⟩

/-- Two nearest targets are at the same distance. -/
theorem isNearest_same_dist {target : α → Prop} {s t : α} (hs : IsNearest adj u target s)
    (ht : IsNearest adj u target t) : ∃ d, IsDist adj u s d ∧ IsDist adj u t d := by
  obtain ⟨hs, d, hd, hdmin⟩ := hs
  obtain ⟨ht, e, he, hemin⟩ := ht
  obtain rfl : d = e := Nat.le_antisymm (hdmin t ht e he.1) (hemin s hs d hd.1)
  exact ⟨d, hd, he⟩

lemma isNearest_congr {adj' : α → α → Prop} {target target' : α → Prop}
    (hwalk : ∀ n v, Walk adj u n v ↔ Walk adj' u n v) (htarget : ∀ v, target v ↔ target' v) {t : α} :
    IsNearest adj u target t ↔ IsNearest adj' u target' t := by
  unfold IsNearest IsDist
  simp only [hwalk, htarget]

end Distance

section Cover

variable {α β : Type*} {P : α → Prop} {f : α → β} {adj : α → α → Prop} {adj' : β → β → Prop} {u : α}

/-- `f` takes the steps from the points of a closed set onto the steps from their images. -/
structure Covers (P : α → Prop) (f : α → β) (adj : α → α → Prop) (adj' : β → β → Prop) : Prop where
  step : ∀ v w, P v → adj v w → P w ∧ adj' (f v) (f w)
  lift : ∀ v y, P v → adj' (f v) y → ∃ w, adj v w ∧ f w = y

lemma Covers.walk (h : Covers P f adj adj') (hu : P u) {n : Nat} {v : α} (hw : Walk adj u n v) :
    P v ∧ Walk adj' (f u) n (f v) := by
  induction hw with
  | zero => exact ⟨hu, .zero⟩
  | step _ hvw ih =>
    obtain ⟨hP, hstep⟩ := h.step _ _ ih.1 hvw
    exact ⟨hP, .step ih.2 hstep⟩

lemma Covers.walk_lift (h : Covers P f adj adj') (hu : P u) {n : Nat} {y : β} (hw : Walk adj' (f u) n y) :
    ∃ v, Walk adj u n v ∧ f v = y := by
  induction hw with
  | zero => exact ⟨u, .zero, rfl⟩
  | step _ hstep ih =>
    obtain ⟨v, hv, rfl⟩ := ih
    obtain ⟨w, hvw, rfl⟩ := h.lift _ _ (h.walk hu hv).1 hstep
    exact ⟨w, .step hv hvw, rfl⟩

/-- Walks stay in a closed set, so only the steps from its points matter. -/
lemma walk_congr {adj₂ : α → α → Prop} (P : α → Prop) (hu : P u) (hP : ∀ v w, P v → adj v w → P w)
    (h : ∀ v w, P v → (adj v w ↔ adj₂ v w)) {n : Nat} {v : α} : Walk adj u n v ↔ Walk adj₂ u n v := by
  have hcovers : Covers P id adj adj₂ :=
    ⟨fun v w hv hvw => ⟨hP v w hv hvw, (h v w hv).mp hvw⟩, fun v w hv hvw => ⟨w, (h v w hv).mpr hvw, rfl⟩⟩
  constructor
  · intro hw
    exact (hcovers.walk hu hw).2
  · intro hw
    obtain ⟨w, hw', rfl⟩ := hcovers.walk_lift hu hw
    exact hw'

/-- Nearest targets are mapped to nearest targets. -/
theorem Covers.isNearest (h : Covers P f adj adj') (hu : P u) {target : α → Prop} {target' : β → Prop}
    (htarget : ∀ v, P v → (target v ↔ target' (f v))) {t : α} (ht : IsNearest adj u target t) :
    IsNearest adj' (f u) target' (f t) := by
  obtain ⟨htt, d, hd, hmin⟩ := ht
  obtain ⟨hPt, hwalk⟩ := h.walk hu hd.1
  have hfar : ∀ y, target' y → ∀ n, Walk adj' (f u) n y → d ≤ n := by
    intro y hy n hw
    obtain ⟨v, hv, rfl⟩ := h.walk_lift hu hw
    exact hmin v ((htarget v (h.walk hu hv).1).mpr hy) n hv
  have htt' := (htarget t hPt).mp htt
  exact ⟨htt', d, ⟨hwalk, hfar _ htt'⟩, hfar⟩

end Cover

section Search

variable {α : Type*} [DecidableEq α]

/-- Looks at the successors of a node in order: the first unvisited target, or the queue and
the visited nodes after all of them were seen. -/
def scan (target : α → Bool) : List α → List α → (α → Bool) → α ⊕ (List α × (α → Bool))
  | [], queue, visited => .inr (queue, visited)
  | w :: ws, queue, visited =>
    if visited w then scan target ws queue visited
    else if target w then .inl w
    else scan target ws (queue ++ [w]) (Function.update visited w true)

/-- The search loop: `none` out of fuel, else the target found, if any. -/
def bfsLoop (succ : α → List α) (target : α → Bool) : Nat → List α → (α → Bool) → Option (Option α)
  | 0, _, _ => none
  | _ + 1, [], _ => some none
  | fuel + 1, v :: queue, visited =>
    match scan target (succ v) queue visited with
    | .inl w => some (some w)
    | .inr (queue, visited) => bfsLoop succ target fuel queue visited

lemma scan_inl {target : α → Bool} {ws queue : List α} {visited : α → Bool} {w : α}
    (h : scan target ws queue visited = .inl w) : w ∈ ws ∧ target w ∧ visited w = false := by
  induction ws generalizing queue visited with
  | nil => simp [scan] at h
  | cons x ws ih =>
    rw [scan] at h
    by_cases hx : visited x = true
    · rw [if_pos hx] at h
      obtain ⟨hmem, ht, hv⟩ := ih h
      exact ⟨by simp [hmem], ht, hv⟩
    · rw [if_neg hx] at h
      by_cases htx : target x = true
      · rw [if_pos htx] at h
        obtain rfl := Sum.inl.inj h
        exact ⟨by simp, htx, by simpa using hx⟩
      · rw [if_neg htx] at h
        obtain ⟨hmem, ht, hv⟩ := ih h
        refine ⟨by simp [hmem], ht, ?_⟩
        by_cases hwx : w = x
        · simp [hwx] at hv
        · simpa [hwx] using hv

/-- A scan without a target appends the unvisited successors to the queue and marks them. -/
lemma scan_inr {target : α → Bool} {ws queue queue' : List α} {visited visited' : α → Bool}
    (h : scan target ws queue visited = .inr (queue', visited')) :
    ∃ new : List α, queue' = queue ++ new ∧ new.Nodup ∧
      (∀ x, visited' x = true ↔ visited x = true ∨ x ∈ new) ∧
      (∀ x ∈ new, visited x = false ∧ x ∈ ws ∧ target x = false) ∧ ∀ x ∈ ws, visited' x = true := by
  induction ws generalizing queue visited with
  | nil =>
    simp only [scan, Sum.inr.injEq, Prod.mk.injEq] at h
    obtain ⟨rfl, rfl⟩ := h
    exact ⟨[], by simp⟩
  | cons x ws ih =>
    rw [scan] at h
    by_cases hx : visited x = true
    · rw [if_pos hx] at h
      obtain ⟨new, hq, hnd, hv, hnew, hws⟩ := ih h
      refine ⟨new, hq, hnd, hv, fun y hy => ?_, fun y hy => ?_⟩
      · obtain ⟨h1, h2, h3⟩ := hnew y hy
        exact ⟨h1, by simp [h2], h3⟩
      · rcases List.mem_cons.mp hy with rfl | hy
        · exact (hv y).mpr (Or.inl hx)
        · exact hws y hy
    · rw [if_neg hx] at h
      by_cases htx : target x = true
      · simp [htx] at h
      · rw [if_neg htx] at h
        obtain ⟨new, hq, hnd, hv, hnew, hws⟩ := ih h
        have hxnew : x ∉ new := fun hmem => by simpa using (hnew x hmem).1
        have hmark : ∀ y, visited' y = true ↔ visited y = true ∨ y ∈ x :: new := by
          intro y
          rw [hv y]
          by_cases hyx : y = x <;> simp [hyx]
        refine ⟨x :: new, by simp [hq], List.nodup_cons.mpr ⟨hxnew, hnd⟩, hmark, ?_, ?_⟩
        · intro y hy
          rcases List.mem_cons.mp hy with rfl | hy
          · exact ⟨by simpa using hx, by simp, by simpa using htx⟩
          · obtain ⟨h1, h2, h3⟩ := hnew y hy
            have hyx : y ≠ x := fun hyx => hxnew (hyx ▸ hy)
            exact ⟨by simpa [hyx] using h1, by simp [h2], h3⟩
        · intro y hy
          rcases List.mem_cons.mp hy with rfl | hy
          · exact (hmark y).mpr (Or.inr (by simp))
          · exact hws y hy

variable (succ : α → List α) (target : α → Bool) (src : α)

/-- What holds when the queue is `cur ++ nxt`, `cur` the rest of level `k`. -/
structure LevelInv (k : Nat) (cur nxt : List α) (visited : α → Bool) : Prop where
  ball : ∀ v, Ball (fun v w => w ∈ succ v) src k v → visited v = true
  bound : ∀ v, visited v = true → Ball (fun v w => w ∈ succ v) src (k + 1) v
  cur_ball : ∀ v ∈ cur, Ball (fun v w => w ∈ succ v) src k v
  nxt_iff : ∀ v, v ∈ nxt ↔ visited v = true ∧ ¬Ball (fun v w => w ∈ succ v) src k v
  done : ∀ v, visited v = true → v ∉ cur → v ∉ nxt → ∀ w ∈ succ v, visited w = true
  no_target : ∀ v, visited v = true → target v = false

variable {succ target src}

lemma levelInv_init (hsrc : target src = false) :
    LevelInv succ target src 0 [src] [] (Function.update (fun _ => false) src true) := by
  have hzero : ∀ v, Ball (fun v w => w ∈ succ v) src 0 v ↔ v = src := by
    intro v
    constructor
    · rintro ⟨n, hn, hw⟩
      obtain rfl : n = 0 := by omega
      cases hw
      rfl
    · rintro rfl
      exact ball_start 0
  have hvis : ∀ v, Function.update (fun _ => false) src true v = true ↔ v = src := by
    intro v
    by_cases h : v = src <;> simp [h]
  refine ⟨fun v hv => (hvis v).mpr ((hzero v).mp hv), fun v hv => ?_, fun v hv => ?_, fun v => ?_,
    fun v hv hcur => ?_, fun v hv => ?_⟩
  · rw [(hvis v).mp hv]
    exact ball_start 1
  · exact (hzero v).mpr (by simpa using hv)
  · rw [hvis, hzero]
    simp
  · exact absurd ((hvis v).mp hv) (by simpa using hcur)
  · rw [(hvis v).mp hv]
    exact hsrc

omit [DecidableEq α] in
lemma levelInv_shift {k : Nat} {nxt : List α} {visited : α → Bool}
    (I : LevelInv succ target src k [] nxt visited) :
    LevelInv succ target src (k + 1) nxt [] visited := by
  refine ⟨fun v hv => ?_, fun v hv => ball_mono (by omega) (I.bound v hv), fun v hv => ?_, fun v => ?_,
    fun v hv hcur _ => I.done v hv (by simp) hcur, I.no_target⟩
  · rcases ball_succ hv with hv | ⟨w, hw, hwv⟩
    · exact I.ball v hv
    · have hwnxt : w ∉ nxt := fun hmem => ((I.nxt_iff w).mp hmem).2 hw
      exact I.done w (I.ball w hw) (by simp) hwnxt v hwv
  · exact I.bound v ((I.nxt_iff v).mp hv).1
  · have hb := I.bound v
    simp only [List.not_mem_nil, false_iff, not_and, not_not]
    exact hb

lemma levelInv_scan {k : Nat} {v : α} {cur nxt queue' : List α} {visited visited' : α → Bool}
    (I : LevelInv succ target src k (v :: cur) nxt visited)
    (h : scan target (succ v) (cur ++ nxt) visited = .inr (queue', visited')) :
    ∃ new, queue' = cur ++ (nxt ++ new) ∧ new.Nodup ∧ (∀ x ∈ new, visited x = false ∧ x ∈ succ v) ∧
      (∀ x, visited' x = true ↔ visited x = true ∨ x ∈ new) ∧
      LevelInv succ target src k cur (nxt ++ new) visited' := by
  obtain ⟨new, hq, hnd, hvis, hnew, hall⟩ := scan_inr h
  have hvball : Ball (fun v w => w ∈ succ v) src k v := I.cur_ball v (by simp)
  have hfar : ∀ x ∈ new, ¬Ball (fun v w => w ∈ succ v) src k x := by
    intro x hx hball
    have h1 := (hnew x hx).1
    rw [I.ball x hball] at h1
    cases h1
  refine ⟨new, by simpa using hq, hnd, fun x hx => ⟨(hnew x hx).1, (hnew x hx).2.1⟩, hvis, ?_⟩
  refine ⟨fun x hx => (hvis x).mpr (Or.inl (I.ball x hx)), fun x hx => ?_,
    fun x hx => I.cur_ball x (by simp [hx]), fun x => ?_, fun x hx hcur hnxt w hw => ?_, fun x hx => ?_⟩
  · rcases (hvis x).mp hx with hx | hx
    · exact I.bound x hx
    · exact ball_step hvball (hnew x hx).2.1
  · rw [List.mem_append, hvis, I.nxt_iff]
    constructor
    · rintro (⟨hx, hb⟩ | hx)
      · exact ⟨Or.inl hx, hb⟩
      · exact ⟨Or.inr hx, hfar x hx⟩
    · rintro ⟨hx | hx, hb⟩
      · exact Or.inl ⟨hx, hb⟩
      · exact Or.inr hx
  · rw [List.mem_append, not_or] at hnxt
    by_cases hxv : x = v
    · exact hall w (hxv ▸ hw)
    · rcases (hvis x).mp hx with hx | hx
      · exact (hvis w).mpr (Or.inl (I.done x hx (by simp [hxv, hcur]) hnxt.1 w hw))
      · exact absurd hx hnxt.2
  · rcases (hvis x).mp hx with hx | hx
    · exact I.no_target x hx
    · exact (hnew x hx).2.2

/-- A found target is nearest, and finding none means that none is reachable. -/
lemma bfsLoop_spec {fuel k : Nat} {cur nxt : List α} {visited : α → Bool} {r : Option α}
    (I : LevelInv succ target src k cur nxt visited)
    (h : bfsLoop succ target fuel (cur ++ nxt) visited = some r) :
    (∀ t, r = some t → IsNearest (fun v w => w ∈ succ v) src (fun v => target v = true) t) ∧
      (r = none → ∀ n t, Walk (fun v w => w ∈ succ v) src n t → target t = false) := by
  induction fuel generalizing k cur nxt visited with
  | zero => simp [bfsLoop] at h
  | succ fuel ih =>
    -- a level is never started empty unless the search is over
    obtain ⟨k, cur, nxt, I, h, hne⟩ : ∃ k' cur' nxt', LevelInv succ target src k' cur' nxt' visited ∧
        bfsLoop succ target (fuel + 1) (cur' ++ nxt') visited = some r ∧ (cur' = [] → nxt' = []) := by
      cases cur with
      | nil => exact ⟨k + 1, nxt, [], levelInv_shift I, by simpa using h, fun _ => rfl⟩
      | cons v cur => exact ⟨k, v :: cur, nxt, I, h, fun hnil => by cases hnil⟩
    cases cur with
    | nil =>
      obtain rfl := hne rfl
      simp only [List.append_nil, bfsLoop, Option.some.injEq] at h
      subst h
      refine ⟨fun t ht => (by cases ht), fun _ n t hw => ?_⟩
      have hclosed : ∀ n t, Walk (fun v w => w ∈ succ v) src n t → visited t = true := by
        intro n t hw
        induction hw with
        | zero => exact I.ball src (ball_start k)
        | step _ hvw ihw => exact I.done _ ihw (by simp) (by simp) _ hvw
      exact I.no_target t (hclosed n t hw)
    | cons v cur =>
      rw [List.cons_append, bfsLoop] at h
      cases hscan : scan target (succ v) (cur ++ nxt) visited with
      | inl w =>
        rw [hscan] at h
        simp only [Option.some.injEq] at h
        subst h
        refine ⟨fun t ht => ?_, fun hnone => by cases hnone⟩
        obtain rfl := Option.some.inj ht
        obtain ⟨hmem, htw, hunvis⟩ := scan_inl hscan
        have hmin : ∀ t', target t' = true → ∀ n, Walk (fun v w => w ∈ succ v) src n t' → k + 1 ≤ n := by
          intro t' ht' n hw
          by_contra hlt
          have hball := I.ball t' ⟨n, by omega, hw⟩
          rw [I.no_target t' hball] at ht'
          cases ht'
        obtain ⟨n, hn, hwalk⟩ : Ball (fun v w => w ∈ succ v) src (k + 1) w :=
          ball_step (I.cur_ball v (by simp)) hmem
        obtain rfl : n = k + 1 := Nat.le_antisymm hn (hmin w htw n hwalk)
        exact ⟨htw, k + 1, ⟨hwalk, hmin w htw⟩, hmin⟩
      | inr res =>
        obtain ⟨queue', visited'⟩ := res
        rw [hscan] at h
        obtain ⟨new, rfl, -, -, -, I'⟩ := levelInv_scan I hscan
        exact ih I' h

/-- Fuel for the nodes of a finite closed set is enough. -/
lemma bfsLoop_isSome (U : Finset α) (hU : ∀ v ∈ U, ∀ w ∈ succ v, w ∈ U) {fuel : Nat} {queue : List α}
    {visited : α → Bool} (hq : ∀ v ∈ queue, v ∈ U)
    (hfuel : (U.filter fun v => visited v = false).card + queue.length < fuel) :
    (bfsLoop succ target fuel queue visited).isSome := by
  induction fuel generalizing queue visited with
  | zero => omega
  | succ fuel ih =>
    cases queue with
    | nil => simp [bfsLoop]
    | cons v queue =>
      rw [bfsLoop]
      cases hscan : scan target (succ v) queue visited with
      | inl w => simp
      | inr res =>
        obtain ⟨queue', visited'⟩ := res
        obtain ⟨new, rfl, hnd, hvis, hnew, -⟩ := scan_inr hscan
        have hnewU : ∀ x ∈ new, x ∈ U := fun x hx => hU v (hq v (by simp)) x (hnew x hx).2.1
        apply ih
        · intro x hx
          rcases List.mem_append.mp hx with hx | hx
          · exact hq x (by simp [hx])
          · exact hnewU x hx
        · -- the nodes marked in this round were unvisited before it
          have hdisj : Disjoint (U.filter fun v => visited' v = false) new.toFinset := by
            rw [Finset.disjoint_left]
            intro x hx hxnew
            have hmarked := (hvis x).mpr (Or.inr (List.mem_toFinset.mp hxnew))
            rw [(Finset.mem_filter.mp hx).2] at hmarked
            cases hmarked
          have hsub : (U.filter fun v => visited' v = false) ∪ new.toFinset ⊆
              U.filter fun v => visited v = false := by
            intro x hx
            rcases Finset.mem_union.mp hx with hx | hx
            · obtain ⟨hxU, hx'⟩ := Finset.mem_filter.mp hx
              refine Finset.mem_filter.mpr ⟨hxU, ?_⟩
              by_contra hvx
              rw [(hvis x).mpr (Or.inl (by simpa using hvx))] at hx'
              cases hx'
            · have hxnew := List.mem_toFinset.mp hx
              exact Finset.mem_filter.mpr ⟨hnewU x hxnew, (hnew x hxnew).1⟩
          have hcard := Finset.card_le_card hsub
          rw [Finset.card_union_of_disjoint hdisj, List.toFinset_card_of_nodup hnd] at hcard
          simp only [List.length_append, List.length_cons] at hfuel ⊢
          omega

/-- Breadth-first search from `src`. -/
def bfs (succ : α → List α) (target : α → Bool) (fuel : Nat) (src : α) : Option (Option α) :=
  bfsLoop succ target fuel [src] (Function.update (fun _ => false) src true)

/-- On a finite closed set of nodes the search ends, with a nearest target when one is
reachable and with none otherwise. -/
theorem bfs_correct (U : Finset α) (hU : ∀ v ∈ U, ∀ w ∈ succ v, w ∈ U) (hsrcU : src ∈ U)
    (hsrc : target src = false) {fuel : Nat} (hfuel : U.card < fuel) :
    ∃ r, bfs succ target fuel src = some r ∧
      (∀ t, r = some t → IsNearest (fun v w => w ∈ succ v) src (fun v => target v = true) t) ∧
      (r = none → ∀ n t, Walk (fun v w => w ∈ succ v) src n t → target t = false) := by
  have hlt : (U.filter fun v => Function.update (fun _ => false) src true v = false).card < U.card := by
    apply Finset.card_lt_card
    refine ⟨Finset.filter_subset _ _, fun hsub => ?_⟩
    have hmem := (Finset.mem_filter.mp (hsub hsrcU)).2
    simp at hmem
  have hsome : (bfs succ target fuel src).isSome :=
    bfsLoop_isSome U hU (by simpa using hsrcU) (by simp only [List.length_singleton]; omega)
  obtain ⟨r, hr⟩ := Option.isSome_iff_exists.mp hsome
  exact ⟨r, hr, bfsLoop_spec (levelInv_init hsrc) hr⟩

end Search

end HopGraph
