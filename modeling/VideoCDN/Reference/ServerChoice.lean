import VideoCDN.Reference.BestServer

/-!
# When the reference choice is a nearest server

A server that cannot be reached has the default distance -1, so that it beats every server that
can. An empty name counts as no server yet and gives way to the next one.
-/

namespace VideoCDN.Reference

open CString HopGraph

/-! ## The running minimum -/

section Best

variable {dist : Str → Option Nat}

lemma neg_one_le_distOf (s : Str) : -1 ≤ distOf dist s := by
  unfold distOf
  cases dist s with
  | none => exact le_rfl
  | some d =>
    have hd : (0 : Int) ≤ d := Int.natCast_nonneg d
    simp only
    omega

lemma bestOf_append (l₁ l₂ : List Str) (best : Option (Str × Int)) :
    bestOf dist (l₁ ++ l₂) best = bestOf dist l₂ (bestOf dist l₁ best) := by
  induction l₁ generalizing best with
  | nil => rfl
  | cons s l₁ ih => exact ih _

/-- A server is taken, or the one held has a name and is no farther away. -/
lemma bestOf_cons (s : Str) (servers : List Str) (best : Option (Str × Int)) :
    bestOf dist (s :: servers) best = bestOf dist servers (some (s, distOf dist s)) ∨
      ∃ b d, best = some (b, d) ∧ b ≠ [] ∧ d ≤ distOf dist s ∧
        bestOf dist (s :: servers) best = bestOf dist servers (some (b, d)) := by
  cases best with
  | none => exact Or.inl rfl
  | some best =>
    obtain ⟨b, d⟩ := best
    by_cases htaken : b = [] ∨ distOf dist s < d
    · left
      simp [bestOf, htaken]
    · right
      obtain ⟨hb, hd⟩ := not_or.mp htaken
      exact ⟨b, d, rfl, hb, not_lt.mp hd, by simp [bestOf, htaken]⟩

/-- `b` at distance `d` is held over `servers`. -/
def Kept (dist : Str → Option Nat) (b : Str) (d : Int) (servers : List Str) : Prop :=
  (b = [] → servers = []) ∧ ∀ s ∈ servers, d ≤ distOf dist s

lemma Kept.bestOf {b : Str} {d : Int} {servers : List Str} (h : Kept dist b d servers) :
    bestOf dist servers (some (b, d)) = some (b, d) := by
  induction servers with
  | nil => rfl
  | cons s servers ih =>
    have hb : b ≠ [] := fun hb => absurd (h.1 hb) (List.cons_ne_nil s servers)
    have hd : ¬distOf dist s < d := not_lt.mpr (h.2 s List.mem_cons_self)
    have hrest := ih ⟨fun hnil => absurd hnil hb, fun x hx => h.2 x (List.mem_cons_of_mem s hx)⟩
    simpa [Reference.bestOf, hb, hd] using hrest

/-- The result was held before, or taken at its place in the list; from there on it is held. -/
lemma bestOf_source {servers : List Str} {best : Option (Str × Int)} {b : Str} {d : Int}
    (h : bestOf dist servers best = some (b, d)) :
    (best = some (b, d) ∧ Kept dist b d servers) ∨
      ∃ pre post, servers = pre ++ b :: post ∧ d = distOf dist b ∧ Kept dist b d post := by
  induction servers generalizing best with
  | nil => exact Or.inl ⟨h, fun _ => rfl, fun s hs => absurd hs List.not_mem_nil⟩
  | cons s servers ih =>
    rcases bestOf_cons s servers best with htaken | ⟨b', d', hbest, hb', hd', hheld⟩
    · right
      rw [htaken] at h
      rcases ih h with ⟨hs, hkept⟩ | ⟨pre, post, rfl, hd, hkept⟩
      · obtain ⟨rfl, rfl⟩ := Prod.mk.inj (Option.some.inj hs)
        exact ⟨[], servers, rfl, rfl, hkept⟩
      · exact ⟨s :: pre, post, rfl, hd, hkept⟩
    · rw [hheld] at h
      rcases ih h with ⟨hs, -, hmin⟩ | ⟨pre, post, rfl, hd, hkept⟩
      · obtain ⟨rfl, rfl⟩ := Prod.mk.inj (Option.some.inj hs)
        refine Or.inl ⟨hbest, fun hb => absurd hb hb', fun x hx => ?_⟩
        rcases List.mem_cons.mp hx with rfl | hx
        · exact hd'
        · exact hmin x hx
      · exact Or.inr ⟨s :: pre, post, rfl, hd, hkept⟩

/-- From the beginning of the list, what is held is a server with its distance. -/
lemma bestOf_none_source {servers : List Str} {b : Str} {d : Int} (h : bestOf dist servers none = some (b, d)) :
    b ∈ servers ∧ d = distOf dist b := by
  rcases bestOf_source h with ⟨hnone, -⟩ | ⟨pre, post, rfl, hd, -⟩
  · exact absurd hnone (Option.some_ne_none _).symm
  · exact ⟨by simp, hd⟩

/-- A server with a name and without a distance decides the choice for such a server. -/
lemma bestOf_of_unreachable {s : Str} {servers : List Str} (hs : s ∈ servers) (hne : s ≠ [])
    (hdist : distOf dist s = -1) : ∃ b, bestOf dist servers none = some (b, -1) := by
  obtain ⟨pre, post, rfl⟩ := List.append_of_mem hs
  have hkept : ∀ b, b ≠ [] → Kept dist b (-1) post :=
    fun b hb => ⟨fun hnil => absurd hnil hb, fun x _ => neg_one_le_distOf x⟩
  rw [bestOf_append]
  rcases bestOf_cons s post (bestOf dist pre none) with htaken | ⟨b, d, hbest, hb, hd, hheld⟩
  · rw [htaken, hdist]
    exact ⟨s, (hkept s hne).bestOf⟩
  · have hd' := (bestOf_none_source hbest).2
    have hlow : -1 ≤ distOf dist b := neg_one_le_distOf b
    obtain rfl : d = -1 := by omega
    rw [hheld]
    exact ⟨b, (hkept b hb).bestOf⟩

end Best

/-! ## The graph of an arbitrary file -/

/-- Every node that the dictionary mentions is listed. -/
def Listed (nodes : List Str) (neighbors : List (Str × List Str)) : Prop :=
  ∀ e ∈ neighbors, e.1 ∈ nodes ∧ ∀ v ∈ e.2, v ∈ nodes

lemma mem_of_dictGet {V : Type} {d : List (Str × V)} {k : Str} {v : V} (h : dictGet d k = some v) : (k, v) ∈ d := by
  obtain ⟨e, he, rfl⟩ := Option.map_eq_some_iff.mp h
  have hk : e.1 = k := by simpa using List.find?_some he
  rw [← hk]
  exact List.mem_of_find?_eq_some he

lemma Listed.addSilent {nodes ns : List Str} {neighbors : List (Str × List Str)} (h : Listed nodes neighbors)
    (order : DictOrder) (hns : ∀ n ∈ ns, n ∈ nodes) : Listed nodes (addSilent order ns neighbors) := by
  induction ns generalizing neighbors with
  | nil => exact h
  | cons n ns ih =>
    have hrest : ∀ m ∈ ns, m ∈ nodes := fun m hm => hns m (List.mem_cons_of_mem n hm)
    rw [Reference.addSilent]
    split
    · exact ih h hrest
    · dsimp only
      split
      · exact ih h hrest
      · apply ih _ hrest
        intro e he
        rcases List.mem_append.mp he with he | he
        · exact h e he
        · obtain rfl := List.mem_singleton.mp he
          refine ⟨hns n List.mem_cons_self, fun v hv => ?_⟩
          obtain ⟨x, hx, hxv⟩ := List.mem_filterMap.mp hv
          rw [Option.ite_none_right_eq_some, Option.some.injEq] at hxv
          obtain ⟨-, rfl⟩ := hxv
          exact (h x ((order.perm neighbors).mem_iff.mp hx)).1

lemma buildGraph_listed (order : DictOrder) (status : List (Str × Str × List Str)) :
    Listed (buildGraph order status).1 (buildGraph order status).2 := by
  have hfold : ∀ (l : List (Str × Str × List Str)) (d : List (Str × List Str)) (nodes : List Str),
      (∀ e ∈ d, e.1 ∈ nodes) → (∀ e ∈ l, e.1 ∈ nodes) →
      ∀ e ∈ l.foldl (fun d e => dictSet d e.1 e.2.2) d, e.1 ∈ nodes := by
    intro l
    induction l with
    | nil => exact fun d nodes hd _ => hd
    | cons x l ih =>
      intro d nodes hd hl
      apply ih _ _ _ (fun e he => hl e (List.mem_cons_of_mem x he))
      rintro ⟨k, v⟩ he
      rcases mem_dictSet.mp he with ⟨rfl, rfl⟩ | ⟨-, he⟩
      · exact hl x List.mem_cons_self
      · exact hd _ he
  obtain ⟨items, hitems⟩ : ∃ items, order.items status = items := ⟨_, rfl⟩
  have hkeys := hfold items [] (items.map Prod.fst) (fun e he => absurd he List.not_mem_nil)
    (fun e he => List.mem_map_of_mem he)
  rw [buildGraph, hitems]
  dsimp only
  apply Listed.addSilent _ order (fun n hn => hn)
  intro e he
  have he' := (order.perm _).mem_iff.mpr he
  refine ⟨(addNodes_mem _ _ _).mpr (Or.inl (hkeys e he)), fun v hv => ?_⟩
  exact (addNodes_mem _ _ _).mpr (Or.inr ⟨e, he', hv⟩)

/-- The links of the graph that `getBestServer` builds. -/
def GraphLink (order : DictOrder) (status : List (Str × Str × List Str)) (u v : Str) : Prop :=
  v ∈ (dictGet (buildGraph order status).2 u).getD []

lemma GraphLink.listed {order : DictOrder} {status : List (Str × Str × List Str)} {u v : Str}
    (h : GraphLink order status u v) : v ∈ (buildGraph order status).1 := by
  unfold GraphLink at h
  cases hget : dictGet (buildGraph order status).2 u with
  | none =>
    rw [hget] at h
    exact absurd h List.not_mem_nil
  | some vs =>
    rw [hget, Option.getD_some] at h
    exact (buildGraph_listed order status _ (mem_of_dictGet hget)).2 v h

/-- The choice is made by the hop distances in the graph. -/
lemma getBestServer_eq (order : DictOrder) {file : List UInt8} {status : List (Str × Str × List Str)}
    (hread : readStatus (file.splitOn 10) [] = some status) (client : Str) (servers : List Str) :
    ∃ dist, (∀ v d, dist v = some d ↔ IsDist (GraphLink order status) client v d) ∧
      getBestServer order client servers file = some ((bestOf dist servers none).map Prod.fst) := by
  obtain ⟨nodes, hnodes⟩ : ∃ nodes, (buildGraph order status).1 = nodes := ⟨_, rfl⟩
  have hclosed : ∀ u ∈ insert client nodes.toFinset, ∀ v, GraphLink order status u v →
      v ∈ insert client nodes.toFinset := by
    intro u _ v hv
    have hmem := hv.listed
    rw [hnodes] at hmem
    exact Finset.mem_insert_of_mem (List.mem_toFinset.mpr hmem)
  have hcard : (insert client nodes.toFinset).card ≤ nodes.length + 1 :=
    (Finset.card_insert_le _ _).trans (Nat.succ_le_succ (List.toFinset_card_le nodes))
  obtain ⟨dist, hrun, hdist⟩ := dijkstra_spec (insert client nodes.toFinset) hclosed (Finset.mem_insert_self _ _) hcard
  refine ⟨dist, hdist, ?_⟩
  simp only [getBestServer, hread, Option.bind_eq_bind, Option.bind_some, hnodes, hrun, Option.pure_def]

/-! ## The choice -/

/-- Every listed server with a name can be reached, and some nearest server is not displaced: an empty
name gives way to what follows it, and displaces every server if it cannot be reached itself. -/
def LeadsToNearest (link : Str → Str → Prop) (client : Str) (servers : List Str) : Prop :=
  (∀ s ∈ servers, s ≠ [] → ∃ n, Walk link client n s) ∧
    ∃ pre s post, servers = pre ++ s :: post ∧ IsNearest link client (· ∈ servers) s ∧ (s = [] → post = []) ∧
      ((¬∃ n, Walk link client n []) → [] ∉ post)

lemma distOf_of_isDist {link : Str → Str → Prop} {client : Str} {dist : Str → Option Nat}
    (hdist : ∀ v d, dist v = some d ↔ IsDist link client v d) {s : Str} {d : Nat} (h : IsDist link client s d) :
    distOf dist s = d := by
  rw [distOf, (hdist s d).mpr h]

lemma distOf_of_not_reachable {link : Str → Str → Prop} {client : Str} {dist : Str → Option Nat}
    (hdist : ∀ v d, dist v = some d ↔ IsDist link client v d) {s : Str} (h : ¬∃ n, Walk link client n s) :
    distOf dist s = -1 := by
  unfold distOf
  cases hs : dist s with
  | none => rfl
  | some d => exact absurd ⟨d, ((hdist s d).mp hs).1⟩ h

lemma eq_some_of_distOf {dist : Str → Option Nat} {s : Str} {m : Nat} (h : (m : Int) = distOf dist s) :
    dist s = some m := by
  unfold distOf at h
  cases hs : dist s with
  | none =>
    rw [hs] at h
    simp only at h
    omega
  | some d =>
    rw [hs] at h
    rw [Int.ofNat_inj.mp h]

/-- No server that can be reached is closer than a nearest one. -/
lemma le_distOf {link : Str → Str → Prop} {client : Str} {dist : Str → Option Nat}
    (hdist : ∀ v d, dist v = some d ↔ IsDist link client v d) {s : Str} {m : Nat}
    (hmin : ∀ n, Walk link client n s → m ≤ n) (hwalk : ∃ n, Walk link client n s) : (m : Int) ≤ distOf dist s := by
  obtain ⟨e, he⟩ := exists_isDist hwalk
  rw [distOf_of_isDist hdist he]
  exact Int.ofNat_le.mpr (hmin e he.1)

/-- A nearest server that is not displaced leads to a choice at its distance. -/
lemma bestOf_of_kept {dist : Str → Option Nat} {pre post : List Str} {s : Str} {m : Nat} (hs : distOf dist s = m)
    (hpre : ∀ b ∈ pre, b ≠ [] → (m : Int) ≤ distOf dist b) (hkept : Kept dist s m post) :
    ∃ b, bestOf dist (pre ++ s :: post) none = some (b, (m : Int)) := by
  rw [bestOf_append]
  rcases bestOf_cons s post (bestOf dist pre none) with htaken | ⟨b, d, hbest, hb, hd, hheld⟩
  · rw [htaken, hs]
    exact ⟨s, hkept.bestOf⟩
  · -- what was held before has a name, and is as close
    obtain ⟨hmem, rfl⟩ := bestOf_none_source hbest
    have hle := hpre b hmem hb
    obtain hbm : distOf dist b = m := by omega
    rw [hheld, hbm]
    have hkept' : Kept dist b m post := ⟨fun hnil => absurd hnil hb, hkept.2⟩
    exact ⟨b, hkept'.bestOf⟩

/-- For every file, client and list of servers, the choice is a nearest server that can be reached if and
only if every server with a name can be reached and no empty name displaces the nearest one. -/
theorem getBestServer_nearest_iff (order : DictOrder) {file : List UInt8} {status : List (Str × Str × List Str)}
    (hread : readStatus (file.splitOn 10) [] = some status) (client : Str) (servers : List Str) :
    (∃ b, getBestServer order client servers file = some (some b) ∧
      IsNearest (GraphLink order status) client (· ∈ servers) b) ↔
      LeadsToNearest (GraphLink order status) client servers := by
  obtain ⟨dist, hdist, hget⟩ := getBestServer_eq order hread client servers
  rw [hget]
  constructor
  · rintro ⟨b, hb, hnear⟩
    obtain ⟨best, hbest, rfl⟩ := Option.map_eq_some_iff.mp (Option.some.inj hb)
    obtain ⟨b, d⟩ := best
    obtain ⟨m, hm, hmin⟩ := hnear.2
    have hdm : distOf dist b = m := distOf_of_isDist hdist hm
    obtain ⟨-, hd⟩ := bestOf_none_source hbest
    refine ⟨fun s hs hne => ?_, ?_⟩
    · by_contra hnot
      obtain ⟨b', hb'⟩ := bestOf_of_unreachable hs hne (distOf_of_not_reachable hdist hnot)
      rw [hbest] at hb'
      obtain ⟨-, rfl⟩ := Prod.mk.inj (Option.some.inj hb')
      omega
    · rcases bestOf_source hbest with ⟨hnone, -⟩ | ⟨pre, post, hservers, -, hkept⟩
      · exact absurd hnone (Option.some_ne_none _).symm
      · refine ⟨pre, b, post, hservers, hnear, hkept.1, fun hnot hmem => ?_⟩
        have hle := hkept.2 [] hmem
        rw [distOf_of_not_reachable hdist hnot] at hle
        omega
  · rintro ⟨hnamed, pre, s, post, hservers, hnear, hlast, hempty⟩
    obtain ⟨m, hm, hmin⟩ := hnear.2
    have hsm : distOf dist s = m := distOf_of_isDist hdist hm
    have hfar : ∀ x ∈ servers, (∃ n, Walk (GraphLink order status) client n x) → (m : Int) ≤ distOf dist x :=
      fun x hx => le_distOf hdist (hmin x hx)
    have hpre : ∀ x ∈ pre, x ≠ [] → (m : Int) ≤ distOf dist x := by
      intro x hx hne
      have hmem : x ∈ servers := by simp [hservers, hx]
      exact hfar x hmem (hnamed x hmem hne)
    have hpost : ∀ x ∈ post, (m : Int) ≤ distOf dist x := by
      intro x hx
      have hmem : x ∈ servers := by simp [hservers, hx]
      apply hfar x hmem
      by_contra hnot
      by_cases hne : x = []
      · subst hne
        exact hempty hnot hx
      · exact hnot (hnamed x hmem hne)
    obtain ⟨b, hb⟩ := bestOf_of_kept hsm hpre ⟨hlast, hpost⟩
    rw [← hservers] at hb
    obtain ⟨hmem, hbm⟩ := bestOf_none_source hb
    refine ⟨b, by rw [hb, Option.map_some], hmem, ?_⟩
    exact ⟨m, (hdist b m).mp (eq_some_of_distOf hbm), hmin⟩

section Example

/-- One announcement; of the link of 3.0.0.1 there is none. -/
def lostFile : List UInt8 := bytes "1.0.0.1 0 2.0.0.1"

def lostStatus : List (Str × Str × List Str) := [(bytes "1.0.0.1", bytes "0", [bytes "2.0.0.1"])]

lemma readStatus_lostFile : readStatus (lostFile.splitOn 10) [] = some lostStatus := by decide

lemma graphLink_lostStatus : GraphLink insertionOrder lostStatus (bytes "1.0.0.1") (bytes "2.0.0.1") := by
  rw [GraphLink]
  decide

lemma walk_lostStatus : ∃ n, Walk (GraphLink insertionOrder lostStatus) (bytes "1.0.0.1") n (bytes "2.0.0.1") :=
  ⟨1, .step .zero graphLink_lostStatus⟩

lemma not_walk_lostStatus (n : Nat) :
    ¬Walk (GraphLink insertionOrder lostStatus) (bytes "1.0.0.1") n (bytes "3.0.0.1") := by
  have hne : bytes "1.0.0.1" ≠ bytes "3.0.0.1" := by decide
  intro h
  generalize hv : bytes "3.0.0.1" = v at h
  cases h with
  | zero => exact hne hv.symm
  | step _ hlink =>
    have hlisted := hlink.listed
    rw [← hv] at hlisted
    exact absurd hlisted (by decide)

/-- The server without a path is chosen over the one that is linked to the client. -/
theorem getBestServer_unreachable :
    ¬∀ (order : DictOrder) (file : List UInt8) (status : List (Str × Str × List Str)) (client : Str)
      (servers : List Str), readStatus (file.splitOn 10) [] = some status →
      (∃ s ∈ servers, ∃ n, Walk (GraphLink order status) client n s) →
      ∃ b, getBestServer order client servers file = some (some b) ∧
        IsNearest (GraphLink order status) client (· ∈ servers) b := by
  intro h
  obtain ⟨b, hb, -, d, hd, -⟩ := h insertionOrder lostFile lostStatus (bytes "1.0.0.1")
    [bytes "2.0.0.1", bytes "3.0.0.1"] readStatus_lostFile ⟨bytes "2.0.0.1", List.mem_cons_self, walk_lostStatus⟩
  have hchoice : getBestServer insertionOrder (bytes "1.0.0.1") [bytes "2.0.0.1", bytes "3.0.0.1"] lostFile =
      some (some (bytes "3.0.0.1")) := by decide
  obtain rfl := Option.some.inj (Option.some.inj (hchoice.symm.trans hb))
  exact not_walk_lostStatus d hd.1

/-- Without the other server the one that is linked to the client is chosen. -/
theorem getBestServer_nearest_one : ∃ b, getBestServer insertionOrder (bytes "1.0.0.1") [bytes "2.0.0.1"] lostFile =
    some (some b) ∧ IsNearest (GraphLink insertionOrder lostStatus) (bytes "1.0.0.1") (· ∈ [bytes "2.0.0.1"]) b := by
  obtain ⟨d, hd⟩ := exists_isDist walk_lostStatus
  apply (getBestServer_nearest_iff insertionOrder readStatus_lostFile (bytes "1.0.0.1") [bytes "2.0.0.1"]).mpr
  refine ⟨?_, [], bytes "2.0.0.1", [], rfl, ⟨List.mem_cons_self, d, hd, ?_⟩, fun _ => rfl, fun _ => List.not_mem_nil⟩
  · intro s hs _
    obtain rfl := List.mem_singleton.mp hs
    exact walk_lostStatus
  · intro s hs
    obtain rfl := List.mem_singleton.mp hs
    exact hd.2

end Example

end VideoCDN.Reference
