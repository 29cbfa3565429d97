import VideoCDN.Reference.Dijkstra

/-!
# The reference search on its dictionaries

`Dijkstra` of `dns/dijkstra.py` with the default dictionaries it works on: reading a missing key
puts it into the dictionary. The search never reads one, but for the mark of a vertex and the
neighbors of a vertex without an entry, so that it computes the hop distances.
-/

namespace VideoCDN.Reference.Dicts

open HopGraph

/-! ## Default dictionaries -/

section DefaultDict

variable {K V : Type} [DecidableEq K]

/-- `d[k]` of a default dictionary, and the dictionary after it. -/
def getItem (d : K → Option V) (k : K) (default : V) : V × (K → Option V) :=
  match d k with
  | some v => (v, d)
  | none => (default, Function.update d k (some default))

lemma getItem_of_eq_some {d : K → Option V} {k : K} {v : V} (h : d k = some v) (default : V) :
    getItem d k default = (v, d) := by
  rw [getItem, h]

lemma getItem_fst (d : K → Option V) (k : K) (default : V) : (getItem d k default).1 = (d k).getD default := by
  unfold getItem
  cases d k with
  | none => rfl
  | some v => rfl

/-- No value changes, if a missing one counts as the default. -/
lemma getItem_snd_getD (d : K → Option V) (k k' : K) (default : V) :
    ((getItem d k default).2 k').getD default = (d k').getD default := by
  unfold getItem
  cases hk : d k with
  | some v => rfl
  | none =>
    dsimp only
    by_cases hkk' : k' = k
    · rw [hkk', Function.update_self, hk]
      rfl
    · rw [Function.update_of_ne hkk']

end DefaultDict

/-! ## The search -/

/-- The variables of `Dijkstra`; the key `none` stands for `-1`, which is no vertex. -/
structure Search (α : Type) where
  dist : Option α → Option Int
  visited : Option α → Option Bool
  previous : Option α → Option (Option α)
  graph : α → Option (List α)
  Q : List α

variable {α : Type} [DecidableEq α]

/-- The loop over `Q`; `u` is the vertex picked so far. -/
def pickLoop : List α → Search α → Option α → Search α × Option α
  | [], s, u => (s, u)
  | v :: vs, s, u =>
    let (seen, visited) := getItem s.visited (some v) false
    let s := { s with visited := visited }
    if seen then pickLoop vs s u
    else if (s.dist u).isNone then pickLoop vs s (some v)
    else
      let (dv, dist) := getItem s.dist (some v) (-1)
      let (du, dist) := getItem dist u (-1)
      pickLoop vs { s with dist := dist } (if dv < du then some v else u)

/-- `v not in dist or alt < dist[v]`, and the dictionary after it. -/
def shorter (dist : Option α → Option Int) (v : α) (alt : Int) : Bool × (Option α → Option Int) :=
  if (dist (some v)).isNone then (true, dist)
  else
    let (dv, dist) := getItem dist (some v) (-1)
    (alt < dv, dist)

/-- The loop over the neighbors of `u`. -/
def relaxLoop (u : α) : List α → Search α → Search α
  | [], s => s
  | v :: vs, s =>
    let (du, dist) := getItem s.dist (some u) (-1)
    let alt := du + 1
    let (seen, visited) := getItem s.visited (some v) false
    let s := { s with dist := dist, visited := visited }
    if seen then relaxLoop u vs s
    else
      let (isShorter, dist) := shorter s.dist v alt
      if isShorter then
        relaxLoop u vs { s with
          dist := Function.update dist (some v) (some alt)
          previous := Function.update s.previous (some v) (some (some u))
          Q := s.Q ++ [v] }
      else relaxLoop u vs { s with dist := dist }

/-- One round of the main loop; `Q.remove` fails for `-1` and for a vertex that is not in `Q`. -/
def searchRound (s : Search α) : Option (Search α) := do
  let (s, u) := pickLoop s.Q s none
  let u ← u
  if u ∉ s.Q then none
  else
    let s := { s with Q := s.Q.erase u, visited := Function.update s.visited (some u) (some true) }
    let (vs, graph) := getItem s.graph u []
    return relaxLoop u vs { s with graph := graph }

/-- The main loop: no result out of fuel. -/
def mainLoop : Nat → Search α → Option (Search α)
  | 0, _ => none
  | fuel + 1, s =>
    if s.Q = [] then some s
    else do
      let s ← searchRound s
      mainLoop fuel s

/-- The vertices an adjacency map mentions. -/
def vertices (graph : List (α × List α)) : List α := graph.flatMap fun e => e.1 :: e.2

/-- `Dijkstra(Graph, source)` for the adjacency map with these entries: the dictionary it returns. Every
round visits another vertex, so their number is enough fuel. -/
def dijkstra (graph : List (α × List α)) (source : α) : Option (Option α → Option Int) := do
  let s ← mainLoop ((vertices graph).length + 2)
    { dist := Function.update (fun _ => none) (some source) (some 0), visited := fun _ => none
      previous := fun _ => none, graph := fun u => graph.lookup u, Q := [source] }
  return s.dist

/-! ## The dictionaries and their values -/

/-- The dictionaries have these values: distances only for vertices, and the default where there is no
mark or no list of neighbors. -/
structure Matches (neighbors : α → List α) (s : Search α) (dist : α → Option Nat) (visited : α → Bool)
    (Q : List α) : Prop where
  no_vertex : s.dist none = none
  dist : ∀ v, s.dist (some v) = (dist v).map Int.ofNat
  visited : ∀ v, (s.visited (some v)).getD false = visited v
  graph : ∀ v, (s.graph v).getD [] = neighbors v
  queue : s.Q = Q

variable {neighbors : α → List α} {s : Search α} {dist : α → Option Nat} {visited : α → Bool} {Q : List α}

lemma Matches.mark (h : Matches neighbors s dist visited Q) (v : α) :
    ∃ marks, getItem s.visited (some v) false = (visited v, marks) ∧
      Matches neighbors { s with visited := marks } dist visited Q := by
  have hvisited : ∀ w, ((getItem s.visited (some v) false).2 (some w)).getD false = visited w := by
    intro w
    rw [getItem_snd_getD]
    exact h.visited w
  refine ⟨_, Prod.ext ?_ rfl, h.no_vertex, h.dist, hvisited, h.graph, h.queue⟩
  rw [getItem_fst]
  exact h.visited v

lemma Matches.getItem_dist (h : Matches neighbors s dist visited Q) {v : α} {d : Nat} (hv : dist v = some d) :
    getItem s.dist (some v) (-1) = ((d : Int), s.dist) := by
  apply getItem_of_eq_some
  rw [h.dist, hv]
  rfl

/-- The vertices of a queue all have distances; none is put into the dictionary. -/
lemma Matches.pickLoop (h : Matches neighbors s dist visited Q) {vs : List α} (hvs : ∀ v ∈ vs, dist v ≠ none)
    {u : Option α} : ∃ s', pickLoop vs s u = (s', pickVertex dist visited vs u) ∧
      Matches neighbors s' dist visited Q := by
  induction vs generalizing s u with
  | nil => exact ⟨s, rfl, h⟩
  | cons v vs ih =>
    have hrest : ∀ w ∈ vs, dist w ≠ none := fun w hw => hvs w (List.mem_cons_of_mem v hw)
    obtain ⟨d, hd⟩ := Option.ne_none_iff_exists'.mp (hvs v List.mem_cons_self)
    obtain ⟨marks, hseen, hmark⟩ := h.mark v
    rw [Dicts.pickLoop, pickVertex, hseen]
    cases hv : visited v with
    | true => simpa using ih hmark hrest
    | false =>
      cases hu : u.bind dist with
      | none =>
        have hnone : s.dist u = none := by
          cases u with
          | none => exact h.no_vertex
          | some w =>
            have hw : dist w = none := hu
            rw [h.dist, hw]
            rfl
        simpa [hnone] using ih hmark hrest
      | some e =>
        obtain ⟨w, rfl, hw⟩ := Option.bind_eq_some_iff.mp hu
        have hsome : s.dist (some w) = some (e : Int) := by
          rw [h.dist, hw]
          rfl
        simpa [hsome, h.getItem_dist hd, h.getItem_dist hw, distLt, hd] using ih hmark hrest

lemma update_values (d : Option α → Option Int) (dist : α → Option Nat)
    (h : ∀ v, d (some v) = (dist v).map Int.ofNat) (v : α) (n : Nat) (w : α) :
    Function.update d (some v) (some (n : Int)) (some w) =
      (Function.update dist v (some n) w).map Int.ofNat := by
  by_cases hw : w = v
  · rw [hw, Function.update_self, Function.update_self]
    rfl
  · rw [Function.update_of_ne hw, Function.update_of_ne (fun heq => hw (Option.some.inj heq))]
    exact h w

/-- `v` gets the distance `alt` and is queued. -/
lemma Matches.reach (h : Matches neighbors s dist visited Q) (v : α) (alt : Nat)
    (previous : Option α → Option (Option α)) :
    Matches neighbors
      { s with dist := Function.update s.dist (some v) (some (alt : Int)), previous := previous, Q := s.Q ++ [v] }
      (Function.update dist v (some alt)) visited (Q ++ [v]) :=
  ⟨h.no_vertex, update_values s.dist dist h.dist v alt, h.visited, h.graph, congrArg (· ++ [v]) h.queue⟩

/-- Of the vertex itself no distance is written, since it is visited. -/
lemma Matches.relaxLoop (h : Matches neighbors s dist visited Q) {u : α} {d : Nat} (hu : dist u = some d)
    (hvisited : visited u = true) (vs : List α) :
    Matches neighbors (relaxLoop u vs s) (relaxNeighbors visited (d + 1) vs dist Q).1 visited
      (relaxNeighbors visited (d + 1) vs dist Q).2 := by
  induction vs generalizing s dist Q with
  | nil => exact h
  | cons v vs ih =>
    obtain ⟨marks, hseen, hmark⟩ := h.mark v
    rw [Dicts.relaxLoop, relaxNeighbors, h.getItem_dist hu, hseen]
    cases hv : visited v with
    | true => simpa using ih hmark hu
    | false =>
      have hne : u ≠ v := by
        rintro rfl
        rw [hvisited] at hv
        cases hv
      have hu' : Function.update dist v (some (d + 1)) u = some d := by
        rw [Function.update_of_ne hne]
        exact hu
      have hreach := ih (hmark.reach v (d + 1) (Function.update s.previous (some v) (some (some u)))) hu'
      cases hd : dist v with
      | none =>
        have hnone : s.dist (some v) = none := by
          rw [h.dist, hd]
          rfl
        simpa [shorter, hnone] using hreach
      | some e =>
        have hsome : s.dist (some v) = some (e : Int) := by
          rw [h.dist, hd]
          rfl
        by_cases hlt : d + 1 < e
        · have hlt' : (d : Int) + 1 < e := by omega
          simpa [shorter, hsome, h.getItem_dist hd, hlt, hlt'] using hreach
        · have hlt' : ¬(d : Int) + 1 < e := by omega
          simpa [shorter, hsome, h.getItem_dist hd, hlt, hlt'] using ih hmark hu

/-- A round succeeds: the vertex picked is in the queue. -/
lemma Matches.searchRound {source : α} (h : Matches neighbors s dist visited Q)
    (I : SearchInv neighbors source dist visited Q) {u : α} {d : Nat}
    (hpick : pickVertex dist visited Q none = some u) (hd : dist u = some d) (hu : u ∈ Q) :
    ∃ s', searchRound s = some s' ∧
      Matches neighbors s'
        (relaxNeighbors (Function.update visited u true) (d + 1) (neighbors u) dist (Q.erase u)).1
        (Function.update visited u true)
        (relaxNeighbors (Function.update visited u true) (d + 1) (neighbors u) dist (Q.erase u)).2 := by
  have hQ : ∀ v ∈ s.Q, dist v ≠ none := by
    rw [h.queue]
    exact fun v hv => ((I.mem_iff v).mp hv).1
  obtain ⟨s₁, hrun, h₁⟩ := h.pickLoop hQ (u := none)
  rw [h.queue, hpick] at hrun
  have hvisited : ∀ v, (Function.update s₁.visited (some u) (some true) (some v)).getD false =
      Function.update visited u true v := by
    intro v
    by_cases hv : v = u
    · rw [hv, Function.update_self, Function.update_self]
      rfl
    · rw [Function.update_of_ne hv, Function.update_of_ne (fun heq => hv (Option.some.inj heq))]
      exact h₁.visited v
  have hgraph : ∀ v, ((getItem s₁.graph u []).2 v).getD [] = neighbors v := by
    intro v
    rw [getItem_snd_getD]
    exact h₁.graph v
  have h₂ : Matches neighbors
      { s₁ with Q := s₁.Q.erase u, visited := Function.update s₁.visited (some u) (some true)
                graph := (getItem s₁.graph u []).2 } dist (Function.update visited u true) (Q.erase u) :=
    ⟨h₁.no_vertex, h₁.dist, hvisited, hgraph, congrArg (·.erase u) h₁.queue⟩
  have hvs : (getItem s₁.graph u []).1 = neighbors u := (getItem_fst _ _ _).trans (h₁.graph u)
  refine ⟨_, ?_, h₂.relaxLoop hd (Function.update_self u true visited) (neighbors u)⟩
  rw [Dicts.searchRound, h.queue, hrun]
  simp [h₁.queue, hu, hvs]

/-- The main loop follows the loop on values. -/
lemma Matches.mainLoop {source : α} {fuel : Nat} {dist' : α → Option Nat}
    (h : Matches neighbors s dist visited Q) (I : SearchInv neighbors source dist visited Q)
    (hrun : dijkstraLoop neighbors fuel dist visited Q = some dist') :
    ∃ s', mainLoop fuel s = some s' ∧ s'.dist none = none ∧ ∀ v, s'.dist (some v) = (dist' v).map Int.ofNat := by
  induction fuel generalizing s dist visited Q with
  | zero => cases hrun
  | succ fuel ih =>
    cases Q with
    | nil =>
      obtain rfl : dist = dist' := Option.some.inj hrun
      refine ⟨s, ?_, h.no_vertex, h.dist⟩
      rw [Dicts.mainLoop, if_pos h.queue]
    | cons v Q =>
      obtain ⟨u, d, hpick, hd, hu, dist₁, Q₁, hrelax, I₁⟩ := searchInv_round I (by simp)
      obtain ⟨s₁, hround, h₁⟩ := h.searchRound I hpick hd hu
      rw [hrelax] at h₁
      simp only [dijkstraLoop, hpick, Option.bind_eq_bind, Option.bind_some, distSucc, hd, hrelax] at hrun
      obtain ⟨s', hloop, hs'⟩ := ih h₁ I₁ hrun
      refine ⟨s', ?_, hs'⟩
      rw [Dicts.mainLoop, h.queue, if_neg (List.cons_ne_nil v Q), hround]
      exact hloop

/-! ## The result -/

/-- The dictionary has the values that the search computes without dictionaries. -/
lemma dijkstra_values (graph : List (α × List α)) {source : α} {dist : α → Option Nat}
    (hrun : Reference.dijkstra (fun v => (graph.lookup v).getD []) ((vertices graph).length + 1) source = some dist) :
    ∃ d, dijkstra graph source = some d ∧ d none = none ∧ ∀ v, d (some v) = (dist v).map Int.ofNat := by
  have hvalues := update_values (fun _ => none) (fun _ => none) (fun _ => rfl) source 0
  have hstart : Matches (fun v => (graph.lookup v).getD [])
      { dist := Function.update (fun _ => none) (some source) (some 0), visited := fun _ => none
        previous := fun _ => none, graph := fun u => graph.lookup u, Q := [source] }
      (Function.update (fun _ => none) source (some 0)) (fun _ => false) [source] :=
    ⟨rfl, hvalues, fun _ => rfl, fun _ => rfl, rfl⟩
  obtain ⟨s', hloop, hnone, hsome⟩ := hstart.mainLoop searchInv_init hrun
  refine ⟨s'.dist, ?_, hnone, hsome⟩
  rw [dijkstra, hloop]
  rfl

/-- What a vertex is a neighbor of, the adjacency map mentions. -/
lemma mem_vertices {graph : List (α × List α)} {v w : α} (h : w ∈ (graph.lookup v).getD []) : w ∈ vertices graph := by
  cases hget : graph.lookup v with
  | none =>
    rw [hget] at h
    exact absurd h List.not_mem_nil
  | some vs =>
    rw [hget, Option.getD_some] at h
    obtain ⟨l₁, l₂, rfl, -⟩ := List.lookup_eq_some_iff.mp hget
    simp [vertices, h]

/-- For every adjacency map and source, the search ends, and its dictionary maps exactly the vertices
that can be reached, each to its hop distance. -/
theorem dijkstra_distances (graph : List (α × List α)) (source : α) :
    ∃ dist, dijkstra graph source = some dist ∧ dist none = none ∧
      ∀ v d, dist (some v) = some d ↔
        ∃ n : Nat, d = n ∧ IsDist (fun v w => w ∈ (graph.lookup v).getD []) source v n := by
  have hclosed : ∀ v ∈ insert source (vertices graph).toFinset, ∀ w ∈ (graph.lookup v).getD [],
      w ∈ insert source (vertices graph).toFinset :=
    fun v _ w hw => Finset.mem_insert_of_mem (List.mem_toFinset.mpr (mem_vertices hw))
  have hcard : (insert source (vertices graph).toFinset).card ≤ (vertices graph).length + 1 :=
    (Finset.card_insert_le _ _).trans (Nat.succ_le_succ (List.toFinset_card_le _))
  obtain ⟨dist, hrun, hdist⟩ := dijkstra_spec _ hclosed (Finset.mem_insert_self _ _) hcard
  obtain ⟨d, hdict, hnone, hsome⟩ := dijkstra_values graph hrun
  refine ⟨d, hdict, hnone, fun v e => ?_⟩
  rw [hsome, Option.map_eq_some_iff]
  constructor
  · rintro ⟨n, hn, rfl⟩
    exact ⟨n, rfl, (hdist v n).mp hn⟩
  · rintro ⟨n, rfl, hn⟩
    exact ⟨n, (hdist v n).mpr hn, rfl⟩

/-- Cycles, a self link, a repeated neighbor and one-way links. -/
example : (dijkstra [(1, [2, 1, 2]), (2, [3, 1]), (4, [1])] 1).map (fun d => [1, 2, 3, 4].map fun v => d (some v)) =
    some [some 0, some 1, some 2, none] := by decide

end VideoCDN.Reference.Dicts
