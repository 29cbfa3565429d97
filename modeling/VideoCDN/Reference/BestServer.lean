import VideoCDN.Lib.CString
import VideoCDN.Reference.Dijkstra

/-!
# The reference choice of a server

`getBestServer` of `dns/dijkstra.py`. A dictionary is the list of its entries, and `items`
returns them in an order the language does not fix. An exception has no result.
-/

namespace VideoCDN.Reference

open CString HopGraph

abbrev Str := List UInt8

/-- The order in which `items` lists the entries of a dictionary. -/
structure DictOrder where
  items : {V : Type} → List (Str × V) → List (Str × V)
  perm : ∀ {V : Type} (d : List (Str × V)), (items d).Perm d

/-- Entries in the order of their insertion. -/
def insertionOrder : DictOrder := ⟨id, fun _ => List.Perm.rfl⟩

section Dict

variable {V : Type}

def dictGet (d : List (Str × V)) (k : Str) : Option V := (d.find? fun e => e.1 = k).map Prod.snd

/-- `d[k] = v` -/
def dictSet (d : List (Str × V)) (k : Str) (v : V) : List (Str × V) :=
  if k ∈ d.map Prod.fst then d.map fun e => if e.1 = k then (k, v) else e else d ++ [(k, v)]

lemma dictGet_eq_some_iff {d : List (Str × V)} (hd : (d.map Prod.fst).Nodup) (k : Str) (v : V) :
    dictGet d k = some v ↔ (k, v) ∈ d := by
  unfold dictGet
  constructor
  · intro h
    obtain ⟨e, he, rfl⟩ := Option.map_eq_some_iff.mp h
    have hk : e.1 = k := by simpa using List.find?_some he
    rw [← hk]
    exact List.mem_of_find?_eq_some he
  · intro h
    cases hfind : d.find? fun e => e.1 = k with
    | none =>
      have hnone := List.find?_eq_none.mp hfind (k, v) h
      simp at hnone
    | some e =>
      have hk : e.1 = k := by simpa using List.find?_some hfind
      have he := List.inj_on_of_nodup_map hd (List.mem_of_find?_eq_some hfind) h hk
      simp [he]

lemma dictGet_eq_none_iff (d : List (Str × V)) (k : Str) : dictGet d k = none ↔ k ∉ d.map Prod.fst := by
  simp only [dictGet, Option.map_eq_none_iff, List.find?_eq_none, List.mem_map, decide_eq_true_eq]
  constructor
  · rintro h ⟨e, he, hk⟩
    exact h e he hk
  · exact fun h e he hk => h ⟨e, he, hk⟩

lemma dictSet_keys (d : List (Str × V)) (k : Str) (v : V) (hd : (d.map Prod.fst).Nodup) :
    ((dictSet d k v).map Prod.fst).Nodup := by
  unfold dictSet
  by_cases h : k ∈ d.map Prod.fst
  · rw [if_pos h, List.map_map]
    have hfst : d.map (Prod.fst ∘ fun e => if e.1 = k then (k, v) else e) = d.map Prod.fst := by
      refine List.map_congr_left fun e _ => ?_
      by_cases he : e.1 = k <;> simp [he]
    rwa [hfst]
  · rw [if_neg h, List.map_append]
    refine List.nodup_append.mpr ⟨hd, List.nodup_singleton _, fun a ha b hb => ?_⟩
    rintro rfl
    have hak : a = k := by simpa using hb
    exact h (hak ▸ ha)

lemma mem_dictSet {d : List (Str × V)} {k k' : Str} {v v' : V} :
    (k', v') ∈ dictSet d k v ↔ (k' = k ∧ v' = v) ∨ (k' ≠ k ∧ (k', v') ∈ d) := by
  unfold dictSet
  by_cases h : k ∈ d.map Prod.fst
  · rw [if_pos h, List.mem_map]
    constructor
    · rintro ⟨e, he, heq⟩
      by_cases hk : e.1 = k
      · rw [if_pos hk, Prod.mk.injEq] at heq
        exact Or.inl ⟨heq.1.symm, heq.2.symm⟩
      · rw [if_neg hk] at heq
        subst heq
        exact Or.inr ⟨hk, he⟩
    · rintro (⟨rfl, rfl⟩ | ⟨hk, he⟩)
      · obtain ⟨e, he, hek⟩ := List.mem_map.mp h
        exact ⟨e, he, by rw [if_pos hek]⟩
      · exact ⟨_, he, by rw [if_neg hk]⟩
  · rw [if_neg h, List.mem_append, List.mem_singleton, Prod.mk.injEq]
    have hne : ∀ v, (k, v) ∉ d := fun v hv => h (List.mem_map.mpr ⟨_, hv, rfl⟩)
    by_cases hk : k' = k
    · subst hk
      simp [hne]
    · simp [hk]

end Dict

/-- The loop over the lines: for every sender the sequence text and the neighbors. -/
def readStatus : List Str → List (Str × Str × List Str) → Option (List (Str × Str × List Str))
  | [], status => some status
  | lsa :: lsas, status =>
    if lsa = [] then readStatus lsas status
    else match lsa.splitOn 32 with
      | sender :: seq :: csv :: _ =>
        let newer := match dictGet status sender with
          | none => true
          | some old => old.1 < seq
        readStatus lsas (if newer then dictSet status sender (seq, csv.splitOn 44) else status)
      | _ => none

/-- The loop that lists the nodes nobody heard of. -/
def addNodes : List (Str × List Str) → List Str → List Str
  | [], nodes => nodes
  | (_, v) :: entries, nodes => addNodes entries (v.foldl (fun ns b => if b ∈ ns then ns else ns ++ [b]) nodes)

/-- The loop that looks up the neighbors of the nodes that sent nothing. -/
def addSilent (order : DictOrder) : List Str → List (Str × List Str) → List (Str × List Str)
  | [], neighbors => neighbors
  | n :: nodes, neighbors =>
    if (dictGet neighbors n).isSome then addSilent order nodes neighbors
    else
      let bs := (order.items neighbors).filterMap fun e => if n ∈ e.2 then some e.1 else none
      addSilent order nodes (if bs = [] then neighbors else neighbors ++ [(n, bs)])

/-- `DISTS[c][s]`, with its default. -/
def distOf (dist : Str → Option Nat) (s : Str) : Int :=
  match dist s with
  | none => -1
  | some d => d

/-- The loop over the servers; an empty name counts as no server yet. -/
def bestOf (dist : Str → Option Nat) : List Str → Option (Str × Int) → Option (Str × Int)
  | [], best => best
  | s :: servers, best =>
    let better := match best with
      | none => true
      | some (b, d) => b = [] || distOf dist s < d
    bestOf dist servers (if better then some (s, distOf dist s) else best)

/-- The dictionary of neighbors and the nodes, from the dictionary of announcements. -/
def buildGraph (order : DictOrder) (status : List (Str × Str × List Str)) : List Str × List (Str × List Str) :=
  let items := order.items status
  let neighbors := items.foldl (fun d e => dictSet d e.1 e.2.2) []
  let nodes := addNodes (order.items neighbors) (items.map Prod.fst)
  (nodes, addSilent order nodes neighbors)

/-- `getBestServer(client, servers, lsa_file)`; without servers the result is `0`, here `none`. -/
def getBestServer (order : DictOrder) (client : Str) (servers : List Str) (file : List UInt8) :
    Option (Option Str) := do
  let status ← readStatus (file.splitOn 10) []
  let (nodes, neighbors) := buildGraph order status
  let dist ← dijkstra (fun u => (dictGet neighbors u).getD []) (nodes.length + 1) client
  return (bestOf dist servers none).map Prod.fst

/-- The list of servers `serverSetup` reads. -/
def serverSetup (file : List UInt8) : List Str :=
  let servers := file.splitOn 10
  if servers.getLast? = some [] then servers.dropLast else servers

section Graph

/-! ## The graph of one topology -/

variable {link : Str → Str → Prop} {senders : Str → Prop} {status : List (Str × Str × List Str)}

/-- The announcements of a topology: the senders with all their links. -/
structure StatusOf (link : Str → Str → Prop) (senders : Str → Prop)
    (status : List (Str × Str × List Str)) : Prop where
  keys : (status.map Prod.fst).Nodup
  senders_iff : ∀ u, u ∈ status.map Prod.fst ↔ senders u
  neighbors : ∀ u x, (u, x) ∈ status → ∀ v, v ∈ x.2 ↔ link u v

/-- The dictionary of neighbors: complete for the senders, and for every other key the senders
that list it. -/
structure NeighborsOf (link : Str → Str → Prop) (senders : Str → Prop)
    (neighbors : List (Str × List Str)) : Prop where
  keys : (neighbors.map Prod.fst).Nodup
  senders_keys : ∀ u, senders u → u ∈ neighbors.map Prod.fst
  sender : ∀ u vs, (u, vs) ∈ neighbors → senders u → ∀ v, v ∈ vs ↔ link u v
  silent : ∀ u vs, (u, vs) ∈ neighbors → ¬senders u → ∀ v, v ∈ vs ↔ senders v ∧ link v u

lemma foldl_dictSet {V : Type} (l : List (Str × V)) (hl : (l.map Prod.fst).Nodup) :
    l.foldl (fun d e => dictSet d e.1 e.2) [] = l := by
  induction l using List.reverseRecOn with
  | nil => rfl
  | append_singleton l e ih =>
    rw [List.map_append, List.nodup_append] at hl
    rw [List.foldl_append, ih hl.1, List.foldl_cons, List.foldl_nil, dictSet, if_neg]
    intro hmem
    exact hl.2.2 e.1 hmem e.1 (by simp) rfl

lemma buildGraph_neighbors (order : DictOrder) {status : List (Str × Str × List Str)}
    (hkeys : (status.map Prod.fst).Nodup) :
    (order.items status).foldl (fun d e => dictSet d e.1 e.2.2) [] =
      (order.items status).map fun e => (e.1, e.2.2) := by
  have hperm := (order.perm status).map Prod.fst
  have h := foldl_dictSet ((order.items status).map fun e => (e.1, e.2.2))
    (by rw [List.map_map]; exact hperm.nodup_iff.mpr hkeys)
  rwa [List.foldl_map] at h

lemma StatusOf.neighborsOf (h : StatusOf link senders status) (order : DictOrder) :
    NeighborsOf link senders ((order.items status).map fun e => (e.1, e.2.2)) := by
  have hperm := order.perm status
  have hfst : ((order.items status).map fun e => (e.1, e.2.2)).map Prod.fst = (order.items status).map Prod.fst := by
    rw [List.map_map]
    rfl
  have hsender : ∀ u vs, (u, vs) ∈ (order.items status).map (fun e => (e.1, e.2.2)) →
      senders u ∧ ∀ v, v ∈ vs ↔ link u v := by
    intro u vs hmem
    obtain ⟨e, he, heq⟩ := List.mem_map.mp hmem
    obtain ⟨rfl, rfl⟩ := Prod.mk.inj heq
    have he' := hperm.mem_iff.mp he
    exact ⟨(h.senders_iff _).mp (List.mem_map.mpr ⟨e, he', rfl⟩), h.neighbors e.1 e.2 he'⟩
  refine ⟨?_, fun u hu => ?_, fun u vs hmem _ => (hsender u vs hmem).2,
    fun u vs hmem hu => absurd (hsender u vs hmem).1 hu⟩
  · rw [hfst]
    exact (hperm.map Prod.fst).nodup_iff.mpr h.keys
  · rw [hfst]
    exact (hperm.map Prod.fst).mem_iff.mpr ((h.senders_iff u).mpr hu)

/-- Looking up the silent nodes completes the dictionary. -/
lemma addSilent_spec (order : DictOrder) (nodes : List Str) {neighbors : List (Str × List Str)}
    (h : NeighborsOf link senders neighbors) :
    NeighborsOf link senders (addSilent order nodes neighbors) ∧
      (∀ u ∈ neighbors.map Prod.fst, u ∈ (addSilent order nodes neighbors).map Prod.fst) ∧
      ∀ u ∈ nodes, ∀ v, senders v → link v u → u ∈ (addSilent order nodes neighbors).map Prod.fst := by
  induction nodes generalizing neighbors with
  | nil => exact ⟨h, fun u hu => hu, by simp⟩
  | cons n nodes ih =>
    rw [addSilent]
    by_cases hsome : (dictGet neighbors n).isSome = true
    · have hkey : n ∈ neighbors.map Prod.fst := by
        by_contra hn
        rw [(dictGet_eq_none_iff neighbors n).mpr hn] at hsome
        cases hsome
      rw [if_pos hsome]
      obtain ⟨h', hold, hnew⟩ := ih h
      refine ⟨h', hold, fun u hu v hv hlink => ?_⟩
      rcases List.mem_cons.mp hu with rfl | hu
      · exact hold u hkey
      · exact hnew u hu v hv hlink
    · have hkey : n ∉ neighbors.map Prod.fst := by
        rw [← dictGet_eq_none_iff]
        simpa using hsome
      have hsilent : ¬senders n := fun hs => hkey (h.senders_keys n hs)
      rw [if_neg hsome]
      -- the entries that mention `n` are those of senders
      have hbs : ∀ b, b ∈ (order.items neighbors).filterMap (fun e => if n ∈ e.2 then some e.1 else none) ↔
          senders b ∧ link b n := by
        intro b
        rw [List.mem_filterMap]
        constructor
        · rintro ⟨e, he, heq⟩
          have he' := (order.perm neighbors).mem_iff.mp he
          by_cases hn : n ∈ e.2
          · rw [if_pos hn] at heq
            obtain rfl := Option.some.inj heq
            by_cases hs : senders e.1
            · exact ⟨hs, (h.sender e.1 e.2 he' hs n).mp hn⟩
            · exact absurd ((h.silent e.1 e.2 he' hs n).mp hn).1 hsilent
          · simp [hn] at heq
        · rintro ⟨hs, hlink⟩
          obtain ⟨e, he, rfl⟩ := List.mem_map.mp (h.senders_keys b hs)
          exact ⟨e, (order.perm neighbors).mem_iff.mpr he,
            by rw [if_pos ((h.sender e.1 e.2 he hs n).mpr hlink)]⟩
      generalize (order.items neighbors).filterMap (fun e => if n ∈ e.2 then some e.1 else none) = bs at hbs
      dsimp only
      by_cases hnil : bs = []
      · rw [if_pos hnil]
        obtain ⟨h', hold, hnew⟩ := ih h
        refine ⟨h', hold, fun u hu v hv hlink => ?_⟩
        rcases List.mem_cons.mp hu with rfl | hu
        · have := (hbs v).mpr ⟨hv, hlink⟩
          rw [hnil] at this
          cases this
        · exact hnew u hu v hv hlink
      · rw [if_neg hnil]
        have h₁ : NeighborsOf link senders (neighbors ++ [(n, bs)]) := by
          refine ⟨?_, fun u hu => ?_, fun u vs hmem hu => ?_, fun u vs hmem hu => ?_⟩
          · rw [List.map_append]
            refine List.nodup_append.mpr ⟨h.keys, by simp, fun a ha b hb => ?_⟩
            rintro rfl
            have hak : a = n := by simpa using hb
            exact hkey (hak ▸ ha)
          · rw [List.map_append]
            exact List.mem_append_left _ (h.senders_keys u hu)
          · rcases List.mem_append.mp hmem with hmem | hmem
            · exact h.sender u vs hmem hu
            · obtain ⟨rfl, rfl⟩ := Prod.mk.inj (List.mem_singleton.mp hmem)
              exact absurd hu hsilent
          · rcases List.mem_append.mp hmem with hmem | hmem
            · exact h.silent u vs hmem hu
            · obtain ⟨rfl, rfl⟩ := Prod.mk.inj (List.mem_singleton.mp hmem)
              exact hbs
        obtain ⟨h', hold, hnew⟩ := ih h₁
        refine ⟨h', fun u hu => hold u (by rw [List.map_append]; exact List.mem_append_left _ hu),
          fun u hu v hv hlink => ?_⟩
        rcases List.mem_cons.mp hu with rfl | hu
        · exact hold u (by simp)
        · exact hnew u hu v hv hlink

lemma addNodes_mem (entries : List (Str × List Str)) (nodes : List Str) (u : Str) :
    u ∈ addNodes entries nodes ↔ u ∈ nodes ∨ ∃ e ∈ entries, u ∈ e.2 := by
  have hfold : ∀ (v ns : List Str),
      u ∈ v.foldl (fun ns b => if b ∈ ns then ns else ns ++ [b]) ns ↔ u ∈ ns ∨ u ∈ v := by
    intro v
    induction v with
    | nil => simp
    | cons b v ih =>
      intro ns
      rw [List.foldl_cons, ih]
      by_cases hb : b ∈ ns
      · rw [if_pos hb, List.mem_cons]
        constructor
        · rintro (h | h)
          · exact Or.inl h
          · exact Or.inr (Or.inr h)
        · rintro (h | rfl | h)
          · exact Or.inl h
          · exact Or.inl hb
          · exact Or.inr h
      · rw [if_neg hb]
        simp [or_assoc]
  induction entries generalizing nodes with
  | nil => simp [addNodes]
  | cons e entries ih =>
    obtain ⟨k, v⟩ := e
    rw [addNodes]
    refine (ih _).trans ?_
    rw [hfold v nodes]
    simp [or_assoc]

/-- In the completed dictionary a link is there when one of its ends is a sender. -/
lemma buildGraph_spec (order : DictOrder) (hstatus : StatusOf link senders status)
    (hsymm : ∀ u v, link u v → link v u) :
    (∀ u v, v ∈ (dictGet (buildGraph order status).2 u).getD [] ↔ link u v ∧ (senders u ∨ senders v)) ∧
      ∀ u v, link u v → senders u ∨ senders v → u ∈ (buildGraph order status).1 := by
  have hneighbors := buildGraph_neighbors order hstatus.keys
  have hof := hstatus.neighborsOf order
  rw [← hneighbors] at hof
  obtain ⟨nodes, hnodes⟩ : ∃ nodes, (buildGraph order status).1 = nodes := ⟨_, rfl⟩
  obtain ⟨hdict, -, hsilent⟩ := addSilent_spec order nodes hof
  have hsnd : (buildGraph order status).2 = addSilent order nodes
      ((order.items status).foldl (fun d e => dictSet d e.1 e.2.2) []) := by
    rw [← hnodes]
    rfl
  -- every end of a link with a sender is among the nodes
  have hlisted : ∀ u v, link u v → senders u ∨ senders v → u ∈ nodes := by
    intro u v hlink hs
    rw [← hnodes]
    change u ∈ addNodes _ _
    rw [addNodes_mem]
    rcases hs with hs | hs
    · left
      have := hof.senders_keys u hs
      rw [hneighbors, List.map_map] at this
      exact this
    · right
      obtain ⟨e, he, rfl⟩ := List.mem_map.mp (hof.senders_keys v hs)
      exact ⟨e, (order.perm _).mem_iff.mpr he, (hof.sender e.1 e.2 he hs u).mpr (hsymm _ _ hlink)⟩
  refine ⟨fun u v => ?_, fun u v hlink hs => by rw [hnodes]; exact hlisted u v hlink hs⟩
  rw [hsnd]
  cases hget : dictGet (addSilent order nodes
      ((order.items status).foldl (fun d e => dictSet d e.1 e.2.2) [])) u with
  | none =>
    have hkey := (dictGet_eq_none_iff _ _).mp hget
    simp only [Option.getD_none, List.not_mem_nil, false_iff, not_and, not_or]
    intro hlink
    refine ⟨fun hs => hkey (hdict.senders_keys u hs), fun hs => ?_⟩
    exact hkey (hsilent u (hlisted u v hlink (Or.inr hs)) v hs (hsymm _ _ hlink))
  | some vs =>
    have hmem := (dictGet_eq_some_iff hdict.keys u vs).mp hget
    rw [Option.getD_some]
    by_cases hs : senders u
    · rw [hdict.sender u vs hmem hs]
      simp [hs]
    · rw [hdict.silent u vs hmem hs]
      simp only [hs, false_or]
      exact ⟨fun h => ⟨hsymm _ _ h.2, h.1⟩, fun h => ⟨h.2, hsymm _ _ h.1⟩⟩

lemma bestOf_some (dist : Str → Option Nat) (servers : List Str) (hne : ∀ s ∈ servers, s ≠ []) {b : Str}
    (hb : b ≠ []) : ∃ b', bestOf dist servers (some (b, distOf dist b)) = some (b', distOf dist b') ∧
      (b' = b ∨ b' ∈ servers) ∧ distOf dist b' ≤ distOf dist b ∧
      ∀ s ∈ servers, distOf dist b' ≤ distOf dist s := by
  induction servers generalizing b with
  | nil => exact ⟨b, rfl, Or.inl rfl, le_rfl, by simp⟩
  | cons s servers ih =>
    have hs : s ≠ [] := hne s (by simp)
    have ih := fun {b : Str} => ih (fun x hx => hne x (by simp [hx])) (b := b)
    by_cases hlt : distOf dist s < distOf dist b
    · obtain ⟨b', hbest, hmem, hle, hmin⟩ := ih hs
      refine ⟨b', by simpa [bestOf, hb, hlt] using hbest, Or.inr ?_, by omega, fun x hx => ?_⟩
      · rcases hmem with rfl | hmem
        · simp
        · simp [hmem]
      · rcases List.mem_cons.mp hx with rfl | hx
        · exact hle
        · exact hmin x hx
    · obtain ⟨b', hbest, hmem, hle, hmin⟩ := ih hb
      refine ⟨b', by simpa [bestOf, hb, hlt] using hbest, ?_, hle, fun x hx => ?_⟩
      · rcases hmem with rfl | hmem
        · exact Or.inl rfl
        · exact Or.inr (by simp [hmem])
      · rcases List.mem_cons.mp hx with rfl | hx
        · omega
        · exact hmin x hx

lemma bestOf_spec (dist : Str → Option Nat) {servers : List Str} (hservers : servers ≠ [])
    (hne : ∀ s ∈ servers, s ≠ []) : ∃ b, bestOf dist servers none = some (b, distOf dist b) ∧ b ∈ servers ∧
      ∀ s ∈ servers, distOf dist b ≤ distOf dist s := by
  obtain ⟨s, servers, rfl⟩ := List.exists_cons_of_ne_nil hservers
  obtain ⟨b, hbest, hmem, hle, hmin⟩ :=
    bestOf_some dist servers (fun x hx => hne x (List.mem_cons_of_mem s hx)) (hne s (by simp))
  refine ⟨b, by simpa [bestOf] using hbest, ?_, fun x hx => ?_⟩
  · rcases hmem with rfl | hmem
    · simp
    · simp [hmem]
  · rcases List.mem_cons.mp hx with rfl | hx
    · exact hle
    · exact hmin x hx

/-- The links with a sender at one end. -/
def Announced (link : Str → Str → Prop) (senders : Str → Prop) (u v : Str) : Prop :=
  link u v ∧ (senders u ∨ senders v)

/-- With every server reachable over the announced links, the result is a nearest one. -/
theorem getBestServer_spec (order : DictOrder) {file : List UInt8}
    (hread : readStatus (file.splitOn 10) [] = some status)
    (hstatus : StatusOf link senders status) (hsymm : ∀ u v, link u v → link v u) (client : Str)
    {servers : List Str} (hservers : servers ≠ []) (hne : ∀ s ∈ servers, s ≠ [])
    (hreach : ∀ s ∈ servers, ∃ n, Walk (Announced link senders) client n s) :
    ∃ b, getBestServer order client servers file = some (some b) ∧
      IsNearest (Announced link senders) client (· ∈ servers) b := by
  obtain ⟨hneighbors, hnodes⟩ := buildGraph_spec order hstatus hsymm
  obtain ⟨graph, hgraph⟩ : ∃ graph, buildGraph order status = graph := ⟨_, rfl⟩
  obtain ⟨nodes, neighbors⟩ := graph
  rw [hgraph] at hneighbors hnodes
  have hclosed : ∀ u ∈ insert client nodes.toFinset, ∀ v ∈ (dictGet neighbors u).getD [],
      v ∈ insert client nodes.toFinset := by
    intro u _ v hv
    obtain ⟨hlink, hs⟩ := (hneighbors u v).mp hv
    have hmem := hnodes v u (hsymm _ _ hlink) hs.symm
    exact Finset.mem_insert_of_mem (List.mem_toFinset.mpr hmem)
  have hcard : (insert client nodes.toFinset).card ≤ nodes.length + 1 :=
    (Finset.card_insert_le _ _).trans (Nat.succ_le_succ (List.toFinset_card_le nodes))
  obtain ⟨dist, hdijkstra, hdist⟩ := dijkstra_spec (insert client nodes.toFinset) hclosed
    (Finset.mem_insert_self _ _) hcard
  have hadj : (fun u v => v ∈ (dictGet neighbors u).getD []) = Announced link senders := by
    funext u v
    exact propext (hneighbors u v)
  rw [hadj] at hdist
  obtain ⟨b, hbest, hmem, hmin⟩ := bestOf_spec dist hservers hne
  refine ⟨b, by simp [getBestServer, hread, hgraph, hdijkstra, hbest], hmem, ?_⟩
  -- every server has a distance, so the default is never compared
  have hfound : ∀ s ∈ servers, ∃ d, dist s = some d ∧ IsDist (Announced link senders) client s d := by
    intro s hs
    obtain ⟨d, hd⟩ := exists_isDist (hreach s hs)
    exact ⟨d, (hdist s d).mpr hd, hd⟩
  obtain ⟨d, hd, hbd⟩ := hfound b hmem
  refine ⟨d, hbd, fun s hs n hwalk => ?_⟩
  obtain ⟨e, he, hse⟩ := hfound s hs
  have hle := hmin s hs
  simp only [distOf, hd, he] at hle
  exact (Int.ofNat_le.mp hle).trans (hse.2 n hwalk)

end Graph

end VideoCDN.Reference
