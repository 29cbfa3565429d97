import VideoCDN.Nameserver.LsaFile

/-!
# The topology of an LSA file

The servers file leaves nodes without links. From there an LSA file is parsed into the links
of its announcements, and these agree with the latest announcements only where every link
announced by one end alone is announced last.
-/

namespace VideoCDN.Nameserver

open CString LinkState

variable {t t' : Topo} (junk : Junk)

lemma refines_init : Refines init .start := by
  refine ⟨⟨by simp [init], by simp [init], by simp [init]⟩, by simp [init], fun u v => ?_, by simp [init],
    fun u _ => rfl⟩
  simp [LinksTo, init, State.start]

/-- Adding a node to another list leaves the graph as it is. -/
lemma addNodeByIpWithNum_sameGraph {ip : List UInt8} {l l' : NodeList} {p : Nat}
    (h : addNodeByIpWithNum junk t ip l = some (t', l', p)) : SameGraph t t' := by
  rcases addNodeByIpWithNum_cases junk h with ⟨-, -, rfl, -⟩ | ⟨-, rfl, -, -⟩
  · exact ⟨le_rfl, fun _ _ => rfl, rfl⟩
  · exact ⟨Nat.le_succ _, fun p hp => Function.update_of_ne hp.ne _ _, rfl⟩

/-- What a node for a name and changes outside the graph preserve, reading the servers preserves. -/
lemma parseServerLines_induct {P : Topo → Prop}
    (hnode : ∀ t t' ip p, P t → neighborNode junk t ip = some (t', p) → P t')
    (hsame : ∀ t t', P t → SameGraph t t' → P t') {lines : List (List UInt8)} (ht : P t)
    (h : parseServerLines junk lines t = some t') : P t' := by
  induction lines generalizing t with
  | nil =>
    obtain rfl := Option.some.inj h
    exact ht
  | cons line lines ih =>
    rw [parseServerLines] at h
    split at h
    · simp at h
    · split at h
      · simp at h
      · simp only [Option.bind_eq_bind, Option.bind_eq_some_iff] at h
        obtain ⟨⟨t₁, nodes, p⟩, hadd, ⟨t₂, servers, q⟩, hservers, h⟩ := h
        have hname : neighborNode junk t (cstr line).dropLast = some ({ t₁ with nodes := nodes }, p) := by
          rw [neighborNode_eq, hadd]
          rfl
        have hgraph := addNodeByIpWithNum_sameGraph junk hservers
        have hgraph' : SameGraph { t₁ with nodes := nodes } { t₂ with servers := servers } :=
          ⟨hgraph.next, hgraph.heap, hgraph.nodes⟩
        exact ih (hsame _ _ (hnode _ _ _ _ ht hname) hgraph') h

lemma parseServerFile_induct {P : Topo → Prop}
    (hnode : ∀ t t' ip p, P t → neighborNode junk t ip = some (t', p) → P t')
    (hsame : ∀ t t', P t → SameGraph t t' → P t') {file : Option (List UInt8)} {ret : Int} (ht : P t)
    (h : parseServerFile junk file t = some (ret, t')) : P t' := by
  cases file with
  | none =>
    simp only [parseServerFile, Option.some.injEq, Prod.mk.injEq] at h
    rw [← h.2]
    exact ht
  | some text =>
    simp only [parseServerFile, Option.bind_eq_bind, Option.bind_eq_some_iff, Option.pure_def,
      Option.some.injEq, Prod.mk.injEq] at h
    obtain ⟨t₁, hlines, -, rfl⟩ := h
    have hgraph : SameGraph t₁ { t₁ with servers := { t₁.servers with header := t₁.servers.header.reverse } } :=
      ⟨le_rfl, fun _ _ => rfl, rfl⟩
    exact hsame _ _ (parseServerLines_induct junk hnode hsame ht hlines) hgraph

/-- The servers file announces nothing. -/
lemma parseServerFile_refines (hjunk : ∀ a, junk.neighborNum a = 0) {s : State (List UInt8)}
    {file : Option (List UInt8)} {ret : Int} (R : Refines t s)
    (h : parseServerFile junk file t = some (ret, t')) : Refines t' s := by
  apply parseServerFile_induct junk _ _ R h
  · exact fun t t' ip p R hnode => (neighborNode_refines junk hjunk R hnode).1
  · exact fun t t' R hsame => hsame.refines R

/-- The announcements of the lines. -/
def lsas (lines : List LsaLine) : List (Lsa (List UInt8)) := lines.map LsaLine.lsa

lemma lsas_seq (lines : List LsaLine) : ∀ l ∈ lsas lines, 0 ≤ l.seq := by
  intro l hl
  obtain ⟨line, -, rfl⟩ := List.mem_map.mp hl
  exact Int.natCast_nonneg line.seq

/-- After the servers file, an LSA file is parsed into the links of its announcements. -/
theorem parseLsaFile_refines (hjunk : ∀ a, junk.neighborNum a = 0) {serverFile : Option (List UInt8)}
    {ret : Int} (hserver : parseServerFile junk serverFile init = some (ret, t)) {lines : List LsaLine}
    {file : List UInt8} (hfile : IsLsaFile lines file)
    (h : parseLsaFile junk (some file) t = some (0, t')) : Refines t' (LinkState.run (lsas lines)) :=
  parseLsaLines_refines junk hjunk hfile (parseServerFile_refines junk hjunk refines_init hserver) h

/-- There is an edge between two nodes: each is among the other's neighbors. -/
def HasEdge (t : Topo) (u v : List UInt8) : Prop := LinksTo t u v ∧ LinksTo t v u

/-- The edges are those that the latest announcement of one end lists exactly when, wherever
the latest announcement of `v` does not list `u` back, it comes before the one of `u`. -/
theorem hasEdge_iff_latest_lists (hjunk : ∀ a, junk.neighborNum a = 0)
    (serverFile : Option (List UInt8)) (ret : Int) (t₀ t : Topo)
    (hserver : parseServerFile junk serverFile init = some (ret, t₀)) (lines : List LsaLine)
    (file : List UInt8) (hfile : IsLsaFile lines file) (h : parseLsaFile junk (some file) t₀ = some (0, t)) :
    (∀ u v, HasEdge t u v ↔ Lists (lsas lines) u v ∨ Lists (lsas lines) v u) ↔
      ∀ u v i l j m, IsLatest (lsas lines) u i l → v ∈ l.neighbors → IsLatest (lsas lines) v j m →
        u ∉ m.neighbors → j < i := by
  have R := parseLsaFile_refines junk hjunk hserver hfile h
  rw [← mutual_iff_lists_iff (lsas_seq lines)]
  simp only [HasEdge, R.links]

section Example

def lineA : LsaLine := ⟨bytes "1.0.0.1", 0, [bytes "2.0.0.1"], by decide, by decide, by decide⟩
def lineB : LsaLine := ⟨bytes "2.0.0.1", 0, [bytes "3.0.0.1"], by decide, by decide, by decide⟩

/-- The file of two lines. -/
def twoLines (l m : LsaLine) : List UInt8 := l.text ++ [10] ++ (m.text ++ [10])

lemma isLsaFile_twoLines (l m : LsaLine) : IsLsaFile [l, m] (twoLines l m) := by
  left
  simp [twoLines]

lemma parse_twoLines (l m : LsaLine) (h : ((parseLsaFile zeroJunk (some (twoLines l m)) init).map
      Prod.fst) = some 0) :
    ∃ t, parseLsaFile zeroJunk (some (twoLines l m)) init = some (0, t) := by
  obtain ⟨⟨ret, t⟩, ht, rfl⟩ := Option.map_eq_some_iff.mp h
  exact ⟨t, ht⟩

theorem hasEdge_iff_latest_lists_two :
    ∃ t, parseLsaFile zeroJunk (some (twoLines lineB lineA)) init = some (0, t) ∧
      ((∀ u v, HasEdge t u v ↔ Lists (lsas [lineB, lineA]) u v ∨ Lists (lsas [lineB, lineA]) v u) ↔
        ∀ u v i l j m, IsLatest (lsas [lineB, lineA]) u i l → v ∈ l.neighbors →
          IsLatest (lsas [lineB, lineA]) v j m → u ∉ m.neighbors → j < i) := by
  obtain ⟨t, ht⟩ := parse_twoLines lineB lineA (by decide)
  exact ⟨t, ht, hasEdge_iff_latest_lists zeroJunk (fun _ => rfl) none (-1) init t rfl
    [lineB, lineA] _ (isLsaFile_twoLines _ _) ht⟩

/-- 1.0.0.1 lists 2.0.0.1, whose own announcement comes next: the edge is lost. -/
theorem later_announcement_drops_edge :
    ¬∀ (junk : Junk), (∀ a, junk.neighborNum a = 0) → ∀ (serverFile : Option (List UInt8)) (ret : Int)
      (t₀ t : Topo), parseServerFile junk serverFile init = some (ret, t₀) → ∀ (lines : List LsaLine)
      (file : List UInt8), IsLsaFile lines file → parseLsaFile junk (some file) t₀ = some (0, t) →
      ∀ u v, HasEdge t u v ↔ Lists (lsas lines) u v ∨ Lists (lsas lines) v u := by
  intro h
  obtain ⟨t, ht⟩ := parse_twoLines lineA lineB (by decide)
  have hfile := isLsaFile_twoLines lineA lineB
  have hedges := h zeroJunk (fun _ => rfl) none (-1) init t rfl _ _ hfile ht
  have hserver : parseServerFile zeroJunk none init = some (-1, init) := rfl
  have R := parseLsaFile_refines zeroJunk (fun _ => rfl) hserver hfile ht
  simp only [HasEdge, R.links] at hedges
  have hA : IsLatest (lsas [lineA, lineB]) lineA.sender 0 lineA.lsa := by
    refine ⟨rfl, rfl, fun j m hm hs => ?_⟩
    rcases j with _ | _ | j
    · obtain rfl := Option.some.inj hm
      exact ⟨le_rfl, fun h => absurd h (by decide)⟩
    · obtain rfl := Option.some.inj hm
      exact absurd hs (by decide)
    · cases hm
  have hB : IsLatest (lsas [lineA, lineB]) lineB.sender 1 lineB.lsa := by
    refine ⟨rfl, rfl, fun j m hm hs => ?_⟩
    rcases j with _ | _ | j
    · obtain rfl := Option.some.inj hm
      exact absurd hs (by decide)
    · obtain rfl := Option.some.inj hm
      exact ⟨le_rfl, fun h => absurd h (by decide)⟩
    · cases hm
  have hlt := (mutual_iff_lists_iff (lsas_seq _)).mp hedges _ _ _ _ _ _ hA (by decide) hB (by decide)
  exact absurd hlt (by decide)

end Example

end VideoCDN.Nameserver
