import Mathlib.Data.List.DropRight
import VideoCDN.Lib.VisitOrder
import VideoCDN.Reference.LsaSelection

/-!
# Generated announcements

`lsa/genlsa.py`: the links of a file as a dictionary, and the announcements that a node hears in each round,
in the order of a breadth-first visit from it. Every announcement draws a number that decides whether it gets lost.
-/

namespace VideoCDN.Reference

open CString HopGraph Nameserver

/-- The lines over which a file is iterated; `strip` takes the newlines off. -/
def fileLines (file : Str) : List Str :=
  let lines := file.splitOn 10
  if lines.getLast? = some [] then lines.dropLast else lines

def strip (line : Str) : Str := (line.dropWhile isspace).rdropWhile isspace

/-- `if node not in links: links[node] = []` -/
def addKey (links : List (Str × List Str)) (node : Str) : List (Str × List Str) :=
  if (dictGet links node).isSome then links else dictSet links node []

/-- `links[node].append(neighbor)`, where the key is there. -/
def appendNeighbor (links : List (Str × List Str)) (node neighbor : Str) : List (Str × List Str) :=
  dictSet links node ((dictGet links node).getD [] ++ [neighbor])

/-- What a line adds to the dictionary. -/
def addLink (links : List (Str × List Str)) (a b : Str) : List (Str × List Str) :=
  appendNeighbor (appendNeighbor (addKey (addKey links a) b) a b) b a

/-- The loop of `read_links`. A line with a single field raises. -/
def readLinkLines : List Str → List (Str × List Str) → Option (List (Str × List Str))
  | [], links => some links
  | line :: lines, links =>
    match (strip line).splitOn 32 with
    | a :: b :: _ => readLinkLines lines (addLink links a b)
    | _ => none

def readLinks (linksFile : Str) : Option (List (Str × List Str)) := readLinkLines (fileLines linksFile) []

def lsaString (sender : Str) (seqnum : Nat) (neighbors : List Str) : Str :=
  sender ++ 32 :: (decimal seqnum ++ 32 :: [44].intercalate neighbors)

/-- The loop of `generate_LSAs`: what it prints, and the number of draws after it. Draw `n` is above the loss rate
where `drawn n` holds. A node without a key raises. -/
def announceLoop (links : List (Str × List Str)) (roundNum : Nat) (drawn : Nat → Bool) :
    Nat → List Str → List Str → Nat → Option (List Str × Nat)
  | 0, _, _, _ => none
  | _ + 1, _, [], n => some ([], n)
  | fuel + 1, visited, currentNode :: toVisit, n => do
    let neighbors ← dictGet links currentNode
    let visited := currentNode :: visited
    let (printed, n') ← announceLoop links roundNum drawn fuel visited (addUnseen visited neighbors toVisit) (n + 1)
    return (if drawn n then lsaString currentNode roundNum neighbors :: printed else printed, n')

def generateLsas (links : List (Str × List Str)) (sinkNode : Str) (roundNum : Nat) (drawn : Nat → Bool) (n : Nat) :
    Option (List Str × Nat) := do
  let toVisit ← dictGet links sinkNode
  announceLoop links roundNum drawn (links.length + toVisit.length + 1) [sinkNode] toVisit n

/-- The rounds from `i` on. -/
def generateRounds (links : List (Str × List Str)) (sinkNode : Str) (drawn : Nat → Bool) :
    Nat → Nat → Nat → Option (List Str)
  | 0, _, _ => some []
  | rounds + 1, i, n => do
    let (printed, n) ← generateLsas links sinkNode i drawn n
    let rest ← generateRounds links sinkNode drawn rounds (i + 1) n
    return printed ++ rest

/-- `main`: the text that is printed. -/
def genlsa (linkFile sinkNode : Str) (rounds : Nat) (drawn : Nat → Bool) : Option Str := do
  let links ← readLinks linkFile
  let printed ← generateRounds links sinkNode drawn rounds 0 0
  return printed.flatMap fun line => line ++ [10]

/-! ## The links file -/

/-- A file with a line for each link, the last line with or without its newline. -/
structure IsLinksFile (edges : List (Str × Str)) (file : Str) : Prop where
  text : file = edges.flatMap (fun e => e.1 ++ 32 :: e.2 ++ [10]) ∨
    file ++ [10] = edges.flatMap fun e => e.1 ++ 32 :: e.2 ++ [10]
  fields : ∀ e ∈ edges, IsField e.1 ∧ IsField e.2

/-- Some line joins the two nodes. -/
def Link (edges : List (Str × Str)) (u v : Str) : Prop := (u, v) ∈ edges ∨ (v, u) ∈ edges

/-- The ends opposite to `u`, line by line. -/
def neighborsOf (edges : List (Str × Str)) (u : Str) : List Str :=
  edges.flatMap fun e => (if e.1 = u then [e.2] else []) ++ if e.2 = u then [e.1] else []

variable {edges : List (Str × Str)} {links : List (Str × List Str)}

lemma mem_neighborsOf (u v : Str) : v ∈ neighborsOf edges u ↔ Link edges u v := by
  have hite : ∀ {p : Prop} [Decidable p] (x : Str), v ∈ (if p then [x] else []) ↔ p ∧ v = x := by
    intro p _ x
    by_cases hp : p <;> simp [hp]
  simp only [neighborsOf, List.mem_flatMap, List.mem_append, hite, Link]
  constructor
  · rintro ⟨⟨a, b⟩, he, ⟨rfl, rfl⟩ | ⟨rfl, rfl⟩⟩
    · exact Or.inl he
    · exact Or.inr he
  · rintro (he | he)
    · exact ⟨_, he, Or.inl ⟨rfl, rfl⟩⟩
    · exact ⟨_, he, Or.inr ⟨rfl, rfl⟩⟩

lemma Link.symm {u v : Str} (h : Link edges u v) : Link edges v u := Or.symm h

/-- The dictionary has the nodes with a link as its keys, and their neighbors in the order of the lines. -/
structure LinksOf (edges : List (Str × Str)) (links : List (Str × List Str)) : Prop where
  keys : (links.map Prod.fst).Nodup
  neighbors : ∀ u, (dictGet links u).getD [] = neighborsOf edges u
  isSome : ∀ u, (dictGet links u).isSome ↔ ∃ v, Link edges u v

lemma LinksOf.get (h : LinksOf edges links) {u v : Str} (huv : Link edges u v) :
    dictGet links u = some (neighborsOf edges u) := by
  obtain ⟨x, hx⟩ := Option.isSome_iff_exists.mp ((h.isSome u).mpr ⟨v, huv⟩)
  rw [← h.neighbors, hx, Option.getD_some]

lemma addKey_keys (hkeys : (links.map Prod.fst).Nodup) (node : Str) :
    ((addKey links node).map Prod.fst).Nodup := by
  unfold addKey
  split
  · exact hkeys
  · exact dictSet_keys links node [] hkeys

/-- A new key has no neighbors yet. -/
lemma dictGet_addKey (hkeys : (links.map Prod.fst).Nodup) (node u : Str) :
    (dictGet (addKey links node) u).getD [] = (dictGet links u).getD [] ∧
      ((dictGet (addKey links node) u).isSome ↔ (dictGet links u).isSome ∨ u = node) := by
  unfold addKey
  by_cases hsome : (dictGet links node).isSome = true
  · rw [if_pos hsome]
    refine ⟨rfl, ⟨Or.inl, ?_⟩⟩
    rintro (hu | rfl)
    · exact hu
    · exact hsome
  · rw [if_neg hsome, dictGet_dictSet hkeys]
    by_cases hu : u = node
    · rw [if_pos hu, hu, Option.not_isSome_iff_eq_none.mp hsome]
      simp
    · simp [hu]

lemma dictGet_appendNeighbor (hkeys : (links.map Prod.fst).Nodup) (node neighbor u : Str) :
    (dictGet (appendNeighbor links node neighbor) u).getD [] =
        (dictGet links u).getD [] ++ (if node = u then [neighbor] else []) ∧
      ((dictGet (appendNeighbor links node neighbor) u).isSome ↔ (dictGet links u).isSome ∨ u = node) := by
  rw [appendNeighbor, dictGet_dictSet hkeys]
  by_cases hu : u = node
  · simp [hu]
  · simp [hu, Ne.symm hu]

/-- A line adds each of its ends to the neighbors of the other. -/
lemma LinksOf.addLink (h : LinksOf edges links) (a b : Str) : LinksOf (edges ++ [(a, b)]) (addLink links a b) := by
  have hkeys₁ := addKey_keys h.keys a
  have hkeys₂ := addKey_keys hkeys₁ b
  have hkeys₃ : ((appendNeighbor (addKey (addKey links a) b) a b).map Prod.fst).Nodup :=
    dictSet_keys _ a _ hkeys₂
  refine ⟨dictSet_keys _ b _ hkeys₃, fun u => ?_, fun u => ?_⟩
  · rw [Reference.addLink, (dictGet_appendNeighbor hkeys₃ b a u).1, (dictGet_appendNeighbor hkeys₂ a b u).1,
      (dictGet_addKey hkeys₁ b u).1, (dictGet_addKey h.keys a u).1, h.neighbors u, neighborsOf, neighborsOf,
      List.flatMap_append, List.append_assoc]
    simp
  · rw [Reference.addLink, (dictGet_appendNeighbor hkeys₃ b a u).2, (dictGet_appendNeighbor hkeys₂ a b u).2,
      (dictGet_addKey hkeys₁ b u).2, (dictGet_addKey h.keys a u).2, h.isSome u]
    simp only [Link, List.mem_append, List.mem_singleton, Prod.mk.injEq]
    constructor
    · rintro ((((⟨v, huv⟩ | rfl) | rfl) | rfl) | rfl)
      · exact ⟨v, huv.imp Or.inl Or.inl⟩
      · exact ⟨b, Or.inl (Or.inr ⟨rfl, rfl⟩)⟩
      · exact ⟨a, Or.inr (Or.inr ⟨rfl, rfl⟩)⟩
      · exact ⟨b, Or.inl (Or.inr ⟨rfl, rfl⟩)⟩
      · exact ⟨a, Or.inr (Or.inr ⟨rfl, rfl⟩)⟩
    · rintro ⟨v, (huv | ⟨rfl, rfl⟩) | huv | ⟨rfl, rfl⟩⟩
      · exact Or.inl (Or.inl (Or.inl (Or.inl ⟨v, Or.inl huv⟩)))
      · exact Or.inl (Or.inr rfl)
      · exact Or.inl (Or.inl (Or.inl (Or.inl ⟨v, Or.inr huv⟩)))
      · exact Or.inr rfl

lemma linksOf_nil : LinksOf [] [] := by
  refine ⟨List.nodup_nil, fun _ => rfl, fun u => ?_⟩
  simp [Link, dictGet]

lemma notMem_of_isField {s : Str} (h : IsField s) {c : UInt8} (hc : isspace c = true) : c ∉ s := by
  intro hmem
  have hspace := (h.2 c hmem).2.2
  rw [hc] at hspace
  cases hspace

/-- `strip` leaves a line of two fields as it is. -/
lemma splitOn_strip {a b : Str} (ha : IsField a) (hb : IsField b) :
    (strip (a ++ 32 :: b)).splitOn 32 = [a, b] := by
  obtain ⟨c, cs, rfl⟩ := List.exists_cons_of_ne_nil ha.1
  have hc := (ha.2 c List.mem_cons_self).2.2
  have hlast : (c :: (cs ++ 32 :: b)).getLast (by simp) = b.getLast hb.1 := by
    rw [List.getLast_cons (by simp), List.getLast_append_of_ne_nil (by simp) (by simp), List.getLast_cons hb.1]
  have hstrip : strip ((c :: cs) ++ 32 :: b) = (c :: cs) ++ 32 :: b := by
    rw [strip, List.cons_append, List.dropWhile_cons_of_neg (by simp [hc]), List.rdropWhile_eq_self_iff]
    intro hne hspace
    rw [hlast, (hb.2 _ (List.getLast_mem hb.1)).2.2] at hspace
    cases hspace
  rw [hstrip, List.splitOn_append_cons_self_of_not_mem (notMem_of_isField ha (by decide)),
    List.splitOn_eq_singleton (notMem_of_isField hb (by decide))]

lemma readLinkLines_spec (h : LinksOf edges links) (more : List (Str × Str))
    (hmore : ∀ e ∈ more, IsField e.1 ∧ IsField e.2) :
    ∃ links', readLinkLines (more.map fun e => e.1 ++ 32 :: e.2) links = some links' ∧
      LinksOf (edges ++ more) links' := by
  induction more generalizing edges links with
  | nil => exact ⟨links, rfl, by rwa [List.append_nil]⟩
  | cons e more ih =>
    obtain ⟨ha, hb⟩ := hmore e List.mem_cons_self
    obtain ⟨links', hread, hlinks'⟩ := ih (h.addLink e.1 e.2) fun x hx => hmore x (List.mem_cons_of_mem e hx)
    refine ⟨links', ?_, by simpa using hlinks'⟩
    rw [List.map_cons, readLinkLines, splitOn_strip ha hb]
    exact hread

/-- Iterating over a text gives its lines, whether or not the last one has its newline. -/
lemma fileLines_eq {lines : List Str} (hlines : ∀ l ∈ lines, l ≠ [] ∧ (10 : UInt8) ∉ l) {file : Str}
    (hfile : file = lines.flatMap (fun l => l ++ [10]) ∨ file ++ [10] = lines.flatMap fun l => l ++ [10]) :
    fileLines file = lines := by
  have hsplit : ∀ {lines : List Str}, (∀ l ∈ lines, l ≠ [] ∧ (10 : UInt8) ∉ l) →
      (lines.flatMap fun l => l ++ [10]).splitOn 10 = lines ++ [[]] := by
    intro lines hlines
    induction lines with
    | nil => simp
    | cons l lines ih =>
      rw [List.flatMap_cons, List.append_assoc, List.singleton_append,
        List.splitOn_append_cons_self_of_not_mem (hlines l (by simp)).2, ih fun x hx => hlines x (by simp [hx])]
      rfl
  rcases hfile with rfl | hfile
  · rw [fileLines, hsplit hlines]
    simp
  · have hpieces : file.splitOn 10 ++ [[]] = lines ++ [[]] := by
      rw [← hsplit hlines, ← hfile, List.splitOn_append_cons_self, List.splitOn_nil]
    have hlast : lines.getLast? ≠ some [] := fun h => (hlines [] (List.mem_of_getLast? h)).1 rfl
    rw [fileLines, List.append_cancel_right hpieces, if_neg hlast]

lemma IsLinksFile.readLinks {linkFile : Str} (h : IsLinksFile edges linkFile) :
    ∃ links, readLinks linkFile = some links ∧ LinksOf edges links := by
  have hlines : ∀ l ∈ edges.map (fun e => e.1 ++ 32 :: e.2), l ≠ [] ∧ (10 : UInt8) ∉ l := by
    rw [List.forall_mem_map]
    intro e he
    obtain ⟨ha, hb⟩ := h.fields e he
    refine ⟨by simp, fun hmem => ?_⟩
    rcases List.mem_append.mp hmem with hmem | hmem
    · exact notMem_of_isField ha (by decide) hmem
    · exact notMem_of_isField hb (by decide) ((List.mem_cons.mp hmem).resolve_left (by decide))
  have htext : (edges.map fun e => e.1 ++ 32 :: e.2).flatMap (fun l => l ++ [10]) =
      edges.flatMap fun e => e.1 ++ 32 :: e.2 ++ [10] := by
    rw [List.flatMap_map]
  have hfile := h.text
  rw [← htext] at hfile
  obtain ⟨links, hread, hlinks⟩ := readLinkLines_spec linksOf_nil edges h.fields
  exact ⟨links, by rw [Reference.readLinks, fileLines_eq hlines hfile, hread], hlinks⟩

/-! ## The announcements -/

/-- The nodes of `order` whose announcements of round `i` get through, the first of them with draw `n`. -/
def heardIn (drawn : Nat → Bool) (order : List Str) (i n : Nat) : List (Str × Nat) :=
  (order.zipIdx n).filterMap fun v => if drawn v.2 then some (v.1, i) else none

/-- What gets through in `rounds` rounds from `i` on. -/
def heard (drawn : Nat → Bool) (order : List Str) (i rounds : Nat) : List (Str × Nat) :=
  (List.range' i rounds).flatMap fun i => heardIn drawn order i (i * order.length)

/-- The announcement of a node in a round lists all its links. -/
def announcement (edges : List (Str × Str)) (a : Str × Nat) : Str := lsaString a.1 a.2 (neighborsOf edges a.1)

lemma heardIn_cons (drawn : Nat → Bool) (v : Str) (order : List Str) (i n : Nat) :
    heardIn drawn (v :: order) i n =
      if drawn n then (v, i) :: heardIn drawn order i (n + 1) else heardIn drawn order i (n + 1) := by
  rw [heardIn, List.zipIdx_cons, List.filterMap_cons]
  by_cases hdrawn : drawn n = true
  · simp [hdrawn, heardIn]
  · simp [hdrawn, heardIn]

/-- A round prints the announcements that get through, in the order of the visit. -/
lemma LinksOf.announceLoop (h : LinksOf edges links) (drawn : Nat → Bool) {i fuel n : Nat}
    {visited queue order : List Str} (hvisit : visitLoop (neighborsOf edges) fuel visited queue = some order)
    (horder : ∀ v ∈ order, ∃ w, Link edges v w) :
    announceLoop links i drawn fuel visited queue n =
      some ((heardIn drawn order i n).map (announcement edges), n + order.length) := by
  induction fuel generalizing visited queue order n with
  | zero => cases hvisit
  | succ fuel ih =>
    cases queue with
    | nil =>
      obtain rfl := Option.some.inj hvisit
      rfl
    | cons v queue =>
      rw [visitLoop] at hvisit
      obtain ⟨order, htail, rfl⟩ := Option.map_eq_some_iff.mp hvisit
      obtain ⟨w, hw⟩ := horder v List.mem_cons_self
      have hrest := ih (n := n + 1) htail fun x hx => horder x (List.mem_cons_of_mem v hx)
      have hcount : n + 1 + order.length = n + (v :: order).length := by
        rw [List.length_cons]
        omega
      simp only [Reference.announceLoop, h.get hw, hrest, Option.bind_eq_bind, Option.bind_some]
      rw [hcount, heardIn_cons]
      by_cases hdrawn : drawn n = true
      · simp [hdrawn, announcement]
      · simp [hdrawn]

lemma LinksOf.generateRounds (h : LinksOf edges links) (drawn : Nat → Bool) {sink : Str} {order : List Str}
    (hsink : ∃ v, Link edges sink v) (horder : ∀ v ∈ order, ∃ w, Link edges v w)
    (hvisit : visitLoop (neighborsOf edges) (links.length + (neighborsOf edges sink).length + 1) [sink]
      (neighborsOf edges sink) = some order) (rounds i : Nat) :
    generateRounds links sink drawn rounds i (i * order.length) =
      some ((heard drawn order i rounds).map (announcement edges)) := by
  induction rounds generalizing i with
  | zero => rfl
  | succ rounds ih =>
    obtain ⟨v, hv⟩ := hsink
    have hnext := ih (i + 1)
    rw [Nat.succ_mul] at hnext
    simp only [Reference.generateRounds, generateLsas, h.get hv, h.announceLoop drawn hvisit horder, hnext,
      Option.bind_eq_bind, Option.bind_some]
    simp [heard, List.range'_succ]

lemma linkGraph_eq (edges : List (Str × Str)) : (fun u v => v ∈ neighborsOf edges u) = Link edges := by
  funext u v
  exact propext (mem_neighborsOf u v)

/-- The visit from a node with a link that is not one to itself. -/
lemma LinksOf.visit (h : LinksOf edges links) {sink : Str} (hsink : ∃ v, Link edges sink v)
    (hloop : ¬Link edges sink sink) :
    ∃ order, visitLoop (neighborsOf edges) (links.length + (neighborsOf edges sink).length + 1) [sink]
        (neighborsOf edges sink) = some order ∧
      (∀ x, x ∈ order ↔ (∃ n, Walk (Link edges) sink n x) ∧ x ≠ sink) ∧ NearerFirst (Link edges) sink order ∧
      ((neighborsOf edges sink).Nodup → order.Nodup) := by
  have hkey : ∀ u, u ∈ (links.map Prod.fst).toFinset ↔ ∃ v, Link edges u v := by
    intro u
    rw [List.mem_toFinset, ← h.isSome, ← not_iff_not, ← dictGet_eq_none_iff, Option.not_isSome_iff_eq_none]
  have hclosed : ∀ u ∈ (links.map Prod.fst).toFinset, ∀ v ∈ neighborsOf edges u, v ∈ (links.map Prod.fst).toFinset := by
    intro u _ v hv
    exact (hkey v).mpr ⟨u, ((mem_neighborsOf u v).mp hv).symm⟩
  have hcard : (links.map Prod.fst).toFinset.card = links.length := by
    rw [List.toFinset_card_of_nodup h.keys, List.length_map]
  have hsrc : sink ∉ neighborsOf edges sink := fun hmem => hloop ((mem_neighborsOf sink sink).mp hmem)
  have hvisit := visit_correct (links.map Prod.fst).toFinset hclosed ((hkey sink).mpr hsink) hsrc
    (show _ < links.length + (neighborsOf edges sink).length + 1 by omega)
  rwa [linkGraph_eq] at hvisit

/-- A node that a walk ends in, other than its start, has a link. -/
lemma link_of_walk {u v : Str} (h : ∃ n, Walk (Link edges) u n v) (hne : v ≠ u) : ∃ w, Link edges v w := by
  obtain ⟨n, hwalk⟩ := h
  cases hwalk with
  | zero => exact absurd rfl hne
  | step _ hlink => exact ⟨_, hlink.symm⟩

lemma LinksOf.genlsa (h : LinksOf edges links) {linkFile : Str} (hread : readLinks linkFile = some links) {sink : Str}
    {order : List Str} (hsink : ∃ v, Link edges sink v) (horder : ∀ v ∈ order, ∃ w, Link edges v w)
    (hvisit : visitLoop (neighborsOf edges) (links.length + (neighborsOf edges sink).length + 1) [sink]
      (neighborsOf edges sink) = some order) (rounds : Nat) (drawn : Nat → Bool) :
    genlsa linkFile sink rounds drawn =
      some ((heard drawn order 0 rounds).flatMap fun a => announcement edges a ++ [10]) := by
  have hrounds := h.generateRounds drawn hsink horder hvisit rounds 0
  rw [Nat.zero_mul] at hrounds
  rw [Reference.genlsa, hread, Option.bind_eq_bind, Option.bind_some, hrounds, Option.bind_eq_bind, Option.bind_some,
    Option.pure_def, List.flatMap_map]

/-- In every round each node that the sink reaches, except itself, draws in the order of its distance, and once
where no link of the sink is repeated; the announcement of a node that is not lost lists all its links. -/
theorem genlsa_announces (edges : List (Str × Str)) (linkFile : Str) (hfile : IsLinksFile edges linkFile) (sink : Str)
    (hsink : ∃ v, Link edges sink v) (hloop : ¬Link edges sink sink) :
    ∃ order, (∀ x, x ∈ order ↔ (∃ n, Walk (Link edges) sink n x) ∧ x ≠ sink) ∧
      NearerFirst (Link edges) sink order ∧ ((neighborsOf edges sink).Nodup → order.Nodup) ∧
      ∀ rounds drawn, genlsa linkFile sink rounds drawn =
        some ((heard drawn order 0 rounds).flatMap fun a => announcement edges a ++ [10]) := by
  obtain ⟨links, hread, hlinks⟩ := hfile.readLinks
  obtain ⟨order, hvisit, hmem, hnearer, hnodup⟩ := hlinks.visit hsink hloop
  have horder : ∀ v ∈ order, ∃ w, Link edges v w := fun v hv => link_of_walk ((hmem v).mp hv).1 ((hmem v).mp hv).2
  exact ⟨order, hmem, hnearer, hnodup, hlinks.genlsa hread hsink horder hvisit⟩

section Example

/-- A client and a server at one router. -/
def routerEdges : List (Str × Str) := [(bytes "1.0.0.1", bytes "r1"), (bytes "r1", bytes "2.0.0.1")]

def routerFile : Str := bytes "1.0.0.1 r1\nr1 2.0.0.1\n"

lemma isLinksFile_router : IsLinksFile routerEdges routerFile := ⟨Or.inl rfl, by decide⟩

lemma router_no_loop : ¬Link routerEdges (bytes "r1") (bytes "r1") := by
  rintro (h | h) <;> exact absurd h (by decide)

theorem genlsa_announces_router :
    ∃ order, (∀ x, x ∈ order ↔ (∃ n, Walk (Link routerEdges) (bytes "r1") n x) ∧ x ≠ bytes "r1") ∧
      NearerFirst (Link routerEdges) (bytes "r1") order ∧
      ((neighborsOf routerEdges (bytes "r1")).Nodup → order.Nodup) ∧
      ∀ rounds drawn, genlsa routerFile (bytes "r1") rounds drawn =
        some ((heard drawn order 0 rounds).flatMap fun a => announcement routerEdges a ++ [10]) :=
  genlsa_announces routerEdges routerFile isLinksFile_router (bytes "r1")
    ⟨bytes "2.0.0.1", Or.inl (by decide)⟩ router_no_loop

end Example

end VideoCDN.Reference
