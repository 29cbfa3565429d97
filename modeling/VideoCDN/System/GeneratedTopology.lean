import VideoCDN.Reference.GenLsa
import VideoCDN.System.NearestService

/-!
# From the links of a topology to the answers

The announcements that `genlsa.py` prints for a topology are a file the nameserver reads. When for every link an
announcement of one end gets through, the answers are nearest servers in the topology itself.
-/

namespace VideoCDN.System

open CString Inet HopGraph Nameserver Reference

variable {edges : List (Str × Str)}

/-- The names and the announcements of a topology fit the buffers of the nameserver. -/
structure FitsTables (edges : List (Str × Str)) (rounds : Nat) : Prop where
  names : ∀ e ∈ edges, e.1.length < maxIpLen ∧ e.2.length < maxIpLen
  lines : ∀ u v, Link edges u v → ∀ i < rounds, (announcement edges (u, i)).length + 1 < maxLineLen
  rounds : rounds ≤ 2 ^ 31

/-- Some line of the file is an announcement of `u`. -/
def SenderIn (lsaFile u : Str) : Prop := ∃ line ∈ fileLines lsaFile, (line.splitOn 32).head? = some u

lemma link_isField (hfields : ∀ e ∈ edges, IsField e.1 ∧ IsField e.2) {u v : Str} (h : Link edges u v) :
    IsField u := by
  rcases h with h | h
  · exact (hfields _ h).1
  · exact (hfields _ h).2

/-- An announcement as a line of the nameserver's file. -/
def announcedLine (hfields : ∀ e ∈ edges, IsField e.1 ∧ IsField e.2) (a : Str × Nat) (ha : ∃ v, Link edges a.1 v) :
    LsaLine where
  sender := a.1
  seq := a.2
  neighbors := neighborsOf edges a.1
  sender_field := by
    obtain ⟨v, hv⟩ := ha
    exact link_isField hfields hv
  neighbors_ne := by
    obtain ⟨v, hv⟩ := ha
    exact List.ne_nil_of_mem ((mem_neighborsOf a.1 v).mpr hv)
  neighbors_field := fun v hv => link_isField hfields ((mem_neighborsOf a.1 v).mp hv).symm

lemma mem_heard {drawn : Nat → Bool} {order : List Str} {rounds : Nat} {a : Str × Nat}
    (h : a ∈ heard drawn order 0 rounds) : a.1 ∈ order ∧ a.2 < rounds := by
  obtain ⟨i, hi, h⟩ := List.mem_flatMap.mp h
  obtain ⟨⟨v, n⟩, hp, heq⟩ := List.mem_filterMap.mp h
  by_cases hdrawn : drawn n = true
  · rw [if_pos hdrawn] at heq
    obtain rfl := Option.some.inj heq
    rw [List.mem_range'_1] at hi
    have hv : v ∈ order := List.fst_mem_of_mem_zipIdx hp
    exact ⟨hv, by simpa using hi.2⟩
  · rw [if_neg hdrawn] at heq
    cases heq

lemma fileLines_isLsaFile {lines : List LsaLine} {file : Str} (hfile : IsLsaFile lines file) :
    fileLines file = lines.map LsaLine.text := by
  apply fileLines_eq
  · rw [List.forall_mem_map]
    intro l _
    exact ⟨by simp [LsaLine.text], l.newline_notMem_text⟩
  · rw [List.flatMap_map]
    exact hfile

lemma senderIn_iff {lines : List LsaLine} {file : Str} (hfile : IsLsaFile lines file) (u : Str) :
    SenderIn file u ↔ Sender lines u := by
  rw [SenderIn, fileLines_isLsaFile hfile]
  constructor
  · rintro ⟨line, hline, hhead⟩
    obtain ⟨l, hl, rfl⟩ := List.mem_map.mp hline
    rw [splitOn_text] at hhead
    exact ⟨l, hl, Option.some.inj hhead⟩
  · rintro ⟨l, hl, rfl⟩
    exact ⟨l.text, List.mem_map_of_mem hl, by rw [splitOn_text]; rfl⟩

/-- What `genlsa` prints is a file of the nameserver that agrees with the topology. -/
lemma genlsa_lines {linkFile : Str} (hfile : IsLinksFile edges linkFile) {sink : Str}
    (hsink : ∃ v, Link edges sink v) (hloop : ¬Link edges sink sink) {rounds : Nat} (hfits : FitsTables edges rounds)
    {drawn : Nat → Bool} {lsaFile : Str} (hgen : genlsa linkFile sink rounds drawn = some lsaFile) :
    ∃ lines, IsLsaFile lines lsaFile ∧ AllLinks (Link edges) lines ∧ (∀ l ∈ lines, l.Fits) ∧
      ∀ u, Sender lines u → ∃ n, Walk (Link edges) sink n u := by
  obtain ⟨links, hread, hlinks⟩ := hfile.readLinks
  obtain ⟨order, hvisit, hmem, -, -⟩ := hlinks.visit hsink hloop
  have horder : ∀ v ∈ order, ∃ w, Link edges v w := fun v hv => link_of_walk ((hmem v).mp hv).1 ((hmem v).mp hv).2
  have hprinted := hlinks.genlsa hread hsink horder hvisit rounds drawn
  obtain rfl := Option.some.inj (hprinted.symm.trans hgen)
  have hheard : ∀ a ∈ heard drawn order 0 rounds, ∃ v, Link edges a.1 v := fun a ha => horder a.1 (mem_heard ha).1
  obtain ⟨lines, hmap, hline⟩ : ∃ lines : List LsaLine,
      lines.map LsaLine.text = (heard drawn order 0 rounds).map (announcement edges) ∧
      ∀ l ∈ lines, ∃ a ∈ heard drawn order 0 rounds, ∃ ha, l = announcedLine hfile.fields a ha := by
    refine ⟨(heard drawn order 0 rounds).pmap (announcedLine hfile.fields) hheard, ?_, fun l hl => ?_⟩
    · rw [List.map_pmap]
      exact List.pmap_eq_map (f := announcement edges) hheard
    · obtain ⟨a, ha, rfl⟩ := List.mem_pmap.mp hl
      exact ⟨a, ha, hheard a ha, rfl⟩
  refine ⟨lines, Or.inl ?_, fun l hl v => ?_, fun l hl => ?_, ?_⟩
  · have htext := congrArg (List.flatMap fun line => line ++ [10]) hmap
    rw [List.flatMap_map, List.flatMap_map] at htext
    exact htext.symm
  · obtain ⟨a, -, ha, rfl⟩ := hline l hl
    exact mem_neighborsOf a.1 v
  · obtain ⟨a, hmema, ⟨v, hv⟩, rfl⟩ := hline l hl
    have hname : ∀ {u w : Str}, Link edges u w → u.length < maxIpLen := by
      rintro u w (h | h)
      · exact (hfits.names _ h).1
      · exact (hfits.names _ h).2
    obtain ⟨-, hround⟩ := mem_heard hmema
    exact ⟨hname hv, fun n hn => hname ((mem_neighborsOf a.1 n).mp hn).symm, hround.trans_le hfits.rounds,
      hfits.lines a.1 v hv a.2 hround⟩
  · rintro u ⟨l, hl, rfl⟩
    obtain ⟨a, hmema, -, rfl⟩ := hline l hl
    exact ((hmem a.1).mp (mem_heard hmema).1).1

/-- Where one end of every link that the sink reaches is heard, the graph of the file has the walks of the topology. -/
lemma fileGraph_walk_iff {lines : List LsaLine} (hlinks : AllLinks (Link edges) lines) {sink client : Str}
    (hclient : ∃ n, Walk (Link edges) sink n client)
    (hheard : ∀ u v, (∃ n, Walk (Link edges) sink n u) → Link edges u v → Sender lines u ∨ Sender lines v)
    (n : Nat) (v : Str) : Walk (FileGraph lines) client n v ↔ Walk (Link edges) client n v := by
  symm
  apply walk_congr (fun u => ∃ n, Walk (Link edges) sink n u) hclient
  · rintro u v ⟨n, hwalk⟩ hlink
    exact ⟨n + 1, .step hwalk hlink⟩
  · intro u v hu
    rw [fileGraph_iff (fun _ _ h => h.symm) hlinks]
    exact ⟨fun hlink => ⟨hlink, hheard u v hu hlink⟩, And.left⟩

/-- The nameserver on the announcements that get through: when for every link that the sink reaches one end is heard,
whatever the network does, a call that ends with an address ends with that of a server at minimal hop distance in the
topology, for every client that is heard. -/
theorem generated_service_nearest (junk : Junk) (hjunk : ∀ a, junk.neighborNum a = 0) (edges : List (Str × Str))
    (linkFile : Str) (hfile : IsLinksFile edges linkFile) (sink : Str) (hsink : ∃ v, Link edges sink v)
    (hloop : ¬Link edges sink sink) (rounds : Nat) (hfits : FitsTables edges rounds) (drawn : Nat → Bool) (lsaFile : Str)
    (hgen : genlsa linkFile sink rounds drawn = some lsaFile)
    (hheard : ∀ u v, (∃ n, Walk (Link edges) sink n u) → Link edges u v → SenderIn lsaFile u ∨ SenderIn lsaFile v)
    (servers : List Str) (serverFile : Str) (hserver : IsServerFile servers serverFile)
    (hquad : ∀ line ∈ servers, ∃ a, inetAton line = some a)
    (hreach : ∀ s ∈ servers, ∃ n, Walk (Link edges) sink n s) (clients : Nat → Client)
    (hclients : ∀ i, SenderIn lsaFile (inetNtoa (clients i).addr) ∧ inetNtoa (clients i).addr ∉ servers) :
    ∃ s, startRun junk (some serverFile) (some lsaFile) = some (some s) ∧
      NearestService (Link edges) servers clients s := by
  obtain ⟨lines, hlines, hlinks, hfit, hsender⟩ := genlsa_lines hfile hsink hloop hfits hgen
  simp only [senderIn_iff hlines] at hheard hclients
  have hwalk := fun i => fileGraph_walk_iff hlinks (hsender _ (hclients i).1) hheard
  have hannounces : Announces (Link edges) lines servers clients := by
    refine ⟨fun _ _ h => h.symm, hlinks, hfit, fun i => (hclients i).2, fun i => (hclients i).1, fun i s hs => ?_⟩
    obtain ⟨m, hm⟩ := hsender _ (hclients i).1
    obtain ⟨n, hn⟩ := hreach s hs
    exact ⟨m + n, (hwalk i _ _).mpr (walk_trans (walk_symm (fun _ _ h => h.symm) hm) hn)⟩
  obtain ⟨s, hstart, hretval, hrunning, hrouted⟩ := startRun_routed hjunk hannounces hlines hserver
  have hrouted' : Routed (Link edges) servers clients s.serve := by
    intro i
    obtain ⟨table, ip, htable, hlookup, hnearest⟩ := hrouted i
    exact ⟨table, ip, htable, hlookup, (isNearest_congr (hwalk i) fun _ => Iff.rfl).mp hnearest⟩
  exact ⟨s, hstart, hrouted'.nearestService hretval hrunning hquad⟩

section Example

/-- What is printed in one round at the router. -/
def routerLsas : Str := bytes "1.0.0.1 0 r1\n2.0.0.1 0 r1\n"

lemma fitsTables_router : FitsTables routerEdges 1 := by
  refine ⟨by decide, fun u v h i hi => ?_, by decide⟩
  obtain rfl : i = 0 := by omega
  have hends : ∀ e ∈ routerEdges, (announcement routerEdges (e.1, 0)).length + 1 < maxLineLen ∧
      (announcement routerEdges (e.2, 0)).length + 1 < maxLineLen := by decide
  rcases h with h | h
  · exact (hends _ h).1
  · exact (hends _ h).2

lemma senderIn_client : SenderIn routerLsas (bytes "1.0.0.1") := ⟨bytes "1.0.0.1 0 r1", by decide, by decide⟩

lemma senderIn_server : SenderIn routerLsas (bytes "2.0.0.1") := ⟨bytes "2.0.0.1 0 r1", by decide, by decide⟩

theorem generated_service_nearest_router : ∃ s,
    startRun zeroJunk (some (bytes "2.0.0.1\n")) (some routerLsas) = some (some s) ∧
    NearestService (Link routerEdges) [bytes "2.0.0.1"] oneProxy s := by
  have hlink : Link routerEdges (bytes "r1") (bytes "2.0.0.1") := Or.inl (by decide)
  have hclient : inetNtoa ⟨1, 0, 0, 1⟩ = bytes "1.0.0.1" := by decide
  refine generated_service_nearest zeroJunk (fun _ => rfl) routerEdges routerFile isLinksFile_router (bytes "r1")
    ⟨_, hlink⟩ router_no_loop 1 fitsTables_router (fun _ => true) routerLsas (by decide) ?_ [bytes "2.0.0.1"] _
    ⟨rfl, by decide, by decide, by decide, by decide⟩ ?_ ?_ oneProxy fun i => ?_
  · have hends : ∀ e ∈ routerEdges, SenderIn routerLsas e.1 ∨ SenderIn routerLsas e.2 := by
      rw [routerEdges, List.forall_mem_cons, List.forall_mem_singleton]
      exact ⟨Or.inl senderIn_client, Or.inr senderIn_server⟩
    rintro u v - (h | h)
    · exact hends _ h
    · exact (hends _ h).symm
  · intro line hline
    obtain rfl := List.mem_singleton.mp hline
    exact ⟨⟨2, 0, 0, 1⟩, by decide⟩
  · intro s hs
    obtain rfl := List.mem_singleton.mp hs
    exact ⟨1, .step .zero hlink⟩
  · change SenderIn routerLsas (inetNtoa ⟨1, 0, 0, 1⟩) ∧ inetNtoa ⟨1, 0, 0, 1⟩ ∉ [bytes "2.0.0.1"]
    rw [hclient]
    exact ⟨senderIn_client, by decide⟩

end Example

end VideoCDN.System
