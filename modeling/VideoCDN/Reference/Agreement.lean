import VideoCDN.Nameserver.Startup
import VideoCDN.Reference.BestServer

/-!
# The nameserver agrees with the reference

Both programs read the same files, build their graphs in different ways and search them in
different ways. With all announcements taken from one symmetric topology, both graphs are
the links with a sender at one end, and both choices are servers at the same hop distance.
-/

namespace VideoCDN.Reference

open CString HopGraph LinkState Nameserver

variable {link : Str → Str → Prop} {lines : List LsaLine}

/-- The graph of a file: an edge for every line that lists it. -/
def FileGraph (lines : List LsaLine) (u v : Str) : Prop :=
  ∃ l ∈ lines, (l.sender = u ∧ v ∈ l.neighbors) ∨ (l.sender = v ∧ u ∈ l.neighbors)

/-- Every line lists all links of its sender. -/
def AllLinks (link : Str → Str → Prop) (lines : List LsaLine) : Prop :=
  ∀ l ∈ lines, ∀ v, v ∈ l.neighbors ↔ link l.sender v

/-- Some line was sent by `u`. -/
def Sender (lines : List LsaLine) (u : Str) : Prop := ∃ l ∈ lines, l.sender = u

lemma fileGraph_iff (hsymm : ∀ u v, link u v → link v u) (hlinks : AllLinks link lines) (u v : Str) :
    FileGraph lines u v ↔ Announced link (Sender lines) u v := by
  constructor
  · rintro ⟨l, hl, ⟨rfl, hv⟩ | ⟨rfl, hu⟩⟩
    · exact ⟨(hlinks l hl v).mp hv, Or.inl ⟨l, hl, rfl⟩⟩
    · exact ⟨hsymm _ _ ((hlinks l hl u).mp hu), Or.inr ⟨l, hl, rfl⟩⟩
  · rintro ⟨hlink, ⟨l, hl, rfl⟩ | ⟨l, hl, rfl⟩⟩
    · exact ⟨l, hl, Or.inl ⟨rfl, (hlinks l hl v).mpr hlink⟩⟩
    · exact ⟨l, hl, Or.inr ⟨rfl, (hlinks l hl u).mpr (hsymm _ _ hlink)⟩⟩

/-! ## The reference reads the file -/

lemma splitOn_text (l : LsaLine) : l.text.splitOn 32 = [l.sender, decimal l.seq, l.csv] := by
  have hblank : ∀ {w : Str}, IsWord w → (32 : UInt8) ∉ w := fun hw h => absurd (hw 32 h).2 (by decide)
  rw [LsaLine.text, List.splitOn_append_cons_self_of_not_mem (hblank l.sender_field.isWord),
    List.splitOn_append_cons_self_of_not_mem (hblank (isWord_decimal l.seq)),
    List.splitOn_eq_singleton (hblank l.isWord_csv)]

lemma splitOn_csv (l : LsaLine) : l.csv.splitOn 44 = l.neighbors :=
  List.splitOn_intercalate 44 (fun n hn hmem => ((l.neighbors_field n hn).2 44 hmem).2.1 rfl) l.neighbors_ne

/-- The lines that Python splits a file into; behind a last newline there is an empty one. -/
lemma splitOn_file {l : LsaLine} {file : Str} (hfile : IsLsaFile (l :: lines) file) :
    ∃ rest, IsLsaFile lines rest ∧
      (file.splitOn 10 = l.text :: rest.splitOn 10 ∨ file.splitOn 10 = [l.text] ∧ rest = []) := by
  rcases isLsaFile_cons l hfile with ⟨rest, rfl, hrest⟩ | ⟨rfl, rfl⟩
  · exact ⟨rest, hrest, Or.inl (List.splitOn_append_cons_self_of_not_mem l.newline_notMem_text _)⟩
  · exact ⟨[], Or.inl rfl, Or.inr ⟨List.splitOn_eq_singleton l.newline_notMem_text, rfl⟩⟩

lemma statusOf_dictSet {senders : Str → Prop} {status : List (Str × Str × List Str)}
    (h : StatusOf link senders status) {sender : Str} (seq : Str) {neighbors : List Str}
    (hneighbors : ∀ v, v ∈ neighbors ↔ link sender v) :
    StatusOf link (fun u => senders u ∨ u = sender) (dictSet status sender (seq, neighbors)) := by
  refine ⟨dictSet_keys status sender _ h.keys, fun u => ?_, fun u x hx v => ?_⟩
  · constructor
    · intro hu
      obtain ⟨⟨k, x⟩, hx, rfl⟩ := List.mem_map.mp hu
      rcases mem_dictSet.mp hx with ⟨rfl, -⟩ | ⟨-, hx⟩
      · exact Or.inr rfl
      · exact Or.inl ((h.senders_iff k).mp (List.mem_map.mpr ⟨_, hx, rfl⟩))
    · intro hu
      by_cases heq : u = sender
      · exact List.mem_map.mpr ⟨(u, _), mem_dictSet.mpr (Or.inl ⟨heq, rfl⟩), rfl⟩
      · obtain ⟨e, he, rfl⟩ := List.mem_map.mp ((h.senders_iff u).mpr (hu.resolve_right heq))
        exact List.mem_map.mpr ⟨e, mem_dictSet.mpr (Or.inr ⟨heq, he⟩), rfl⟩
  · rcases mem_dictSet.mp hx with ⟨rfl, rfl⟩ | ⟨-, hx⟩
    · exact hneighbors v
    · exact h.neighbors u x hx v

lemma StatusOf.congr {senders senders' : Str → Prop} {status : List (Str × Str × List Str)}
    (h : StatusOf link senders status) (heq : ∀ u, senders u ↔ senders' u) : StatusOf link senders' status :=
  ⟨h.keys, fun u => (h.senders_iff u).trans (heq u), h.neighbors⟩

lemma readStatus_file {l : LsaLine} {file rest : Str} {status : List (Str × Str × List Str)}
    (h : file.splitOn 10 = l.text :: rest.splitOn 10 ∨ file.splitOn 10 = [l.text] ∧ rest = []) :
    readStatus (file.splitOn 10) status = readStatus (l.text :: rest.splitOn 10) status := by
  rcases h with hpieces | ⟨hpieces, rfl⟩
  · rw [hpieces]
  · rw [hpieces]
    simp [readStatus, splitOn_text]

lemma readStatus_spec {file : Str} (hfile : IsLsaFile lines file) (hlinks : AllLinks link lines)
    {senders : Str → Prop} {status : List (Str × Str × List Str)} (hstatus : StatusOf link senders status) :
    ∃ status', readStatus (file.splitOn 10) status = some status' ∧
      StatusOf link (fun u => senders u ∨ Sender lines u) status' := by
  induction lines generalizing file senders status with
  | nil =>
    rw [hfile.nil_eq]
    exact ⟨status, by simp [readStatus], hstatus.congr (by simp [Sender])⟩
  | cons l lines ih =>
    have hne : l.text ≠ [] := by simp [LsaLine.text]
    obtain ⟨rest, hrest, hpieces⟩ := splitOn_file hfile
    have hl : ∀ v, v ∈ l.neighbors ↔ link l.sender v := hlinks l (by simp)
    have hsender : ∀ u, (senders u ∨ u = l.sender) ∨ Sender lines u ↔ senders u ∨ Sender (l :: lines) u := by
      intro u
      simp only [Sender, List.mem_cons, exists_eq_or_imp, or_assoc, eq_comm (a := u)]
    -- whether or not the line is newer, its sender is in the dictionary afterwards
    obtain ⟨status₁, hread, hstatus₁⟩ : ∃ status₁, readStatus (l.text :: rest.splitOn 10) status =
        readStatus (rest.splitOn 10) status₁ ∧ StatusOf link (fun u => senders u ∨ u = l.sender) status₁ := by
      have hset := statusOf_dictSet hstatus (decimal l.seq) hl
      rw [readStatus, if_neg hne, splitOn_text]
      cases hget : dictGet status l.sender with
      | none => exact ⟨_, by simp [hget, splitOn_csv], hset⟩
      | some old =>
        have hmem := (dictGet_eq_some_iff hstatus.keys _ _).mp hget
        have hold : senders l.sender := (hstatus.senders_iff _).mp (List.mem_map.mpr ⟨_, hmem, rfl⟩)
        by_cases hnewer : old.1 < decimal l.seq
        · exact ⟨_, by simp [hget, splitOn_csv, hnewer], hset⟩
        · refine ⟨status, by simp [hget, hnewer], hstatus.congr fun u => ⟨Or.inl, ?_⟩⟩
          rintro (hu | rfl)
          · exact hu
          · exact hold
    obtain ⟨status₂, hread₂, hstatus₂⟩ := ih hrest (fun m hm => hlinks m (by simp [hm])) hstatus₁
    exact ⟨status₂, by rw [readStatus_file hpieces, hread, hread₂], hstatus₂.congr hsender⟩

lemma serverSetup_eq {servers : List Str} {file : Str} (hfile : IsServerFile servers file) :
    serverSetup file = servers := by
  have hsplit : ∀ {servers : List Str}, (∀ s ∈ servers, (10 : UInt8) ∉ s) →
      (servers.flatMap fun s => s ++ [10]).splitOn 10 = servers ++ [[]] := by
    intro servers h
    induction servers with
    | nil => simp
    | cons s servers ih =>
      rw [List.flatMap_cons, List.append_assoc, List.singleton_append,
        List.splitOn_append_cons_self_of_not_mem (h s (by simp)), ih fun x hx => h x (by simp [hx])]
      rfl
  have h := hsplit fun s hs h10 => ((hfile.name s hs).2 10 h10).2 rfl
  rw [serverSetup, hfile.text, h]
  simp

/-! ## The nameserver reads the file -/

lemma run_links_announced (hsymm : ∀ u v, link u v → link v u) (hlinks : AllLinks link lines) (u v : Str) :
    (LinkState.run (lsas lines)).links u v ↔ Announced link (Sender lines) u v := by
  have hlsa : ∀ m ∈ lsas lines, Sender lines m.sender ∧ ∀ x, x ∈ m.neighbors ↔ link m.sender x := by
    intro m hm
    obtain ⟨l, hl, rfl⟩ := List.mem_map.mp hm
    exact ⟨⟨l, hl, rfl⟩, hlinks l hl⟩
  have hlatest : ∀ u, Sender lines u → ∃ i m, IsLatest (lsas lines) u i m := by
    rintro u ⟨l, hl, rfl⟩
    rcases run_seq (lsas_seq lines) l.sender with ⟨i, m, hm, -⟩ | ⟨hnone, -⟩
    · exact ⟨i, m, hm⟩
    · exact absurd rfl (hnone l.lsa (List.mem_map.mpr ⟨l, hl, rfl⟩))
  rw [run_links_iff (lsas_seq lines)]
  constructor
  · rintro (⟨i, m, hm, hv⟩ | ⟨k, m, hm, rfl, hu, -, -⟩)
    · obtain ⟨hs, hneighbors⟩ := hlsa m (List.mem_of_getElem? hm.1)
      obtain rfl := hm.2.1
      exact ⟨(hneighbors v).mp hv, Or.inl hs⟩
    · obtain ⟨hs, hneighbors⟩ := hlsa m (List.mem_of_getElem? hm.1)
      exact ⟨hsymm _ _ ((hneighbors u).mp hu), Or.inr hs⟩
  · rintro ⟨hlink, hs⟩
    by_cases hu : Sender lines u
    · obtain ⟨i, m, hm⟩ := hlatest u hu
      obtain ⟨-, hneighbors⟩ := hlsa m (List.mem_of_getElem? hm.1)
      obtain rfl := hm.2.1
      exact Or.inl ⟨i, m, hm, (hneighbors v).mpr hlink⟩
    · -- only the other end announces the link, so no announcement of `u` can drop it
      have hv := hs.resolve_left hu
      obtain ⟨j, m, hm⟩ := hlatest v hv
      obtain ⟨-, hneighbors⟩ := hlsa m (List.mem_of_getElem? hm.1)
      obtain rfl := hm.2.1
      refine Or.inr ⟨j, m, hm.isNews, rfl, (hneighbors u).mpr (hsymm _ _ hlink), ?_, fun i x hx => ?_⟩
      · rintro rfl
        exact hu hv
      · obtain ⟨hx', -⟩ := hlsa x (List.mem_of_getElem? hx.1)
        exact absurd (hx.2.1 ▸ hx') hu

lemma covers_addresses {t : Topo} {s : LinkState.State Str} (R : Refines t s) {adj : Str → Str → Prop}
    (hadj : ∀ u v, s.links u v ↔ adj u v) :
    Covers (· ∈ t.nodes.header) (fun p => (t.heap p).ip) (Adj t) adj := by
  constructor
  · intro p q hp hpq
    have hq := adj_closed R.graph hp hpq
    exact ⟨hq, (hadj _ _).mp ((R.links _ _).mp ⟨p, hp, q, hq, rfl, rfl, hpq⟩)⟩
  · intro p y hp hstep
    obtain ⟨p', hp', q, -, hpp, hqy, hpq⟩ := (R.links _ _).mpr ((hadj _ _).mpr hstep)
    obtain rfl := isNamed_eq_of_ip R.named hp' hp hpp
    exact ⟨q, hpq, hqy⟩

lemma assigned_isNearest {t : Topo} {s : LinkState.State Str} (R : Refines t s) {adj : Str → Str → Prop}
    (hadj : ∀ u v, s.links u v ↔ adj u v) {servers : List Str} (hservers : ips t t.servers.header = servers)
    {p : Nat} (hp : p ∈ t.nodes.header) (hreach : ∃ x ∈ servers, ∃ n, Walk adj (t.heap p).ip n x) {ip : Str}
    (h : IsNearestServer t p ip) : IsNearest adj (t.heap p).ip (· ∈ servers) ip := by
  have hcover := covers_addresses R hadj
  have htarget : ∀ q, q ∈ t.nodes.header → (IsListed t q ↔ (t.heap q).ip ∈ servers) := by
    intro q _
    simp [IsListed, ← hservers, ips]
  rcases h with ⟨q, -, rfl, hnearest⟩ | ⟨hnone, -⟩
  · exact hcover.isNearest hp htarget hnearest
  · obtain ⟨x, hx, n, hwalk⟩ := hreach
    obtain ⟨q, hq, rfl⟩ := hcover.walk_lift hp hwalk
    exact absurd ((htarget q (hcover.walk hp hq).1).mpr hx) (hnone n q hq)

/-- The tables the nameserver starts with, and a nearest server in the entry of the client. -/
lemma nameserver_assigns {junk : Junk} (hjunk : ∀ a, junk.neighborNum a = 0)
    (hsymm : ∀ u v, link u v → link v u) (hlinks : AllLinks link lines) {file serverFile : Str}
    (hfile : IsLsaFile lines file) (hfits : ∀ l ∈ lines, l.Fits) {servers : List Str}
    (hserver : IsServerFile servers serverFile) {client : Str} (hclient : client ∉ servers)
    (hrouter : client.head? ≠ some 114) (hissued : Sender lines client)
    (hreach : ∀ s ∈ servers, ∃ n, Walk (FileGraph lines) client n s) :
    ∃ t₀ t₁ t₂ table s, parseServerFile junk (some serverFile) init = some (0, t₀) ∧
      parseLsaFile junk (some file) t₀ = some (0, t₁) ∧ buildRoutingTable t₁ = some (0, t₂, some table) ∧
      (∀ s', ⟨some client, some s'⟩ ∈ table ↔ s' = s) ∧
      IsNearest (FileGraph lines) client (· ∈ servers) s := by
  obtain ⟨t₀, hparse₀, I⟩ := parseServerFile_isSome junk hserver
  have R₀ := parseServerFile_refines junk hjunk refines_init hparse₀
  obtain ⟨t₁, hparse₁, hext, hclients⟩ := parseLsaLines_isSome junk hjunk hfile hfits R₀ I.servers_lt
  have R₁ := parseLsaFile_refines junk hjunk hparse₀ hfile hparse₁
  have hadj : ∀ u v, (LinkState.run (lsas lines)).links u v ↔ FileGraph lines u v := fun u v =>
    (run_links_announced hsymm hlinks u v).trans (fileGraph_iff hsymm hlinks u v).symm
  -- the lists as the table needs them
  have hips : ips t₁ t₁.servers.header = servers := by
    rw [hext.servers, hext.ips_eq I.servers_lt, I.servers]
  obtain ⟨new, hnodes⟩ := hext.nodes
  obtain ⟨newClients, hnewClients⟩ := hext.clients
  have hnum : t₁.nodes.num = t₁.nodes.header.length := by simp [hnodes, I.nodesNum]
  have hclientsne : t₁.clients.header ≠ [] := by
    obtain ⟨l, hl, rfl⟩ := hissued
    exact hclients l hl (by rwa [I.servers]) hrouter
  have hclientsnum : 0 < t₁.clients.num := by
    rw [hnewClients, I.clients] at hclientsne ⊢
    simpa using List.length_pos_of_ne_nil hclientsne
  have hserversne : t₁.servers.header ≠ [] := by
    intro hnil
    rw [hnil] at hips
    exact hserver.nonempty hips.symm
  have hserversnum : 0 < t₁.servers.num := by
    rw [hext.servers] at hserversne ⊢
    rw [I.serversNum]
    exact List.length_pos_of_ne_nil hserversne
  have holdne : t₀.nodes.header ≠ [] := by
    intro hnil
    have h := I.nodes
    rw [hnil] at h
    exact hserver.nonempty (List.reverse_eq_nil_iff.mp h.symm)
  have hnodesne : t₁.nodes.header ≠ [] := by
    rw [hnodes]
    exact List.append_ne_nil_of_right_ne_nil _ holdne
  have hlast : IsListed t₁ (t₁.nodes.header.getLast hnodesne) := by
    have hgetLast : t₁.nodes.header.getLast hnodesne = t₀.nodes.header.getLast holdne := by
      simp only [hnodes, List.getLast_append_of_ne_nil _ holdne]
    have hmem : (t₁.heap (t₀.nodes.header.getLast holdne)).ip ∈ ips t₁ t₀.nodes.header :=
      List.mem_map.mpr ⟨_, List.getLast_mem holdne, rfl⟩
    rw [hext.ips_eq I.nodes_lt, I.nodes, List.mem_reverse, ← hips] at hmem
    obtain ⟨q, hq, hqip⟩ := List.mem_map.mp hmem
    exact ⟨q, hq, by rw [hgetLast]; exact hqip⟩
  obtain ⟨t₂, table, routes, hbuild, htable⟩ :=
    buildRoutingTable_spec R₁.graph hnum ⟨hclientsne, hclientsnum⟩ ⟨hserversne, hserversnum⟩ hnodesne hlast
  -- the client is a node with a neighbor, so it has an entry
  obtain ⟨x, hx⟩ := List.exists_mem_of_ne_nil _ hserver.nonempty
  obtain ⟨y, hy⟩ : ∃ y, FileGraph lines client y := by
    obtain ⟨l, hl, rfl⟩ := hissued
    obtain ⟨y, hy⟩ := List.exists_mem_of_ne_nil _ l.neighbors_ne
    exact ⟨y, l, hl, Or.inl ⟨rfl, hy⟩⟩
  obtain ⟨p, hp, q, -, hpc, -, hpq⟩ := (R₁.links _ _).mpr ((hadj client y).mpr hy)
  have hentry : HasEntry t₁ p := by
    refine ⟨fun ⟨z, hz, heq⟩ => hclient ?_, by rwa [hpc], List.ne_nil_of_mem hpq⟩
    rw [← hips, ← hpc, ← heq]
    exact List.mem_map.mpr ⟨z, hz, rfl⟩
  obtain ⟨⟨c, s⟩, hroute, hc⟩ := List.mem_map.mp ((htable.clients client).mpr ⟨p, hp, hentry, hpc⟩)
  obtain rfl : c = client := hc
  have hnearest : IsNearest (FileGraph lines) c (· ∈ servers) s := by
    have h := htable.nearest p hp s (by rwa [hpc])
    have := assigned_isNearest R₁ hadj hips hp ⟨x, hx, by rw [hpc]; exact hreach x hx⟩ h
    rwa [hpc] at this
  refine ⟨t₀, t₁, t₂, table, s, hparse₀, hparse₁, hbuild, fun s' => ?_, hnearest⟩
  obtain ⟨rest, rfl, hrest⟩ := htable.filled
  constructor
  · intro hmem
    rcases List.mem_append.mp hmem with hmem | hmem
    · obtain ⟨r, hr, heq⟩ := List.mem_map.mp hmem
      simp only [entry, RoutingTableEntry.mk.injEq, Option.some.injEq] at heq
      have hfst : r.1 = ((c, s) : Str × Str).1 := heq.1
      rw [← heq.2, List.inj_on_of_nodup_map htable.nodup hr hroute hfst]
    · cases hrest _ hmem
  · rintro rfl
    exact List.mem_append_left _ (List.mem_map.mpr ⟨_, hroute, rfl⟩)

/-- On announcements of one symmetric topology, the server in the routing table and the server of
the reference are at the same hop distance from the client. -/
theorem server_choice_agrees (link : Str → Str → Prop) (hsymm : ∀ u v, link u v → link v u) (junk : Junk)
    (hjunk : ∀ a, junk.neighborNum a = 0) (order : DictOrder) (lines : List LsaLine) (file : Str)
    (hfile : IsLsaFile lines file) (hfits : ∀ l ∈ lines, l.Fits) (hlinks : AllLinks link lines)
    (servers : List Str) (serverFile : Str) (hserver : IsServerFile servers serverFile) (client : Str)
    (hclient : client ∉ servers) (hrouter : client.head? ≠ some 114) (hissued : Sender lines client)
    (hreach : ∀ s ∈ servers, ∃ n, Walk (FileGraph lines) client n s) :
    ∃ t₀ t₁ t₂ table s₁ s₂ d, parseServerFile junk (some serverFile) init = some (0, t₀) ∧
      parseLsaFile junk (some file) t₀ = some (0, t₁) ∧ buildRoutingTable t₁ = some (0, t₂, some table) ∧
      (∀ s, ⟨some client, some s⟩ ∈ table ↔ s = s₁) ∧
      getBestServer order client (serverSetup serverFile) file = some (some s₂) ∧
      IsDist (FileGraph lines) client s₁ d ∧ IsDist (FileGraph lines) client s₂ d := by
  obtain ⟨t₀, t₁, t₂, table, s₁, hparse₀, hparse₁, hbuild, htable, hs₁⟩ :=
    nameserver_assigns hjunk hsymm hlinks hfile hfits hserver hclient hrouter hissued hreach
  have hgraph : FileGraph lines = Announced link (Sender lines) := by
    funext u v
    exact propext (fileGraph_iff hsymm hlinks u v)
  have hstart : StatusOf link (fun _ => False) [] := ⟨by simp, by simp, by simp⟩
  obtain ⟨status, hread, hstatus⟩ := readStatus_spec hfile hlinks hstart
  have hsenders : ∀ u, False ∨ Sender lines u ↔ Sender lines u := fun u => by simp
  obtain ⟨s₂, hbest, hs₂⟩ := getBestServer_spec order hread (hstatus.congr hsenders) hsymm client
    hserver.nonempty (fun s hs => (hserver.name s hs).1) (by rwa [← hgraph])
  rw [← hgraph] at hs₂
  obtain ⟨d, hd₁, hd₂⟩ := isNearest_same_dist hs₁ hs₂
  rw [serverSetup_eq hserver]
  exact ⟨t₀, t₁, t₂, table, s₁, s₂, d, hparse₀, hparse₁, hbuild, htable, hbest, hd₁, hd₂⟩

section Example

/-- A client with a server at one hop, and with a router between it and another server. -/
def forkLinks : List (Str × Str) :=
  [(bytes "1.0.0.1", bytes "2.0.0.1"), (bytes "1.0.0.1", bytes "router1"), (bytes "router1", bytes "3.0.0.1")]

def fork (u v : Str) : Prop := (u, v) ∈ forkLinks ∨ (v, u) ∈ forkLinks

def lineClient : LsaLine :=
  ⟨bytes "1.0.0.1", 0, [bytes "2.0.0.1", bytes "router1"], lineA.sender_field, by decide, by decide⟩

def lineRouter : LsaLine :=
  ⟨bytes "router1", 0, [bytes "1.0.0.1", bytes "3.0.0.1"], by decide, by decide, by decide⟩

lemma fork_symm (u v : Str) (h : fork u v) : fork v u := h.symm

lemma fork_client (v : Str) : fork (bytes "1.0.0.1") v ↔ v = bytes "2.0.0.1" ∨ v = bytes "router1" := by
  simp [fork, forkLinks, show bytes "1.0.0.1" ≠ bytes "2.0.0.1" by decide,
    show bytes "1.0.0.1" ≠ bytes "router1" by decide, show bytes "1.0.0.1" ≠ bytes "3.0.0.1" by decide]

lemma fork_router (v : Str) : fork (bytes "router1") v ↔ v = bytes "1.0.0.1" ∨ v = bytes "3.0.0.1" := by
  simp [fork, forkLinks, show bytes "router1" ≠ bytes "2.0.0.1" by decide,
    show bytes "router1" ≠ bytes "1.0.0.1" by decide, show bytes "router1" ≠ bytes "3.0.0.1" by decide,
    or_comm]

lemma allLinks_fork : AllLinks fork [lineClient, lineRouter] := by
  rintro l (_ | ⟨_, _ | ⟨_, ⟨⟩⟩⟩) v
  · exact (by simp [lineClient] : v ∈ lineClient.neighbors ↔ _).trans (fork_client v).symm
  · exact (by simp [lineRouter] : v ∈ lineRouter.neighbors ↔ _).trans (fork_router v).symm

lemma fits_fork : ∀ l ∈ [lineClient, lineRouter], l.Fits := by
  rintro l (_ | ⟨_, _ | ⟨_, ⟨⟩⟩⟩)
  · exact ⟨by decide, by decide, by decide, by decide⟩
  · exact ⟨by decide, by decide, by decide, by decide⟩

/-- Both servers are reached, the first of the list on the longer way. -/
lemma reach_fork : ∀ s ∈ [bytes "3.0.0.1", bytes "2.0.0.1"],
    ∃ n, Walk (FileGraph [lineClient, lineRouter]) (bytes "1.0.0.1") n s := by
  have hnear : FileGraph [lineClient, lineRouter] (bytes "1.0.0.1") (bytes "2.0.0.1") :=
    ⟨lineClient, by simp, Or.inl ⟨rfl, by decide⟩⟩
  have hrouter : FileGraph [lineClient, lineRouter] (bytes "1.0.0.1") (bytes "router1") :=
    ⟨lineClient, by simp, Or.inl ⟨rfl, by decide⟩⟩
  have hfar : FileGraph [lineClient, lineRouter] (bytes "router1") (bytes "3.0.0.1") :=
    ⟨lineRouter, by simp, Or.inl ⟨rfl, by decide⟩⟩
  rintro s (_ | ⟨_, _ | ⟨_, ⟨⟩⟩⟩)
  · exact ⟨2, .step (.step .zero hrouter) hfar⟩
  · exact ⟨1, .step .zero hnear⟩

lemma isServerFile_fork :
    IsServerFile [bytes "3.0.0.1", bytes "2.0.0.1"] (bytes "3.0.0.1\n2.0.0.1\n") :=
  ⟨rfl, by decide, by decide, by decide, by decide⟩

theorem server_choice_agrees_fork :
    ∃ t₀ t₁ t₂ table s₁ s₂ d, parseServerFile zeroJunk (some (bytes "3.0.0.1\n2.0.0.1\n")) init = some (0, t₀) ∧
      parseLsaFile zeroJunk (some (twoLines lineClient lineRouter)) t₀ = some (0, t₁) ∧
      buildRoutingTable t₁ = some (0, t₂, some table) ∧
      (∀ s, ⟨some (bytes "1.0.0.1"), some s⟩ ∈ table ↔ s = s₁) ∧
      getBestServer insertionOrder (bytes "1.0.0.1") (serverSetup (bytes "3.0.0.1\n2.0.0.1\n"))
        (twoLines lineClient lineRouter) = some (some s₂) ∧
      IsDist (FileGraph [lineClient, lineRouter]) (bytes "1.0.0.1") s₁ d ∧
      IsDist (FileGraph [lineClient, lineRouter]) (bytes "1.0.0.1") s₂ d :=
  server_choice_agrees fork fork_symm zeroJunk (fun _ => rfl) insertionOrder _ _ (isLsaFile_twoLines _ _) fits_fork
    allLinks_fork _ _ isServerFile_fork (bytes "1.0.0.1") (by decide) (by decide) ⟨lineClient, by simp, rfl⟩ reach_fork

end Example

end VideoCDN.Reference
