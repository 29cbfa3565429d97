import VideoCDN.Nameserver.ServersFile

/-!
# The lists after both parsers

A servers file and then an LSA file are read into the lists of nodes, servers and clients. No list
holds an address twice, the counters are right, and the first server stays the last node, so that
a node follows every client in the loop of `build_routing_table`.
-/

namespace VideoCDN.Nameserver

open CString LinkState

/-- What holds of the three lists and their counters. -/
structure Tables (t : Topo) : Prop where
  nodes : (ips t t.nodes.header).Nodup
  servers : (ips t t.servers.header).Nodup
  clients : (ips t t.clients.header).Nodup
  totalNum : t.nodes.num = t.nodes.header.length
  serverNum : t.servers.num = t.servers.header.length
  clientNum : t.clients.num = t.clients.header.length
  servers_nodes : ∀ s ∈ ips t t.servers.header, s ∈ ips t t.nodes.header
  clients_servers : ∀ c ∈ ips t t.clients.header, c ∉ ips t t.servers.header
  last : ∃ s, (ips t t.nodes.header).getLast? = some s ∧ (ips t t.servers.header).head? = some s

/-- The clients have distinct addresses, none of them that of a server. -/
structure ClientsOk (t : Topo) : Prop where
  nodup : (ips t t.clients.header).Nodup
  disjoint : ∀ c ∈ ips t t.clients.header, c ∉ ips t t.servers.header
  clients_lt : ∀ p ∈ t.clients.header, p < t.next
  servers_lt : ∀ p ∈ t.servers.header, p < t.next

variable {t t' : Topo}

lemma ClientsOk.extends (C : ClientsOk t) (h : Extends t t') (hclients : t'.clients = t.clients) : ClientsOk t' := by
  obtain ⟨hnodup, hdisjoint, hclients_lt, hservers_lt⟩ := C
  constructor
  · rwa [hclients, h.ips_eq hclients_lt]
  · rwa [hclients, h.servers, h.ips_eq hclients_lt, h.ips_eq hservers_lt]
  · rw [hclients]
    exact fun p hp => (hclients_lt p hp).trans_le h.next
  · rw [h.servers]
    exact fun p hp => (hservers_lt p hp).trans_le h.next

variable (junk : Junk)

/-- A sender becomes a client only if no server and no client has its address. -/
lemma ClientsOk.addClient (C : ClientsOk t) {ip : List UInt8} (h : addClient junk t ip = some t') :
    ClientsOk t' := by
  unfold Nameserver.addClient at h
  split at h
  · rename_i hclient
    obtain ⟨⟨t₁, clients, p⟩, hadd, h⟩ := Option.bind_eq_some_iff.mp h
    obtain rfl := Option.some.inj h
    have hserver : ip ∉ ips t t.servers.header := by
      intro hmem
      obtain ⟨s, hs, hip⟩ := List.mem_map.mp hmem
      exact (existInList_eq_none_iff _ _ _).mp (Option.isNone_iff_eq_none.mp hclient.1) s hs hip
    rcases addNodeByIpWithNum_cases junk hadd with ⟨-, -, rfl, rfl⟩ | ⟨hnew, rfl, rfl, -⟩
    · exact C
    · have hext := extends_alloc junk t ip
      have hclients : ips (alloc junk t ip) (t.next :: t.clients.header) = ip :: ips t t.clients.header := by
        change ips (alloc junk t ip) [t.next] ++ ips (alloc junk t ip) t.clients.header = _
        rw [ips_alloc, hext.ips_eq C.clients_lt]
        rfl
      have hservers : ips (alloc junk t ip) t.servers.header = ips t t.servers.header := hext.ips_eq C.servers_lt
      constructor
      · change (ips (alloc junk t ip) (t.next :: t.clients.header)).Nodup
        rw [hclients]
        refine List.nodup_cons.mpr ⟨fun hmem => ?_, C.nodup⟩
        obtain ⟨q, hq, hip⟩ := List.mem_map.mp hmem
        exact hnew q hq hip
      · change ∀ c ∈ ips (alloc junk t ip) (t.next :: t.clients.header), c ∉ ips (alloc junk t ip) t.servers.header
        rw [hclients, hservers]
        intro c hc
        rcases List.mem_cons.mp hc with rfl | hc
        · exact hserver
        · exact C.disjoint c hc
      · intro q hq
        change q < t.next + 1
        rcases List.mem_cons.mp hq with rfl | hq
        · exact Nat.lt_succ_self _
        · exact (C.clients_lt q hq).trans (Nat.lt_succ_self _)
      · exact fun q hq => (C.servers_lt q hq).trans (Nat.lt_succ_self _)
  · obtain rfl := Option.some.inj h
    exact C

/-- Longer lists of nodes and clients keep what holds of the servers, and the last node. -/
lemma Tables.extends (T : Tables t) (C : ClientsOk t) (hlt : ∀ p ∈ t.nodes.header, p < t.next) (h : Extends t t')
    (hnodes : (ips t' t'.nodes.header).Nodup) (C' : ClientsOk t') : Tables t' := by
  obtain ⟨new, hnew⟩ := h.nodes
  obtain ⟨newClients, hnewClients⟩ := h.clients
  have hservers : ips t' t'.servers.header = ips t t.servers.header := by rw [h.servers, h.ips_eq C.servers_lt]
  have hnodes' : ips t' t'.nodes.header = ips t' new ++ ips t t.nodes.header := by
    rw [hnew, ips, List.map_append]
    exact congrArg (ips t' new ++ ·) (h.ips_eq hlt)
  constructor
  · exact hnodes
  · rw [hservers]
    exact T.servers
  · exact C'.nodup
  · rw [hnew, List.length_append, T.totalNum]
  · rw [h.servers]
    exact T.serverNum
  · rw [hnewClients, List.length_append, T.clientNum]
  · rw [hservers, hnodes']
    exact fun s hs => List.mem_append_right _ (T.servers_nodes s hs)
  · exact C'.disjoint
  · obtain ⟨s, hlast, hfirst⟩ := T.last
    refine ⟨s, ?_, by rw [hservers]; exact hfirst⟩
    rw [hnodes', List.getLast?_append, hlast]
    rfl

/-- One line of an LSA file keeps the lists right. -/
lemma updateNode_tables (hjunk : ∀ a, junk.neighborNum a = 0) {s : LinkState.State (List UInt8)} (R : Refines t s)
    (T : Tables t) (C : ClientsOk t) {l : LsaLine} (hl : l.Fits) :
    ∃ t', updateNode junk l.sender l.seq l.csv t = some t' ∧ Refines t' (s.install l.lsa) ∧ Tables t' ∧
      ClientsOk t' := by
  obtain ⟨t₁, t₂, t₃, hgrown, hclient, hext, hsame, hupdate⟩ := updateNode_phases junk hjunk R hl
  have R' : Refines t₃ (s.install l.lsa) := updateNode_refines junk hjunk R l.strtok_csv l.count_csv hupdate
  have C₁ := C.extends hgrown.extends hgrown.clients
  have C₃ := (C₁.addClient junk hclient).extends hext hsame
  have hext₃ := hgrown.extends.trans ((addClient_extends junk hclient).trans hext)
  exact ⟨t₃, hupdate, R', T.extends C R.lt hext₃ R'.graph.ips C₃, C₃⟩

lemma parseLsaLines_tables (hjunk : ∀ a, junk.neighborNum a = 0) {lines : List LsaLine} {file : List UInt8}
    (hfile : IsLsaFile lines file) (hfits : ∀ l ∈ lines, l.Fits) {s : LinkState.State (List UInt8)}
    (R : Refines t s) (T : Tables t) (C : ClientsOk t) :
    ∃ t' s', parseLsaLines junk (fgetsLines [] file) t = some (0, t') ∧ Refines t' s' ∧ Tables t' := by
  induction lines generalizing file t s with
  | nil =>
    rw [hfile.nil_eq]
    exact ⟨t, s, by simp [fgetsLines, parseLsaLines], R, T⟩
  | cons l lines ih =>
    obtain ⟨rest, hrest, hcons⟩ := parseLsaLines_step junk hfile (hfits l List.mem_cons_self)
    obtain ⟨t₁, hupdate, R₁, T₁, C₁⟩ := updateNode_tables junk hjunk R T C (hfits l List.mem_cons_self)
    obtain ⟨t', s', hparse, R', T'⟩ := ih hrest (fun m hm => hfits m (List.mem_cons_of_mem l hm)) R₁ T₁ C₁
    refine ⟨t', s', ?_, R', T'⟩
    rw [hcons, hupdate]
    exact hparse

/-- A servers file of at least one line makes the lists right. -/
lemma ServersRead.tables {names : List (List UInt8)} (I : ServersRead t names.reverse names) (hnodup : names.Nodup)
    (hne : names ≠ []) : Tables t ∧ ClientsOk t := by
  have hclients : ips t t.clients.header = [] := by rw [I.clients]; rfl
  refine ⟨?_, ?_⟩
  · constructor
    · rw [I.nodes]
      exact List.nodup_reverse.mpr hnodup
    · rw [I.servers]
      exact hnodup
    · rw [hclients]
      exact List.nodup_nil
    · exact I.nodesNum
    · exact I.serversNum
    · rw [I.clients]
      rfl
    · rw [I.servers, I.nodes]
      exact fun s hs => List.mem_reverse.mpr hs
    · rw [hclients]
      exact fun c hc => absurd hc List.not_mem_nil
    · obtain ⟨s, names, rfl⟩ := List.exists_cons_of_ne_nil hne
      refine ⟨s, ?_, ?_⟩
      · rw [I.nodes, List.getLast?_reverse, List.head?_cons]
      · rw [I.servers, List.head?_cons]
  · constructor
    · rw [hclients]
      exact List.nodup_nil
    · rw [hclients]
      exact fun c hc => absurd hc List.not_mem_nil
    · rw [I.clients]
      exact fun p hp => absurd hp List.not_mem_nil
    · exact I.servers_lt

lemma Tables.last_isListed (T : Tables t) (h : t.nodes.header ≠ []) : IsListed t (t.nodes.header.getLast h) := by
  obtain ⟨s, hlast, hfirst⟩ := T.last
  rw [ips, List.getLast?_map, List.getLast?_eq_some_getLast h, Option.map_some] at hlast
  obtain ⟨p, hp, hip⟩ := List.mem_map.mp (List.mem_of_mem_head? hfirst)
  exact ⟨p, hp, hip.trans (Option.some.inj hlast).symm⟩

lemma ServersText.eraseDups_names_ne_nil (file : ServersText) (hne : file.addresses ≠ []) :
    file.names.eraseDups ≠ [] := by
  have hnames : ∃ s, s ∈ file.names := by
    unfold ServersText.addresses at hne
    unfold ServersText.names
    by_cases hlast : file.last = []
    · rw [if_pos hlast, List.append_nil] at hne ⊢
      exact List.exists_mem_of_ne_nil _ hne
    · rw [if_neg hlast]
      exact ⟨file.last.dropLast, by simp⟩
  obtain ⟨s, hs⟩ := hnames
  exact List.ne_nil_of_mem (List.mem_eraseDups.mpr hs)

/-- For every servers file with a line and every LSA file that fit their buffers, both are read to
their ends and leave lists with distinct addresses and right counters; the routing table is built
without an index that is too large and without a null client. -/
theorem parse_tables (hjunk : ∀ a, junk.neighborNum a = 0) (serverFile : ServersText) (hserver : serverFile.Fits)
    (hne : serverFile.addresses ≠ []) {lines : List LsaLine} {file : List UInt8} (hfile : IsLsaFile lines file)
    (hfits : ∀ l ∈ lines, l.Fits) :
    ∃ t₀ t, parseServerFile junk (some serverFile.bytes) init = some (0, t₀) ∧
      parseLsaFile junk (some file) t₀ = some (0, t) ∧ Tables t ∧
      ∃ ret t' table, buildRoutingTable t = some (ret, t', table) := by
  obtain ⟨t₀, hparse₀, I⟩ := parseServerFile_names junk serverFile hserver
  obtain ⟨T₀, C₀⟩ := I.tables (nodup_eraseDups _) (serverFile.eraseDups_names_ne_nil hne)
  have R₀ := parseServerFile_refines junk hjunk refines_init hparse₀
  obtain ⟨t, s, hparse, R, T⟩ := parseLsaLines_tables junk hjunk hfile hfits R₀ T₀ C₀
  obtain ⟨ret, t', table, hbuild, -⟩ := buildRoutingTable_optimal t R.graph T.totalNum T.last_isListed
  exact ⟨t₀, t, hparse₀, hparse, T, ret, t', table, hbuild⟩

section Example

/-- Two servers, one of them given twice, the last line without its newline. -/
def repeatedServers : ServersText :=
  ⟨[bytes "3.0.0.1", bytes "2.0.0.1", bytes "3.0.0.1"], bytes "2.0.0.10", by decide, by decide⟩

/-- The last announcement is older than the first one, of the same sender. -/
def staleLines : List LsaLine :=
  [{ lineA with seq := 5 }, lineB, { lineB with sender := lineA.sender, sender_field := lineA.sender_field }]

theorem parse_tables_stale : ∃ t₀ t, parseServerFile zeroJunk (some repeatedServers.bytes) init = some (0, t₀) ∧
    parseLsaFile zeroJunk (some (bytes "1.0.0.1 5 2.0.0.1\n2.0.0.1 0 3.0.0.1\n1.0.0.1 0 3.0.0.1\n")) t₀ =
      some (0, t) ∧
    Tables t ∧ ∃ ret t' table, buildRoutingTable t = some (ret, t', table) := by
  have hserver : repeatedServers.Fits := by
    rintro l (_ | ⟨_, _ | ⟨_, _ | ⟨_, ⟨⟩⟩⟩⟩) <;> decide
  have hfits : ∀ l ∈ staleLines, l.Fits := by
    rintro l (_ | ⟨_, _ | ⟨_, _ | ⟨_, ⟨⟩⟩⟩⟩) <;> exact ⟨by decide, by decide, by decide, by decide⟩
  exact parse_tables zeroJunk (fun _ => rfl) repeatedServers hserver (by decide) (Or.inl rfl) hfits

end Example

end VideoCDN.Nameserver
