import VideoCDN.Reference.Agreement
import VideoCDN.System.NameService

/-!
# The nearest server over the network

Without `-r` the routing table decides. It is built once, so whatever the network does, a client that
the announcements name is told of a server at minimal hop distance from it.
-/

namespace VideoCDN.System

open CString Inet Dns HopGraph Nameserver Reference

/-! ## The scan of the table -/

lemma lookupServer_mem {table : List RoutingTableEntry} {clientIp ip : List UInt8} {n i : Nat}
    (h : lookupServer table clientIp n i = some ip) : ⟨some clientIp, some ip⟩ ∈ table := by
  induction n generalizing i with
  | zero => cases h
  | succ n ih =>
    simp only [lookupServer, Option.bind_eq_bind, Option.bind_eq_some_iff] at h
    obtain ⟨e, he, client, hclient, h⟩ := h
    by_cases heq : client = clientIp
    · rw [if_pos heq] at h
      have hentry : e = ⟨some clientIp, some ip⟩ := by rw [← h, ← heq, ← hclient]
      rw [← hentry]
      exact List.mem_of_getElem? he
    · rw [if_neg heq] at h
      exact ih h

/-- In a table that was built, the scan finds the entry of every client that has one. -/
lemma lookupServer_of_mem {t t' : Topo} {table : List RoutingTableEntry} {clientIp ip : List UInt8}
    (h : buildRoutingTable t = some (0, t', some table)) (hmem : ⟨some clientIp, some ip⟩ ∈ table) :
    ∃ ip', lookupServer table clientIp t'.nodes.num 0 = some ip' := by
  unfold buildRoutingTable at h
  split at h
  · cases h
  · simp only [Option.bind_eq_bind, Option.bind_eq_some_iff, Option.pure_def, Option.some.injEq,
      Prod.mk.injEq, true_and] at h
    obtain ⟨⟨t₁, table₁⟩, hloop, rfl, rfl⟩ := h
    have hnone : ∀ e ∈ List.replicate t.nodes.num (⟨none, none⟩ : RoutingTableEntry), e.serverIp = none :=
      fun e he => by rw [List.eq_of_mem_replicate he]
    rw [← mark_self t] at hloop
    obtain ⟨⟨marks, rfl⟩, routes, rest, rfl, -, hsnd, hrest, hlen⟩ := routeLoop_shape [] hnone hloop
    rw [List.length_replicate] at hlen
    rw [List.nil_append] at hmem ⊢
    have hclient : clientIp ∈ routes.map Prod.fst := by
      rcases List.mem_append.mp hmem with hmem | hmem
      · obtain ⟨r, hr, heq⟩ := List.mem_map.mp hmem
        obtain ⟨hfst, -⟩ := RoutingTableEntry.mk.inj heq
        rw [← Option.some.inj hfst]
        exact List.mem_map_of_mem hr
      · cases hrest _ hmem
    obtain ⟨ip', hip', -⟩ := (lookupServer_spec hsnd hrest [] clientIp).mpr hclient
    rw [hlen] at hip'
    exact ⟨ip', hip'⟩

/-! ## Rounds without `-r` -/

/-- The tables stay what they were, and the loop goes on. -/
structure Settled (s₀ : ServeState) (s : RunState) : Prop where
  serve : s.serve = s₀
  retval : s.running = true → s.retval = 0

lemma Settled.step {s₀ : ServeState} {s s' : RunState} {input : Input} (I : Settled s₀ s)
    (hrunning : s.running = true) (h : runStep false s input = some s') : Settled s₀ s' := by
  rcases runStep_sent h with ⟨q, packet, rfl, -⟩ | ⟨-, hserve, -, hretval⟩
  · obtain ⟨⟨s₁, reply⟩, packet, hanswer, -, rfl⟩ := runStep_received (I.retval hrunning) h
    obtain ⟨hsame, -⟩ := serveQuery_geographic hanswer
    exact ⟨hsame.trans I.serve, I.retval⟩
  · refine ⟨hserve.trans I.serve, fun hrunning' => ?_⟩
    rw [hretval hrunning']
    exact I.retval hrunning

/-- A query is answered with the address that the scan finds for its client. -/
lemma runStep_lookup {s : RunState} (hretval : s.retval = 0) (q : NameQuery) {table : List RoutingTableEntry}
    (htable : s.serve.routingTable = some table) {line : List UInt8} {a : InAddr}
    (hline : lookupServer table (inetNtoa q.client) s.serve.topo.nodes.num 0 = some line)
    (ha : inetAton line = some a) :
    runStep false s (.received q.toQuery) = some { s with
      log := s.log ++ [⟨inetNtoa q.client, q.name.text, some line⟩]
      sent := s.sent ++ [(q.answer a, q.client)] } := by
  have hclient : q.toQuery.client = q.client := rfl
  have hanswer : serveQuery false s.serve q.toQuery = some (s.serve, ⟨q.name.text, some line, htons q.header.id⟩) := by
    simp only [serveQuery, q.parse_toQuery, q.id_toQuery, hclient, htable, hline, Option.bind_eq_bind,
      Option.bind_some]
    rfl
  obtain ⟨size, packet, hpacket, htake⟩ := q.dnsGenResponse_answer ha
  rw [runStep_served hretval q.parse_toQuery q.id_toQuery hanswer hpacket, htake, hclient]

/-! ## Safety -/

/-- The address is that of a server at minimal hop distance from the client. -/
def IsNearestAddr (graph : Str → Str → Prop) (servers : List Str) (client a : InAddr) : Prop :=
  ∃ ip, inetAton ip = some a ∧ IsNearest graph (inetNtoa client) (· ∈ servers) ip

/-- The scan of the table finds a nearest server for each client of the network. -/
def Routed (graph : Str → Str → Prop) (servers : List Str) (clients : Nat → Client) (s : ServeState) : Prop :=
  ∀ i, ∃ table ip, s.routingTable = some table ∧
    lookupServer table (inetNtoa (clients i).addr) s.topo.nodes.num 0 = some ip ∧
    IsNearest graph (inetNtoa (clients i).addr) (· ∈ servers) ip

/-- Whatever the network does, calls end with nearest servers, and each client can get one. -/
def NearestService (graph : Str → Str → Prop) (servers : List Str) (clients : Nat → Client) (s : RunState) : Prop :=
  (∀ w, Datagrams.Runs (Act false clients) (start s) w → SafeState clients (IsNearestAddr graph servers) w) ∧
    ∀ i, ∃ w o a, Datagrams.Runs (Act false clients) (start s) w ∧ w.parties.outcomes = [(i, o)] ∧
      o.address = some (inetNtoa a) ∧ IsNearestAddr graph servers (clients i).addr a

section Routed

variable {graph : Str → Str → Prop} {servers : List Str} {clients : Nat → Client}

lemma Routed.serves {s₀ : ServeState} (h : Routed graph servers clients s₀)
    (hquad : ∀ line ∈ servers, ∃ a, inetAton line = some a) :
    Serves false clients (Settled s₀) (IsNearestAddr graph servers) := by
  constructor
  · intro s s' input I hrunning hstep
    exact I.step hrunning hstep
  · intro s s' i q I hrunning hclient hstep
    obtain ⟨table, ip, htable, hlookup, hnearest⟩ := h i
    obtain ⟨a, ha⟩ := hquad ip hnearest.1
    rw [← hclient] at hlookup hnearest
    rw [← I.serve] at htable hlookup
    have hstep₁ := runStep_lookup (I.retval hrunning) q htable hlookup ha
    obtain rfl := Option.some.inj (hstep₁.symm.trans hstep)
    exact ⟨a, ⟨ip, ha, hnearest⟩, rfl⟩

lemma Routed.nearestService {s : RunState} (h : Routed graph servers clients s.serve) (hretval : s.retval = 0)
    (hrunning : s.running = true) (hquad : ∀ line ∈ servers, ∃ a, inetAton line = some a) :
    NearestService graph servers clients s := by
  refine ⟨fun w hrun => (h.serves hquad).safe ⟨rfl, fun _ => hretval⟩ hrun, fun i => ?_⟩
  obtain ⟨table, ip, htable, hlookup, hnearest⟩ := h i
  obtain ⟨a, ha⟩ := hquad ip hnearest.1
  obtain ⟨q, hquery, hclient⟩ := (clients i).query_eq
  rw [← hclient] at hlookup
  have hstep := runStep_lookup hretval q htable hlookup ha
  obtain ⟨w, o, hrun, hout, haddr⟩ := call_answered clients hrunning i hquery hclient hstep rfl
  exact ⟨w, o, a, hrun, hout, haddr, ip, ha, hnearest⟩

end Routed

/-- A dotted quad is not taken for a router. -/
lemma inetNtoa_not_router (a : InAddr) : (inetNtoa a).head? ≠ some 114 := by
  intro h
  obtain ⟨d, ds, hd⟩ := List.exists_cons_of_ne_nil (decimal_ne_nil a.a.toNat)
  have hdigit := isdigit_of_mem_decimal a.a.toNat d (by simp [hd])
  rw [inetNtoa, hd] at h
  obtain rfl := Option.some.inj h
  exact absurd hdigit (by decide)

/-- What the files have to be for the clients to be routed: announcements of one symmetric topology that name
every client, and servers that each of them reaches. -/
structure Announces (link : Str → Str → Prop) (lines : List LsaLine) (servers : List Str)
    (clients : Nat → Client) : Prop where
  symm : ∀ u v, link u v → link v u
  links : AllLinks link lines
  fits : ∀ l ∈ lines, l.Fits
  no_server : ∀ i, inetNtoa (clients i).addr ∉ servers
  sender : ∀ i, Sender lines (inetNtoa (clients i).addr)
  reach : ∀ i, ∀ s ∈ servers, ∃ n, Walk (FileGraph lines) (inetNtoa (clients i).addr) n s

lemma startRun_routed {junk : Junk} (hjunk : ∀ a, junk.neighborNum a = 0) {link : Str → Str → Prop}
    {lines : List LsaLine} {servers : List Str} {clients : Nat → Client} (h : Announces link lines servers clients)
    {file serverFile : List UInt8} (hfile : IsLsaFile lines file) (hserver : IsServerFile servers serverFile) :
    ∃ s, startRun junk (some serverFile) (some file) = some (some s) ∧ s.retval = 0 ∧ s.running = true ∧
      Routed (FileGraph lines) servers clients s.serve := by
  have hassign := fun i => nameserver_assigns hjunk h.symm h.links hfile h.fits hserver (h.no_server i)
    (inetNtoa_not_router (clients i).addr) (h.sender i) (h.reach i)
  obtain ⟨t₀, t₁, t₂, table, -, hparse₀, hparse₁, hbuild, -, -⟩ := hassign 0
  have hinit : nameserverInit junk (some serverFile) (some file) =
      some ((0, 0, 0), ⟨t₂, some table, t₂.servers.header⟩) := by
    simp only [nameserverInit, hparse₀, hparse₁, hbuild, Option.bind_eq_bind, Option.bind_some]
    rfl
  refine ⟨⟨0, ⟨t₂, some table, t₂.servers.header⟩, [], [], true⟩, ?_, rfl, rfl, fun i => ?_⟩
  · have henters : EntersLoop (0, 0, 0) := by decide
    rw [startRun, hinit, Option.bind_eq_bind, Option.bind_some, if_pos henters]
    rfl
  · -- the files are read in one way only
    obtain ⟨u₀, u₁, u₂, tab, ip, hparse₀', hparse₁', hbuild', hentry, hnearest⟩ := hassign i
    obtain ⟨-, rfl⟩ := Prod.mk.inj (Option.some.inj (hparse₀'.symm.trans hparse₀))
    obtain ⟨-, rfl⟩ := Prod.mk.inj (Option.some.inj (hparse₁'.symm.trans hparse₁))
    obtain ⟨-, hsame⟩ := Prod.mk.inj (Option.some.inj (hbuild'.symm.trans hbuild))
    obtain ⟨rfl, htable⟩ := Prod.mk.inj hsame
    obtain rfl := Option.some.inj htable
    obtain ⟨ip', hip'⟩ := lookupServer_of_mem hbuild ((hentry ip).mpr rfl)
    obtain rfl := (hentry ip').mp (lookupServer_mem hip')
    exact ⟨tab, ip', rfl, hip', hnearest⟩

/-- On announcements of one symmetric topology, whatever is lost, repeated, reordered or sent by strangers, a
call that ends with an address ends with that of a server at minimal hop distance from the caller; and where
nothing is lost, it ends with one. -/
theorem nearest_service_safe (junk : Junk) (hjunk : ∀ a, junk.neighborNum a = 0) (link : Str → Str → Prop)
    (lines : List LsaLine) (servers : List Str) (clients : Nat → Client) (h : Announces link lines servers clients)
    (file serverFile : List UInt8) (hfile : IsLsaFile lines file) (hserver : IsServerFile servers serverFile)
    (hquad : ∀ line ∈ servers, ∃ a, inetAton line = some a) :
    ∃ s, startRun junk (some serverFile) (some file) = some (some s) ∧
      NearestService (FileGraph lines) servers clients s := by
  obtain ⟨s, hstart, hretval, hrunning, hrouted⟩ := startRun_routed hjunk h hfile hserver
  exact ⟨s, hstart, hrouted.nearestService hretval hrunning hquad⟩

section Example

lemma announces_fork :
    Announces fork [lineClient, lineRouter] [bytes "3.0.0.1", bytes "2.0.0.1"] oneProxy := by
  have hquad : inetNtoa ⟨1, 0, 0, 1⟩ = bytes "1.0.0.1" := by decide
  have hclient : ∀ i, inetNtoa (oneProxy i).addr = bytes "1.0.0.1" := fun _ => hquad
  refine ⟨fork_symm, allLinks_fork, fits_fork, fun i => ?_, fun i => ?_, fun i => ?_⟩
  · rw [hclient]
    decide
  · exact ⟨lineClient, List.mem_cons_self .., (hclient i).symm⟩
  · rw [hclient]
    exact reach_fork

theorem nearest_service_safe_fork : ∃ s,
    startRun zeroJunk (some (bytes "3.0.0.1\n2.0.0.1\n")) (some (twoLines lineClient lineRouter)) = some (some s) ∧
    NearestService (FileGraph [lineClient, lineRouter]) [bytes "3.0.0.1", bytes "2.0.0.1"] oneProxy s := by
  refine nearest_service_safe zeroJunk (fun _ => rfl) fork _ _ oneProxy announces_fork _ _ (isLsaFile_twoLines _ _)
    isServerFile_fork ?_
  rintro line (_ | ⟨_, _ | ⟨_, ⟨⟩⟩⟩)
  · exact ⟨⟨3, 0, 0, 1⟩, by decide⟩
  · exact ⟨⟨2, 0, 0, 1⟩, by decide⟩

end Example

end VideoCDN.System
