import VideoCDN.Dns.RoundTrip
import VideoCDN.Nameserver.Routing

/-!
# Serving queries

The start of `nameserver_run` and its loop over the received datagrams. A step answers one
datagram; the server address it hands to `dns_gen_response` is recorded, and is `none` when
the pointer was never set or points to bytes never written.
-/

namespace VideoCDN.Nameserver

open CString Inet Dns

/-- The state of the serve loop; `roundRobinPt` is the servers list from the pointer on. -/
structure ServeState where
  topo : Topo
  routingTable : Option (List RoutingTableEntry)
  roundRobinPt : List Nat

/-- The values the three calls at the start return, and the state after them. -/
def nameserverInit (junk : Junk) (serverFile lsaFile : Option (List UInt8)) :
    Option ((Int × Int × Int) × ServeState) := do
  let (ret1, t) ← parseServerFile junk serverFile init
  let (ret2, t) ← parseLsaFile junk lsaFile t
  let (ret3, t, table) ← buildRoutingTable t
  return ((ret1, ret2, ret3), ⟨t, table, t.servers.header⟩)

/-- A received datagram and the address it came from. -/
structure Query where
  datagram : List UInt8
  client : InAddr

/-- What the loop hands to `dns_gen_response` for a query. -/
structure Reply where
  qname : List UInt8
  serverIp : Option (List UInt8)
  dnsId : UInt16
  deriving DecidableEq, Repr

/-- The scan of the first `n` table entries from `i` on. -/
def lookupServer (table : List RoutingTableEntry) (clientIp : List UInt8) : Nat → Nat → Option (List UInt8)
  | 0, _ => none
  | n + 1, i => do
    let e ← table[i]?
    let ip ← e.clientIp
    if ip = clientIp then e.serverIp else lookupServer table clientIp n (i + 1)

def receive (datagram : List UInt8) : List UInt8 :=
  datagram.take dnsMsgMaxLen ++ zeroPacket (dnsMsgMaxLen - datagram.length)

/-- One round of the serve loop. -/
def serveQuery (isRoundRobin : Bool) (s : ServeState) (q : Query) : Option (ServeState × Reply) := do
  let request := receive q.datagram
  let (_, qname) ← dnsParseRequest request (min q.datagram.length dnsMsgMaxLen : Nat)
  let id ← load16 request 0
  let dnsId := htons id
  if isRoundRobin then
    let pt ← s.roundRobinPt.head?
    let next := if s.roundRobinPt.tail = [] then s.topo.servers.header else s.roundRobinPt.tail
    return ({ s with roundRobinPt := next }, ⟨qname, some (s.topo.heap pt).ip, dnsId⟩)
  else
    let serverIp := s.routingTable.bind fun table =>
      lookupServer table (inetNtoa q.client) s.topo.nodes.num 0
    return (s, ⟨qname, serverIp, dnsId⟩)

def serveRun (isRoundRobin : Bool) : ServeState → List Query → Option (ServeState × List Reply)
  | s, [] => some (s, [])
  | s, q :: qs => do
    let (s, reply) ← serveQuery isRoundRobin s q
    let (s, replies) ← serveRun isRoundRobin s qs
    return (s, reply :: replies)

/-- `ip` is the address of a listed server. -/
def IsServerIp (t : Topo) (ip : List UInt8) : Prop := ∃ s ∈ t.servers.header, (t.heap s).ip = ip

/-- A node that is not skipped carries the address `ip`. -/
def HasRoute (t : Topo) (ip : List UInt8) : Prop :=
  ∃ p ∈ t.nodes.header, skipped t p = false ∧ (t.heap p).ip = ip

variable {t : Topo}

lemma isServerIp_of_isServer {p : Nat} (h : isServer t p = true) : IsServerIp t (t.heap p).ip :=
  (isServer_iff t p).mp h

/-- Whatever memory holds, a search changes marks only and finds listed servers only. -/
lemma scanNeighbors_shape {n i : Nat} {marks : Nat → Bool} {q q' : SearchQueue} {t' : Topo}
    {found : Option (List UInt8)} (h : scanNeighbors n i (mark t marks) q = some (t', q', found)) :
    (∃ marks', t' = mark t marks') ∧ ∀ ip, found = some ip → IsServerIp t ip := by
  induction i generalizing marks q with
  | zero =>
    simp only [scanNeighbors, Option.some.injEq, Prod.mk.injEq] at h
    obtain ⟨rfl, -, rfl⟩ := h
    exact ⟨⟨marks, rfl⟩, by simp⟩
  | succ i ih =>
    simp only [scanNeighbors, Option.bind_eq_bind, Option.bind_eq_some_iff] at h
    obtain ⟨p, -, h⟩ := h
    by_cases hvis : ((mark t marks).heap p).visited = true
    · rw [if_pos hvis] at h
      exact ih h
    · rw [if_neg hvis] at h
      by_cases hserver : isServer (mark t marks) p = true
      · rw [if_pos hserver] at h
        simp only [Option.pure_def, Option.some.injEq, Prod.mk.injEq] at h
        obtain ⟨rfl, -, rfl⟩ := h
        refine ⟨⟨marks, rfl⟩, fun ip hip => ?_⟩
        obtain rfl := Option.some.inj hip
        exact isServerIp_of_isServer hserver
      · rw [if_neg hserver, Option.bind_eq_some_iff] at h
        obtain ⟨q'', -, h⟩ := h
        rw [visit_mark] at h
        exact ih h

lemma searchLoop_shape {fuel : Nat} {marks : Nat → Bool} {q : SearchQueue} {t' : Topo}
    {found : Option (List UInt8)} (h : searchLoop fuel (mark t marks) q = some (t', found)) :
    (∃ marks', t' = mark t marks') ∧ ∀ ip, found = some ip → IsServerIp t ip := by
  induction fuel generalizing marks q with
  | zero => cases h
  | succ fuel ih =>
    rw [searchLoop] at h
    by_cases hempty : isEmpty q.mem 0 1 = true
    · rw [if_pos hempty] at h
      simp only [Option.some.injEq, Prod.mk.injEq] at h
      obtain ⟨rfl, rfl⟩ := h
      exact ⟨⟨marks, rfl⟩, by simp⟩
    · rw [if_neg hempty] at h
      simp only [Option.bind_eq_bind, Option.bind_eq_some_iff] at h
      obtain ⟨⟨mem, now⟩, -, ⟨t₁, q₁, found₁⟩, hscan, h⟩ := h
      obtain ⟨⟨marks₁, rfl⟩, hfound⟩ := scanNeighbors_shape hscan
      by_cases hsome : found₁.isSome = true
      · rw [if_pos hsome] at h
        simp only [Option.pure_def, Option.some.injEq, Prod.mk.injEq] at h
        obtain ⟨rfl, rfl⟩ := h
        exact ⟨⟨marks₁, rfl⟩, hfound⟩
      · rw [if_neg hsome] at h
        exact ih h

lemma bfs_shape {p : Nat} {marks : Nat → Bool} {t' : Topo} {found : Option (List UInt8)}
    (h : bfs (mark t marks) p = some (t', found)) :
    (∃ marks', t' = mark t marks') ∧ ∀ ip, found = some ip → IsServerIp t ip := by
  simp only [bfs, Option.bind_eq_bind, Option.bind_eq_some_iff, clearVisited_mark, visit_mark] at h
  obtain ⟨q, -, h⟩ := h
  exact searchLoop_shape h

/-- The entries of a table the loop finished: one for each node of `l` that is not skipped. -/
lemma routeLoop_shape (done : List RoutingTableEntry) {l : List Nat} {marks : Nat → Bool}
    {rest table : List RoutingTableEntry} {t' : Topo} (hrest : ∀ e ∈ rest, e.serverIp = none)
    (h : routeLoop l done.length (mark t marks) (done ++ rest) = some (t', table)) :
    (∃ marks', t' = mark t marks') ∧ ∃ (routes : List (List UInt8 × List UInt8)) (rest' : List RoutingTableEntry),
      table = done ++ routes.map entry ++ rest' ∧
      routes.map Prod.fst = (l.filter fun p => !skipped t p).map (fun p => (t.heap p).ip) ∧
      (∀ r ∈ routes, IsServerIp t r.2) ∧ (∀ e ∈ rest', e.serverIp = none) ∧
      routes.length + rest'.length = rest.length := by
  induction l generalizing marks done rest with
  | nil =>
    simp only [routeLoop, Option.some.injEq, Prod.mk.injEq] at h
    obtain ⟨rfl, rfl⟩ := h
    exact ⟨⟨marks, rfl⟩, [], rest, by simp, by simp, by simp, hrest, by simp⟩
  | cons p l ih =>
    have hip : ((mark t marks).heap p).ip = (t.heap p).ip := rfl
    have hmark : skipped (mark t marks) p = skipped t p := rfl
    simp only [routeLoop, hip, Option.bind_eq_bind, Option.bind_eq_some_iff] at h
    obtain ⟨table₁, hset, h⟩ := h
    cases rest with
    | nil => simp [setClientIp] at hset
    | cons e rest =>
      rw [setClientIp_append] at hset
      obtain rfl := Option.some.inj hset
      have he : e.serverIp = none := hrest e (by simp)
      have hrest' : ∀ x ∈ rest, x.serverIp = none := fun x hx => hrest x (by simp [hx])
      by_cases hskip : skipped t p = true
      · rw [if_pos (hmark.trans hskip)] at h
        have hall : ∀ x ∈ { e with clientIp := some (t.heap p).ip } :: rest, x.serverIp = none := by
          intro x hx
          rcases List.mem_cons.mp hx with rfl | hx
          · exact he
          · exact hrest' x hx
        have := ih done hall h
        simpa [hskip] using this
      · rw [if_neg (by rwa [hmark])] at h
        simp only [Option.bind_eq_some_iff] at h
        obtain ⟨⟨t₁, found⟩, hbfs, first, hfirst, table₂, hset₂, next, -, h⟩ := h
        obtain ⟨⟨marks₁, rfl⟩, hfound⟩ := bfs_shape hbfs
        obtain ⟨s, hs⟩ : ∃ s, found.getD (t.heap first).ip = s := ⟨_, rfl⟩
        have hserver : IsServerIp t s := by
          cases found with
          | none => exact ⟨first, List.mem_of_head? hfirst, hs⟩
          | some ip => exact hfound s (congrArg some hs)
        change setServerIp _ _ (found.getD (t.heap first).ip) = _ at hset₂
        rw [setServerIp_append, hs] at hset₂
        obtain rfl := Option.some.inj hset₂
        have hlen : done.length + 1 = (done ++ [entry ((t.heap p).ip, s)]).length := by simp
        have hentry : done ++ (⟨some (t.heap p).ip, some s⟩ : RoutingTableEntry) :: rest =
            (done ++ [entry ((t.heap p).ip, s)]) ++ rest := by simp [entry]
        rw [hlen, hentry] at h
        obtain ⟨hmarks, routes, rest', htable, hfst, hsnd, hnone, hcount⟩ := ih _ hrest' h
        refine ⟨hmarks, ((t.heap p).ip, s) :: routes, rest', by simpa using htable, ?_, ?_, hnone,
          by simp only [List.length_cons]; omega⟩
        · simp [hskip, hfst]
        · intro r hr
          rcases List.mem_cons.mp hr with rfl | hr
          · exact hserver
          · exact hsnd r hr

/-- The scan finds a listed server for the clients with a complete entry and for no others. -/
lemma lookupServer_spec {routes : List (List UInt8 × List UInt8)} {rest : List RoutingTableEntry}
    (hservers : ∀ r ∈ routes, IsServerIp t r.2) (hrest : ∀ e ∈ rest, e.serverIp = none)
    (done : List RoutingTableEntry) (clientIp : List UInt8) :
    (∃ ip, lookupServer (done ++ (routes.map entry ++ rest)) clientIp (routes.length + rest.length) done.length =
      some ip ∧ IsServerIp t ip) ↔ clientIp ∈ routes.map Prod.fst := by
  induction routes generalizing done with
  | nil =>
    have hnone : ∀ (n : Nat) (done rest : List RoutingTableEntry), (∀ e ∈ rest, e.serverIp = none) →
        lookupServer (done ++ rest) clientIp n done.length = none := by
      intro n
      induction n with
      | zero => intros; rfl
      | succ n ih =>
        intro done rest hrest
        cases rest with
        | nil => simp [lookupServer]
        | cons e rest =>
          have he := hrest e (by simp)
          have hnext := ih (done ++ [e]) rest fun x hx => hrest x (by simp [hx])
          simp only [List.append_assoc, List.singleton_append, List.length_append, List.length_singleton] at hnext
          cases hc : e.clientIp <;> simp [lookupServer, he, hc, hnext]
    simp [hnone _ _ _ hrest]
  | cons r routes ih =>
    have hnext := ih (fun x hx => hservers x (by simp [hx])) (done ++ [entry r])
    have hlen : (r :: routes).length + rest.length = routes.length + rest.length + 1 := by
      rw [List.length_cons]
      omega
    have happend : done ++ [entry r] ++ (routes.map entry ++ rest) =
        done ++ ((r :: routes).map entry ++ rest) := by simp
    rw [happend, List.length_append, List.length_singleton] at hnext
    have hget : (done ++ ((r :: routes).map entry ++ rest))[done.length]? = some (entry r) := by simp
    rw [hlen, lookupServer, hget]
    simp only [Option.bind_eq_bind, Option.bind_some, entry]
    by_cases hc : r.1 = clientIp
    · simpa [hc] using hservers r (by simp)
    · rw [if_neg hc, hnext]
      simp [Ne.symm hc]

/-- After a successful start the scan answers the clients that have a route, and no others. -/
lemma lookupServer_iff {t t' : Topo} {table : List RoutingTableEntry}
    (h : buildRoutingTable t = some (0, t', some table)) (clientIp : List UInt8) :
    (∃ ip, lookupServer table clientIp t'.nodes.num 0 = some ip ∧ IsServerIp t' ip) ↔ HasRoute t' clientIp := by
  unfold buildRoutingTable at h
  split at h
  · cases h
  · simp only [Option.bind_eq_bind, Option.bind_eq_some_iff, Option.pure_def, Option.some.injEq,
      Prod.mk.injEq, true_and] at h
    obtain ⟨⟨t₁, table₁⟩, hloop, rfl, rfl⟩ := h
    have hnone : ∀ e ∈ List.replicate t.nodes.num (⟨none, none⟩ : RoutingTableEntry), e.serverIp = none :=
      fun e he => by rw [List.eq_of_mem_replicate he]
    rw [← mark_self t] at hloop
    obtain ⟨⟨marks, rfl⟩, routes, rest, rfl, hfst, hsnd, hrest, hlen⟩ :=
      routeLoop_shape [] hnone hloop
    rw [List.length_replicate] at hlen
    have hspec := lookupServer_spec hsnd hrest [] clientIp
    rw [hlen, hfst] at hspec
    change (∃ ip, lookupServer ([] ++ routes.map entry ++ rest) clientIp t.nodes.num 0 = some ip ∧
      IsServerIp t ip) ↔ HasRoute t clientIp
    rw [List.append_assoc]
    refine hspec.trans ?_
    simp [HasRoute, and_assoc, mark_self]

lemma nameserverInit_table {junk : Junk} {serverFile lsaFile : Option (List UInt8)} {s : ServeState}
    {ret1 ret2 : Int} (h : nameserverInit junk serverFile lsaFile = some ((ret1, ret2, 0), s)) :
    ∃ t table, s.routingTable = some table ∧ buildRoutingTable t = some (0, s.topo, some table) := by
  simp only [nameserverInit, Option.bind_eq_bind, Option.bind_eq_some_iff, Option.pure_def,
    Option.some.injEq, Prod.mk.injEq] at h
  obtain ⟨⟨ret1, t₁⟩, -, ⟨ret2, t₂⟩, -, ⟨ret3, t₃, table⟩, hbuild, ⟨-, -, rfl⟩, rfl⟩ := h
  cases table with
  | none =>
    unfold buildRoutingTable at hbuild
    split at hbuild
    · cases hbuild
    · simp [Option.bind_eq_some_iff] at hbuild
  | some table => exact ⟨t₂, table, rfl, hbuild⟩

lemma serveQuery_geographic {s s' : ServeState} {q : Query} {reply : Reply}
    (h : serveQuery false s q = some (s', reply)) :
    s' = s ∧ reply.serverIp = s.routingTable.bind fun table =>
      lookupServer table (inetNtoa q.client) s.topo.nodes.num 0 := by
  simp only [serveQuery, Option.bind_eq_bind, Option.bind_eq_some_iff] at h
  obtain ⟨⟨ret, qname⟩, -, id, -, h⟩ := h
  simp only [Bool.false_eq_true, if_false, Option.pure_def, Option.some.injEq, Prod.mk.injEq] at h
  obtain ⟨rfl, rfl⟩ := h
  exact ⟨rfl, rfl⟩

/-- The bytes of a request of the resolver. -/
def requestBytes (name : HostName) (id : UInt16) : List UInt8 :=
  (requestHeader id).toBytes ++ questionBytes name.labels

lemma serveQuery_request (s : ServeState) (name : HostName) (id : UInt16) (client : InAddr) :
    ∃ reply, serveQuery false s ⟨requestBytes name id, client⟩ = some (s, reply) := by
  have hlen : (requestBytes name id).length = name.text.length + 18 := by
    simp only [requestBytes, questionBytes, List.length_append, DnsHeader.length_toBytes,
      name.length_wireName, sizeofHeader, List.length_cons, List.length_nil]
    omega
  have htext := name.length_text_le
  have hmin : min (requestBytes name id).length dnsMsgMaxLen = name.text.length + 18 := by
    rw [hlen, dnsMsgMaxLen]
    omega
  have hreceive : ∃ tail, receive (requestBytes name id) = requestBytes name id ++ tail := by
    rw [receive, List.take_of_length_le (by rw [hlen, dnsMsgMaxLen]; omega)]
    exact ⟨_, rfl⟩
  obtain ⟨tail, htail⟩ := hreceive
  have hparse := dnsParseRequest_text name id tail
  have hid : ∃ x, load16 (requestBytes name id ++ tail) 0 = some x :=
    ⟨_, load16_bytesOf16 (requestHeader id).id [] _⟩
  obtain ⟨x, hx⟩ := hid
  simp only [serveQuery, htail, hmin, hx]
  rw [requestBytes, hparse]
  exact ⟨_, rfl⟩

/-- In a run of the geographic mode the addresses handed to `dns_gen_response` are all defined
and listed servers exactly when every client has the address of a node with a route. -/
theorem answers_valid_iff_clients_routed (junk : Junk) (serverFile lsaFile : Option (List UInt8))
    (s s' : ServeState) (hinit : nameserverInit junk serverFile lsaFile = some ((0, 0, 0), s))
    (queries : List Query) (replies : List Reply) (hrun : serveRun false s queries = some (s', replies)) :
    (∀ reply ∈ replies, ∃ ip, reply.serverIp = some ip ∧ IsServerIp s.topo ip) ↔
      ∀ q ∈ queries, HasRoute s.topo (inetNtoa q.client) := by
  obtain ⟨t, table, htable, hbuild⟩ := nameserverInit_table hinit
  induction queries generalizing replies s' with
  | nil =>
    simp only [serveRun, Option.some.injEq, Prod.mk.injEq] at hrun
    simp [← hrun.2]
  | cons q queries ih =>
    simp only [serveRun, Option.bind_eq_bind, Option.bind_eq_some_iff, Option.pure_def, Option.some.injEq,
      Prod.mk.injEq] at hrun
    obtain ⟨⟨s₁, reply⟩, hstep, ⟨s₂, replies⟩, hrest, rfl, rfl⟩ := hrun
    obtain ⟨rfl, hreply⟩ := serveQuery_geographic hstep
    have hfirst := lookupServer_iff hbuild (inetNtoa q.client)
    rw [htable, Option.bind_some] at hreply
    rw [List.forall_mem_cons, List.forall_mem_cons, ih s₂ replies hrest, hreply]
    exact and_congr_left' hfirst

section Example

def oneServer : List UInt8 := bytes "4.0.0.1" ++ [10]
def oneClient : List UInt8 := bytes "1.0.0.1 0 4.0.0.1" ++ [10]
def videoName : HostName := ⟨[bytes "video"], by decide, by decide, by decide⟩

lemma nameserverInit_oneServer :
    ∃ s, nameserverInit zeroJunk (some oneServer) (some oneClient) = some ((0, 0, 0), s) := by
  have h : (nameserverInit zeroJunk (some oneServer) (some oneClient)).map Prod.fst = some (0, 0, 0) := by
    decide
  obtain ⟨⟨ret, s⟩, hs, rfl⟩ := Option.map_eq_some_iff.mp h
  exact ⟨s, hs⟩

theorem answers_valid_iff_clients_routed_one :
    ∃ s, ∃ reply : Reply, nameserverInit zeroJunk (some oneServer) (some oneClient) = some ((0, 0, 0), s) ∧
      ((∀ r ∈ [reply], ∃ ip, r.serverIp = some ip ∧ IsServerIp s.topo ip) ↔
        ∀ q ∈ [(⟨requestBytes videoName 1, ⟨1, 0, 0, 1⟩⟩ : Query)],
          HasRoute s.topo (inetNtoa q.client)) := by
  obtain ⟨s, hs⟩ := nameserverInit_oneServer
  obtain ⟨reply, hreply⟩ := serveQuery_request s videoName 1 ⟨1, 0, 0, 1⟩
  have hrun : serveRun false s [⟨requestBytes videoName 1, ⟨1, 0, 0, 1⟩⟩] = some (s, [reply]) := by
    simp [serveRun, hreply]
  exact ⟨s, reply, hs, answers_valid_iff_clients_routed zeroJunk (some oneServer) (some oneClient) s s hs _ _ hrun⟩

/-- A client that is not in the topology is answered with an address that was never set. -/
theorem unknown_client_gets_no_server :
    ¬∀ (junk : Junk) (serverFile lsaFile : Option (List UInt8)) (s s' : ServeState) (queries : List Query)
      (replies : List Reply), nameserverInit junk serverFile lsaFile = some ((0, 0, 0), s) →
      serveRun false s queries = some (s', replies) →
      ∀ reply ∈ replies, ∃ ip, reply.serverIp = some ip ∧ IsServerIp s.topo ip := by
  intro h
  obtain ⟨s, hs⟩ := nameserverInit_oneServer
  obtain ⟨reply, hreply⟩ := serveQuery_request s videoName 1 ⟨9, 9, 9, 9⟩
  have hrun : serveRun false s [⟨requestBytes videoName 1, ⟨9, 9, 9, 9⟩⟩] = some (s, [reply]) := by
    simp [serveRun, hreply]
  obtain ⟨ip, hip, -⟩ := h zeroJunk _ _ s s _ _ hs hrun reply (by simp)
  have hnone : ((nameserverInit zeroJunk (some oneServer) (some oneClient)).bind fun r =>
      r.2.routingTable.bind fun table => lookupServer table (inetNtoa ⟨9, 9, 9, 9⟩) r.2.topo.nodes.num 0) = none := by
    decide
  rw [hs, Option.bind_some] at hnone
  rw [(serveQuery_geographic hreply).2, hnone] at hip
  cases hip

end Example

end VideoCDN.Nameserver
