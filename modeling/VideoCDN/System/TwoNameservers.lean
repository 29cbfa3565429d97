import VideoCDN.Reference.ReferenceNameserver
import VideoCDN.System.NearestService

/-!
# The two nameservers

Started on the same files, the nameserver and the script of the reference answer the queries of the clients
one after the other. What the reference client reads out of their answers differs at most in the server, and
then both servers are equally near.
-/

namespace VideoCDN.System

open CString Inet Dns HopGraph Nameserver Reference

/-- What arrives from a client. -/
def Client.sends (c : Client) : Query := ⟨c.query.getD [], c.addr⟩

/-- A servers file of dotted quads. -/
def serversText (addrs : List InAddr) : List UInt8 := (addrs.map inetNtoa).flatMap fun s => s ++ [10]

/-- Out of the two answers the reference client reads the name it asked for, the addresses, and the same
dictionary but for the owner of the answer. -/
def ReadAlike (c : Client) (packet message : List UInt8) (a a' : InAddr) : Prop :=
  ∃ id : UInt16, ∀ g : Globals,
    parseMessage packet false g =
        some (c.name.text, inetNtoa a, some (readFlags g.transId id.toNat (.text c.name.text)), g) ∧
      parseMessage message false g =
        some (c.name.text, inetNtoa a', some (readFlags g.transId id.toNat (.pointer 49164)), g)

/-! ## Queries -/

/-- A query of a client, and what the script makes of it. -/
structure Sends (c : Client) (q : NameQuery) (id : UInt16) : Prop where
  toQuery : q.toQuery = c.sends
  name : q.name = c.name
  client : q.client = c.addr
  sameId : htons q.header.id = id
  parse : ∀ g, parseMessage (c.sends.datagram.take 1024) true g =
    some (c.name.text, [], none, { g with transId := id.toNat })

lemma take_query {header : DnsHeader} (name : HostName) :
    (header.toBytes ++ wireName name.labels ++ addressRest).take 1024 =
      header.toBytes ++ wireName name.labels ++ addressRest := by
  have hname := name.length_text_le
  apply List.take_of_length_le
  simp only [List.length_append, DnsHeader.length_toBytes, name.length_wireName, sizeofHeader, addressRest,
    List.length_cons, List.length_nil]
  omega

lemma requestHeader_bytes (id : UInt16) :
    (requestHeader id).toBytes = bytesOf16 (htons id) ++ [0, 0, 0, 1, 0, 0, 0, 0, 0, 0] := by
  simp only [requestHeader, dnsHeaderInit, DnsHeader.toBytes, List.append_assoc]
  congr 1

lemma clientHeader_bytes (id : UInt16) :
    (clientHeader id).toBytes = bytesOf16 (htons id) ++ [4, 0, 0, 1, 0, 0, 0, 0, 0, 0] := by
  simp only [clientHeader, requestHeader, dnsHeaderInit, DnsHeader.toBytes, List.append_assoc]
  congr 1

lemma Client.sends_eq (c : Client) : ∃ q id, Sends c q id := by
  have hquery : ∀ (header : DnsHeader) (hvalid : dnsIsinvalid header true = false),
      c.query = some (header.toBytes ++ wireName c.name.labels ++ addressRest) →
      (nameQuery header c.name c.addr hvalid).toQuery = c.sends := by
    intro header hvalid h
    rw [Client.sends, h]
    rfl
  cases hkind : c.kind with
  | resolver =>
    have hlen := c.name.length_text_le
    have hpacket := dnsGenerateRequest_text c.name dnsId (zeroPacket dnsMsgMaxLen)
      (by simp only [zeroPacket, List.length_replicate, dnsMsgMaxLen]; omega)
    have hsent : c.query = some ((requestHeader dnsId).toBytes ++ wireName c.name.labels ++ addressRest) := by
      rw [Client.query, hkind]
      dsimp only
      rw [hpacket, Option.map_some, Int.toNat_natCast,
        List.take_left' (length_header_question c.name (requestHeader dnsId)), questionBytes]
      simp [addressRest]
    have hsends := hquery _ (dnsIsinvalid_requestHeader dnsId) hsent
    refine ⟨_, dnsId, hsends, rfl, rfl, htons_htons dnsId, fun g => ?_⟩
    rw [Client.sends, hsent, Option.getD_some, take_query, requestHeader_bytes]
    exact parseMessage_query c.name dnsId 0 g
  | reference transId =>
    have hsent : c.query = some ((clientHeader transId).toBytes ++ wireName c.name.labels ++ addressRest) := by
      rw [Client.query, hkind]
      dsimp only
      rw [genMessage_query, Option.map_some, questionBytes]
      simp [addressRest]
    have hsends := hquery _ (dnsIsinvalid_clientHeader transId) hsent
    refine ⟨_, transId, hsends, rfl, rfl, htons_htons transId, fun g => ?_⟩
    rw [Client.sends, hsent, Option.getD_some, take_query, clientHeader_bytes]
    exact parseMessage_query c.name transId 4 g

/-- The two answers to a query. -/
lemma Sends.readAlike {c : Client} {q : NameQuery} {id : UInt16} (h : Sends c q id) (a a' : InAddr) :
    ReadAlike c (q.answer a) (scriptAnswer c.name id a') a a' := by
  refine ⟨id, fun g => ⟨?_, parseMessage_scriptAnswer c.name a' id g⟩⟩
  rw [NameQuery.answer, h.sameId, h.name]
  exact parseMessage_response c.name a id g

/-- The answers of the two to the callers, in their order and with nothing else sent: they are read alike, with
addresses that are related as `chosen` says. -/
structure AnsweredAlike (callers : List Client) (sent : List (List UInt8 × InAddr)) (messages : List (List UInt8))
    (chosen : Nat → Client → InAddr → InAddr → Prop) : Prop where
  length_sent : sent.length = callers.length
  length_messages : messages.length = callers.length
  alike : ∀ k c, callers[k]? = some c → ∃ packet message a a', sent[k]? = some (packet, c.addr) ∧
    messages[k]? = some message ∧ chosen k c a a' ∧ ReadAlike c packet message a a'

lemma isListed_inetNtoa {addrs : List InAddr} : ∀ line ∈ addrs.map inetNtoa, ∃ a, inetAton line = some a := by
  rw [List.forall_mem_map]
  exact fun a _ => ⟨a, inetAton_inetNtoa a⟩

section Calls

variable {q : Client → NameQuery} {id : Client → UInt16} {addrs : List InAddr}

/-! ## With `-r` -/

lemma next_line (hne : addrs ≠ []) (k : Nat) : ∃ a, addrs[k % addrs.length]? = some a ∧
    (addrs.map inetNtoa)[k % (addrs.map inetNtoa).length]? = some (inetNtoa a) := by
  have hlt := Nat.mod_lt k (List.length_pos_of_ne_nil hne)
  refine ⟨_, List.getElem?_eq_getElem hlt, ?_⟩
  rw [List.length_map, List.getElem?_map, List.getElem?_eq_getElem hlt, Option.map_some]

/-- The script answers with the addresses in turn. -/
lemma scriptRun_inTurn (hq : ∀ c, Sends c (q c) (id c)) (hne : addrs ≠ []) (hdistinct : addrs.Nodup)
    (order : DictOrder) (lsas : List UInt8) (transId : Nat) (callers : List Client) :
    ∃ g messages, Script.run order ⟨true, serversText addrs, lsas⟩ (Globals.start transId)
        (callers.map Client.sends) = some (g, messages) ∧ messages.length = callers.length ∧
      ∀ k c a, callers[k]? = some c → addrs[k % addrs.length]? = some a →
        messages[k]? = some (scriptAnswer c.name (id c) a) := by
  have hfile : IsServerFile (addrs.map inetNtoa) (serversText addrs) := isServerFile_inetNtoa hne hdistinct
  have hround : ∀ k g c, Globals.Answering (addrs.map inetNtoa) k g → ∃ g' message,
      Script.round order ⟨true, serversText addrs, lsas⟩ g c.sends = some (g', message) ∧
      g'.Answering (addrs.map inetNtoa) (k + 1) ∧
      ∀ a, addrs[k % addrs.length]? = some a → message = scriptAnswer c.name (id c) a := by
    intro k g c hg
    obtain ⟨a, ha, hline⟩ := next_line hne k
    obtain ⟨g', hchoice, hg'⟩ := @chooseAddr_inTurn order (Script.choice ⟨true, serversText addrs, lsas⟩ c.addr)
      _ _ _ rfl hfile hg _ hline (id c).toNat
    refine ⟨g', _, Script.round_eq ((hq c).parse g) hchoice, hg', fun a' ha' => ?_⟩
    rw [Option.some.inj (ha.symm.trans ha')]
  obtain ⟨g, messages, hrun, hlength, hmessages⟩ :=
    Simulation.run_counted hround (Globals.answering_start transId) callers
  refine ⟨g, messages, (Simulation.run_map _ _ _).trans hrun, hlength, fun k c a hc ha => ?_⟩
  obtain ⟨message, hmessage, hread⟩ := hmessages k c hc
  rw [Nat.zero_add] at hread
  rw [hmessage, hread a ha]

/-- With `-r` the two nameservers answer every sequence of calls with the same addresses, in turn. -/
theorem nameservers_agree_in_turn (junk : Junk) (addrs : List InAddr) (hne : addrs ≠ []) (hdistinct : addrs.Nodup)
    (lsaFile : Option (List UInt8)) (s : RunState)
    (hstart : startRun junk (some (serversText addrs)) lsaFile = some (some s)) (order : DictOrder)
    (lsas : List UInt8) (transId : Nat) (callers : List Client) :
    ∃ s' g messages, runAll true s (callers.map fun c => .received c.sends) = some s' ∧
      Script.run order ⟨true, serversText addrs, lsas⟩ (Globals.start transId) (callers.map Client.sends) =
        some (g, messages) ∧
      AnsweredAlike callers s'.sent messages fun k _ a a' => addrs[k % addrs.length]? = some a ∧ a' = a := by
  have hfile : IsServerFile (addrs.map inetNtoa) (serversText addrs) := isServerFile_inetNtoa hne hdistinct
  choose q id hq using Client.sends_eq
  obtain ⟨hservers, hpointer, hretval, hrunning, hsent₀⟩ := startRun_servers hfile hstart
  have I : Serving (addrs.map inetNtoa) 0 s :=
    ⟨hservers, by rw [hpointer, Nat.zero_mod, List.drop_zero], hretval, hrunning⟩
  obtain ⟨s', answers, hrun, hsent, hlength, hanswers⟩ :=
    runAll_queries hfile.nonempty isListed_inetNtoa I (callers.map q)
  have hinputs : ((callers.map q).map fun q => Input.received q.toQuery) = callers.map fun c => .received c.sends := by
    simp only [List.map_map, Function.comp_def, (hq _).toQuery]
  rw [hinputs] at hrun
  rw [hsent₀, List.nil_append] at hsent
  obtain ⟨g, messages, hscript, hcount, hmessages⟩ := scriptRun_inTurn hq hne hdistinct order lsas transId callers
  refine ⟨s', g, messages, hrun, hscript, by rw [hsent, hlength, List.length_map], hcount, fun k c hc => ?_⟩
  obtain ⟨a, ha, hline⟩ := next_line hne k
  have hk : (callers.map q)[k]? = some (q c) := by rw [List.getElem?_map, hc, Option.map_some]
  have hpacket := hanswers k (q c) _ a hk (by rwa [Nat.zero_add]) (inetAton_inetNtoa a)
  rw [← hsent, (hq c).client] at hpacket
  exact ⟨_, _, a, a, hpacket, hmessages k c a hc ha, ⟨ha, rfl⟩, (hq c).readAlike a a⟩

section Example

/-- A reference client after the proxy. -/
def proxyAndTest : List Client := [oneProxy 0, { oneProxy 0 with kind := .reference 7 }]

theorem nameservers_agree_in_turn_two : ∃ s s' g messages,
    startRun zeroJunk (some (serversText twoServers)) (some oneClient) = some (some s) ∧
    runAll true s (proxyAndTest.map fun c => .received c.sends) = some s' ∧
    Script.run insertionOrder ⟨true, serversText twoServers, []⟩ (Globals.start 0) (proxyAndTest.map Client.sends) =
      some (g, messages) ∧
    AnsweredAlike proxyAndTest s'.sent messages fun k _ a a' => twoServers[k % 2]? = some a ∧ a' = a := by
  have hstart : (startRun zeroJunk (some (serversText twoServers)) (some oneClient)).map Option.isSome =
      some true := by decide
  obtain ⟨o, hs, hsome⟩ := Option.map_eq_some_iff.mp hstart
  obtain ⟨s, rfl⟩ := Option.isSome_iff_exists.mp hsome
  obtain ⟨s', g, messages, h⟩ := nameservers_agree_in_turn zeroJunk twoServers (by decide) (by decide)
    (some oneClient) s hs insertionOrder [] 0 proxyAndTest
  exact ⟨s, s', g, messages, hs, h⟩

end Example

/-! ## Without `-r` -/

/-- Two servers at the same minimal hop distance from the client. -/
def EquallyNear (graph : Str → Str → Prop) (addrs : List InAddr) (client a a' : InAddr) : Prop :=
  a ∈ addrs ∧ a' ∈ addrs ∧ ∃ d, IsDist graph (inetNtoa client) (inetNtoa a) d ∧
    IsDist graph (inetNtoa client) (inetNtoa a') d ∧
    ∀ b ∈ addrs, ∀ n, Walk graph (inetNtoa client) n (inetNtoa b) → d ≤ n

lemma equallyNear {graph : Str → Str → Prop} {client a a' : InAddr} (ha : a ∈ addrs) (ha' : a' ∈ addrs)
    (h : IsNearest graph (inetNtoa client) (· ∈ addrs.map inetNtoa) (inetNtoa a))
    (h' : IsNearest graph (inetNtoa client) (· ∈ addrs.map inetNtoa) (inetNtoa a')) :
    EquallyNear graph addrs client a a' := by
  obtain ⟨d, hd, hd'⟩ := isNearest_same_dist h h'
  obtain ⟨-, e, he, hmin⟩ := h
  obtain rfl : d = e := Nat.le_antisymm (hd.2 e he.1) (he.2 d hd.1)
  exact ⟨ha, ha', d, hd, hd', fun b hb => hmin _ (List.mem_map_of_mem hb)⟩

variable {clients : Nat → Client} {near : Nat → InAddr}

/-- Calls of routed clients are answered with the addresses that the scan finds for them. -/
lemma runAll_routed (hq : ∀ c, Sends c (q c) (id c)) {table : List RoutingTableEntry} {s : RunState}
    (hretval : s.retval = 0) (hrunning : s.running = true) (htable : s.serve.routingTable = some table)
    (hnear : ∀ i, lookupServer table (inetNtoa (clients i).addr) s.serve.topo.nodes.num 0 =
      some (inetNtoa (near i))) (calls : List Nat) :
    ∃ s', runAll false s (calls.map fun i => .received (clients i).sends) = some s' ∧
      s'.sent = s.sent ++ calls.map fun i => ((q (clients i)).answer (near i), (clients i).addr) := by
  induction calls generalizing s with
  | nil => exact ⟨s, rfl, (List.append_nil _).symm⟩
  | cons i calls ih =>
    have hc := hq (clients i)
    have hstep := runStep_lookup hretval (q (clients i)) htable (by rw [hc.client]; exact hnear i)
      (inetAton_inetNtoa (near i))
    rw [hc.toQuery, hc.client] at hstep
    obtain ⟨s₁, hs₁, hserve, hretval₁, hrunning₁, hsent₁⟩ : ∃ s₁ : RunState,
        runStep false s (.received (clients i).sends) = some s₁ ∧ s₁.serve = s.serve ∧ s₁.retval = 0 ∧
        s₁.running = true ∧ s₁.sent = s.sent ++ [((q (clients i)).answer (near i), (clients i).addr)] :=
      ⟨_, hstep, rfl, hretval, hrunning, rfl⟩
    rw [← hserve] at htable hnear
    obtain ⟨s', hrun, hsent⟩ := ih hretval₁ hrunning₁ htable hnear
    refine ⟨s', ?_, ?_⟩
    · rw [List.map_cons, runAll, if_pos hrunning, hs₁, Option.bind_some, hrun]
    · rw [hsent, hsent₁, List.map_cons, List.append_assoc, List.singleton_append]

/-- The script answers each client with its best server, whatever it answered before. -/
lemma scriptRun_best (hq : ∀ c, Sends c (q c) (id c)) {file serverFile : List UInt8}
    (hserver : IsServerFile (addrs.map inetNtoa) serverFile) {order : DictOrder}
    (hnear : ∀ i, getBestServer order (inetNtoa (clients i).addr) (addrs.map inetNtoa) file =
      some (some (inetNtoa (near i)))) (transId : Nat) (calls : List Nat) :
    ∃ g messages, Script.run order ⟨false, serverFile, file⟩ (Globals.start transId)
        (calls.map fun i => (clients i).sends) = some (g, messages) ∧ messages.length = calls.length ∧
      ∀ k i : Nat, calls[k]? = some i →
        messages[k]? = some (scriptAnswer (clients i).name (id (clients i)) (near i)) := by
  have hround : ∀ (k : Nat) (g : Globals) i, (g.servers = [] ∨ g.servers = addrs.map inetNtoa) → ∃ g' message,
      Script.round order ⟨false, serverFile, file⟩ g (clients i).sends = some (g', message) ∧
      (g'.servers = [] ∨ g'.servers = addrs.map inetNtoa) ∧
      message = scriptAnswer (clients i).name (id (clients i)) (near i) := by
    intro k g i hg
    obtain ⟨g', hchoice, hg'⟩ := @chooseAddr_best order (Script.choice ⟨false, serverFile, file⟩ (clients i).addr)
      _ _ rfl hserver hg _ (hnear i) (id (clients i)).toNat
    exact ⟨g', _, Script.round_eq ((hq (clients i)).parse g) hchoice, Or.inr hg', rfl⟩
  obtain ⟨g, messages, hrun, hlength, hmessages⟩ :=
    @Simulation.run_counted _ _ _ _ _ _ hround 0 (Globals.start transId) (Or.inl rfl) calls
  refine ⟨g, messages, (Simulation.run_map _ _ _).trans hrun, hlength, fun k i hi => ?_⟩
  obtain ⟨message, hmessage, rfl⟩ := hmessages k i hi
  exact hmessage

/-- On announcements of one symmetric topology the two nameservers answer every sequence of calls with servers at
the same minimal hop distance from the caller. -/
theorem nameservers_agree_on_distance (junk : Junk) (hjunk : ∀ a, junk.neighborNum a = 0) (link : Str → Str → Prop)
    (lines : List LsaLine) (addrs : List InAddr) (hne : addrs ≠ []) (hdistinct : addrs.Nodup)
    (clients : Nat → Client) (h : Announces link lines (addrs.map inetNtoa) clients) (file : List UInt8)
    (hfile : IsLsaFile lines file) (order : DictOrder) (transId : Nat) :
    ∃ s, startRun junk (some (serversText addrs)) (some file) = some (some s) ∧ ∀ calls : List Nat,
      ∃ s' g messages, runAll false s (calls.map fun i => .received (clients i).sends) = some s' ∧
        Script.run order ⟨false, serversText addrs, file⟩ (Globals.start transId)
          (calls.map fun i => (clients i).sends) = some (g, messages) ∧
        AnsweredAlike (calls.map clients) s'.sent messages fun _ c a a' =>
          EquallyNear (FileGraph lines) addrs c.addr a a' := by
  have hserver : IsServerFile (addrs.map inetNtoa) (serversText addrs) := isServerFile_inetNtoa hne hdistinct
  obtain ⟨s, hstart, hretval, hrunning, hrouted⟩ := startRun_routed hjunk h hfile hserver
  refine ⟨s, hstart, fun calls => ?_⟩
  choose q id hq using Client.sends_eq
  obtain ⟨table, -, htable, -⟩ := hrouted 0
  -- the servers that the two choose for client `i`
  have hnameserver : ∀ i, ∃ a ∈ addrs,
      lookupServer table (inetNtoa (clients i).addr) s.serve.topo.nodes.num 0 = some (inetNtoa a) ∧
      IsNearest (FileGraph lines) (inetNtoa (clients i).addr) (· ∈ addrs.map inetNtoa) (inetNtoa a) := by
    intro i
    obtain ⟨table', ip, htable', hlookup, hnearest⟩ := hrouted i
    obtain rfl := Option.some.inj (htable.symm.trans htable')
    obtain ⟨a, ha, rfl⟩ := List.mem_map.mp hnearest.1
    exact ⟨a, ha, hlookup, hnearest⟩
  have hscript : ∀ i, ∃ a ∈ addrs,
      getBestServer order (inetNtoa (clients i).addr) (addrs.map inetNtoa) file = some (some (inetNtoa a)) ∧
      IsNearest (FileGraph lines) (inetNtoa (clients i).addr) (· ∈ addrs.map inetNtoa) (inetNtoa a) := by
    intro i
    obtain ⟨b, hbest, hnearest⟩ := getBestServer_isNearest order h.symm h.links hfile hserver (h.reach i)
    obtain ⟨a, ha, rfl⟩ := List.mem_map.mp hnearest.1
    exact ⟨a, ha, hbest, hnearest⟩
  choose near hnear hlookup hnearest using hnameserver
  choose best hbest hget hbestNearest using hscript
  obtain ⟨s', hrun, hsent⟩ := runAll_routed hq hretval hrunning htable hlookup calls
  obtain ⟨-, -, -, -, hsent₀⟩ := startRun_servers hserver hstart
  rw [hsent₀, List.nil_append] at hsent
  obtain ⟨g, messages, hmessages, hlength, hall⟩ := scriptRun_best hq hserver hget transId calls
  refine ⟨s', g, messages, hrun, hmessages, ?_, ?_, fun k c hc => ?_⟩
  · rw [hsent, List.length_map, List.length_map]
  · rw [hlength, List.length_map]
  · rw [List.getElem?_map] at hc
    obtain ⟨i, hi, rfl⟩ := Option.map_eq_some_iff.mp hc
    exact ⟨_, _, near i, best i, by rw [hsent, List.getElem?_map, hi, Option.map_some], hall k i hi,
      equallyNear (hnear i) (hbest i) (hnearest i) (hbestNearest i), (hq (clients i)).readAlike _ _⟩

section Example

theorem nameservers_agree_on_distance_fork : ∃ s,
    startRun zeroJunk (some (serversText [⟨3, 0, 0, 1⟩, ⟨2, 0, 0, 1⟩])) (some (twoLines lineClient lineRouter)) =
      some (some s) ∧
    ∀ calls : List Nat, ∃ s' g messages,
      runAll false s (calls.map fun i => .received (oneProxy i).sends) = some s' ∧
      Script.run insertionOrder ⟨false, serversText [⟨3, 0, 0, 1⟩, ⟨2, 0, 0, 1⟩], twoLines lineClient lineRouter⟩
        (Globals.start 0) (calls.map fun i => (oneProxy i).sends) = some (g, messages) ∧
      AnsweredAlike (calls.map oneProxy) s'.sent messages fun _ c a a' =>
        EquallyNear (FileGraph [lineClient, lineRouter]) [⟨3, 0, 0, 1⟩, ⟨2, 0, 0, 1⟩] c.addr a a' := by
  have hservers : [(⟨3, 0, 0, 1⟩ : InAddr), ⟨2, 0, 0, 1⟩].map inetNtoa = [bytes "3.0.0.1", bytes "2.0.0.1"] := by decide
  exact nameservers_agree_on_distance zeroJunk (fun _ => rfl) fork _ _ (by decide) (by decide) oneProxy
    (by rw [hservers]; exact announces_fork) _ (isLsaFile_twoLines _ _) insertionOrder 0

end Example

end Calls

end VideoCDN.System
