import VideoCDN.Nameserver.Run
import VideoCDN.Nameserver.Startup
import Mathlib.Data.Nat.Digits.Defs

/-!
# Answers in turn

With `-r` the nameserver hands out the addresses of the servers file one after the other. The
LSA file only adds nodes behind the servers, whatever is in it.
-/

namespace VideoCDN.Nameserver

open CString Inet Dns Buffer

/-! ## The servers after the start -/

variable {junk : Junk} {t t' : Topo}

lemma neighborNode_extends {ip : List UInt8} {p : Nat} (h : neighborNode junk t ip = some (t', p)) :
    Extends t t' := by
  rcases neighborNode_cases junk h with ⟨rfl, -, -⟩ | ⟨-, rfl, -⟩
  · exact Extends.refl t'
  · exact (grown_addNode junk ip).extends

lemma neighborLoop_extends {now rounds i : Nat} {tokens : List (List UInt8)}
    (h : neighborLoop junk now rounds i tokens t = some t') : Extends t t' := by
  induction rounds generalizing t i tokens with
  | zero =>
    obtain rfl := Option.some.inj h
    exact Extends.refl t
  | succ rounds ih =>
    simp only [neighborLoop, neighborRound, Option.bind_eq_bind, Option.bind_eq_some_iff] at h
    obtain ⟨neighbor, -, t₃, ⟨⟨t₁, p⟩, hnode, t₂, hreverse, hset⟩, h⟩ := h
    have hreversed := (addReverseNeighbor_sameNodes hreverse).grown.extends
    have hstored := (setNeighbor_sameNodes hset).grown.extends
    exact (neighborNode_extends hnode).trans (hreversed.trans (hstored.trans (ih h)))

/-- A line of the LSA file leaves the servers as they are. -/
lemma updateNode_extends {ip neighbors : List UInt8} {seqNum : Int}
    (h : updateNode junk ip seqNum neighbors t = some t') : Extends t t' := by
  obtain ⟨t₁, now, t₂, hnode, hclient, ⟨-, hloop⟩ | ⟨-, rfl⟩⟩ := updateNode_cases junk h
  · have hext := (neighborNode_extends hnode).trans (addClient_extends junk hclient)
    refine hext.trans (Extends.trans ?_ (neighborLoop_extends hloop))
    apply extends_update
    rfl
  · exact (neighborNode_extends hnode).trans (addClient_extends junk hclient)

lemma parseLsaLines_extends {lines : List (List UInt8)} {ret : Int}
    (h : parseLsaLines junk lines t = some (ret, t')) : Extends t t' := by
  induction lines generalizing t with
  | nil =>
    obtain ⟨-, rfl⟩ := Prod.mk.inj (Option.some.inj h)
    exact Extends.refl t
  | cons line lines ih =>
    simp only [parseLsaLines, Option.bind_eq_bind, Option.bind_eq_some_iff] at h
    obtain ⟨fields, -, h⟩ := h
    cases fields with
    | none =>
      obtain ⟨-, rfl⟩ := Prod.mk.inj (Option.some.inj h)
      exact Extends.refl t
    | some fields =>
      obtain ⟨t₁, hupdate, h⟩ := Option.bind_eq_some_iff.mp h
      exact (updateNode_extends hupdate).trans (ih h)

lemma parseLsaFile_extends {lsaFile : Option (List UInt8)} {ret : Int}
    (h : parseLsaFile junk lsaFile t = some (ret, t')) : Extends t t' := by
  cases lsaFile with
  | none =>
    obtain ⟨-, rfl⟩ := Prod.mk.inj (Option.some.inj h)
    exact Extends.refl t
  | some text => exact parseLsaLines_extends h

lemma buildRoutingTable_extends {ret : Int} {table : Option (List RoutingTableEntry)}
    (h : buildRoutingTable t = some (ret, t', table)) : Extends t t' := by
  unfold buildRoutingTable at h
  split at h
  · obtain ⟨-, hrest⟩ := Prod.mk.inj (Option.some.inj h)
    obtain ⟨rfl, -⟩ := Prod.mk.inj hrest
    exact Extends.refl t
  · obtain ⟨⟨t₁, table₁⟩, hloop, h⟩ := Option.bind_eq_some_iff.mp h
    obtain ⟨-, hrest⟩ := Prod.mk.inj (Option.some.inj h)
    obtain ⟨rfl, -⟩ := Prod.mk.inj hrest
    have hnone : ∀ e ∈ List.replicate t.nodes.num (⟨none, none⟩ : RoutingTableEntry), e.serverIp = none :=
      fun e he => by rw [List.eq_of_mem_replicate he]
    rw [← mark_self t] at hloop
    obtain ⟨⟨marks, rfl⟩, -⟩ := routeLoop_shape [] hnone hloop
    exact ⟨le_rfl, fun _ _ => rfl, ⟨[], by simp [mark]⟩, ⟨[], by simp [mark]⟩, rfl⟩

/-- The loop is entered with the servers in the order of their file, and the pointer on the first. -/
lemma startRun_servers {lines : List (List UInt8)} {file : List UInt8} (hfile : IsServerFile lines file)
    {lsaFile : Option (List UInt8)} {s : RunState} (h : startRun junk (some file) lsaFile = some (some s)) :
    ips s.serve.topo s.serve.topo.servers.header = lines ∧
      s.serve.roundRobinPt = s.serve.topo.servers.header ∧ s.retval = 0 ∧ s.running = true ∧ s.sent = [] := by
  obtain ⟨t₁, hserver, I⟩ := parseServerFile_isSome junk hfile
  simp only [startRun, nameserverInit, hserver, Option.bind_eq_bind, Option.bind_some, Option.bind_eq_some_iff,
    Option.pure_def, Option.some.injEq] at h
  obtain ⟨r, ⟨⟨ret₂, t₂⟩, hlsa, ⟨ret₃, t₃, table⟩, hbuild, rfl⟩, h⟩ := h
  split at h
  · obtain rfl := Option.some.inj h
    have hext := (parseLsaFile_extends hlsa).trans (buildRoutingTable_extends hbuild)
    refine ⟨?_, rfl, rfl, rfl, rfl⟩
    change ips t₃ t₃.servers.header = lines
    rw [hext.servers, hext.ips_eq I.servers_lt, I.servers]
  · cases h

lemma length_inetNtoa_le (a : InAddr) : (inetNtoa a).length ≤ 15 := by
  have hbyte : ∀ x : UInt8, (decimal x.toNat).length ≤ 3 := by
    intro x
    have hx := x.toNat_lt
    rw [decimal, List.length_map]
    apply Nat.toDigits_length <;> omega
  have ha := hbyte a.a
  have hb := hbyte a.b
  have hc := hbyte a.c
  have hd := hbyte a.d
  simp only [inetNtoa, List.length_append, List.length_cons]
  omega

lemma isServerName_inetNtoa (a : InAddr) : IsServerName (inetNtoa a) := by
  have hdigit : ∀ n, ∀ b ∈ decimal n, b ≠ 0 ∧ b ≠ 10 := fun n b hb =>
    ⟨ne_of_isdigit (isdigit_of_mem_decimal n b hb) (by decide),
      ne_of_isdigit (isdigit_of_mem_decimal n b hb) (by decide)⟩
  refine ⟨by simp [inetNtoa], fun b hb => ?_⟩
  simp only [inetNtoa, List.mem_append, List.mem_cons] at hb
  rcases hb with hb | rfl | hb | rfl | hb | rfl | hb
  · exact hdigit _ b hb
  · decide
  · exact hdigit _ b hb
  · decide
  · exact hdigit _ b hb
  · decide
  · exact hdigit _ b hb

/-- A file of distinct dotted quads, each with its newline. -/
lemma isServerFile_inetNtoa {addrs : List InAddr} (hne : addrs ≠ []) (hdistinct : addrs.Nodup) :
    IsServerFile (addrs.map inetNtoa) ((addrs.map inetNtoa).flatMap fun s => s ++ [10]) := by
  have hinj : Function.Injective inetNtoa := by
    intro a b h
    have h' := congrArg inetAton h
    rw [inetAton_inetNtoa, inetAton_inetNtoa] at h'
    exact Option.some.inj h'
  refine ⟨rfl, by simpa using hne, hdistinct.map hinj, ?_, ?_⟩
  · rw [List.forall_mem_map]
    exact fun a _ => isServerName_inetNtoa a
  · rw [List.forall_mem_map]
    intro a _
    have hlen := length_inetNtoa_le a
    rw [maxIpLen]
    omega

/-! ## Queries for a name -/

/-- A query for a host name: a header of a request, the name, and the bytes from its type on. -/
structure NameQuery where
  header : DnsHeader
  name : HostName
  rest : List UInt8
  client : InAddr
  valid : dnsIsinvalid header true = false
  rest_ne_nil : rest ≠ []
  fits : (header.toBytes ++ wireName name.labels ++ rest).length ≤ dnsMsgMaxLen

namespace NameQuery

variable (q : NameQuery)

def toQuery : Query := ⟨q.header.toBytes ++ wireName q.name.labels ++ q.rest, q.client⟩

/-- The response that carries the address `a`. -/
def answer (a : InAddr) : List UInt8 :=
  (responseHeader (htons q.header.id)).toBytes ++ questionBytes q.name.labels ++ answerBytes q.name.labels a

lemma receive_toQuery : receive q.toQuery.datagram =
    q.header.toBytes ++ wireName q.name.labels ++
      (q.rest ++ zeroPacket (dnsMsgMaxLen - q.toQuery.datagram.length)) := by
  have hfits : q.toQuery.datagram.length ≤ dnsMsgMaxLen := q.fits
  rw [receive, List.take_of_length_le hfits]
  exact List.append_assoc _ _ _

lemma parse_toQuery : dnsParseRequest (receive q.toQuery.datagram)
    (min q.toQuery.datagram.length dnsMsgMaxLen : Nat) =
      some (((q.name.text.length + 5 : Nat) : Int), q.name.text) := by
  have hfits : q.toQuery.datagram.length ≤ dnsMsgMaxLen := q.fits
  have hlen : q.name.text.length + 14 ≤ q.toQuery.datagram.length := by
    simp only [toQuery, List.length_append, DnsHeader.length_toBytes, q.name.length_wireName, sizeofHeader]
    omega
  have hint : dnsMsgMaxLen < 2 ^ 31 := by decide
  rw [receive_toQuery, Nat.min_eq_left hfits]
  apply dnsParseRequest_name q.name q.header q.valid
  · exact List.append_ne_nil_of_left_ne_nil q.rest_ne_nil _
  · exact_mod_cast hlen
  · omega

lemma id_toQuery : load16 (receive q.toQuery.datagram) 0 = some q.header.id := by
  rw [receive_toQuery, DnsHeader.toBytes]
  simp only [List.append_assoc]
  exact load16_bytesOf16 q.header.id [] _

lemma dnsGenResponse_answer {line : List UInt8} {a : InAddr} (ha : inetAton line = some a) :
    ∃ size packet, dnsGenResponse q.name.text (some line) (htons q.header.id) 0 (zeroPacket (dnsMsgMaxLen + 1)) =
      some (size, packet) ∧ packet.take size.toNat = q.answer a := by
  obtain ⟨packet, hgen, htake⟩ := dnsGenResponse_message q.name ha (htons q.header.id)
  refine ⟨_, packet, hgen, ?_⟩
  rw [Int.toNat_natCast]
  exact htake

end NameQuery

/-! ## The pointer -/

/-- After `k` answers the loop goes on, with the pointer on line `k` modulo the number of lines. -/
structure Serving (lines : List (List UInt8)) (k : Nat) (s : RunState) : Prop where
  servers : ips s.serve.topo s.serve.topo.servers.header = lines
  pointer : s.serve.roundRobinPt = s.serve.topo.servers.header.drop (k % lines.length)
  retval : s.retval = 0
  running : s.running = true

/-- The next pointer, which wraps at the end of the list. -/
lemma drop_mod_succ {α : Type*} {l : List α} (hne : l ≠ []) (k : Nat) :
    (if l.drop (k % l.length + 1) = [] then l else l.drop (k % l.length + 1)) = l.drop ((k + 1) % l.length) := by
  have hpos := List.length_pos_of_ne_nil hne
  have hlt := Nat.mod_lt k hpos
  by_cases hlast : k % l.length + 1 = l.length
  · have hwrap : (k + 1) % l.length = 0 := by rw [← Nat.mod_add_mod, hlast, Nat.mod_self]
    rw [if_pos (List.drop_eq_nil_of_le (by omega)), hwrap, List.drop_zero]
  · have hnext : (k + 1) % l.length = k % l.length + 1 := by
      rw [← Nat.mod_add_mod, Nat.mod_eq_of_lt (by omega)]
    rw [if_neg (by rw [List.drop_eq_nil_iff]; omega), hnext]

/-- A query is answered with the address the pointer is on, and the pointer moves on. -/
lemma runStep_query {lines : List (List UInt8)} {k : Nat} {s : RunState} (I : Serving lines k s) (q : NameQuery)
    {line : List UInt8} {a : InAddr} (hline : lines[k % lines.length]? = some line)
    (ha : inetAton line = some a) :
    ∃ s', runStep true s (.received q.toQuery) = some s' ∧ Serving lines (k + 1) s' ∧
      s'.sent = s.sent ++ [(q.answer a, q.client)] := by
  have hlength : lines.length = s.serve.topo.servers.header.length := by
    rw [← I.servers, ips, List.length_map]
  rw [← I.servers, ips, List.getElem?_map, Option.map_eq_some_iff, List.length_map] at hline
  obtain ⟨p, hp, hip⟩ := hline
  obtain ⟨hlt, hget⟩ := List.getElem?_eq_some_iff.mp hp
  have hpointer : s.serve.roundRobinPt = p :: s.serve.topo.servers.header.drop (k % lines.length + 1) := by
    rw [I.pointer, hlength, List.drop_eq_getElem_cons hlt, hget]
  have hanswer : serveQuery true s.serve q.toQuery =
      some ({ s.serve with roundRobinPt := s.serve.topo.servers.header.drop ((k + 1) % lines.length) },
        ⟨q.name.text, some line, htons q.header.id⟩) := by
    have hne : s.serve.topo.servers.header ≠ [] := by
      intro hnil
      rw [hnil] at hlt
      exact absurd hlt (Nat.not_lt_zero _)
    have hnext := drop_mod_succ hne k
    rw [← hlength] at hnext
    simp only [serveQuery, q.parse_toQuery, q.id_toQuery, hpointer, Option.bind_eq_bind, Option.bind_some,
      List.head?_cons, List.tail_cons, hnext, hip]
    rfl
  obtain ⟨size, packet, hpacket, htake⟩ := q.dnsGenResponse_answer ha
  refine ⟨{ s with
    serve := { s.serve with roundRobinPt := s.serve.topo.servers.header.drop ((k + 1) % lines.length) }
    log := s.log ++ [⟨inetNtoa q.client, q.name.text, some line⟩]
    sent := s.sent ++ [(q.answer a, q.client)] }, ?_, ⟨I.servers, rfl, I.retval, I.running⟩, rfl⟩
  rw [runStep_served I.retval q.parse_toQuery q.id_toQuery hanswer hpacket, htake]
  rfl

/-- The rounds for a sequence of inputs, as long as the loop is not left. -/
def runAll (isRoundRobin : Bool) : RunState → List Input → Option RunState
  | s, [] => some s
  | s, input :: inputs =>
    if s.running then (runStep isRoundRobin s input).bind fun s => runAll isRoundRobin s inputs else some s

/-- The answers of a run carry the addresses of the lines, in turn. -/
lemma runAll_queries {lines : List (List UInt8)} (hne : lines ≠ [])
    (hquad : ∀ line ∈ lines, ∃ a, inetAton line = some a) {k : Nat} {s : RunState} (I : Serving lines k s)
    (queries : List NameQuery) :
    ∃ s' answers, runAll true s (queries.map fun q => .received q.toQuery) = some s' ∧
      s'.sent = s.sent ++ answers ∧ answers.length = queries.length ∧
      ∀ i q line a, queries[i]? = some q → lines[(k + i) % lines.length]? = some line →
        inetAton line = some a → answers[i]? = some (q.answer a, q.client) := by
  induction queries generalizing k s with
  | nil => exact ⟨s, [], rfl, (List.append_nil _).symm, rfl, fun i q _ _ hq => by simp at hq⟩
  | cons q queries ih =>
    have hlt := Nat.mod_lt k (List.length_pos_of_ne_nil hne)
    have hline := List.getElem?_eq_getElem hlt
    obtain ⟨a, ha⟩ := hquad _ (List.getElem_mem hlt)
    obtain ⟨s₁, hstep, I₁, hsent₁⟩ := runStep_query I q hline ha
    obtain ⟨s', answers, hrun, hsent, hlength, hanswers⟩ := ih I₁
    refine ⟨s', (q.answer a, q.client) :: answers, ?_, ?_, by rw [List.length_cons, List.length_cons, hlength], ?_⟩
    · rw [List.map_cons, runAll, if_pos I.running, hstep, Option.bind_some, hrun]
    · rw [hsent, hsent₁, List.append_assoc, List.singleton_append]
    · intro i q' line' a' hq' hline' ha'
      cases i with
      | zero =>
        obtain rfl := Option.some.inj hq'
        obtain rfl := Option.some.inj (hline.symm.trans hline')
        obtain rfl := Option.some.inj (ha.symm.trans ha')
        rfl
      | succ i =>
        apply hanswers i q' line' a' hq' _ ha'
        rwa [Nat.add_assoc, Nat.add_comm 1 i]

/-- When the loop is entered, every sequence of queries is answered: answer `k` goes to the client of
query `k` and carries the address on line `k` modulo the number of lines. -/
theorem round_robin_law (junk : Junk) (lines : List (List UInt8)) (file : List UInt8)
    (hfile : IsServerFile lines file) (hquad : ∀ line ∈ lines, ∃ a, inetAton line = some a)
    (lsaFile : Option (List UInt8)) (s : RunState) (hstart : startRun junk (some file) lsaFile = some (some s))
    (queries : List NameQuery) :
    ∃ s', runAll true s (queries.map fun q => .received q.toQuery) = some s' ∧
      s'.sent.length = queries.length ∧
      ∀ k q line a, queries[k]? = some q → lines[k % lines.length]? = some line → inetAton line = some a →
        s'.sent[k]? = some (q.answer a, q.client) := by
  obtain ⟨hservers, hpointer, hretval, hrunning, hsent₀⟩ := startRun_servers hfile hstart
  have I : Serving lines 0 s := ⟨hservers, by rw [hpointer, Nat.zero_mod, List.drop_zero], hretval, hrunning⟩
  obtain ⟨s', answers, hrun, hsent, hlength, hanswers⟩ := runAll_queries hfile.nonempty hquad I queries
  rw [hsent₀, List.nil_append] at hsent
  refine ⟨s', hrun, by rw [hsent, hlength], fun k q line a hq hline ha => ?_⟩
  rw [hsent]
  apply hanswers k q line a hq _ ha
  rwa [Nat.zero_add]

section Example

def twoServers : List InAddr := [⟨4, 0, 0, 1⟩, ⟨5, 0, 0, 1⟩]

def twoServersFile : List UInt8 := (twoServers.map inetNtoa).flatMap fun s => s ++ [10]

/-- A query for an address from the given client. -/
def videoQuery (client : InAddr) : NameQuery :=
  ⟨requestHeader 7, videoName, [0, 1, 0, 1], client, by decide, by simp, by decide⟩

def threeQueries : List NameQuery :=
  [videoQuery ⟨1, 0, 0, 1⟩, videoQuery ⟨2, 0, 0, 1⟩, videoQuery ⟨1, 0, 0, 1⟩]

theorem round_robin_law_two : ∃ s s', startRun zeroJunk (some twoServersFile) (some oneClient) = some (some s) ∧
    runAll true s (threeQueries.map fun q => .received q.toQuery) = some s' ∧ s'.sent.length = 3 ∧
    ∀ k q line a, threeQueries[k]? = some q → (twoServers.map inetNtoa)[k % 2]? = some line →
      inetAton line = some a → s'.sent[k]? = some (q.answer a, q.client) := by
  have hstart : (startRun zeroJunk (some twoServersFile) (some oneClient)).map Option.isSome = some true := by
    decide
  obtain ⟨o, hs, hsome⟩ := Option.map_eq_some_iff.mp hstart
  obtain ⟨s, rfl⟩ := Option.isSome_iff_exists.mp hsome
  have hquad : ∀ line ∈ twoServers.map inetNtoa, ∃ a, inetAton line = some a := by
    rw [List.forall_mem_map]
    exact fun a _ => ⟨a, inetAton_inetNtoa a⟩
  obtain ⟨s', hrun, hlength, hanswers⟩ := round_robin_law zeroJunk _ _
    (isServerFile_inetNtoa (by decide) (by decide)) hquad (some oneClient) s hs threeQueries
  exact ⟨s, s', hs, hrun, hlength, hanswers⟩

end Example

end VideoCDN.Nameserver
