import VideoCDN.Lib.Datagrams
import VideoCDN.Nameserver.Turns
import VideoCDN.Proxy.Resolve
import VideoCDN.Reference.Interop

/-!
# The name service

The nameserver, the resolvers of the proxies and the test clients of the reference, on a network that
loses datagrams, delivers them more than once and in any order, with strangers that send the nameserver
whatever they like. Only the nameserver sends to the clients. A call takes the first datagram that arrives,
which may be the answer to an earlier call: neither client compares the id.
-/

namespace VideoCDN.System

open CString Inet Dns Nameserver Reference

/-- `dns_id` of `mydns.c`, which no function changes. -/
def dnsId : UInt16 := 5

/-- `sendDNSQuery`: the message that is sent, and the name, the address and the dictionary read from the
datagram that arrives. Without a datagram it raises. -/
def sendDNSQuery (query : Str) (g : Globals) (data : List UInt8) :
    Option (List UInt8 × Str × Str × Option Flags) := do
  let (message, _, g) ← genMessage insertionOrder query true ⟨false, [], [], []⟩ g
  if data = [] then none
  else
    let (name, addr, flags, _) ← parseMessage (data.take 1024) false g
    return (message, name, addr, flags)

/-- The resolver of a proxy, or the reference client with its transaction id. -/
inductive ClientKind
  | resolver
  | reference (transId : UInt16)
  deriving DecidableEq

structure Client where
  kind : ClientKind
  addr : InAddr
  name : HostName

/-- What a call ends with. -/
inductive Outcome
  | resolved (r : Proxy.Resolved)
  | answered (name addr : Str) (flags : Option Flags)
  | raised

/-- The address the caller goes on with. -/
def Outcome.address : Outcome → Option Str
  | .resolved r => r.connectAddr.map inetNtoa
  | .answered _ addr _ => some addr
  | .raised => none

/-- The query that a call sends. -/
def Client.query (c : Client) : Option (List UInt8) :=
  match c.kind with
  | .resolver => (dnsGenerateRequest c.name.text dnsId (zeroPacket dnsMsgMaxLen)).map fun r => r.2.take r.1.toNat
  | .reference transId =>
    (genMessage insertionOrder c.name.text true ⟨false, [], [], []⟩ (Globals.start transId.toNat)).map Prod.fst

/-- What a call ends with when `sendto` fails, when nothing arrives, and when a datagram arrives. -/
def Client.finish (c : Client) (junk : InAddr) (sendto : Bool) (recvfrom : Option (List UInt8)) : Option Outcome :=
  match c.kind with
  | .resolver => (Proxy.resolve c.name.text dnsId junk sendto recvfrom).map .resolved
  | .reference transId =>
    match sendto, recvfrom with
    | true, some data => (sendDNSQuery c.name.text (Globals.start transId.toNat) data).map fun r =>
        .answered r.2.1 r.2.2.1 r.2.2.2
    | _, _ => some .raised

inductive Datagram
  | query (client : InAddr) (data : List UInt8)
  | response (client : InAddr) (data : List UInt8)

/-- The nameserver, which clients are waiting, and what their calls ended with so far. -/
structure Parties where
  nameserver : RunState
  waiting : Nat → Bool
  outcomes : List (Nat × Outcome)

def Parties.finish (p : Parties) (i : Nat) (o : Outcome) : Parties :=
  { p with waiting := Function.update p.waiting i false, outcomes := p.outcomes ++ [(i, o)] }

/-- The packets that a round of the nameserver adds to those sent before. -/
def responses (s s' : RunState) : List Datagram :=
  (s'.sent.drop s.sent.length).map fun p => .response p.2 p.1

/-- The acts of the parties. -/
inductive Act (isRoundRobin : Bool) (clients : Nat → Client) :
    Parties → Option Datagram → Parties → List Datagram → Prop
  | call (p : Parties) (i : Nat) (data : List UInt8) (hidle : p.waiting i = false)
      (hquery : (clients i).query = some data) :
      Act isRoundRobin clients p none { p with waiting := Function.update p.waiting i true }
        [.query (clients i).addr data]
  | noCall (p : Parties) (i : Nat) (junk : InAddr) (o : Outcome) (hidle : p.waiting i = false)
      (hfinish : (clients i).finish junk false none = some o) : Act isRoundRobin clients p none (p.finish i o) []
  | noAnswer (p : Parties) (i : Nat) (junk : InAddr) (o : Outcome) (hwaiting : p.waiting i = true)
      (hfinish : (clients i).finish junk true none = some o) : Act isRoundRobin clients p none (p.finish i o) []
  | answer (p : Parties) (i : Nat) (junk : InAddr) (data : List UInt8) (o : Outcome) (hwaiting : p.waiting i = true)
      (hfinish : (clients i).finish junk true (some data) = some o) :
      Act isRoundRobin clients p (some (.response (clients i).addr data)) (p.finish i o) []
  | serve (p : Parties) (q : Query) (s : RunState) (hrunning : p.nameserver.running = true)
      (hstep : runStep isRoundRobin p.nameserver (.received q) = some s) :
      Act isRoundRobin clients p (some (.query q.client q.datagram)) { p with nameserver := s }
        (responses p.nameserver s)
  | round (p : Parties) (input : Input) (s : RunState) (hinput : ∀ q, input ≠ .received q)
      (hrunning : p.nameserver.running = true) (hstep : runStep isRoundRobin p.nameserver input = some s) :
      Act isRoundRobin clients p none { p with nameserver := s } []
  | stranger (p : Parties) (addr : InAddr) (data : List UInt8) (haddr : ∀ i, (clients i).addr ≠ addr) :
      Act isRoundRobin clients p none p [.query addr data]

/-- Nobody has called yet. -/
def start (s : RunState) : Datagrams.World Parties Datagram := ⟨⟨s, fun _ => false, []⟩, []⟩

/-! ## Queries and answers of the clients -/

lemma dnsIsinvalid_requestHeader (id : UInt16) : dnsIsinvalid (requestHeader id) true = false := by
  change dnsIsinvalid (requestHeader 0) true = false
  decide

lemma dnsIsinvalid_clientHeader (id : UInt16) : dnsIsinvalid (clientHeader id) true = false := by
  change dnsIsinvalid (clientHeader 0) true = false
  decide

/-- The type and the class of an address, behind the name of a question. -/
def addressRest : List UInt8 := [0, 1, 0, 1]

lemma addressRest_ne_nil : addressRest ≠ [] := List.cons_ne_nil _ _

lemma nameQuery_fits (header : DnsHeader) (name : HostName) :
    (header.toBytes ++ wireName name.labels ++ addressRest).length ≤ dnsMsgMaxLen := by
  have hname := name.length_text_le
  simp only [List.length_append, DnsHeader.length_toBytes, name.length_wireName, sizeofHeader, addressRest,
    List.length_cons, List.length_nil, dnsMsgMaxLen]
  omega

/-- A query for the address of a name. -/
def nameQuery (header : DnsHeader) (name : HostName) (client : InAddr)
    (hvalid : dnsIsinvalid header true = false) : NameQuery :=
  ⟨header, name, addressRest, client, hvalid, addressRest_ne_nil, nameQuery_fits header name⟩

/-- Both clients send a query for their name. -/
lemma Client.query_eq (c : Client) :
    ∃ q : NameQuery, c.query = some q.toQuery.datagram ∧ q.client = c.addr := by
  unfold Client.query
  cases c.kind with
  | resolver =>
    have hlen := c.name.length_text_le
    have hpacket := dnsGenerateRequest_text c.name dnsId (zeroPacket dnsMsgMaxLen)
      (by simp only [zeroPacket, List.length_replicate, dnsMsgMaxLen]; omega)
    refine ⟨nameQuery (requestHeader dnsId) c.name c.addr (dnsIsinvalid_requestHeader dnsId), ?_, rfl⟩
    dsimp only
    rw [hpacket, Option.map_some, Int.toNat_natCast,
      List.take_left' (length_header_question c.name (requestHeader dnsId)), questionBytes]
    simp [NameQuery.toQuery, nameQuery, addressRest]
  | reference transId =>
    refine ⟨nameQuery (clientHeader transId) c.name c.addr (dnsIsinvalid_clientHeader transId), ?_, rfl⟩
    dsimp only
    rw [genMessage_query, Option.map_some, questionBytes]
    simp [NameQuery.toQuery, nameQuery, addressRest]

lemma length_answer (q : NameQuery) (a : InAddr) : (q.answer a).length = 2 * q.name.text.length + 34 := by
  rw [NameQuery.answer, List.length_append, length_header_question]
  simp [answerBytes, InAddr.toList, q.name.length_wireName]
  omega

/-- Both clients read the address out of the answer to any query, not only their own. -/
lemma Client.finish_answer (c : Client) (junk : InAddr) (q : NameQuery) (a : InAddr) :
    ∃ o, c.finish junk true (some (q.answer a)) = some o ∧ o.address = some (inetNtoa a) := by
  unfold Client.finish
  cases c.kind with
  | resolver =>
    obtain ⟨ret, -, hanswer⟩ := (Proxy.hasAnswer_response q.name (htons q.header.id) a).parsed
    have hresolve := Proxy.resolve_of_datagram c.name dnsId junk (q.answer a)
    rw [NameQuery.answer] at hresolve ⊢
    rw [hanswer, Option.map_some] at hresolve
    dsimp only
    rw [hresolve]
    exact ⟨_, rfl, rfl⟩
  | reference transId =>
    have hlen := length_answer q a
    have hname := q.name.length_text_le
    have hne : q.answer a ≠ [] := by
      intro hnil
      rw [hnil] at hlen
      simp at hlen
    have htake : (q.answer a).take 1024 = q.answer a := List.take_of_length_le (by omega)
    have hparse := parseMessage_response q.name a (htons q.header.id)
    simp only [sendDNSQuery, genMessage_query, Option.bind_eq_bind, Option.bind_some, if_neg hne, htake]
    rw [NameQuery.answer, hparse]
    exact ⟨_, rfl, rfl⟩

/-! ## Safety -/

/-- While it meets `inv`, the nameserver answers the queries of the clients with addresses that are valid for
them, whatever else it receives. -/
structure Serves (isRoundRobin : Bool) (clients : Nat → Client) (inv : RunState → Prop)
    (valid : InAddr → InAddr → Prop) : Prop where
  step : ∀ s s' input, inv s → s.running = true → runStep isRoundRobin s input = some s' → inv s'
  answer : ∀ s s' i (q : NameQuery), inv s → s.running = true → q.client = (clients i).addr →
    runStep isRoundRobin s (.received q.toQuery) = some s' →
    ∃ a, valid q.client a ∧ s'.sent = s.sent ++ [(q.answer a, q.client)]

section Safety

variable {isRoundRobin : Bool} {clients : Nat → Client} {inv : RunState → Prop} {valid : InAddr → InAddr → Prop}

/-- What the parties have to keep: every address a call ended with is valid for the caller. -/
structure Parties.Sound (clients : Nat → Client) (inv : RunState → Prop) (valid : InAddr → InAddr → Prop)
    (p : Parties) : Prop where
  nameserver : inv p.nameserver
  outcomes : ∀ i o, (i, o) ∈ p.outcomes → ∀ x, o.address = some x → ∃ a, x = inetNtoa a ∧ valid (clients i).addr a

/-- The datagrams of a client are queries for a name, and those to it are answers with a valid address. -/
def Datagram.Sound (clients : Nat → Client) (valid : InAddr → InAddr → Prop) : Datagram → Prop
  | .query addr data => ∀ i, (clients i).addr = addr → ∃ q : NameQuery, q.toQuery = ⟨data, addr⟩
  | .response addr data => ∀ i, (clients i).addr = addr → ∃ (q : NameQuery) (a : InAddr),
      data = q.answer a ∧ valid addr a

lemma Parties.Sound.finish {p : Parties} (hp : p.Sound clients inv valid) {i : Nat} {o : Outcome}
    (ho : ∀ x, o.address = some x → ∃ a, x = inetNtoa a ∧ valid (clients i).addr a) :
    (p.finish i o).Sound clients inv valid := by
  refine ⟨hp.nameserver, fun j o' hmem => ?_⟩
  rcases List.mem_append.mp hmem with hmem | hmem
  · exact hp.outcomes j o' hmem
  · obtain ⟨rfl, rfl⟩ := Prod.mk.inj (List.mem_singleton.mp hmem)
    exact ho

/-- A call that gets no answer ends without an address. -/
lemma Client.finish_none {c : Client} {junk : InAddr} {sendto : Bool} {o : Outcome}
    (h : c.finish junk sendto none = some o) : o.address = none := by
  unfold Client.finish at h
  cases hkind : c.kind with
  | resolver =>
    rw [hkind] at h
    obtain ⟨r, hr, rfl⟩ := Option.map_eq_some_iff.mp h
    have hret : r.ret = -1 := by
      simp only [Proxy.resolve, Option.bind_eq_bind, Option.bind_eq_some_iff] at hr
      obtain ⟨packet, -, hr⟩ := hr
      have hfields : ⟨-1, packet.2.take packet.1.toNat, junk⟩ = r := by
        split at hr
        · exact Option.some.inj hr
        · exact Option.some.inj hr
      rw [← hfields]
    have hneg : ¬0 ≤ r.ret := by omega
    rw [Outcome.address, Proxy.Resolved.connectAddr, if_neg hneg, Option.map_none]
  | reference transId =>
    rw [hkind] at h
    cases sendto <;> (obtain rfl := Option.some.inj h; rfl)

/-- The step: one case for each act. -/
lemma Serves.keeps (h : Serves isRoundRobin clients inv valid) :
    Datagrams.Keeps (Act isRoundRobin clients) (Parties.Sound clients inv valid) (Datagram.Sound clients valid) := by
  intro p m p' out hp hm hact
  cases hact with
  | call i data hidle hquery =>
    obtain ⟨q, hq, hclient⟩ := (clients i).query_eq
    obtain rfl := Option.some.inj (hq.symm.trans hquery)
    refine ⟨⟨hp.nameserver, hp.outcomes⟩, fun x hx => ?_⟩
    rw [List.mem_singleton.mp hx]
    exact fun _ _ => ⟨q, by rw [← hclient]; rfl⟩
  | noCall i junk o hidle hfinish =>
    refine ⟨hp.finish fun x hx => ?_, by simp⟩
    rw [Client.finish_none hfinish] at hx
    cases hx
  | noAnswer i junk o hwaiting hfinish =>
    refine ⟨hp.finish fun x hx => ?_, by simp⟩
    rw [Client.finish_none hfinish] at hx
    cases hx
  | answer i junk data o hwaiting hfinish =>
    obtain ⟨q, a, rfl, hvalid⟩ := hm _ rfl i rfl
    obtain ⟨o', ho', haddr⟩ := (clients i).finish_answer junk q a
    obtain rfl := Option.some.inj (ho'.symm.trans hfinish)
    refine ⟨hp.finish fun x hx => ⟨a, ?_, hvalid⟩, by simp⟩
    rw [haddr] at hx
    exact (Option.some.inj hx).symm
  | serve q s hrunning hstep =>
    refine ⟨⟨h.step _ _ _ hp.nameserver hrunning hstep, hp.outcomes⟩, fun x hx => ?_⟩
    obtain ⟨packet, hpacket, rfl⟩ := List.mem_map.mp hx
    intro i hi
    -- the address of a client, so the query is one for a name
    obtain ⟨hsent⟩ | ⟨hsent, -⟩ := runStep_sent hstep
    · obtain ⟨q', packet', heq, hsent⟩ := hsent
      obtain rfl := Input.received.inj heq
      rw [hsent, List.drop_left, List.mem_singleton] at hpacket
      obtain rfl := hpacket
      obtain ⟨nq, hnq⟩ := hm _ rfl i hi
      have hq : nq.toQuery = q := hnq
      have hclient : nq.client = q.client := congrArg Query.client hq
      obtain ⟨a, hvalid, hanswer⟩ := h.answer _ _ i nq hp.nameserver hrunning (hclient.trans hi.symm)
        (by rw [hq]; exact hstep)
      rw [hanswer] at hsent
      have hpair := List.singleton_inj.mp (List.append_cancel_left hsent)
      refine ⟨nq, a, (Prod.mk.inj hpair).1.symm, ?_⟩
      rw [← hclient]
      exact hvalid
    · rw [hsent, List.drop_length] at hpacket
      cases hpacket
  | round input s hinput hrunning hstep =>
    exact ⟨⟨h.step _ _ _ hp.nameserver hrunning hstep, hp.outcomes⟩, by simp⟩
  | stranger addr data haddr =>
    refine ⟨hp, fun x hx => ?_⟩
    rw [List.mem_singleton.mp hx]
    exact fun i hi => absurd hi (haddr i)

/-- In a state: the addresses that calls ended with are valid for their callers, and an answer in flight would
end a call with one. -/
structure SafeState (clients : Nat → Client) (valid : InAddr → InAddr → Prop)
    (w : Datagrams.World Parties Datagram) : Prop where
  outcomes : ∀ i o, (i, o) ∈ w.parties.outcomes → ∀ x, o.address = some x →
    ∃ a, x = inetNtoa a ∧ valid (clients i).addr a
  inFlight : ∀ i data junk, .response (clients i).addr data ∈ w.inFlight →
    ∃ o a, (clients i).finish junk true (some data) = some o ∧ o.address = some (inetNtoa a) ∧
      valid (clients i).addr a

/-- Safety of any run, from safety of the nameserver's rounds. -/
lemma Serves.safe (h : Serves isRoundRobin clients inv valid) {s : RunState} (hs : inv s)
    {w : Datagrams.World Parties Datagram} (hrun : Datagrams.Runs (Act isRoundRobin clients) (start s) w) :
    SafeState clients valid w := by
  have hstart : (start s).Sound (Parties.Sound clients inv valid) (Datagram.Sound clients valid) :=
    ⟨⟨hs, by simp [start]⟩, by simp [start]⟩
  obtain ⟨hparties, hflight⟩ := h.keeps.runs hstart hrun
  refine ⟨hparties.outcomes, fun i data junk hmem => ?_⟩
  obtain ⟨q, a, rfl, hvalid⟩ := hflight _ hmem i rfl
  obtain ⟨o, ho, haddr⟩ := (clients i).finish_answer junk q a
  exact ⟨o, a, ho, haddr, hvalid⟩

/-- Where nothing is lost, a call ends with the address in the answer to its query. -/
lemma call_answered (clients : Nat → Client) {s s' : RunState} (hrunning : s.running = true) (i : Nat)
    {q : NameQuery} {a : InAddr}
    (hquery : (clients i).query = some q.toQuery.datagram) (hclient : q.client = (clients i).addr)
    (hstep : runStep isRoundRobin s (.received q.toQuery) = some s')
    (hsent : s'.sent = s.sent ++ [(q.answer a, q.client)]) :
    ∃ w o, Datagrams.Runs (Act isRoundRobin clients) (start s) w ∧ w.parties.outcomes = [(i, o)] ∧
      o.address = some (inetNtoa a) := by
  obtain ⟨o, ho, haddr⟩ := (clients i).finish_answer ⟨0, 0, 0, 0⟩ q a
  have hresponses : responses s s' = [.response (clients i).addr (q.answer a)] := by
    rw [responses, hsent, List.drop_left, hclient]
    rfl
  let waiting : Nat → Bool := Function.update (fun _ => false) i true
  have hwaiting : waiting i = true := Function.update_self (β := fun _ => Bool) _ _ _
  have hcall : Datagrams.Step (Act isRoundRobin clients) (start s)
      ⟨⟨s, waiting, []⟩, [.query q.client q.toQuery.datagram]⟩ := by
    rw [hclient]
    exact Datagrams.Step.act (.call _ i _ rfl hquery)
  have hserve : Datagrams.Step (Act isRoundRobin clients) ⟨⟨s, waiting, []⟩, [.query q.client q.toQuery.datagram]⟩
      ⟨⟨s', waiting, []⟩, [.response (clients i).addr (q.answer a)]⟩ := by
    rw [← hresponses]
    exact .receive_only (.serve ⟨s, waiting, []⟩ q.toQuery s' hrunning hstep)
  have hanswer : Datagrams.Step (Act isRoundRobin clients)
      ⟨⟨s', waiting, []⟩, [.response (clients i).addr (q.answer a)]⟩
      ⟨Parties.finish ⟨s', waiting, []⟩ i o, []⟩ :=
    .receive_only (.answer ⟨s', waiting, []⟩ i _ _ o hwaiting ho)
  exact ⟨_, o, ((Relation.ReflTransGen.single hcall).tail hserve).tail hanswer, rfl, haddr⟩

end Safety

/-! ## With `-r` -/

/-- The address is on a line of the servers file. -/
def IsListedAddr (lines : List (List UInt8)) (a : InAddr) : Prop := ∃ line ∈ lines, inetAton line = some a

lemma serves_inTurn {lines : List (List UInt8)} (hne : lines ≠ [])
    (hquad : ∀ line ∈ lines, ∃ a, inetAton line = some a) (clients : Nat → Client) :
    Serves true clients (InTurn lines) fun _ a => IsListedAddr lines a := by
  constructor
  · intro s s' input I hrunning hstep
    exact I.step hrunning hstep
  · intro s s' i q I hrunning hclient hstep
    have hlt := Nat.mod_lt s.log.length (List.length_pos_of_ne_nil hne)
    obtain ⟨a, ha⟩ := hquad _ (List.getElem_mem hlt)
    have J : Serving lines s.log.length s := ⟨I.servers, I.pointer, I.retval hrunning, hrunning⟩
    obtain ⟨s₁, hstep₁, -, hsent⟩ := runStep_query J q (List.getElem?_eq_getElem hlt) ha
    obtain rfl := Option.some.inj (hstep₁.symm.trans hstep)
    exact ⟨a, ⟨_, List.getElem_mem hlt, ha⟩, hsent⟩

/-- With `-r`, whatever is lost, repeated, reordered or sent by strangers, a call of a resolver or of a reference
client that ends with an address ends with one of the servers file. -/
theorem round_robin_service_safe (junk : Junk) (lines : List (List UInt8)) (file : List UInt8)
    (hfile : IsServerFile lines file) (hquad : ∀ line ∈ lines, ∃ a, inetAton line = some a)
    (lsaFile : Option (List UInt8)) (s : RunState) (hstart : startRun junk (some file) lsaFile = some (some s))
    (clients : Nat → Client) (w : Datagrams.World Parties Datagram)
    (hrun : Datagrams.Runs (Act true clients) (start s) w) :
    SafeState clients (fun _ a => IsListedAddr lines a) w :=
  (serves_inTurn hfile.nonempty hquad clients).safe (inTurn_start hfile hstart) hrun

section Example

/-- A proxy that asks for the name of the video server. -/
def oneProxy : Nat → Client := fun _ => ⟨.resolver, ⟨1, 0, 0, 1⟩, videoName⟩

theorem round_robin_service_safe_two : ∃ s w o,
    startRun zeroJunk (some twoServersFile) (some oneClient) = some (some s) ∧
    Datagrams.Runs (Act true oneProxy) (start s) w ∧ w.parties.outcomes = [(0, o)] ∧
    o.address = some (bytes "4.0.0.1") ∧
    SafeState oneProxy (fun _ a => IsListedAddr (twoServers.map inetNtoa) a) w := by
  have hstart : (startRun zeroJunk (some twoServersFile) (some oneClient)).map Option.isSome = some true := by
    decide
  obtain ⟨t, hs, hsome⟩ := Option.map_eq_some_iff.mp hstart
  obtain ⟨s, rfl⟩ := Option.isSome_iff_exists.mp hsome
  have hfile : IsServerFile (twoServers.map inetNtoa) twoServersFile :=
    isServerFile_inetNtoa (by decide) (by decide)
  have hquad : ∀ line ∈ twoServers.map inetNtoa, ∃ a, inetAton line = some a := by
    rw [List.forall_mem_map]
    exact fun a _ => ⟨a, inetAton_inetNtoa a⟩
  obtain ⟨hservers, hpointer, hretval, hrunning, -⟩ := startRun_servers hfile hs
  have I : Serving (twoServers.map inetNtoa) 0 s :=
    ⟨hservers, by rw [hpointer, Nat.zero_mod, List.drop_zero], hretval, hrunning⟩
  obtain ⟨q, hquery, hclient⟩ := (oneProxy 0).query_eq
  obtain ⟨s', hstep, -, hsent⟩ := runStep_query I q rfl (inetAton_inetNtoa ⟨4, 0, 0, 1⟩)
  obtain ⟨w, o, hrun, hout, haddr⟩ := call_answered oneProxy hrunning 0 hquery hclient hstep hsent
  exact ⟨s, w, o, hs, hrun, hout, haddr, round_robin_service_safe zeroJunk (twoServers.map inetNtoa)
    twoServersFile hfile hquad (some oneClient) s hs oneProxy w hrun⟩

end Example

end VideoCDN.System
