import VideoCDN.Nameserver.Serve

/-!
# Runs of the nameserver

`nameserver_run` from its start on: whether the loop is entered, and what a round logs and sends.
-/

namespace VideoCDN.Nameserver

open CString Inet Dns

/-- What `log_record` is given. -/
structure LogRecord where
  clientIp : List UInt8
  qname : List UInt8
  serverIp : Option (List UInt8)

/-- The state between the rounds; `retval` is tested, but `retval2` is what a request returns. -/
structure RunState where
  retval : Int
  serve : ServeState
  log : List LogRecord
  sent : List (List UInt8 × InAddr)
  running : Bool

/-- What `select` and `recvfrom` bring in a round. -/
inductive Input
  | selectFailed
  | selectNone
  | recvFailed
  | received (q : Query)

/-- The sum of what the three calls at the start return lets the loop begin. -/
def EntersLoop (ret : Int × Int × Int) : Prop := ¬ret.1 + ret.2.1 + ret.2.2 > 0

instance (ret : Int × Int × Int) : Decidable (EntersLoop ret) := inferInstanceAs (Decidable ¬_ > _)

/-- The state in which the loop is entered, if it is. -/
def startRun (junk : Junk) (serverFile lsaFile : Option (List UInt8)) : Option (Option RunState) := do
  let r ← nameserverInit junk serverFile lsaFile
  return if EntersLoop r.1 then some ⟨0, r.2, [], [], true⟩ else none

/-- A round of the loop. In the last branch `serveQuery` has parsed the same request. -/
def runStep (isRoundRobin : Bool) (s : RunState) : Input → Option RunState
  | .selectFailed => some { s with retval := -1, running := false }
  | .selectNone => some s
  | .recvFailed => some { s with retval := -1, running := false }
  | .received q => do
    let request := receive q.datagram
    let r ← dnsParseRequest request (min q.datagram.length dnsMsgMaxLen : Nat)
    let id ← load16 request 0
    if s.retval < 0 then
      let packet ← dnsGenResponse r.2 none (htons id) 1 (zeroPacket (dnsMsgMaxLen + 1))
      return { s with sent := s.sent ++ [(packet.2.take packet.1.toNat, q.client)], running := false }
    else
      let answer ← serveQuery isRoundRobin s.serve q
      let reply := answer.2
      let packet ← dnsGenResponse reply.qname reply.serverIp reply.dnsId 0 (zeroPacket (dnsMsgMaxLen + 1))
      return { s with
        serve := answer.1
        log := s.log ++ [⟨inetNtoa q.client, reply.qname, reply.serverIp⟩]
        sent := s.sent ++ [(packet.2.take packet.1.toNat, q.client)] }

/-- The states between the rounds. -/
inductive Reachable (isRoundRobin : Bool) (junk : Junk) (serverFile lsaFile : Option (List UInt8)) : RunState → Prop
  | start {s : RunState} (h : startRun junk serverFile lsaFile = some (some s)) :
      Reachable isRoundRobin junk serverFile lsaFile s
  | step {s s' : RunState} (h : Reachable isRoundRobin junk serverFile lsaFile s) (hrunning : s.running = true)
      (input : Input) (hstep : runStep isRoundRobin s input = some s') :
      Reachable isRoundRobin junk serverFile lsaFile s'

/-! ## The start -/

/-- All three calls succeeded: there is a server, and the table was allocated. -/
def Prepared (ret : Int × Int × Int) (s : ServeState) : Prop :=
  ret = (0, 0, 0) ∧ s.topo.servers.header ≠ [] ∧ s.routingTable.isSome

/-- The file is there, and every line of it has three fields. -/
def LsaIsComplete (lsaFile : Option (List UInt8)) : Prop :=
  ∃ text, lsaFile = some text ∧ ∀ line ∈ fgetsLines [] text, ∃ fields, sscanfLine line = some (some fields)

lemma parseLsaLines_ret {junk : Junk} {lines : List (List UInt8)} {t t' : Topo} {ret : Int}
    (h : parseLsaLines junk lines t = some (ret, t')) :
    ret = 0 ∧ (∀ line ∈ lines, ∃ fields, sscanfLine line = some (some fields)) ∨
      ret = -1 ∧ ¬∀ line ∈ lines, ∃ fields, sscanfLine line = some (some fields) := by
  induction lines generalizing t with
  | nil =>
    obtain ⟨rfl, -⟩ := Prod.mk.inj (Option.some.inj h)
    exact Or.inl ⟨rfl, fun line hline => absurd hline List.not_mem_nil⟩
  | cons line lines ih =>
    simp only [parseLsaLines, Option.bind_eq_bind, Option.bind_eq_some_iff] at h
    obtain ⟨fields, hfields, h⟩ := h
    cases fields with
    | none =>
      obtain ⟨rfl, -⟩ := Prod.mk.inj (Option.some.inj h)
      refine Or.inr ⟨rfl, fun hall => ?_⟩
      obtain ⟨fields, hsome⟩ := hall line List.mem_cons_self
      rw [hfields] at hsome
      cases hsome
    | some fields =>
      obtain ⟨t₁, -, h⟩ := Option.bind_eq_some_iff.mp h
      rcases ih h with ⟨rfl, hall⟩ | ⟨rfl, hall⟩
      · exact Or.inl ⟨rfl, List.forall_mem_cons.mpr ⟨⟨fields, hfields⟩, hall⟩⟩
      · exact Or.inr ⟨rfl, fun hcons => hall (List.forall_mem_cons.mp hcons).2⟩

lemma parseLsaFile_ret {junk : Junk} {lsaFile : Option (List UInt8)} {t t' : Topo} {ret : Int}
    (h : parseLsaFile junk lsaFile t = some (ret, t')) :
    ret = 0 ∧ LsaIsComplete lsaFile ∨ ret = -1 ∧ ¬LsaIsComplete lsaFile := by
  cases lsaFile with
  | none =>
    obtain ⟨rfl, -⟩ := Prod.mk.inj (Option.some.inj h)
    exact Or.inr ⟨rfl, fun ⟨text, htext, _⟩ => absurd htext (Option.some_ne_none text).symm⟩
  | some text =>
    rcases parseLsaLines_ret h with ⟨rfl, hall⟩ | ⟨rfl, hall⟩
    · exact Or.inl ⟨rfl, text, rfl, hall⟩
    · refine Or.inr ⟨rfl, ?_⟩
      rintro ⟨_, ⟨⟩, h⟩
      exact hall h

lemma parseServerFile_ret {junk : Junk} {serverFile : Option (List UInt8)} {t t' : Topo} {ret : Int}
    (h : parseServerFile junk serverFile t = some (ret, t')) :
    ret = 0 ∧ serverFile.isSome ∨ ret = -1 ∧ ¬serverFile.isSome := by
  cases serverFile with
  | none =>
    obtain ⟨rfl, -⟩ := Prod.mk.inj (Option.some.inj h)
    exact Or.inr ⟨rfl, by simp⟩
  | some text =>
    obtain ⟨t₁, -, h⟩ := Option.bind_eq_some_iff.mp h
    obtain ⟨rfl, -⟩ := Prod.mk.inj (Option.some.inj h)
    exact Or.inl ⟨rfl, rfl⟩

/-- The table is allocated and filled exactly when zero is returned, and then there is a server. -/
lemma buildRoutingTable_ret {t t' : Topo} {ret : Int} {table : Option (List RoutingTableEntry)}
    (h : buildRoutingTable t = some (ret, t', table)) :
    ret = 0 ∧ t'.servers.header ≠ [] ∧ table.isSome ∨ ret = 1 := by
  unfold buildRoutingTable at h
  split at h
  · obtain ⟨rfl, -⟩ := Prod.mk.inj (Option.some.inj h)
    exact Or.inr rfl
  · rename_i hready
    simp only [Option.bind_eq_bind, Option.bind_eq_some_iff, Option.pure_def, Option.some.injEq,
      Prod.mk.injEq] at h
    obtain ⟨⟨t₁, table₁⟩, hloop, rfl, rfl, rfl⟩ := h
    have hnone : ∀ e ∈ List.replicate t.nodes.num (⟨none, none⟩ : RoutingTableEntry), e.serverIp = none :=
      fun e he => by rw [List.eq_of_mem_replicate he]
    rw [← mark_self t] at hloop
    obtain ⟨⟨marks, rfl⟩, -⟩ := routeLoop_shape [] hnone hloop
    refine Or.inl ⟨rfl, ?_, rfl⟩
    intro hempty
    exact hready (Or.inr (Or.inr (Or.inr (Or.inr (Or.inl hempty)))))

/-- The loop is entered with everything prepared, whenever it is entered, exactly when both files
are there and the second one is complete. -/
theorem start_gate_iff (junk : Junk) (serverFile lsaFile : Option (List UInt8)) (ret : Int × Int × Int)
    (s : ServeState) (hinit : nameserverInit junk serverFile lsaFile = some (ret, s)) :
    (EntersLoop ret → Prepared ret s) ↔ serverFile.isSome ∧ LsaIsComplete lsaFile := by
  obtain ⟨ret1, ret2, ret3⟩ := ret
  simp only [nameserverInit, Option.bind_eq_bind, Option.bind_eq_some_iff, Option.pure_def,
    Option.some.injEq, Prod.mk.injEq] at hinit
  obtain ⟨⟨r1, t₁⟩, hserver, ⟨r2, t₂⟩, hlsa, ⟨r3, t₃, table⟩, hbuild, ⟨rfl, rfl, rfl⟩, rfl⟩ := hinit
  have hret3 := buildRoutingTable_ret hbuild
  rcases parseServerFile_ret hserver with ⟨rfl, hopen⟩ | ⟨rfl, hopen⟩
  · rcases parseLsaFile_ret hlsa with ⟨rfl, hcomplete⟩ | ⟨rfl, hcomplete⟩
    · refine iff_of_true (fun henters => ?_) ⟨hopen, hcomplete⟩
      rcases hret3 with ⟨rfl, hservers, htable⟩ | rfl
      · exact ⟨rfl, hservers, htable⟩
      · exact absurd henters (by simp [EntersLoop])
    · refine iff_of_false (fun hprepared => ?_) (fun h => hcomplete h.2)
      have henters : EntersLoop (0, -1, r3) := by
        change ¬0 + -1 + r3 > 0
        omega
      exact absurd (hprepared henters).1 (by simp)
  · refine iff_of_false (fun hprepared => ?_) (fun h => hopen h.1)
    have hret2 : r2 = 0 ∨ r2 = -1 := (parseLsaFile_ret hlsa).imp And.left And.left
    have henters : EntersLoop (-1, r2, r3) := by
      change ¬-1 + r2 + r3 > 0
      omega
    exact absurd (hprepared henters).1 (by simp)

section Example

theorem start_gate_iff_one : ∃ s, nameserverInit zeroJunk (some oneServer) (some oneClient) = some ((0, 0, 0), s) ∧
    ((EntersLoop (0, 0, 0) → Prepared (0, 0, 0) s) ↔
      (some oneServer).isSome = true ∧ LsaIsComplete (some oneClient)) := by
  obtain ⟨s, hs⟩ := nameserverInit_oneServer
  exact ⟨s, hs, start_gate_iff zeroJunk (some oneServer) (some oneClient) (0, 0, 0) s hs⟩

/-- Without a servers file two of the calls fail, but the loop is entered. -/
theorem loop_entered_without_servers :
    ¬∀ (junk : Junk) (serverFile lsaFile : Option (List UInt8)) (ret : Int × Int × Int) (s : ServeState),
      nameserverInit junk serverFile lsaFile = some (ret, s) → EntersLoop ret → Prepared ret s := by
  intro h
  have hret : (nameserverInit zeroJunk none (some oneClient)).map Prod.fst = some (-1, 0, 1) := by decide
  obtain ⟨⟨ret, s⟩, hs, hfst⟩ := Option.map_eq_some_iff.mp hret
  obtain rfl : ret = (-1, 0, 1) := hfst
  have hprepared := h zeroJunk none (some oneClient) _ s hs (by decide)
  exact absurd hprepared.1 (by decide)

end Example

/-! ## Requests that are refused by the parser -/

/-- `dns_parse_request` returns a negative value for the datagram. -/
def IsMalformed (q : Query) : Prop :=
  ∃ ret qname, dnsParseRequest (receive q.datagram) (min q.datagram.length dnsMsgMaxLen : Nat) = some (ret, qname) ∧
    ret < 0

/-- The datagram is an error response: its code is not zero, and it has no answer. -/
def IsErrorResponse (packet : List UInt8) : Prop :=
  ∃ header, loadHeader packet = some header ∧ header.flags &&& flagRCODE ≠ 0 ∧ htons header.ancount = 0

/-- From `s` to `s'` the query is answered with an error, and nothing else happens. -/
structure Refuses (s : RunState) (q : Query) (s' : RunState) : Prop where
  sent : ∃ packet, s'.sent = s.sent ++ [(packet, q.client)] ∧ IsErrorResponse packet
  pointer : s'.serve.roundRobinPt = s.serve.roundRobinPt
  log : s'.log = s.log
  running : s'.running = true

variable {isRoundRobin : Bool} {junk : Junk} {serverFile lsaFile : Option (List UInt8)}

/-- While the loop runs, the variable that is tested is zero. -/
lemma Reachable.retval {s : RunState} (h : Reachable isRoundRobin junk serverFile lsaFile s)
    (hrunning : s.running = true) : s.retval = 0 := by
  induction h with
  | start h =>
    simp only [startRun, Option.bind_eq_bind, Option.bind_eq_some_iff, Option.pure_def, Option.some.injEq] at h
    obtain ⟨r, -, h⟩ := h
    split at h
    · rw [← Option.some.inj h]
    · cases h
  | step h hrunning' input hstep ih =>
    cases input with
    | selectFailed =>
      obtain rfl := Option.some.inj hstep
      cases hrunning
    | selectNone =>
      obtain rfl := Option.some.inj hstep
      exact ih hrunning
    | recvFailed =>
      obtain rfl := Option.some.inj hstep
      cases hrunning
    | received q =>
      simp only [runStep, Option.bind_eq_bind, Option.bind_eq_some_iff] at hstep
      obtain ⟨r, -, id, -, hstep⟩ := hstep
      split at hstep
      · obtain ⟨packet, -, hstep⟩ := Option.bind_eq_some_iff.mp hstep
        obtain rfl := Option.some.inj hstep
        cases hrunning
      · obtain ⟨answer, -, hstep⟩ := Option.bind_eq_some_iff.mp hstep
        obtain ⟨packet, -, hstep⟩ := Option.bind_eq_some_iff.mp hstep
        obtain rfl := Option.some.inj hstep
        exact ih hrunning'

lemma runStep_received {s s' : RunState} {q : Query} (hretval : s.retval = 0)
    (h : runStep isRoundRobin s (.received q) = some s') :
    ∃ answer packet, serveQuery isRoundRobin s.serve q = some answer ∧
      dnsGenResponse answer.2.qname answer.2.serverIp answer.2.dnsId 0 (zeroPacket (dnsMsgMaxLen + 1)) = some packet ∧
      s' = { s with
        serve := answer.1
        log := s.log ++ [⟨inetNtoa q.client, answer.2.qname, answer.2.serverIp⟩]
        sent := s.sent ++ [(packet.2.take packet.1.toNat, q.client)] } := by
  simp only [runStep, Option.bind_eq_bind, Option.bind_eq_some_iff] at h
  obtain ⟨r, -, id, -, h⟩ := h
  rw [if_neg (by omega)] at h
  obtain ⟨answer, hanswer, h⟩ := Option.bind_eq_some_iff.mp h
  obtain ⟨packet, hpacket, h⟩ := Option.bind_eq_some_iff.mp h
  exact ⟨answer, packet, hanswer, hpacket, (Option.some.inj h).symm⟩

lemma runStep_served {s : RunState} {q : Query} {r : Int × List UInt8} {id : UInt16}
    {answer : ServeState × Reply} {packet : Int × List UInt8} (hretval : s.retval = 0)
    (hparse : dnsParseRequest (receive q.datagram) (min q.datagram.length dnsMsgMaxLen : Nat) = some r)
    (hid : load16 (receive q.datagram) 0 = some id) (hanswer : serveQuery isRoundRobin s.serve q = some answer)
    (hpacket : dnsGenResponse answer.2.qname answer.2.serverIp answer.2.dnsId 0
      (zeroPacket (dnsMsgMaxLen + 1)) = some packet) :
    runStep isRoundRobin s (.received q) = some { s with
      serve := answer.1
      log := s.log ++ [⟨inetNtoa q.client, answer.2.qname, answer.2.serverIp⟩]
      sent := s.sent ++ [(packet.2.take packet.1.toNat, q.client)] } := by
  simp only [runStep, Option.bind_eq_bind, Option.bind_eq_some_iff]
  refine ⟨r, hparse, id, hid, ?_⟩
  rw [if_neg (by omega)]
  apply Option.bind_eq_some_iff.mpr
  refine ⟨answer, hanswer, ?_⟩
  apply Option.bind_eq_some_iff.mpr
  exact ⟨packet, hpacket, rfl⟩

lemma serverIp_of_response {query result : List UInt8} {serverIp : Option (List UInt8)} {id : UInt16}
    {packet : Int × List UInt8} (h : dnsGenResponse query serverIp id 0 result = some packet) :
    ∃ ip, serverIp = some ip := by
  unfold dnsGenResponse at h
  rw [if_neg (by simp)] at h
  obtain ⟨buf, -, h⟩ := Option.bind_eq_some_iff.mp h
  obtain ⟨question, -, h⟩ := Option.bind_eq_some_iff.mp h
  obtain ⟨ip, hip, -⟩ := Option.bind_eq_some_iff.mp h
  exact ⟨ip, hip⟩

lemma not_refuses {s s' : RunState} {q : Query} (hretval : s.retval = 0)
    (h : runStep isRoundRobin s (.received q) = some s') : ¬Refuses s q s' := by
  intro hrefuses
  obtain ⟨answer, packet, -, -, rfl⟩ := runStep_received hretval h
  have hlog := congrArg List.length hrefuses.log
  rw [List.length_append, List.length_singleton] at hlog
  omega

lemma qname_of_malformed {buf qname : List UInt8} {size ret : Int}
    (h : dnsParseRequest buf size = some (ret, qname)) (hret : ret < 0) : qname = [] := by
  simp only [dnsParseRequest, Option.bind_eq_bind, Option.bind_eq_some_iff] at h
  obtain ⟨header, -, h⟩ := h
  split at h
  · obtain ⟨-, rfl⟩ := Prod.mk.inj (Option.some.inj h)
    rfl
  · split at h
    · obtain ⟨-, rfl⟩ := Prod.mk.inj (Option.some.inj h)
      rfl
    · obtain ⟨question, -, h⟩ := Option.bind_eq_some_iff.mp h
      obtain ⟨rfl, -⟩ := Prod.mk.inj (Option.some.inj h)
      omega

lemma serveQuery_qname {s : ServeState} {q : Query} {answer : ServeState × Reply} {ret : Int} {qname : List UInt8}
    (hparse : dnsParseRequest (receive q.datagram) (min q.datagram.length dnsMsgMaxLen : Nat) = some (ret, qname))
    (h : serveQuery isRoundRobin s q = some answer) : answer.2.qname = qname := by
  simp only [serveQuery, hparse, Option.bind_eq_bind, Option.bind_some, Option.bind_eq_some_iff] at h
  obtain ⟨id, -, h⟩ := h
  split at h
  · obtain ⟨pt, -, h⟩ := Option.bind_eq_some_iff.mp h
    obtain rfl := Option.some.inj h
    rfl
  · obtain rfl := Option.some.inj h
    rfl

/-- No malformed request is refused: in every round of every run it is answered like any other,
without an error code, and logged with an empty name. -/
theorem malformed_never_refused (s : RunState) (hreach : Reachable isRoundRobin junk serverFile lsaFile s)
    (hrunning : s.running = true) (q : Query) (hmalformed : IsMalformed q) :
    (¬∃ s', runStep isRoundRobin s (.received q) = some s' ∧ Refuses s q s') ∧
      ∀ s', runStep isRoundRobin s (.received q) = some s' →
        ∃ packet serverIp, s'.sent = s.sent ++ [(packet, q.client)] ∧ ¬IsErrorResponse packet ∧
          s'.log = s.log ++ [⟨inetNtoa q.client, [], serverIp⟩] := by
  have hretval := hreach.retval hrunning
  constructor
  · rintro ⟨s', hstep, hrefuses⟩
    exact not_refuses hretval hstep hrefuses
  · intro s' hstep
    obtain ⟨ret, qname, hparse, hret⟩ := hmalformed
    obtain ⟨answer, packet, hanswer, hpacket, rfl⟩ := runStep_received hretval hstep
    have hname : answer.2.qname = [] :=
      (serveQuery_qname hparse hanswer).trans (qname_of_malformed hparse hret)
    refine ⟨packet.2.take packet.1.toNat, answer.2.serverIp, rfl, ?_, ?_⟩
    · rintro ⟨header, hheader, hcode, -⟩
      obtain ⟨ip, hip⟩ := serverIp_of_response hpacket
      rw [hip] at hpacket
      obtain rfl := Option.some.inj ((dnsGenResponse_header hpacket).symm.trans hheader)
      apply hcode
      change (0 ||| (flagQR ||| flagAA)) &&& flagRCODE = 0
      decide
    · rw [← hname]

section Example

/-- A response where a request is expected. -/
def strayResponse : Query := ⟨(responseHeader 0).toBytes, ⟨1, 0, 0, 1⟩⟩

lemma isMalformed_strayResponse : IsMalformed strayResponse := by
  have hreceive : receive strayResponse.datagram =
      (responseHeader 0).toBytes ++ zeroPacket (dnsMsgMaxLen - sizeofHeader) := by
    rw [receive, strayResponse, DnsHeader.length_toBytes, List.take_of_length_le]
    rw [DnsHeader.length_toBytes, sizeofHeader, dnsMsgMaxLen]
    omega
  refine ⟨-1, [], ?_, by decide⟩
  rw [hreceive]
  exact dnsParseRequest_invalid (responseHeader 0) (by decide) _ _

lemma reachable_oneServer : ∃ s : RunState,
    Reachable true zeroJunk (some oneServer) (some oneClient) s ∧ s.running = true := by
  obtain ⟨s, hs⟩ := nameserverInit_oneServer
  refine ⟨⟨0, s, [], [], true⟩, Reachable.start ?_, rfl⟩
  rw [startRun, hs]
  rfl

theorem malformed_never_refused_stray : ∃ s : RunState, s.running = true ∧
    (¬∃ s', runStep true s (.received strayResponse) = some s' ∧ Refuses s strayResponse s') ∧
      ∀ s', runStep true s (.received strayResponse) = some s' →
        ∃ packet serverIp, s'.sent = s.sent ++ [(packet, strayResponse.client)] ∧ ¬IsErrorResponse packet ∧
          s'.log = s.log ++ [⟨inetNtoa strayResponse.client, [], serverIp⟩] := by
  obtain ⟨s, hreach, hrunning⟩ := reachable_oneServer
  exact ⟨s, hrunning, malformed_never_refused s hreach hrunning strayResponse isMalformed_strayResponse⟩

/-- A response that is sent to the nameserver is answered with the address of a server. -/
theorem stray_response_answered :
    ¬∀ (isRoundRobin : Bool) (junk : Junk) (serverFile lsaFile : Option (List UInt8)) (s : RunState),
      Reachable isRoundRobin junk serverFile lsaFile s → s.running = true → ∀ q : Query, IsMalformed q →
      ∃ s', runStep isRoundRobin s (.received q) = some s' ∧ Refuses s q s' := by
  intro h
  obtain ⟨s, hreach, hrunning⟩ := reachable_oneServer
  obtain ⟨s', hstep, hrefuses⟩ := h true zeroJunk _ _ s hreach hrunning strayResponse isMalformed_strayResponse
  exact not_refuses (hreach.retval hrunning) hstep hrefuses

end Example

end VideoCDN.Nameserver
