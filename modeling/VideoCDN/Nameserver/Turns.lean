import VideoCDN.Lib.Rotation
import VideoCDN.Nameserver.RoundRobin

/-!
# The share of each server

Whatever datagrams arrive, the answers given with `-r` go through the servers in turn, so no server
gets more than one answer more than another.
-/

namespace VideoCDN.Nameserver

open CString Inet Dns Rotation

/-- The addresses in the answers so far, as they are logged. -/
def RunState.served (s : RunState) : List (Option (List UInt8)) := s.log.map LogRecord.serverIp

/-- The answers so far went through the lines of the servers file in turn, and the pointer is where the next
one is. -/
structure InTurn (lines : List (List UInt8)) (s : RunState) : Prop where
  servers : ips s.serve.topo s.serve.topo.servers.header = lines
  pointer : s.serve.roundRobinPt = s.serve.topo.servers.header.drop (s.log.length % lines.length)
  rotates : Rotates (lines.map some) s.served
  retval : s.running = true → s.retval = 0

variable {junk : Junk} {lines : List (List UInt8)} {file : List UInt8} {s s' : RunState}

/-- A round answers the datagram it receives, if any, and sends nothing else. -/
lemma runStep_sent {isRoundRobin : Bool} {input : Input} (h : runStep isRoundRobin s input = some s') :
    (∃ q packet, input = .received q ∧ s'.sent = s.sent ++ [(packet, q.client)]) ∨
      s'.sent = s.sent ∧ s'.serve = s.serve ∧ s'.log = s.log ∧ (s'.running = true → s' = s) := by
  cases input with
  | selectFailed =>
    obtain rfl := Option.some.inj h
    exact Or.inr ⟨rfl, rfl, rfl, fun hrunning => absurd hrunning Bool.false_ne_true⟩
  | selectNone =>
    obtain rfl := Option.some.inj h
    exact Or.inr ⟨rfl, rfl, rfl, fun _ => rfl⟩
  | recvFailed =>
    obtain rfl := Option.some.inj h
    exact Or.inr ⟨rfl, rfl, rfl, fun hrunning => absurd hrunning Bool.false_ne_true⟩
  | received q =>
    simp only [runStep, Option.bind_eq_bind, Option.bind_eq_some_iff] at h
    obtain ⟨r, -, id, -, h⟩ := h
    split at h
    · obtain ⟨packet, -, h⟩ := Option.bind_eq_some_iff.mp h
      obtain rfl := Option.some.inj h
      exact Or.inl ⟨q, _, rfl, rfl⟩
    · obtain ⟨answer, -, h⟩ := Option.bind_eq_some_iff.mp h
      obtain ⟨packet, -, h⟩ := Option.bind_eq_some_iff.mp h
      obtain rfl := Option.some.inj h
      exact Or.inl ⟨q, _, rfl, rfl⟩

/-- A query takes the server the pointer is on, whatever its datagram is, and moves the pointer. -/
lemma serveQuery_turn {t : ServeState} {q : Query} {answer : ServeState × Reply} {k : Nat}
    (hservers : ips t.topo t.topo.servers.header = lines)
    (hpointer : t.roundRobinPt = t.topo.servers.header.drop (k % lines.length))
    (h : serveQuery true t q = some answer) :
    answer.2.serverIp = lines[k % lines.length]? ∧ answer.2.serverIp.isSome ∧ answer.1.topo = t.topo ∧
      answer.1.roundRobinPt = t.topo.servers.header.drop ((k + 1) % lines.length) := by
  obtain ⟨r, -, h⟩ := Option.bind_eq_some_iff.mp h
  obtain ⟨id, -, h⟩ := Option.bind_eq_some_iff.mp h
  obtain ⟨p, hp, h⟩ := Option.bind_eq_some_iff.mp h
  obtain rfl := Option.some.inj h
  have hlength : lines.length = t.topo.servers.header.length := by rw [← hservers, ips, List.length_map]
  rw [hpointer, List.head?_drop] at hp
  have hne : t.topo.servers.header ≠ [] := by
    intro hnil
    rw [hnil] at hp
    cases hp
  have hnext := drop_mod_succ hne k
  rw [← hlength] at hnext
  refine ⟨?_, rfl, rfl, ?_⟩
  · rw [← hservers, ips, List.length_map, List.getElem?_map, ← hlength, hp]
    rfl
  · rw [← hnext, hpointer, List.tail_drop]

/-- The step: whatever a round receives, the next answer is in turn. -/
lemma InTurn.step {input : Input} (I : InTurn lines s) (hrunning : s.running = true)
    (h : runStep true s input = some s') : InTurn lines s' := by
  rcases runStep_sent h with ⟨q, packet, rfl, -⟩ | ⟨-, hserve, hlog, hretval⟩
  · obtain ⟨answer, packet, hanswer, -, rfl⟩ := runStep_received (I.retval hrunning) h
    obtain ⟨hip, hsome, htopo, hpointer⟩ := serveQuery_turn I.servers I.pointer hanswer
    obtain ⟨ip, hline⟩ := Option.isSome_iff_exists.mp hsome
    have hservers : ips answer.1.topo answer.1.topo.servers.header = lines := by rw [htopo, I.servers]
    have hrotates : Rotates (lines.map some) (s.served ++ [answer.2.serverIp]) := by
      apply I.rotates.append
      rw [List.length_map, List.getElem?_map, RunState.served, List.length_map, ← hip, hline]
      rfl
    refine ⟨hservers, ?_, ?_, I.retval⟩
    · rw [List.length_append, List.length_singleton, htopo, hpointer]
    · simpa [RunState.served] using hrotates
  · refine ⟨by rw [hserve, I.servers], by rw [hserve, hlog, I.pointer], ?_, fun hrunning' => ?_⟩
    · rw [RunState.served, hlog]
      exact I.rotates
    · rw [hretval hrunning']
      exact I.retval hrunning

lemma startRun_log {serverFile lsaFile : Option (List UInt8)}
    (h : startRun junk serverFile lsaFile = some (some s)) : s.log = [] := by
  simp only [startRun, Option.bind_eq_bind, Option.bind_eq_some_iff, Option.pure_def, Option.some.injEq] at h
  obtain ⟨r, -, h⟩ := h
  split at h
  · rw [← Option.some.inj h]
  · cases h

lemma inTurn_start (hfile : IsServerFile lines file) {lsaFile : Option (List UInt8)}
    (h : startRun junk (some file) lsaFile = some (some s)) : InTurn lines s := by
  obtain ⟨hservers, hpointer, hretval, -, -⟩ := startRun_servers hfile h
  have hlog := startRun_log h
  refine ⟨hservers, ?_, ?_, fun _ => hretval⟩
  · rw [hlog, List.length_nil, Nat.zero_mod, List.drop_zero, hpointer]
  · rw [RunState.served, hlog]
    exact rotates_nil

/-- The run: in every state between the rounds the answers went through the servers in turn. -/
lemma Reachable.inTurn (hfile : IsServerFile lines file) {lsaFile : Option (List UInt8)}
    (h : Reachable true junk (some file) lsaFile s) : InTurn lines s := by
  induction h with
  | start h => exact inTurn_start hfile h
  | step _ hrunning input hstep ih => exact ih.step hrunning hstep

/-- After any sequence of datagrams, answer `k` carried the address on line `k` modulo the number of lines, so
of two servers neither was handed out more than once more often than the other. -/
theorem servers_share_answers (junk : Junk) (lines : List (List UInt8)) (file : List UInt8)
    (hfile : IsServerFile lines file) (lsaFile : Option (List UInt8)) (s : RunState)
    (hreach : Reachable true junk (some file) lsaFile s) :
    (∀ k r, s.log[k]? = some r → r.serverIp = lines[k % lines.length]?) ∧
      ∀ x ∈ lines, ∀ y ∈ lines, s.served.count (some x) ≤ s.served.count (some y) + 1 := by
  have I := hreach.inTurn hfile
  constructor
  · intro k r hr
    have hturn := I.rotates k r.serverIp (by rw [RunState.served, List.getElem?_map, hr, Option.map_some])
    rw [List.length_map, List.getElem?_map] at hturn
    obtain ⟨line, hline, heq⟩ := Option.map_eq_some_iff.mp hturn
    rw [hline, heq]
  · intro x hx y hy
    apply I.rotates.balanced (hfile.distinct.map (Option.some_injective _))
    · exact List.mem_map_of_mem hx
    · exact List.mem_map_of_mem hy

section Example

/-- After the answer to one query. -/
theorem servers_share_answers_query : ∃ s s', startRun zeroJunk (some twoServersFile) (some oneClient) = some (some s) ∧
    runStep true s (.received (videoQuery ⟨1, 0, 0, 1⟩).toQuery) = some s' ∧
    ((∀ k r, s'.log[k]? = some r → r.serverIp = (twoServers.map inetNtoa)[k % 2]?) ∧
      ∀ x ∈ twoServers.map inetNtoa, ∀ y ∈ twoServers.map inetNtoa,
        s'.served.count (some x) ≤ s'.served.count (some y) + 1) := by
  have hstart : (startRun zeroJunk (some twoServersFile) (some oneClient)).map Option.isSome = some true := by
    decide
  obtain ⟨o, hs, hsome⟩ := Option.map_eq_some_iff.mp hstart
  obtain ⟨s, rfl⟩ := Option.isSome_iff_exists.mp hsome
  have hfile : IsServerFile (twoServers.map inetNtoa) twoServersFile :=
    isServerFile_inetNtoa (by decide) (by decide)
  obtain ⟨hservers, hpointer, hretval, hrunning, -⟩ := startRun_servers hfile hs
  have I : Serving (twoServers.map inetNtoa) 0 s :=
    ⟨hservers, by rw [hpointer, Nat.zero_mod, List.drop_zero], hretval, hrunning⟩
  obtain ⟨s', hstep, -, -⟩ := runStep_query I (videoQuery ⟨1, 0, 0, 1⟩) rfl (inetAton_inetNtoa ⟨4, 0, 0, 1⟩)
  exact ⟨s, s', hs, hstep, servers_share_answers zeroJunk (twoServers.map inetNtoa) twoServersFile hfile
    (some oneClient) s' (.step (.start hs) hrunning _ hstep)⟩

end Example

end VideoCDN.Nameserver
