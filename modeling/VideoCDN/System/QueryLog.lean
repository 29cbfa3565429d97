import VideoCDN.Nameserver.Turns
import VideoCDN.Reference.IterLog

/-!
# The log of the nameserver

`log_record` writes a line for every answer, and the tests of the project read the file with `iter_log`. A name is
logged as it arrives, so one with a blank in it can spoil its line or add lines of its own.
-/

namespace VideoCDN.System

open CString Inet Dns Nameserver Reference

/-- `log_record`: the line is appended to the file. -/
def logRecord (file : List UInt8) (time : Int) (clientIp queryName responseIp : List UInt8) : List UInt8 :=
  file ++ (decimalInt time ++ [32] ++ cstr clientIp ++ [32] ++ cstr queryName ++ [32] ++ cstr responseIp ++ [10])

/-- The file that starts empty, after the given records; an address that was never set cannot be printed. -/
def logFile : List UInt8 → List (Int × LogRecord) → Option (List UInt8)
  | file, [] => some file
  | file, (time, r) :: log => do
    let serverIp ← r.serverIp
    logFile (logRecord file time r.clientIp r.qname serverIp) log

/-- The fields of a record, as they are printed. -/
def fieldsOf (time : Int) (r : LogRecord) : List (List UInt8) :=
  [decimalInt time, cstr r.clientIp, cstr r.qname, cstr (r.serverIp.getD [])]

/-! ## The file -/

lemma logRecord_eq (file : List UInt8) (time : Int) (clientIp queryName responseIp : List UInt8) :
    logRecord file time clientIp queryName responseIp =
      file ++ LogText.writeLine 32 10 [decimalInt time, cstr clientIp, cstr queryName, cstr responseIp] := by
  simp [logRecord, LogText.writeLine, List.intercalate_cons_cons]

lemma logFile_eq {log : List (Int × LogRecord)} (h : ∀ p ∈ log, p.2.serverIp.isSome) (file : List UInt8) :
    logFile file log = some (file ++ LogText.writeLog 32 10 (log.map fun p => fieldsOf p.1 p.2)) := by
  induction log generalizing file with
  | nil => simp [logFile, LogText.writeLog]
  | cons p log ih =>
    obtain ⟨time, r⟩ := p
    have hsome : r.serverIp.isSome := h (time, r) List.mem_cons_self
    obtain ⟨ip, hip⟩ := Option.isSome_iff_exists.mp hsome
    have hrest := ih (fun x hx => h x (List.mem_cons_of_mem _ hx)) (logRecord file time r.clientIp r.qname ip)
    rw [logFile, hip, Option.bind_eq_bind, Option.bind_some, hrest, logRecord_eq]
    simp [fieldsOf, hip, LogText.writeLog]

lemma cstr_of_isServerName {s : List UInt8} (h : IsServerName s) : cstr s = s :=
  cstr_eq_self s fun b hb => (h.2 b hb).1

/-! ## Runs -/

/-- The logged clients are addresses. -/
lemma runStep_clientIp {isRoundRobin : Bool} {s s' : RunState} {input : Input} (hretval : s.retval = 0)
    (h : runStep isRoundRobin s input = some s') (hs : ∀ r ∈ s.log, ∃ a, r.clientIp = inetNtoa a) :
    ∀ r ∈ s'.log, ∃ a, r.clientIp = inetNtoa a := by
  rcases runStep_sent h with ⟨q, packet, rfl, -⟩ | ⟨-, -, hlog, -⟩
  · obtain ⟨answer, packet, -, -, rfl⟩ := runStep_received hretval h
    intro r hr
    rcases List.mem_append.mp hr with hr | hr
    · exact hs r hr
    · rw [List.mem_singleton.mp hr]
      exact ⟨q.client, rfl⟩
  · rw [hlog]
    exact hs

section InTurn

variable {junk : Junk} {lines : List (List UInt8)} {file : List UInt8} {lsaFile : Option (List UInt8)} {s : RunState}

lemma reachable_clientIp (hfile : IsServerFile lines file) (h : Reachable true junk (some file) lsaFile s) :
    ∀ r ∈ s.log, ∃ a, r.clientIp = inetNtoa a := by
  induction h with
  | start h =>
    rw [startRun_log h]
    exact fun r hr => absurd hr List.not_mem_nil
  | step h hrunning input hstep ih => exact runStep_clientIp ((h.inTurn hfile).retval hrunning) hstep ih

lemma reachable_serverIp (hfile : IsServerFile lines file) (h : Reachable true junk (some file) lsaFile s) {k : Nat}
    {r : LogRecord} (hr : s.log[k]? = some r) :
    r.serverIp = lines[k % lines.length]? ∧ ∃ line ∈ lines, r.serverIp = some line := by
  have hlt := Nat.mod_lt k (List.length_pos_of_ne_nil hfile.nonempty)
  have hturn := (h.inTurn hfile).rotates k r.serverIp (by rw [RunState.served, List.getElem?_map, hr, Option.map_some])
  rw [List.length_map, List.getElem?_map, List.getElem?_eq_getElem hlt, Option.map_some] at hturn
  have hip : r.serverIp = some lines[k % lines.length] := (Option.some.inj hturn).symm
  exact ⟨hip.trans (List.getElem?_eq_getElem hlt).symm, _, List.getElem_mem hlt, hip⟩

/-- After any sequence of datagrams to a nameserver with `-r`, the tests read the records of the answers out of the
file if and only if each name is a word; and answer `k` is logged with the address on line `k` modulo the number
of lines. -/
theorem query_log_reads_back_iff (junk : Junk) (lines : List (List UInt8)) (file : List UInt8)
    (hfile : IsServerFile lines file) (hwords : ∀ line ∈ lines, IsLogWord line)
    (lsaFile : Option (List UInt8)) (s : RunState) (hreach : Reachable true junk (some file) lsaFile s)
    (times : List Int) (htimes : times.length = s.log.length) :
    ∃ text, logFile [] (times.zip s.log) = some text ∧
      (iterLog text = (times.zip s.log).map (fun p => fieldsOf p.1 p.2) ↔
        ∀ r ∈ s.log, IsLogWord (cstr r.qname)) ∧
      ∀ k r, s.log[k]? = some r → (∃ a, r.clientIp = inetNtoa a) ∧ r.serverIp = lines[k % lines.length]? := by
  have hclient := reachable_clientIp hfile hreach
  have hserver : ∀ r ∈ s.log, ∃ line ∈ lines, r.serverIp = some line := by
    intro r hr
    obtain ⟨k, hk⟩ := List.mem_iff_getElem?.mp hr
    exact (reachable_serverIp hfile hreach hk).2
  have hlogged : ∀ p ∈ times.zip s.log, p.2 ∈ s.log := fun p hp => (List.of_mem_zip hp).2
  have hsome : ∀ p ∈ times.zip s.log, p.2.serverIp.isSome := by
    intro p hp
    obtain ⟨line, -, hline⟩ := hserver p.2 (hlogged p hp)
    rw [hline]
    rfl
  refine ⟨_, logFile_eq hsome [], ?_, fun k r hr =>
    ⟨hclient r (List.mem_of_getElem? hr), (reachable_serverIp hfile hreach hr).1⟩⟩
  have hfields : ∀ fields ∈ (times.zip s.log).map fun p => fieldsOf p.1 p.2, fields ≠ [] := by
    intro fields h
    obtain ⟨p, -, rfl⟩ := List.mem_map.mp h
    exact List.cons_ne_nil _ _
  rw [List.nil_append, iterLog_writeLog_iff hfields]
  constructor
  · intro h r hr
    obtain ⟨k, hk⟩ := List.mem_iff_getElem?.mp hr
    obtain ⟨hlt, -⟩ := List.getElem?_eq_some_iff.mp hk
    have hpair : (times[k], r) ∈ times.zip s.log := by
      apply List.mem_of_getElem? (i := k)
      rw [List.getElem?_zip_eq_some]
      exact ⟨List.getElem?_eq_getElem _, hk⟩
    exact h _ (List.mem_map_of_mem hpair) _ (by simp [fieldsOf])
  · -- the other fields are words in any case
    intro h fields hfields w hw
    obtain ⟨⟨time, r⟩, hp, rfl⟩ := List.mem_map.mp hfields
    have hr := hlogged _ hp
    obtain ⟨a, ha⟩ := hclient r hr
    obtain ⟨line, hline, hip⟩ := hserver r hr
    simp only [fieldsOf, ha, hip, Option.getD_some, cstr_inetNtoa,
      cstr_of_isServerName (hfile.name line hline), List.mem_cons, List.not_mem_nil, or_false] at hw
    rcases hw with rfl | rfl | rfl | rfl
    · exact isLogWord_decimalInt time
    · exact isLogWord_inetNtoa a
    · exact h r hr
    · exact hwords w hline

section Example

/-- After the answer to one query. -/
theorem query_log_reads_back_iff_query : ∃ s s' text,
    startRun zeroJunk (some twoServersFile) (some oneClient) = some (some s) ∧
    runStep true s (.received (videoQuery ⟨1, 0, 0, 1⟩).toQuery) = some s' ∧ s'.log.length = 1 ∧
    logFile [] ([1500000000].zip s'.log) = some text ∧
    (iterLog text = ([1500000000].zip s'.log).map (fun p => fieldsOf p.1 p.2) ↔
      ∀ r ∈ s'.log, IsLogWord (cstr r.qname)) ∧
    ∀ k r, s'.log[k]? = some r →
      (∃ a, r.clientIp = inetNtoa a) ∧ r.serverIp = (twoServers.map inetNtoa)[k % 2]? := by
  have hstart : (startRun zeroJunk (some twoServersFile) (some oneClient)).map Option.isSome = some true := by
    decide
  obtain ⟨o, hs, hsome⟩ := Option.map_eq_some_iff.mp hstart
  obtain ⟨s, rfl⟩ := Option.isSome_iff_exists.mp hsome
  have hfile : IsServerFile (twoServers.map inetNtoa) twoServersFile :=
    isServerFile_inetNtoa (by decide) (by decide)
  have hwords : ∀ line ∈ twoServers.map inetNtoa, IsLogWord line := by
    rw [List.forall_mem_map]
    exact fun a _ => isLogWord_inetNtoa a
  obtain ⟨hservers, hpointer, hretval, hrunning, -⟩ := startRun_servers hfile hs
  have I : Serving (twoServers.map inetNtoa) 0 s :=
    ⟨hservers, by rw [hpointer, Nat.zero_mod, List.drop_zero], hretval, hrunning⟩
  obtain ⟨s', hstep, -, -⟩ := runStep_query I (videoQuery ⟨1, 0, 0, 1⟩) rfl (inetAton_inetNtoa ⟨4, 0, 0, 1⟩)
  have hlength : s'.log.length = 1 := by
    obtain ⟨answer, packet, -, -, rfl⟩ := runStep_received hretval hstep
    simp [startRun_log hs]
  obtain ⟨text, htext⟩ := query_log_reads_back_iff zeroJunk (twoServers.map inetNtoa) twoServersFile hfile hwords
    (some oneClient) s' (.step (.start hs) hrunning _ hstep) [1500000000] hlength.symm
  exact ⟨s, s', text, hs, hstep, hlength, htext⟩

end Example

end InTurn

end VideoCDN.System
