import VideoCDN.Proxy.Adaptation
import VideoCDN.Proxy.ChunkLog

/-!
# The log of a run

The connections of all clients write into one log. While one client alone gets chunks, and asks for one after
the other, the bitrate in a record is the choice for the throughputs in the records before it.
-/

namespace VideoCDN.Proxy

open CString Buffer Http Inet FloorAverage

/-! ## The records of a run -/

/-- The records that are written while responses are handled. -/
def chunkRecords : Config → ProxyConn → List (List UInt8 × List UInt8) → List ChunkRecord
  | _, _, [] => []
  | config, conn, (header, body) :: responses =>
    let later := ((respond config conn header body).map fun first =>
      chunkRecords first.config first.conn responses).getD []
    if conn.state.handler = some .chunk then (chunkRecord config conn body.length).toList ++ later else later

/-- The records that are written in a step. -/
def stepRecords (w : ProxyState) : ProxyEvent → List ChunkRecord
  | .server i data =>
    ((w.conns[i]?).bind fun conn => (handlerServer w.config conn data).map fun r =>
      chunkRecords w.config conn (handled r.dispatched)).getD []
  | _ => []

/-- The runs from `w₀` in which connections are accepted from the clients, with the records that were written. -/
inductive RecordedRun (clients : List UInt8 → Prop) (w₀ : ProxyState) : ProxyState → List ChunkRecord → Prop
  | start : RecordedRun clients w₀ w₀ []
  | step {w w' : ProxyState} {records : List ChunkRecord} (e : ProxyEvent) (h : RecordedRun clients w₀ w records)
      (hclient : ∀ ip serverFd, e = .accept ip serverFd → clients ip) (hstep : proxyStep w e = some w') :
      RecordedRun clients w₀ w' (records ++ stepRecords w e)

/-! ## A client that asks for one chunk after the other -/

/-- The client on whose connection something happens. -/
def actor (w : ProxyState) : ProxyEvent → Option (List UInt8)
  | .accept ip _ => some ip
  | .browser i _ | .server i _ | .hangup i => (w.conns[i]?).map fun conn => conn.browser.ip

/-- The list that a bitrate is chosen from, where a step forwards a request for a chunk. -/
def askedList (w : ProxyState) : ProxyEvent → Option (List Int)
  | .browser i data => do
    let conn ← w.conns[i]?
    let r ← handlerBrowser w.config conn data
    let request ← r.forwarded
    if checkType request = .chunk then some (chooseList w.config conn) else none
  | _ => none

/-- The address a connection is accepted from. -/
def acceptedFrom : ProxyEvent → Option (List UInt8)
  | .accept ip _ => some ip
  | _ => none

/-- The proxy, what it has logged, and whether the client waits for a chunk. -/
structure Trials where
  world : ProxyState
  log : List ChunkRecord
  waiting : Bool

def Trials.start (w : ProxyState) : Trials := ⟨w, [], false⟩

/-- The client at `ip` waits from its request for a chunk until one is logged. -/
def Trials.next (ip : List UInt8) (s : Trials) (e : ProxyEvent) : Option Trials :=
  (proxyStep s.world e).map fun w =>
    ⟨w, s.log ++ stepRecords s.world e,
      if actor s.world e = some ip ∧ (askedList s.world e).isSome then true
      else if (stepRecords s.world e).isEmpty then s.waiting else false⟩

/-- The client at `ip` has one connection at a time. It asks for a chunk only when it waits for none, and the
bitrate is then chosen out of `list`. Only its chunks are answered, one for each request, and measured from
`lo` to `hi`. -/
structure InTurn (ip : List UInt8) (list : List Int) (lo hi : Nat) (s : Trials) (e : ProxyEvent) : Prop where
  single : ∀ ip' ∈ acceptedFrom e, ip' = ip → ∀ conn ∈ s.world.conns, conn.browser.ip ≠ ip
  asked : ∀ l ∈ askedList s.world e, actor s.world e = some ip → s.waiting = false ∧ l = list
  answered : (stepRecords s.world e).length ≤ if actor s.world e = some ip ∧ s.waiting = true then 1 else 0
  measured : ∀ r ∈ stepRecords s.world e, lo ≤ r.tPut ∧ r.tPut ≤ hi

instance (ip : List UInt8) (list : List Int) (lo hi : Nat) (s : Trials) (e : ProxyEvent) :
    Decidable (InTurn ip list lo hi s e) :=
  decidable_of_iff
    ((∀ ip' ∈ acceptedFrom e, ip' = ip → ∀ conn ∈ s.world.conns, conn.browser.ip ≠ ip) ∧
      (∀ l ∈ askedList s.world e, actor s.world e = some ip → s.waiting = false ∧ l = list) ∧
      (stepRecords s.world e).length ≤ (if actor s.world e = some ip ∧ s.waiting = true then 1 else 0) ∧
      ∀ r ∈ stepRecords s.world e, lo ≤ r.tPut ∧ r.tPut ≤ hi)
    ⟨fun ⟨h₁, h₂, h₃, h₄⟩ => ⟨h₁, h₂, h₃, h₄⟩, fun ⟨h₁, h₂, h₃, h₄⟩ => ⟨h₁, h₂, h₃, h₄⟩⟩

/-- The runs in which the client gets its chunks in turn, and other clients may do anything but get chunks. -/
inductive TrialRun (clients : List UInt8 → Prop) (ip : List UInt8) (list : List Int) (lo hi : Nat)
    (w₀ : ProxyState) : Trials → Prop
  | start : TrialRun clients ip list lo hi w₀ (Trials.start w₀)
  | step {s s' : Trials} (e : ProxyEvent) (h : TrialRun clients ip list lo hi w₀ s)
      (hclient : ∀ ip' serverFd, e = .accept ip' serverFd → clients ip') (hturn : InTurn ip list lo hi s e)
      (hstep : s.next ip e = some s') : TrialRun clients ip list lo hi w₀ s'

/-- The events of a run and what it logged. -/
def recordEvents (w : ProxyState) : List ProxyEvent → Option (ProxyState × List ChunkRecord)
  | [] => some (w, [])
  | e :: events => do
    let w' ← proxyStep w e
    let (w'', records) ← recordEvents w' events
    return (w'', stepRecords w e ++ records)

/-- The events of a run in which the client takes its turns. -/
def trialEvents (ip : List UInt8) (list : List Int) (lo hi : Nat) (s : Trials) : List ProxyEvent → Option Trials
  | [] => some s
  | e :: events =>
    if InTurn ip list lo hi s e then (s.next ip e).bind fun s' => trialEvents ip list lo hi s' events else none

lemma RecordedRun.logged {clients : List UInt8 → Prop} {w₀ w : ProxyState} {records : List ChunkRecord}
    (h : RecordedRun clients w₀ w records) : ∃ calls, LoggedRun clients w₀ w calls := by
  induction h with
  | start => exact ⟨[], .start⟩
  | step e _ hclient hstep ih =>
    obtain ⟨calls, hrun⟩ := ih
    exact ⟨_, .step e hrun hclient hstep⟩

lemma RecordedRun.events {clients : List UInt8 → Prop} {w₀ w w' : ProxyState} {records later : List ChunkRecord}
    {events : List ProxyEvent} (h : RecordedRun clients w₀ w records)
    (hclient : ∀ ip serverFd, .accept ip serverFd ∈ events → clients ip)
    (hevents : recordEvents w events = some (w', later)) : RecordedRun clients w₀ w' (records ++ later) := by
  induction events generalizing w records later with
  | nil =>
    obtain ⟨rfl, rfl⟩ := Prod.mk.inj (Option.some.inj hevents)
    rwa [List.append_nil]
  | cons e events ih =>
    obtain ⟨w₁, hstep, hevents⟩ := Option.bind_eq_some_iff.mp hevents
    obtain ⟨⟨w₂, rest⟩, hrest, hevents⟩ := Option.bind_eq_some_iff.mp hevents
    obtain ⟨rfl, rfl⟩ := Prod.mk.inj (Option.some.inj hevents)
    rw [← List.append_assoc]
    refine ih (.step e h (fun ip serverFd he => ?_) hstep) (fun ip serverFd hmem => ?_) hrest
    · exact hclient ip serverFd (he ▸ List.mem_cons_self)
    · exact hclient ip serverFd (List.mem_cons_of_mem _ hmem)

lemma TrialRun.events {clients : List UInt8 → Prop} {ip : List UInt8} {list : List Int} {lo hi : Nat}
    {w₀ : ProxyState} {s s' : Trials} {events : List ProxyEvent} (h : TrialRun clients ip list lo hi w₀ s)
    (hclient : ∀ ip serverFd, .accept ip serverFd ∈ events → clients ip)
    (hevents : trialEvents ip list lo hi s events = some s') : TrialRun clients ip list lo hi w₀ s' := by
  induction events generalizing s with
  | nil =>
    obtain rfl := Option.some.inj hevents
    exact h
  | cons e events ih =>
    rw [trialEvents] at hevents
    split at hevents
    · rename_i hturn
      obtain ⟨s₁, hstep, hrest⟩ := Option.bind_eq_some_iff.mp hevents
      refine ih (.step e h (fun ip serverFd he => ?_) hturn hstep) (fun ip serverFd hmem => ?_) hrest
      · exact hclient ip serverFd (he ▸ List.mem_cons_self)
      · exact hclient ip serverFd (List.mem_cons_of_mem _ hmem)
    · cases hevents

/-! ## Records and calls -/

section Records

variable {config config' : Config} {conn conn' : ProxyConn} {data header body : List UInt8}

/-- The record of a chunk has the throughput of its call. -/
lemma measuredIn_record {chunkSize : Nat} {r : ChunkRecord} (h : chunkRecord config conn chunkSize = some r) :
    measuredIn [estimateCall config conn chunkSize] = [r.tPut] := by
  simp only [chunkRecord, Option.bind_eq_bind, Option.bind_eq_some_iff, Option.pure_def, Option.some.injEq] at h
  obtain ⟨T, hT, ⟨list, tCurrent⟩, -, ⟨ret, chunkName⟩, -, rfl⟩ := h
  have hmeasured : (estimateCall config conn chunkSize).measured = some T := hT
  simp [measuredIn, hmeasured]

/-- A connection on which a chunk was asked for, with its bitrate. -/
def Waits (conn : ProxyConn) (bitrate : Int) : Prop := conn.state = .chunk ∧ conn.bitrate = bitrate

/-- Responses are handled: what is logged has the bitrate of the connection. -/
lemma chunkRecords_spec {responses : List (List UInt8 × List UInt8)} {run : ServerRun}
    (h : respondAll config conn responses = some run) :
    (chunkRecords config conn responses).map ChunkRecord.tPut = measuredIn (estimateCalls config conn responses) ∧
      (∀ r ∈ chunkRecords config conn responses, Waits conn r.bitrate) ∧
      ∀ bitrate, Waits run.conn bitrate → Waits conn bitrate := by
  induction responses generalizing config conn run with
  | nil =>
    obtain rfl := Option.some.inj h
    exact ⟨rfl, fun r hr => (List.not_mem_nil hr).elim, fun _ hwaits => hwaits⟩
  | cons response responses ih =>
    obtain ⟨header, body⟩ := response
    obtain ⟨first, rest, hfirst, hrest, rfl⟩ := respondAll_cons_eq_some h
    obtain ⟨hmeasured, hbitrate, hwaits⟩ := ih hrest
    obtain ⟨handler, hhandler, -, conn', hrun, hconn⟩ := respond_dispatched hfirst
    have hstate : first.conn.state = conn'.state := by rw [hconn]; rfl
    have hsame : first.conn.bitrate = conn'.bitrate := by rw [hconn]; rfl
    rw [estimateCalls_cons hfirst, measuredIn_append, ← hmeasured]
    simp only [chunkRecords, hfirst, Option.map_some, Option.getD_some]
    by_cases hchunk : conn.state = .chunk
    · obtain rfl : Handler.chunk = handler := Option.some.inj (by rw [← hhandler, hchunk]; rfl)
      obtain ⟨record, hrecord, hown, hkept, -⟩ := estimateThroughput_record (Relaying.run_chunk hrun)
      have hrecord' : chunkRecord config conn body.length = some record := hrecord
      have hback : ∀ bitrate, Waits first.conn bitrate → Waits conn bitrate := fun bitrate hlater =>
        ⟨hchunk, by rw [← hlater.2, hsame, hkept]; rfl⟩
      rw [if_pos hhandler, if_pos hhandler, hrecord', measuredIn_record hrecord']
      refine ⟨rfl, fun r hr => ?_, fun bitrate hlater => hback bitrate (hwaits bitrate hlater)⟩
      rcases List.mem_cons.mp hr with rfl | hr
      · exact ⟨hchunk, hown.symm⟩
      · exact hback _ (hbitrate r hr)
    · have hkind : handler ≠ .chunk := by
        rintro rfl
        exact hchunk ((Relaying.state_eq_chunk_iff hhandler).mpr rfl)
      -- no handler but that of a request makes the connection wait for a chunk
      have hnone : ∀ bitrate, ¬Waits first.conn bitrate := by
        rintro bitrate ⟨hlater, -⟩
        rw [hstate] at hlater
        rcases Handler.run_cases hrun with ⟨-, rfl, -⟩ | ⟨-, hf4m⟩ | ⟨heq, -⟩
        · exact hchunk hlater
        · obtain ⟨list, ret, saved, -, -, -, rfl, -⟩ := handleRespF4m_eq_some hf4m
          cases hlater
        · exact hkind heq
      have hne : ¬conn.state.handler = some .chunk := fun heq => hkind (Option.some.inj (hhandler.symm.trans heq))
      rw [if_neg hne, if_neg hne]
      exact ⟨rfl, fun r hr => absurd (hbitrate r hr) (hnone _), fun bitrate hlater =>
        absurd (hwaits bitrate hlater) (hnone _)⟩

/-- A call of `handler_server`. -/
lemma handlerServer_logged {r : ServerResult} (h : handlerServer config conn data = some r) :
    (chunkRecords config conn (handled r.dispatched)).map ChunkRecord.tPut =
        measuredIn (estimateCalls config conn (handled r.dispatched)) ∧
      (∀ record ∈ chunkRecords config conn (handled r.dispatched), Waits conn record.bitrate) ∧
      ∀ bitrate, Waits r.conn bitrate → Waits conn bitrate := by
  obtain ⟨run, hrun, -, hcore, -, hdispatched⟩ := handlerServer_handles h
  rw [List.nil_append] at hdispatched
  rw [hdispatched]
  obtain ⟨hmeasured, hbitrate, hwaits⟩ := chunkRecords_spec hrun
  refine ⟨hmeasured, hbitrate, fun bitrate hlater => hwaits bitrate ?_⟩
  rw [← hcore]
  exact hlater

/-- Only a request for a chunk makes the connection wait for another. -/
lemma waits_of_handlerBrowser {r : BrowserResult} (h : handlerBrowser config conn data = some r) :
    (∃ request, r.forwarded = some request ∧ checkType request = .chunk) ∨
      ∀ bitrate, Waits r.conn bitrate → Waits conn bitrate := by
  obtain ⟨buf, request, -, -, ⟨-, rfl⟩ | ⟨-, -, rfl⟩ | ⟨-, -, ⟨config', conn', sent⟩, hforward, rfl⟩⟩ :=
    handlerBrowser_cases h
  · exact Or.inr fun _ hlater => hlater
  · exact Or.inr fun _ hlater => hlater
  · by_cases htype : checkType request = .chunk
    · exact Or.inl ⟨request, rfl, htype⟩
    · refine Or.inr fun bitrate hlater => ?_
      have hstate : requestState (checkType request) = .chunk := hlater.1
      cases hkind : checkType request with
      | chunk => exact absurd hkind htype
      | html | f4m | uk => rw [hkind] at hstate; cases hstate

end Records

/-! ## The state between chunks -/

section Client

variable {U : Set InAddr} {q x : InAddr} {config config' : Config} {w w' : ProxyState} {estimate lo hi : Nat}
  {conn conn' : ProxyConn} {Ts : List Nat} {list : List Int}

/-- When the client's connection is called, no other one is the client's. -/
lemma SteadyFrom.own (h : SteadyFrom U q config w estimate) {i : Nat} (hconn : w.conns[i]? = some conn)
    (hip : conn.browser.ip = inetNtoa q) {ret : Int} {c : ProxyConn} (hc : c ∈ afterCall w.conns i ret conn')
    (hipc : c.browser.ip = inetNtoa q) : c = conn' := by
  obtain ⟨pre, post, hsplit, -, hafter⟩ := afterCall_split hconn
  have hpairwise := pairwise_notBoth h.single
  rw [hsplit] at hpairwise
  obtain ⟨-, hcons, hbefore⟩ := List.pairwise_append.mp hpairwise
  simp only [hafter, List.mem_append, Option.mem_toList] at hc
  rcases hc with hc | hc | hc
  · exact absurd hip (hbefore c hc conn List.mem_cons_self hipc)
  · exact mem_openAfter hc
  · exact absurd hipc ((List.pairwise_cons.mp hcons).1 c hc hip)

/-- A call on a connection of `x`, in which chunks are measured for the client only. -/
lemma SteadyFrom.call (h : SteadyFrom U q config w estimate) (hU : TextsApart U) (hq : q ∈ U) (hx : x ∈ U)
    (hentries : EntriesFrom U config.ipTptList) {i : Nat} (hconn : w.conns[i]? = some conn)
    (hip : conn.browser.ip = inetNtoa x) (hupdated : Updated U x w.config config' conn conn' Ts)
    (hown : Ts = [] ∨ x = q) (hbound : floorAverages config.alpha estimate Ts < 2 ^ 31) {ret : Int}
    {manifests : List (List UInt8)} {calls : List EstimateCall}
    (hreached : LoggedRun (ClientOf U) (ProxyState.start config) ⟨config', afterCall w.conns i ret conn', manifests⟩
      calls) :
    SteadyFrom U q config ⟨config', afterCall w.conns i ret conn', manifests⟩
      (floorAverages config.alpha estimate Ts) := by
  obtain ⟨calls₀, hrun₀⟩ := h.reached
  have halpha : w.config.alpha = config.alpha := (hrun₀.history hU hentries).shared.alpha_eq
  obtain ⟨pre, post, hsplit, -, hafter⟩ := afterCall_split hconn
  have hsame : x ≠ q → floorAverages config.alpha estimate Ts = estimate := fun hne => by
    rw [hown.resolve_right hne]
    rfl
  have hstored : storedTpt config'.ipTptList (inetNtoa q) = floorAverages config.alpha estimate Ts := by
    by_cases heq : x = q
    · subst heq
      rw [hupdated.own, h.stored, halpha, smoothAll_eq]
    · rw [hupdated.others q hq (Ne.symm heq), h.stored, hsame heq]
  refine ⟨⟨calls, hreached⟩, ?_, hstored, fun c hc hipc => ?_⟩
  · have hone : ((openAfter ret conn').toList.filter fun c => c.browser.ip = inetNtoa q).length ≤
        ([conn].filter fun c => c.browser.ip = inetNtoa q).length := by
      unfold openAfter
      split
      · exact Nat.zero_le _
      · rw [Option.toList_some, List.filter_singleton, List.filter_singleton, hupdated.ip]
        by_cases hclient : conn.browser.ip = inetNtoa q <;> simp [hclient]
    have hsingle := h.single
    rw [hsplit, ← List.singleton_append, List.filter_append, List.filter_append, List.length_append,
      List.length_append] at hsingle
    dsimp only
    rw [hafter, List.filter_append, List.filter_append, List.length_append, List.length_append]
    omega
  · by_cases heq : x = q
    · subst heq
      obtain rfl := h.own hconn hip hc hipc
      rw [hupdated.current]
      split
      · rename_i hnone
        rw [hnone]
        exact h.current conn (List.mem_of_getElem? hconn) hip
      · rw [hstored, castInt_eq hbound]
    · rw [hsame heq]
      rcases mem_afterCall hc with hc | ⟨rfl, -⟩
      · exact h.current c hc hipc
      · exact absurd (hU.eq hx hq ((hupdated.ip.trans hip).symm.trans hipc)) heq

/-- A connection is accepted, from the client only when it has none. -/
lemma SteadyFrom.accept (h : SteadyFrom U q config w estimate) {ip : List UInt8} (serverFd : Option Nat)
    (hclient : ClientOf U ip) (hnone : ip = inetNtoa q → ∀ conn ∈ w.conns, conn.browser.ip ≠ inetNtoa q) :
    SteadyFrom U q config { w with conns := proxyConnCreate w.config ip serverFd :: w.conns } estimate := by
  obtain ⟨calls₀, hrun₀⟩ := h.reached
  refine ⟨⟨_, .step (.accept ip serverFd) hrun₀ (fun _ _ heq => ?_) rfl⟩, ?_, h.stored, fun c hc hip => ?_⟩
  · obtain ⟨rfl, -⟩ := ProxyEvent.accept.inj heq
    exact hclient
  · rw [List.filter_cons]
    split
    · rename_i hip
      have hempty : w.conns.filter (fun c => c.browser.ip = inetNtoa q) = [] :=
        List.filter_eq_nil_iff.mpr fun c hc => by simpa using hnone (of_decide_eq_true hip) c hc
      rw [hempty]
      exact le_rfl
    · exact h.single
  · rcases List.mem_cons.mp hc with rfl | hc
    · have hip' : ip = inetNtoa q := hip
      rw [← h.stored, ← hip']
      rfl
    · exact h.current c hc hip

/-- A connection is closed. -/
lemma SteadyFrom.hangup (h : SteadyFrom U q config w estimate) (i : Nat) :
    SteadyFrom U q config { w with conns := w.conns.eraseIdx i } estimate := by
  obtain ⟨calls₀, hrun₀⟩ := h.reached
  have hsublist := List.eraseIdx_sublist w.conns i
  exact ⟨⟨_, .step (.hangup i) hrun₀ (fun _ _ heq => by cases heq) rfl⟩,
    (hsublist.filter _).length_le.trans h.single, h.stored, fun c hc => h.current c (hsublist.mem hc)⟩

/-! ## The bitrates in the log -/

/-- What is logged of the client's chunks, and what it waits for. -/
structure Tested (U : Set InAddr) (q : InAddr) (config : Config) (estimate : Nat) (list : List Int) (lo hi : Nat)
    (s : Trials) : Prop where
  steady : SteadyFrom U q config s.world (floorAverages config.alpha estimate (s.log.map ChunkRecord.tPut))
  pending : s.waiting = true → ∀ conn ∈ s.world.conns, conn.browser.ip = inetNtoa q → ∀ bitrate,
    Waits conn bitrate → IsChoice list (floorAverages config.alpha estimate (s.log.map ChunkRecord.tPut)) bitrate
  measured : ∀ r ∈ s.log, lo ≤ r.tPut ∧ r.tPut ≤ hi
  chosen : ∀ k r, s.log[k]? = some r →
    IsChoice list (floorAverages config.alpha estimate ((s.log.take k).map ChunkRecord.tPut)) r.bitrate

lemma askedList_browser {i : Nat} {data : List UInt8} {r : BrowserResult} (hconn : w.conns[i]? = some conn)
    (hcall : handlerBrowser w.config conn data = some r) :
    askedList w (.browser i data) =
      r.forwarded.bind fun request => if checkType request = .chunk then some (chooseList w.config conn) else none := by
  simp [askedList, hconn, hcall]

lemma stepRecords_server {i : Nat} {data : List UInt8} {r : ServerResult} (hconn : w.conns[i]? = some conn)
    (hcall : handlerServer w.config conn data = some r) :
    stepRecords w (.server i data) = chunkRecords w.config conn (handled r.dispatched) := by
  simp [stepRecords, hconn, hcall]

variable {s s' : Trials} {i : Nat} {data : List UInt8}

/-- A step in which something is received from the browser. -/
lemma Tested.browser (h : Tested U q config estimate list lo hi s) (hU : TextsApart U) (hq : q ∈ U)
    (hentries : EntriesFrom U config.ipTptList) (hbound : floorAverages config.alpha estimate
      (s.log.map ChunkRecord.tPut) < 2 ^ 31) (hturn : InTurn (inetNtoa q) list lo hi s (.browser i data))
    (hnext : s.next (inetNtoa q) (.browser i data) = some s') : Tested U q config estimate list lo hi s' := by
  obtain ⟨w', hstep, rfl⟩ := Option.map_eq_some_iff.mp hnext
  obtain ⟨calls, hrun⟩ := h.steady.reached
  have hreached := hrun.step (.browser i data) (fun _ _ heq => by cases heq) hstep
  obtain ⟨conn, r, hconn, hcall, rfl⟩ := proxyStep_browser hstep
  have hsound := hrun.history hU hentries
  obtain ⟨x, hx, hip, -⟩ := hsound.own conn (List.mem_of_getElem? hconn)
  obtain ⟨halpha, hlist, hcurr⟩ := handlerBrowser_estimates hcall
  have hupdated : Updated U x s.world.config r.config conn r.conn [] :=
    Updated.of_same hsound.shared.entries halpha hlist (handlerBrowser_ip hcall) hcurr
  have hsteady := h.steady.call hU hq hx hentries hconn hip hupdated (Or.inl rfl) hbound hreached
  have hnone : stepRecords s.world (.browser i data) = [] := rfl
  simp only [hnone, List.append_nil, List.isEmpty_nil, if_true]
  refine ⟨hsteady, fun hwaiting c hc hipc bitrate hwaits => ?_, h.measured, h.chosen⟩
  have hmem := List.mem_of_getElem? hconn
  have hactor : actor s.world (.browser i data) = some conn.browser.ip := by simp [actor, hconn]
  by_cases hasked : actor s.world (.browser i data) = some (inetNtoa q) ∧
      (askedList s.world (.browser i data)).isSome
  · -- the bitrate has just been chosen
    obtain ⟨hown, hsome⟩ := hasked
    have hipq : conn.browser.ip = inetNtoa q := Option.some.inj (hactor.symm.trans hown)
    obtain ⟨l, hl⟩ := Option.isSome_iff_exists.mp hsome
    obtain ⟨-, rfl⟩ := hturn.asked l hl hown
    obtain rfl := h.steady.own hconn hipq hc hipc
    rw [askedList_browser hconn hcall, Option.bind_eq_some_iff] at hl
    obtain ⟨request, hforwarded, hl⟩ := hl
    split at hl
    · rename_i htype
      rw [← hwaits.2, ← Option.some.inj hl, ← h.steady.current conn hmem hipq]
      exact (hrun.isChoice hmem hcall hforwarded htype).2
    · cases hl
  · rw [if_neg hasked] at hwaiting
    have hold := h.pending hwaiting
    rcases mem_afterCall hc with hc | ⟨rfl, -⟩
    · exact hold c hc hipc bitrate hwaits
    · have hipq : conn.browser.ip = inetNtoa q := hupdated.ip.symm.trans hipc
      rcases waits_of_handlerBrowser hcall with ⟨request, hforwarded, htype⟩ | hkept
      · refine absurd ⟨hactor.trans (congrArg some hipq), ?_⟩ hasked
        rw [askedList_browser hconn hcall, hforwarded, Option.bind_some, if_pos htype]
        rfl
      · exact hold conn hmem hipq bitrate (hkept bitrate hwaits)

/-- The averages of the log stay in the range of an `int`. -/
lemma floorAverages_lt {alpha : ℚ} (h0 : 0 ≤ alpha) (h1 : alpha ≤ 1) (hbound : max hi estimate < 2 ^ 31)
    (hTs : ∀ T ∈ Ts, T ≤ hi) : floorAverages alpha estimate Ts < 2 ^ 31 :=
  (floorAverages_le h0 h1 (le_max_right hi estimate) fun T hT => (hTs T hT).trans (le_max_left hi estimate)).trans_lt
    hbound

/-- What is logged is one record, of the client's connection and while the client waits. -/
lemma InTurn.logged {ip : List UInt8} (h : InTurn ip list lo hi s e) (hne : stepRecords s.world e ≠ []) :
    actor s.world e = some ip ∧ s.waiting = true ∧ ∃ record, stepRecords s.world e = [record] := by
  have hpos := List.length_pos_of_ne_nil hne
  have hanswered := h.answered
  split at hanswered
  · rename_i hwaiting
    exact ⟨hwaiting.1, hwaiting.2, List.length_eq_one_iff.mp (le_antisymm hanswered hpos)⟩
  · omega

/-- A step in which something is received from the server. -/
lemma Tested.server (h : Tested U q config estimate list lo hi s) (hU : TextsApart U) (hq : q ∈ U)
    (hentries : EntriesFrom U config.ipTptList) (h0 : 0 ≤ config.alpha) (h1 : config.alpha ≤ 1)
    (hbound : max hi estimate < 2 ^ 31) (hturn : InTurn (inetNtoa q) list lo hi s (.server i data))
    (hnext : s.next (inetNtoa q) (.server i data) = some s') : Tested U q config estimate list lo hi s' := by
  obtain ⟨w', hstep, rfl⟩ := Option.map_eq_some_iff.mp hnext
  obtain ⟨calls, hrun⟩ := h.steady.reached
  have hreached := hrun.step (.server i data) (fun _ _ heq => by cases heq) hstep
  obtain ⟨conn, r, hconn, hcall, rfl⟩ := proxyStep_server hstep
  have hmem := List.mem_of_getElem? hconn
  have hsound := hrun.history hU hentries
  obtain ⟨x, hx, hip, -⟩ := hsound.own conn hmem
  have hlist : EntriesFrom U s.world.config.ipTptList := hsound.shared.entries
  obtain ⟨hmeasured, hlogged, hwaits⟩ := handlerServer_logged hcall
  obtain ⟨hupdated, -⟩ := handlerServer_updated hU hx hip hlist hcall
  have hrange := hturn.measured
  have hactor : actor s.world (.server i data) = some conn.browser.ip := by simp [actor, hconn]
  have hclient : stepRecords s.world (.server i data) ≠ [] → conn.browser.ip = inetNtoa q ∧ s.waiting = true ∧
      ∃ record, stepRecords s.world (.server i data) = [record] := by
    intro hne
    obtain ⟨hip', hwaiting⟩ := hturn.logged hne
    exact ⟨Option.some.inj (hactor.symm.trans hip'), hwaiting⟩
  rw [← hmeasured, ← stepRecords_server hconn hcall] at hupdated
  rw [← stepRecords_server hconn hcall] at hlogged
  generalize stepRecords s.world (.server i data) = records at hupdated hlogged hclient hrange ⊢
  have hown : records.map ChunkRecord.tPut = [] ∨ x = q := by
    by_cases hnil : records = []
    · exact Or.inl (by rw [hnil]; rfl)
    · exact Or.inr (hU.eq hx hq (hip.symm.trans (hclient hnil).1))
  have hall : ∀ record ∈ s.log ++ records, lo ≤ record.tPut ∧ record.tPut ≤ hi := by
    intro record hrecord
    rcases List.mem_append.mp hrecord with hrecord | hrecord
    · exact h.measured record hrecord
    · exact hrange record hrecord
  have hfold : floorAverages config.alpha estimate ((s.log ++ records).map ChunkRecord.tPut) =
      floorAverages config.alpha (floorAverages config.alpha estimate (s.log.map ChunkRecord.tPut))
        (records.map ChunkRecord.tPut) := by
    rw [List.map_append, floorAverages_append]
  have hbelow : floorAverages config.alpha estimate ((s.log ++ records).map ChunkRecord.tPut) < 2 ^ 31 :=
    floorAverages_lt h0 h1 hbound fun T hT => by
      obtain ⟨record, hrecord, rfl⟩ := List.mem_map.mp hT
      exact (hall record hrecord).2
  rw [hfold] at hbelow
  have hsteady := h.steady.call hU hq hx hentries hconn hip hupdated hown hbelow hreached
  rw [← hfold] at hsteady
  refine ⟨hsteady, fun hwaiting c hc hipc bitrate hwaits' => ?_, hall, fun k record hrecord => ?_⟩
  · have hnone : askedList s.world (.server i data) = none := rfl
    rw [if_neg (by simp [hnone])] at hwaiting
    split at hwaiting
    · rename_i hempty
      obtain rfl := List.isEmpty_iff.mp hempty
      rw [List.append_nil]
      rcases mem_afterCall hc with hc | ⟨rfl, -⟩
      · exact h.pending hwaiting c hc hipc bitrate hwaits'
      · exact h.pending hwaiting conn hmem (hupdated.ip.symm.trans hipc) bitrate (hwaits bitrate hwaits')
    · cases hwaiting
  · rcases Nat.lt_or_ge k s.log.length with hlt | hge
    · rw [List.take_append_of_le_length hlt.le]
      rw [List.getElem?_append_left hlt] at hrecord
      exact h.chosen k record hrecord
    · rw [List.getElem?_append_right hge] at hrecord
      obtain ⟨hipq, hwaiting, here, rfl⟩ := hclient (List.ne_nil_of_mem (List.mem_of_getElem? hrecord))
      have hk : k - s.log.length < 1 := (List.getElem?_eq_some_iff.mp hrecord).1
      obtain rfl : k = s.log.length := by omega
      rw [Nat.sub_self] at hrecord
      obtain rfl := Option.some.inj hrecord
      rw [List.take_left]
      exact h.pending hwaiting conn hmem hipq _ (hlogged here List.mem_cons_self)

/-- A step of the run. -/
lemma Tested.step {e : ProxyEvent} (h : Tested U q config estimate list lo hi s) (hU : TextsApart U) (hq : q ∈ U)
    (hentries : EntriesFrom U config.ipTptList) (h0 : 0 ≤ config.alpha) (h1 : config.alpha ≤ 1)
    (hbound : max hi estimate < 2 ^ 31) (hclient : ∀ ip serverFd, e = .accept ip serverFd → ClientOf U ip)
    (hturn : InTurn (inetNtoa q) list lo hi s e) (hnext : s.next (inetNtoa q) e = some s') :
    Tested U q config estimate list lo hi s' := by
  cases e with
  | browser i data =>
    refine h.browser hU hq hentries (floorAverages_lt h0 h1 hbound fun T hT => ?_) hturn hnext
    obtain ⟨record, hrecord, rfl⟩ := List.mem_map.mp hT
    exact (h.measured record hrecord).2
  | server i data => exact h.server hU hq hentries h0 h1 hbound hturn hnext
  | accept ip serverFd =>
    obtain ⟨w', hstep, rfl⟩ := Option.map_eq_some_iff.mp hnext
    obtain rfl := Option.some.inj hstep
    have hsteady := h.steady.accept serverFd (hclient ip serverFd rfl) fun hip =>
      hturn.single ip rfl hip
    have hnone : stepRecords s.world (.accept ip serverFd) = [] := rfl
    simp only [hnone, List.append_nil]
    refine ⟨hsteady, fun hwaiting c hc hip bitrate hwaits => ?_, h.measured, h.chosen⟩
    rcases List.mem_cons.mp hc with rfl | hc
    · have hstate : State.html = State.chunk := hwaits.1
      cases hstate
    · exact h.pending (by simpa [askedList] using hwaiting) c hc hip bitrate hwaits
  | hangup i =>
    obtain ⟨w', hstep, rfl⟩ := Option.map_eq_some_iff.mp hnext
    obtain rfl := Option.some.inj hstep
    have hsteady := h.steady.hangup i
    have hnone : stepRecords s.world (.hangup i) = [] := rfl
    simp only [hnone, List.append_nil]
    refine ⟨hsteady, fun hwaiting c hc => ?_, h.measured, h.chosen⟩
    exact h.pending (by simpa [askedList] using hwaiting) c (List.mem_of_mem_eraseIdx hc)

/-- In every run from a state in which the client's connection uses what is stored: the bitrate of a record is the
choice for the throughputs in the records before it. -/
theorem TrialRun.tested {w₀ : ProxyState} (hfrom : SteadyFrom U q config w₀ estimate) (hU : TextsApart U)
    (hq : q ∈ U) (hentries : EntriesFrom U config.ipTptList) (h0 : 0 ≤ config.alpha) (h1 : config.alpha ≤ 1)
    (hbound : max hi estimate < 2 ^ 31) (h : TrialRun (ClientOf U) (inetNtoa q) list lo hi w₀ s) :
    Tested U q config estimate list lo hi s := by
  induction h with
  | start =>
    exact ⟨hfrom, fun hwaiting => (Bool.false_ne_true hwaiting).elim, fun r hr => (List.not_mem_nil hr).elim,
      fun k r hr => by cases hr⟩
  | step e _ hclient hturn hstep ih => exact ih.step hU hq hentries h0 h1 hbound hclient hturn hstep

end Client

end VideoCDN.Proxy
