import VideoCDN.Proxy.CallFrames
import VideoCDN.Proxy.ChosenBitrates

/-!
# The history of a client

The connections of all clients write into one list of estimates, in whatever order their chunks arrive.
Where no address has the text of another inside its own, what is stored for a client is what the
chunks on its own connections make of it, one after the other.
-/

namespace VideoCDN.Proxy

open CString Buffer Http Inet

/-- The estimate after chunks with these throughputs. -/
def smoothAll (alpha : ℚ) (estimate : Nat) (Ts : List Nat) : Nat :=
  Ts.foldl (fun estimate T => smoothedTpt alpha T estimate) estimate

/-- The throughputs that were measured. -/
def measuredIn (calls : List EstimateCall) : List Nat := calls.filterMap EstimateCall.measured

/-- Those that were measured for one client. -/
def measuredFor (ip : List UInt8) (calls : List EstimateCall) : List Nat :=
  measuredIn (calls.filter fun call => call.ip = ip)

/-- The text of an address of `U`. -/
def ClientOf (U : Set InAddr) (ip : List UInt8) : Prop := ∃ x ∈ U, ip = inetNtoa x

lemma smoothAll_append (alpha : ℚ) (estimate : Nat) (xs ys : List Nat) :
    smoothAll alpha estimate (xs ++ ys) = smoothAll alpha (smoothAll alpha estimate xs) ys := List.foldl_append

lemma measuredIn_append (xs ys : List EstimateCall) : measuredIn (xs ++ ys) = measuredIn xs ++ measuredIn ys :=
  List.filterMap_append

lemma measuredFor_append (ip : List UInt8) (xs ys : List EstimateCall) :
    measuredFor ip (xs ++ ys) = measuredFor ip xs ++ measuredFor ip ys := by
  simp only [measuredFor, List.filter_append, measuredIn_append]

/-- Calls for one client. -/
lemma measuredFor_of_all {ip : List UInt8} {calls : List EstimateCall} (h : ∀ call ∈ calls, call.ip = ip)
    (ip' : List UInt8) : measuredFor ip' calls = if ip' = ip then measuredIn calls else [] := by
  unfold measuredFor
  split
  · rename_i heq
    rw [List.filter_eq_self.mpr fun call hcall => by simpa [heq] using h call hcall]
  · rename_i hne
    rw [List.filter_eq_nil_iff.mpr fun call hcall => by simpa [h call hcall] using Ne.symm hne]
    rfl

section Client

variable {U : Set InAddr} {x q : InAddr}

lemma TextsApart.eq (hU : TextsApart U) (hx : x ∈ U) (hq : q ∈ U) (h : inetNtoa x = inetNtoa q) : x = q := by
  apply hU x hx q hq
  rw [h]

/-- An estimate is stored for its own client only. -/
lemma storedTpt_add (hU : TextsApart U) {list : List IpTpt} (hlist : EntriesFrom U list) (hx : x ∈ U) (hq : q ∈ U)
    (tpt : Nat) :
    storedTpt (ipTptAdd list (inetNtoa x) tpt) (inetNtoa q) =
      if x = q then tpt else storedTpt list (inetNtoa q) := by
  unfold storedTpt
  rw [ipTptGet_add U hU list hlist x q hx hq]
  split <;> rfl

/-- A connection from `x` measured the throughputs `Ts`: its client's estimate follows them, the others stay. -/
structure Updated (U : Set InAddr) (x : InAddr) (config config' : Config) (conn conn' : ProxyConn)
    (Ts : List Nat) : Prop where
  alpha : config'.alpha = config.alpha
  entries : EntriesFrom U config'.ipTptList
  ip : conn'.browser.ip = conn.browser.ip
  own : storedTpt config'.ipTptList (inetNtoa x) =
    smoothAll config.alpha (storedTpt config.ipTptList (inetNtoa x)) Ts
  others : ∀ q ∈ U, q ≠ x → storedTpt config'.ipTptList (inetNtoa q) = storedTpt config.ipTptList (inetNtoa q)
  current : conn'.tCurr = if Ts = [] then conn.tCurr else castInt (storedTpt config'.ipTptList (inetNtoa x))

variable {config config' config'' : Config} {conn conn' conn'' : ProxyConn} {Ts Ts' : List Nat}

/-- Nothing is measured. -/
lemma Updated.of_same (hentries : EntriesFrom U config.ipTptList) (halpha : config'.alpha = config.alpha)
    (hlist : config'.ipTptList = config.ipTptList) (hip : conn'.browser.ip = conn.browser.ip)
    (hcurr : conn'.tCurr = conn.tCurr) : Updated U x config config' conn conn' [] :=
  ⟨halpha, hlist ▸ hentries, hip, by rw [hlist]; rfl, fun _ _ _ => by rw [hlist], hcurr⟩

lemma Updated.trans (h : Updated U x config config' conn conn' Ts)
    (h' : Updated U x config' config'' conn' conn'' Ts') :
    Updated U x config config'' conn conn'' (Ts ++ Ts') := by
  refine ⟨h'.alpha.trans h.alpha, h'.entries, h'.ip.trans h.ip, ?_, fun q hq hne => ?_, ?_⟩
  · rw [h'.own, h.own, h.alpha, smoothAll_append]
  · rw [h'.others q hq hne, h.others q hq hne]
  · rw [h'.current, h.current]
    by_cases hlater : Ts' = []
    · subst hlater
      have hsame : storedTpt config''.ipTptList (inetNtoa x) = storedTpt config'.ipTptList (inetNtoa x) := h'.own
      rw [if_pos rfl, List.append_nil, hsame]
    · rw [if_neg hlater, if_neg (List.append_ne_nil_of_right_ne_nil _ hlater)]

/-- A chunk from `x` is measured. -/
lemma estimateThroughput_updated (hU : TextsApart U) (hx : x ∈ U) (hip : conn.browser.ip = inetNtoa x)
    (hentries : EntriesFrom U config.ipTptList) {chunkSize : Nat}
    (h : estimateThroughput config conn chunkSize = some (config', conn')) :
    Updated U x config config' conn conn' (measuredIn [estimateCall config conn chunkSize]) := by
  obtain ⟨T, list, estimate, hT, hupdate, halpha, rfl, hcurr⟩ := estimateThroughput_call h
  obtain ⟨entries, hupdated, hfrom⟩ := updateEstimate_eq config.alpha config.ipTptList conn.browser.ip T
  obtain ⟨hlist, hestimate⟩ := Prod.mk.injEq .. ▸ Option.some.inj (hupdate.symm.trans hupdated)
  have hmeasured : measuredIn [estimateCall config conn chunkSize] = [T] := by simp [measuredIn, hT]
  rw [hip] at hlist hestimate hfrom
  -- the entry that is made first changes no estimate
  have hentries' : EntriesFrom U entries := by
    rcases hfrom with rfl | rfl
    · exact hentries
    · exact entriesFrom_add U _ x 0 hentries hx
  have hsame : ∀ q ∈ U, q ≠ x → storedTpt entries (inetNtoa q) = storedTpt config.ipTptList (inetNtoa q) := by
    intro q hq hne
    rcases hfrom with rfl | rfl
    · rfl
    · rw [storedTpt_add hU hentries hx hq, if_neg (Ne.symm hne)]
  have hown : storedTpt config'.ipTptList (inetNtoa x) = estimate := by
    rw [hlist, storedTpt_add hU hentries' hx hx, if_pos rfl, hestimate]
  rw [hmeasured]
  refine ⟨halpha, ?_, (congrArg Browser.ip (estimateThroughput_kept h).browser), ?_, fun q hq hne => ?_, ?_⟩
  · rw [hlist]
    exact entriesFrom_add U _ x _ hentries' hx
  · rw [hown, hestimate]
    rfl
  · rw [hlist, storedTpt_add hU hentries' hx hq, if_neg (Ne.symm hne), hsame q hq hne]
  · rw [hcurr, hown, if_neg (by simp)]

/-! ## Calls of the handlers -/

/-- The calls made for the first response, and for those after it. -/
lemma estimateCalls_cons {header body : List UInt8} {first : ServerRun}
    (h : respond config conn header body = some first) (responses : List (List UInt8 × List UInt8)) :
    estimateCalls config conn ((header, body) :: responses) =
      (if conn.state.handler = some .chunk then [estimateCall config conn body.length] else []) ++
        estimateCalls first.config first.conn responses := by
  simp only [estimateCalls, h, Option.map_some, Option.getD_some]
  split <;> rfl

lemma respond_updated (hU : TextsApart U) (hx : x ∈ U) (hip : conn.browser.ip = inetNtoa x)
    (hentries : EntriesFrom U config.ipTptList) {header body : List UInt8} {run : ServerRun}
    (h : respond config conn header body = some run) :
    Updated U x config run.config conn run.conn (measuredIn
      (if conn.state.handler = some .chunk then [estimateCall config conn body.length] else [])) := by
  obtain ⟨handler, hhandler, -, conn', hrun, hconn⟩ := respond_dispatched h
  have hip' : run.conn.browser.ip = conn'.browser.ip := by rw [hconn]; rfl
  have hcurr : run.conn.tCurr = conn'.tCurr := by rw [hconn]; rfl
  rw [hhandler]
  by_cases hkind : handler = .chunk
  · subst hkind
    obtain ⟨hestimate, -⟩ := handleRespChunk_eq_some hrun
    have hip₀ : (conn.withResponse header).browser.ip = inetNtoa x := hip
    obtain ⟨halpha, hentries', hsame, hown, hothers, hcurrent⟩ :=
      estimateThroughput_updated hU hx hip₀ hentries hestimate
    rw [if_pos rfl]
    exact ⟨halpha, hentries', hip'.trans hsame, hown, hothers, hcurr.trans hcurrent⟩
  · obtain ⟨halpha, hlist, hsame⟩ := Handler.run_estimates hkind hrun
    rw [if_neg fun heq => hkind (Option.some.inj heq)]
    have hbrowser := congrArg Browser.ip (Handler.run_browser hrun)
    exact Updated.of_same hentries halpha hlist (hip'.trans hbrowser) (hcurr.trans hsame)

lemma respondAll_updated (hU : TextsApart U) (hx : x ∈ U) (hip : conn.browser.ip = inetNtoa x)
    (hentries : EntriesFrom U config.ipTptList) {responses : List (List UInt8 × List UInt8)} {run : ServerRun}
    (h : respondAll config conn responses = some run) :
    Updated U x config run.config conn run.conn (measuredIn (estimateCalls config conn responses)) ∧
      ∀ call ∈ estimateCalls config conn responses, call.ip = inetNtoa x := by
  induction responses generalizing config conn run with
  | nil =>
    obtain rfl := Option.some.inj h
    exact ⟨Updated.of_same hentries rfl rfl rfl rfl, fun call hcall => (List.not_mem_nil hcall).elim⟩
  | cons response responses ih =>
    obtain ⟨header, body⟩ := response
    obtain ⟨first, rest, hfirst, hrest, rfl⟩ := respondAll_cons_eq_some h
    have hone := respond_updated hU hx hip hentries hfirst
    obtain ⟨hlater, hcalls⟩ := ih (hone.ip.trans hip) hone.entries hrest
    rw [estimateCalls_cons hfirst, measuredIn_append]
    refine ⟨hone.trans hlater, fun call hcall => ?_⟩
    rcases List.mem_append.mp hcall with hcall | hcall
    · split at hcall
      · rw [List.mem_singleton.mp hcall]
        exact hip
      · cases hcall
    · exact hcalls call hcall

lemma handlerServer_updated (hU : TextsApart U) (hx : x ∈ U) (hip : conn.browser.ip = inetNtoa x)
    (hentries : EntriesFrom U config.ipTptList) {data : List UInt8} {r : ServerResult}
    (h : handlerServer config conn data = some r) :
    Updated U x config r.config conn r.conn (measuredIn (estimateCalls config conn (handled r.dispatched))) ∧
      ∀ call ∈ estimateCalls config conn (handled r.dispatched), call.ip = inetNtoa x := by
  obtain ⟨run, hrun, hconfig, hcore, -, hdispatched⟩ := handlerServer_handles h
  rw [List.nil_append] at hdispatched
  obtain ⟨⟨halpha, hentries', hsame, hown, hothers, hcurrent⟩, hcalls⟩ := respondAll_updated hU hx hip hentries hrun
  rw [← hcore] at hsame hcurrent
  rw [hdispatched, hconfig]
  exact ⟨⟨halpha, hentries', hsame, hown, hothers, hcurrent⟩, hcalls⟩

lemma handlerBrowser_ip {data : List UInt8} {r : BrowserResult} (h : handlerBrowser config conn data = some r) :
    r.conn.browser.ip = conn.browser.ip := by
  obtain ⟨buf, request, -, -, ⟨-, rfl⟩ | ⟨-, -, rfl⟩ | ⟨-, -, ⟨config', conn', sent⟩, hforward, rfl⟩⟩ :=
    handlerBrowser_cases h
  · rfl
  · rfl
  · have hbrowser := congrArg Browser.ip (forwardRequest_frame hforward).1
    exact hbrowser

/-- A call that makes these calls of `estimate_throughput` keeps to its own client. -/
lemma Acts.updated (hU : TextsApart U) (hx : x ∈ U) {s s' : Shared} {left : Option ProxyConn}
    (hip : conn.browser.ip = inetNtoa x) (hentries : EntriesFrom U s.config.ipTptList) (h : Acts s conn s' left) :
    ∃ conn' calls, s'.calls = s.calls ++ calls ∧ (∀ c ∈ left, c = conn') ∧
      Updated U x s.config s'.config conn conn' (measuredIn calls) ∧ ∀ call ∈ calls, call.ip = inetNtoa x := by
  cases h with
  | @browser data r h =>
    obtain ⟨halpha, hlist, hcurr⟩ := handlerBrowser_estimates h
    exact ⟨r.conn, [], (List.append_nil _).symm, fun c hc => mem_openAfter hc,
      Updated.of_same hentries halpha hlist (handlerBrowser_ip h) hcurr, by simp⟩
  | @server data r h =>
    obtain ⟨hupdated, hcalls⟩ := handlerServer_updated hU hx hip hentries h
    exact ⟨r.conn, _, rfl, fun c hc => mem_openAfter hc, hupdated, hcalls⟩
  | hangup =>
    exact ⟨conn, [], (List.append_nil _).symm, fun c hc => absurd hc (Option.not_mem_none c),
      Updated.of_same hentries rfl rfl rfl rfl, by simp⟩

/-! ## Runs -/

/-- What is stored for each client of `U` is what its own chunks make of the estimate `estimate₀`. -/
structure History (U : Set InAddr) (alpha : ℚ) (estimate₀ : InAddr → Nat) (s : Shared) : Prop where
  alpha_eq : s.config.alpha = alpha
  entries : EntriesFrom U s.config.ipTptList
  stored : ∀ q ∈ U, storedTpt s.config.ipTptList (inetNtoa q) =
    smoothAll alpha (estimate₀ q) (measuredFor (inetNtoa q) s.calls)

/-- The estimate a connection uses is the one its client had after some of its chunks. -/
def UsesOwn (U : Set InAddr) (alpha : ℚ) (estimate₀ : InAddr → Nat) (s : Shared) (conn : ProxyConn) : Prop :=
  ∃ x ∈ U, conn.browser.ip = inetNtoa x ∧ ∃ Ts, Ts <+: measuredFor (inetNtoa x) s.calls ∧
    (conn.tCurr = smoothAll alpha (estimate₀ x) Ts ∨ conn.tCurr = castInt (smoothAll alpha (estimate₀ x) Ts))

variable {alpha : ℚ} {estimate₀ : InAddr → Nat} {s s' : Shared}

lemma History.acts (hs : History U alpha estimate₀ s) (hU : TextsApart U) (hx : x ∈ U)
    (hip : conn.browser.ip = inetNtoa x) {left : Option ProxyConn} (h : Acts s conn s' left) :
    History U alpha estimate₀ s' := by
  obtain ⟨conn', calls, hlog, -, hupdated, hcalls⟩ := h.updated hU hx hip hs.entries
  refine ⟨hupdated.alpha.trans hs.alpha_eq, hupdated.entries, fun q hq => ?_⟩
  rw [hlog, measuredFor_append, smoothAll_append, ← hs.stored q hq, measuredFor_of_all hcalls]
  by_cases hqx : q = x
  · rw [hqx, if_pos rfl, hupdated.own, hs.alpha_eq]
  · rw [if_neg fun heq => hqx (hU.eq hq hx heq), hupdated.others q hq hqx]
    rfl

lemma UsesOwn.of_prefix (h : UsesOwn U alpha estimate₀ s conn) (hlog : s.calls <+: s'.calls) :
    UsesOwn U alpha estimate₀ s' conn := by
  obtain ⟨x, hx, hip, Ts, hTs, hcurr⟩ := h
  obtain ⟨calls, hcalls⟩ := hlog
  refine ⟨x, hx, hip, Ts, hTs.trans ?_, hcurr⟩
  rw [← hcalls, measuredFor_append]
  exact List.prefix_append _ _

lemma keeps_history (hU : TextsApart U) :
    Sessions.Keeps (Opens (ClientOf U)) Acts (History U alpha estimate₀) (UsesOwn U alpha estimate₀)
      fun _ _ => True where
  symm := fun _ _ h => h
  opened := by
    rintro s conn hs ⟨ip, serverFd, ⟨x, hx, rfl⟩, rfl⟩
    refine ⟨⟨x, hx, rfl, _, List.prefix_rfl, Or.inl ?_⟩, fun _ => trivial⟩
    rw [← hs.stored x hx]
    rfl
  acted := by
    intro s conn s' left hs hown h
    obtain ⟨x, hx, hip, Ts, hTs, hcurr⟩ := hown
    obtain ⟨conn', calls, hlog, hleft, hupdated, hcalls⟩ := h.updated hU hx hip hs.entries
    have hs' := hs.acts hU hx hip h
    refine ⟨hs', fun c hc => ⟨?_, fun _ _ => trivial⟩⟩
    rw [hleft c hc]
    by_cases hnone : measuredIn calls = []
    · have hsame := hupdated.current
      rw [if_pos hnone] at hsame
      refine ⟨x, hx, hupdated.ip.trans hip, Ts, ?_, by rwa [hsame]⟩
      rw [hlog, measuredFor_append]
      exact hTs.trans (List.prefix_append _ _)
    · refine ⟨x, hx, hupdated.ip.trans hip, _, List.prefix_rfl, Or.inr ?_⟩
      rw [hupdated.current, if_neg hnone, hs'.stored x hx]
  others := by
    intro s conn s' left other hs hown hother _ h
    obtain ⟨x, hx, hip, -⟩ := hown
    obtain ⟨conn', calls, hlog, -⟩ := h.updated hU hx hip hs.entries
    exact hother.of_prefix ⟨calls, hlog.symm⟩

/-- In every state of a run from the start. -/
lemma LoggedRun.history (hU : TextsApart U) (hentries : EntriesFrom U config.ipTptList) {w : ProxyState}
    {calls : List EstimateCall} (h : LoggedRun (ClientOf U) (ProxyState.start config) w calls) :
    (w.sessions calls).Sound (History U config.alpha fun q => storedTpt config.ipTptList (inetNtoa q))
      (UsesOwn U config.alpha fun q => storedTpt config.ipTptList (inetNtoa q)) fun _ _ => True :=
  h.keeps (keeps_history hU) []
    ⟨⟨rfl, hentries, fun _ _ => rfl⟩, fun _ hconn => (List.not_mem_nil hconn).elim, List.Pairwise.nil⟩

end Client

/-- Where no client's address has the text of another inside its own, in every run of the proxy the estimate
of a client is what the throughputs of its own chunks make of it, in their order, whatever the other
clients do in between; a connection uses the estimate its client had after some of them. -/
theorem client_estimates_own (U : Set InAddr) (hU : TextsApart U) (config : Config)
    (hentries : EntriesFrom U config.ipTptList) (w : ProxyState) (calls : List EstimateCall)
    (hrun : LoggedRun (ClientOf U) (ProxyState.start config) w calls) (q : InAddr) (hq : q ∈ U) :
    storedTpt w.config.ipTptList (inetNtoa q) =
        smoothAll config.alpha (storedTpt config.ipTptList (inetNtoa q)) (measuredFor (inetNtoa q) calls) ∧
      ∀ conn ∈ w.conns, conn.browser.ip = inetNtoa q → ∃ estimate Ts,
        estimate = smoothAll config.alpha (storedTpt config.ipTptList (inetNtoa q)) Ts ∧
          Ts <+: measuredFor (inetNtoa q) calls ∧ (conn.tCurr = estimate ∨ conn.tCurr = castInt estimate) := by
  obtain ⟨hhistory, huses, -⟩ := hrun.history hU hentries
  refine ⟨hhistory.stored q hq, fun conn hconn hip => ?_⟩
  obtain ⟨x, hx, hip', Ts, hTs, hcurr⟩ := huses conn hconn
  obtain rfl := hU.eq hx hq (hip'.symm.trans hip)
  exact ⟨_, Ts, rfl, hTs, hcurr⟩

section Example

/-- The connection of one client gets a manifest, its nolist form and a chunk while another one is open. -/
def chunkEvents : List ProxyEvent :=
  [.accept (bytes "1.0.0.1") (some 5), .accept (bytes "2.0.0.2") (some 6), .browser 1 listRequest,
    .server 1 listAnswer, .server 1 chunkAnswer, .browser 1 chunkData, .server 1 chunkAnswer]

def twoClients : Set InAddr := {⟨1, 0, 0, 1⟩, ⟨2, 0, 0, 2⟩}

lemma twoClients_apart : TextsApart twoClients := by
  rintro x (rfl | rfl) y (rfl | rfl) h
  · rfl
  · exact absurd h (by decide)
  · exact absurd h (by decide)
  · rfl

lemma chunkEvents_clients (ip : List UInt8) (serverFd : Option Nat) (h : .accept ip serverFd ∈ chunkEvents) :
    ClientOf twoClients ip := by
  simp only [chunkEvents, List.mem_cons, ProxyEvent.accept.injEq, reduceCtorEq, List.not_mem_nil, or_false] at h
  rcases h with ⟨rfl, -⟩ | ⟨rfl, -⟩
  · exact ⟨_, Or.inl rfl, by decide⟩
  · exact ⟨_, Or.inr rfl, by decide⟩

theorem client_estimates_own_chunk :
    ∃ w calls, LoggedRun (ClientOf twoClients) (ProxyState.start tickingConfig) w calls ∧ calls.length = 1 ∧
      storedTpt w.config.ipTptList (inetNtoa ⟨1, 0, 0, 1⟩) =
        smoothAll tickingConfig.alpha (storedTpt [] (inetNtoa ⟨1, 0, 0, 1⟩))
          (measuredFor (inetNtoa ⟨1, 0, 0, 1⟩) calls) := by
  have h : (runEvents (ProxyState.start tickingConfig) chunkEvents).map (fun p => p.2.length) = some 1 := by
    decide +kernel
  obtain ⟨⟨w, calls⟩, hevents, hlength⟩ := Option.map_eq_some_iff.mp h
  have hrun := loggedRun_of_events chunkEvents_clients hevents
  exact ⟨w, calls, hrun, hlength, (client_estimates_own twoClients twoClients_apart tickingConfig
    (fun e he => (List.not_mem_nil he).elim) w calls hrun ⟨1, 0, 0, 1⟩ (Or.inl rfl)).1⟩

end Example

end VideoCDN.Proxy
