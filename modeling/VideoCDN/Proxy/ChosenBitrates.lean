import VideoCDN.Proxy.SharedRun

/-!
# Where a bitrate comes from

A connection chooses among the bitrates of a manifest that was handled before. Where it has none of
its own, it is the first manifest with a usable bitrate, on whatever connection that one was handled.
-/

namespace VideoCDN.Proxy

open CString Buffer Http

/-- A manifest with these bitrates was handled. -/
def Listed (manifests : List (List UInt8)) (list : List Int) : Prop :=
  ∃ body ∈ manifests, parseXmlToList body = some list

/-- The bitrates of the first manifest that has any. -/
def firstBitrates (manifests : List (List UInt8)) : List Int :=
  ((manifests.filterMap parseXmlToList).find? fun list => list ≠ []).getD []

lemma Listed.append {manifests : List (List UInt8)} {list : List Int} (h : Listed manifests list)
    (more : List (List UInt8)) : Listed (manifests ++ more) list := by
  obtain ⟨body, hbody, hparse⟩ := h
  exact ⟨body, List.mem_append_left more hbody, hparse⟩

lemma firstBitrates_listed {manifests : List (List UInt8)} (h : firstBitrates manifests ≠ []) :
    Listed manifests (firstBitrates manifests) := by
  unfold firstBitrates at h ⊢
  cases hfind : (manifests.filterMap parseXmlToList).find? fun list => list ≠ [] with
  | none =>
    rw [hfind] at h
    exact absurd rfl h
  | some list => exact List.mem_filterMap.mp (List.mem_of_find?_eq_some hfind)

/-- Another manifest counts where none before it had any. -/
lemma firstBitrates_append {body : List UInt8} {list : List Int} (h : parseXmlToList body = some list)
    (manifests : List (List UInt8)) :
    firstBitrates (manifests ++ [body]) = if firstBitrates manifests = [] then list else firstBitrates manifests := by
  have hone : [body].filterMap parseXmlToList = [list] := by simp [h]
  unfold firstBitrates
  rw [List.filterMap_append, hone, List.find?_append]
  cases hfind : (manifests.filterMap parseXmlToList).find? fun list => list ≠ [] with
  | none =>
    rw [Option.none_or, Option.getD_none, if_pos rfl]
    by_cases hlist : list = []
    · subst hlist
      rfl
    · rw [List.find?_cons_of_pos (by simpa using hlist), Option.getD_some]
  | some first =>
    have hne : first ≠ [] := by simpa using List.find?_some hfind
    rw [Option.some_or, Option.getD_some, if_neg hne]

/-- Forwarding a request for a chunk. -/
lemma forwardChunk_eq_some {config config' : Config} {conn conn' : ProxyConn} {request : Request} {sent : List Sent}
    (h : forwardChunk config conn request = some (config', conn', sent)) :
    ∃ bitrate text chunkName ret newBuf, selectBitrate (chooseList config conn) conn.tCurr = some bitrate ∧
      constructHttpReq request = some text ∧ getVideoName request.httpUri conn.server.chunkName = some chunkName ∧
      replaceUriBitrate maxReqSize text bitrate = some (ret, newBuf) ∧ config' = config.getMillTime.2 ∧
      conn' = { conn with
        bitrateList := chooseList config conn
        bitrate := bitrate
        tS := config.getMillTime.1
        server := { conn.server with chunkName := chunkName } } ∧
      sent = sendData .server (fetch newBuf 0 text.length) := by
  simp only [forwardChunk, Option.bind_eq_bind, Option.bind_eq_some_iff, Option.pure_def, Option.some.injEq,
    Prod.mk.injEq] at h
  obtain ⟨bitrate, hbitrate, text, htext, chunkName, hname, ⟨ret, newBuf⟩, hreplace, rfl, rfl, rfl⟩ := h
  exact ⟨bitrate, text, chunkName, ret, newBuf, hbitrate, htext, hname, hreplace, rfl, rfl, rfl⟩

/-! ## One connection -/

/-- The bitrates of the connection are those of a manifest. -/
def OwnListed (manifests : List (List UInt8)) (conn : ProxyConn) : Prop :=
  conn.bitrateList = [] ∨ Listed manifests conn.bitrateList

lemma OwnListed.append {manifests : List (List UInt8)} {conn : ProxyConn} (h : OwnListed manifests conn)
    (more : List (List UInt8)) : OwnListed (manifests ++ more) conn :=
  h.imp_right fun hlisted => hlisted.append more

/-- The list a bitrate is chosen from. -/
lemma chooseList_listed {manifests : List (List UInt8)} {config : Config} {conn : ProxyConn}
    (hshared : config.defaultList = firstBitrates manifests) (hown : OwnListed manifests conn) :
    (chooseList config conn = [] ∨ Listed manifests (chooseList config conn)) ∧
      (conn.bitrateList = [] → chooseList config conn = firstBitrates manifests) := by
  unfold chooseList
  by_cases hempty : conn.bitrateList = []
  · rw [if_pos hempty, dupBitrateList_eq, hshared]
    refine ⟨?_, fun _ => rfl⟩
    by_cases hfirst : firstBitrates manifests = []
    · exact Or.inl hfirst
    · exact Or.inr (firstBitrates_listed hfirst)
  · rw [if_neg hempty]
    exact ⟨hown, fun h => absurd h hempty⟩

/-- One response, from the manifests before it on. -/
lemma respond_listed {manifests : List (List UInt8)} {config : Config} {conn : ProxyConn}
    {header body : List UInt8} {run : ServerRun} (hshared : config.defaultList = firstBitrates manifests)
    (hown : OwnListed manifests conn) (h : respond config conn header body = some run) :
    run.config.defaultList = firstBitrates (manifests ++ manifestBodies run.dispatched) ∧
      OwnListed (manifests ++ manifestBodies run.dispatched) run.conn := by
  obtain ⟨handler, -, hdispatched, conn', hrun, hconn⟩ := respond_dispatched h
  have hlist : run.conn.bitrateList = conn'.bitrateList := by
    rw [hconn]
    rfl
  rw [hdispatched]
  unfold OwnListed
  rw [hlist]
  by_cases hkind : handler = .f4m
  · subst hkind
    obtain ⟨list, hparse, hnew, hdefault⟩ := Handler.run_lists_f4m hrun
    have hbodies : manifestBodies [⟨.f4m, header, body⟩] = [body] := rfl
    rw [hbodies, hnew, hdefault, firstBitrates_append hparse, hshared]
    exact ⟨rfl, Or.inr ⟨body, List.mem_append_right _ (List.mem_singleton.mpr rfl), hparse⟩⟩
  · obtain ⟨hkept, -⟩ := Handler.run_forward hkind hrun
    have hbodies : manifestBodies [⟨handler, header, body⟩] = [] := by
      simp [manifestBodies, hkind]
    rw [hbodies, List.append_nil, hkept.defaultList, hkept.bitrateList]
    exact ⟨hshared, hown⟩

lemma respondAll_listed {manifests : List (List UInt8)} {config : Config} {conn : ProxyConn}
    {responses : List (List UInt8 × List UInt8)} {run : ServerRun}
    (hshared : config.defaultList = firstBitrates manifests) (hown : OwnListed manifests conn)
    (h : respondAll config conn responses = some run) :
    run.config.defaultList = firstBitrates (manifests ++ manifestBodies run.dispatched) ∧
      OwnListed (manifests ++ manifestBodies run.dispatched) run.conn := by
  induction responses generalizing manifests config conn run with
  | nil =>
    obtain rfl := Option.some.inj h
    simp only [manifestBodies, List.filter_nil, List.map_nil, List.append_nil]
    exact ⟨hshared, hown⟩
  | cons response responses ih =>
    obtain ⟨header, body⟩ := response
    obtain ⟨first, rest, hfirst, hrest, rfl⟩ := respondAll_cons_eq_some h
    obtain ⟨hshared', hown'⟩ := respond_listed hshared hown hfirst
    have hnext := ih hshared' hown' hrest
    simpa [manifestBodies] using hnext

/-- What is received from the server leaves the connection with the bitrates of a manifest. -/
lemma handlerServer_listed {manifests : List (List UInt8)} {config : Config} {conn : ProxyConn}
    {data : List UInt8} {r : ServerResult} (hshared : config.defaultList = firstBitrates manifests)
    (hown : OwnListed manifests conn) (h : handlerServer config conn data = some r) :
    r.config.defaultList = firstBitrates (manifests ++ manifestBodies r.dispatched) ∧
      OwnListed (manifests ++ manifestBodies r.dispatched) r.conn := by
  obtain ⟨run, hrun, hconfig, hcore, -, hdispatched⟩ := handlerServer_handles h
  have hlist : r.conn.bitrateList = run.conn.bitrateList := by
    rw [← hcore]
    rfl
  unfold OwnListed
  rw [hdispatched, hconfig, hlist]
  exact respondAll_listed hshared hown hrun

/-- What is received from the browser leaves it with them too: a request for a chunk stores the list
its bitrate was chosen from. -/
lemma handlerBrowser_listed {manifests : List (List UInt8)} {config : Config} {conn : ProxyConn}
    {data : List UInt8} {r : BrowserResult} (hshared : config.defaultList = firstBitrates manifests)
    (hown : OwnListed manifests conn) (h : handlerBrowser config conn data = some r) :
    r.config.defaultList = firstBitrates manifests ∧ OwnListed manifests r.conn := by
  obtain ⟨buf, request, -, -, ⟨-, rfl⟩ | ⟨-, -, rfl⟩ | ⟨-, -, ⟨config', conn', sent⟩, hforward, rfl⟩⟩ :=
    handlerBrowser_cases h
  · exact ⟨hshared, hown⟩
  · exact ⟨hshared, hown⟩
  · rcases forwardRequest_cases hforward with ⟨-, bitrate, text, chunkName, newBuf, -, rfl, rfl, -⟩ |
      ⟨-, text, -, rfl, rfl, -⟩ | ⟨-, -, text, -, rfl, rfl, -⟩
    · exact ⟨hshared, (chooseList_listed hshared hown).1⟩
    · exact ⟨hshared, hown⟩
    · exact ⟨hshared, hown⟩

/-! ## All connections -/

/-- The bitrates in use are those of the manifests, on all connections. -/
lemma keeps_listed (clients : List UInt8 → Prop) :
    Sessions.Keeps (Opens clients) Acts (fun s => s.config.defaultList = firstBitrates s.manifests)
      (fun s conn => OwnListed s.manifests conn) fun _ _ => True where
  symm := fun _ _ h => h
  opened := by
    rintro s conn - ⟨ip, serverFd, -, rfl⟩
    exact ⟨Or.inl rfl, fun _ => trivial⟩
  acted := by
    intro s conn s' conn' hshared hown hact
    cases hact with
    | browser data h =>
      obtain ⟨hshared', hown'⟩ := handlerBrowser_listed hshared hown h
      exact ⟨hshared', fun c hc => ⟨mem_openAfter hc ▸ hown', fun _ _ => trivial⟩⟩
    | server data h =>
      obtain ⟨hshared', hown'⟩ := handlerServer_listed hshared hown h
      exact ⟨hshared', fun c hc => ⟨mem_openAfter hc ▸ hown', fun _ _ => trivial⟩⟩
    | hangup => exact ⟨hshared, fun c hc => by cases hc⟩
  others := by
    intro s conn s' conn' other _ _ hother _ hact
    cases hact with
    | browser data h => exact hother
    | server data h => exact hother.append _
    | hangup => exact hother

/-- In every state of a run from the start. -/
lemma LoggedRun.listed {clients : List UInt8 → Prop} {config : Config} {w : ProxyState} {calls : List EstimateCall}
    (h : LoggedRun clients (ProxyState.start config) w calls) :
    w.config.defaultList = firstBitrates w.manifests ∧ ∀ conn ∈ w.conns, OwnListed w.manifests conn := by
  have hsound := h.keeps (keeps_listed clients) []
    ⟨rfl, fun conn hconn => (List.not_mem_nil hconn).elim, List.Pairwise.nil⟩
  exact ⟨hsound.shared, hsound.own⟩

/-- What a call that forwards a request for a chunk has chosen. -/
lemma handlerBrowser_chosen {config : Config} {conn : ProxyConn} {data : List UInt8} {r : BrowserResult}
    {request : Request} (h : handlerBrowser config conn data = some r) (hforwarded : r.forwarded = some request)
    (htype : checkType request = .chunk) :
    selectBitrate (chooseList config conn) conn.tCurr = some r.conn.bitrate ∧
      r.conn.bitrateList = chooseList config conn := by
  obtain ⟨buf, request', -, -, ⟨-, rfl⟩ | ⟨-, -, rfl⟩ | ⟨-, -, ⟨config', conn', sent⟩, hforward, rfl⟩⟩ :=
    handlerBrowser_cases h
  · cases hforwarded
  · cases hforwarded
  · obtain rfl := Option.some.inj hforwarded
    have hchunk : forwardChunk config (conn.takeRequest buf (conn.browser.offset + data.length) request') request' =
        some (config', conn', sent) := by
      rw [forwardRequest, htype] at hforward
      exact hforward
    obtain ⟨bitrate, text, chunkName, ret, newBuf, hselect, -, -, -, -, rfl, -⟩ := forwardChunk_eq_some hchunk
    exact ⟨hselect, rfl⟩

/-- In a run from the start, a request for a chunk is given the choice out of a manifest that was handled. -/
lemma LoggedRun.isChoice {clients : List UInt8 → Prop} {config : Config} {w : ProxyState} {calls : List EstimateCall}
    (h : LoggedRun clients (ProxyState.start config) w calls) {conn : ProxyConn} (hconn : conn ∈ w.conns)
    {data : List UInt8} {r : BrowserResult} {request : Request} (hcall : handlerBrowser w.config conn data = some r)
    (hforwarded : r.forwarded = some request) (htype : checkType request = .chunk) :
    (∃ body ∈ w.manifests, parseXmlToList body = some (chooseList w.config conn)) ∧
      IsChoice (chooseList w.config conn) conn.tCurr r.conn.bitrate := by
  obtain ⟨hshared, hown⟩ := h.listed
  obtain ⟨hselect, -⟩ := handlerBrowser_chosen hcall hforwarded htype
  have hne : chooseList w.config conn ≠ [] := by
    rw [← selectBitrate_isSome_iff _ conn.tCurr, hselect]
    rfl
  obtain ⟨body, hbody, hparse⟩ := (chooseList_listed hshared (hown conn hconn)).1.resolve_left hne
  obtain ⟨b, hb, hchoice⟩ := selectBitrate_spec conn.tCurr (parseXmlToList_sorted hparse) hne
  obtain rfl := Option.some.inj (hselect.symm.trans hb)
  exact ⟨⟨body, hbody, hparse⟩, hchoice⟩

/-- In every reachable state of the proxy, the bitrate a request for a chunk is sent with is the right one
among the bitrates of a manifest that was handled before; where the connection has none of its own,
that is the first manifest with a usable bitrate. -/
theorem chosen_bitrate_of_manifest (config : Config) (w : ProxyState) (hreach : Reachable config w) (i : Nat)
    (conn : ProxyConn) (hconn : w.conns[i]? = some conn) (data : List UInt8) (r : BrowserResult)
    (hcall : handlerBrowser w.config conn data = some r) (request : Request)
    (hforwarded : r.forwarded = some request) (htype : checkType request = .chunk) :
    ∃ body ∈ w.manifests, ∃ list, parseXmlToList body = some list ∧ IsChoice list conn.tCurr r.conn.bitrate ∧
      r.conn.bitrateList = list ∧ (conn.bitrateList ≠ [] → list = conn.bitrateList) ∧
      (conn.bitrateList = [] → list = firstBitrates w.manifests) := by
  obtain ⟨calls, hrun⟩ := hreach.logged
  have hmem := List.mem_of_getElem? hconn
  obtain ⟨hshared, hown⟩ := hrun.listed
  obtain ⟨⟨body, hbody, hparse⟩, hchoice⟩ := hrun.isChoice hmem hcall hforwarded htype
  exact ⟨body, hbody, _, hparse, hchoice, (handlerBrowser_chosen hcall hforwarded htype).2, fun hown' => if_neg hown',
    (chooseList_listed hshared (hown conn hmem)).2⟩

section Example

/-- Two connections; the manifest arrives on one, the chunk is requested on the other. -/
theorem chosen_bitrate_of_manifest_other :
    ∃ w conn r request, Reachable newConfig w ∧ w.conns[0]? = some conn ∧ conn.bitrateList = [] ∧
      handlerBrowser w.config conn chunkData = some r ∧ r.forwarded = some request ∧
      ∃ body ∈ w.manifests, ∃ list, parseXmlToList body = some list ∧ IsChoice list conn.tCurr r.conn.bitrate ∧
        r.conn.bitrateList = list ∧ (conn.bitrateList ≠ [] → list = conn.bitrateList) ∧
        (conn.bitrateList = [] → list = firstBitrates w.manifests) := by
  have h : ((proxyStep (ProxyState.start newConfig) (.accept (bytes "1.0.0.1") (some 5))).bind fun w₁ =>
      (proxyStep w₁ (.browser 0 listRequest)).bind fun w₂ => (proxyStep w₂ (.server 0 listAnswer)).bind fun w₃ =>
        (proxyStep w₃ (.accept (bytes "1.0.0.2") (some 6))).bind fun w₄ => (w₄.conns[0]?).bind fun conn =>
          (handlerBrowser w₄.config conn chunkData).bind fun r => r.forwarded.map fun request =>
            (conn.bitrateList, checkType request)) = some ([], .chunk) := by
    decide +kernel
  obtain ⟨w₁, h₁, h⟩ := Option.bind_eq_some_iff.mp h
  obtain ⟨w₂, h₂, h⟩ := Option.bind_eq_some_iff.mp h
  obtain ⟨w₃, h₃, h⟩ := Option.bind_eq_some_iff.mp h
  obtain ⟨w₄, h₄, h⟩ := Option.bind_eq_some_iff.mp h
  obtain ⟨conn, hconn, h⟩ := Option.bind_eq_some_iff.mp h
  obtain ⟨r, hcall, h⟩ := Option.bind_eq_some_iff.mp h
  obtain ⟨request, hforwarded, h⟩ := Option.map_eq_some_iff.mp h
  obtain ⟨hlist, htype⟩ := Prod.mk.inj h
  have hreach : Reachable newConfig w₄ := .step _ (.step _ (.step _ (.step _ .start h₁) h₂) h₃) h₄
  exact ⟨w₄, conn, r, request, hreach, hconn, hlist, hcall, hforwarded,
    chosen_bitrate_of_manifest newConfig w₄ hreach 0 conn hconn chunkData r hcall request hforwarded htype⟩

end Example

end VideoCDN.Proxy
