import VideoCDN.Proxy.BitrateChoice
import VideoCDN.Proxy.ChunkRequest
import VideoCDN.Proxy.Dispatch

/-!
# Runs of the proxy

Any number of connections share the list of bitrates that the first usable manifest leaves
behind. A request for a chunk is given a bitrate of its connection's own list, or of the shared
one, so a bitrate can be chosen exactly when a usable manifest was handled before, on any
connection.
-/

namespace VideoCDN.Proxy

open CString Buffer Http

/-- A connection accepted from `ip`, where `serverFd` is the socket to the server, if it could be
connected. -/
def proxyConnCreate (config : Config) (ip : List UInt8) (serverFd : Option Nat) : ProxyConn where
  tCurr := initialTpt config.ipTptList ip
  tS := 0
  bitrate := 0
  bitrateList := []
  browser := ⟨none, .html, 0, [], ip⟩
  server := ⟨(serverFd.getD 0 : Nat), none, 0, [], 0, [], none, [], []⟩
  state := .html

/-- The connections, and the manifests that were handled on any of them. -/
structure ProxyState where
  config : Config
  conns : List ProxyConn
  manifests : List (List UInt8)

/-- The proxy before the first connection. -/
def ProxyState.start (config : Config) : ProxyState := ⟨{ config with defaultList := [] }, [], []⟩

/-- The bodies that `handle_resp_f4m` was called for. -/
def manifestBodies (dispatched : List Dispatched) : List (List UInt8) :=
  (dispatched.filter fun d => d.handler = .f4m).map Dispatched.body

/-- A connection after a call of its handler; a negative value closes it. -/
def afterCall (conns : List ProxyConn) (i : Nat) (ret : Int) (conn : ProxyConn) : List ProxyConn :=
  if ret < 0 then conns.eraseIdx i else conns.set i conn

inductive ProxyEvent
  | accept (ip : List UInt8) (serverFd : Option Nat)
  | browser (i : Nat) (data : List UInt8)
  | server (i : Nat) (data : List UInt8)
  | hangup (i : Nat)

/-- A connection is accepted, something is received on one, or `recv` fails on one. -/
def proxyStep (w : ProxyState) : ProxyEvent → Option ProxyState
  | .accept ip serverFd => some { w with conns := proxyConnCreate w.config ip serverFd :: w.conns }
  | .browser i data => do
    let conn ← w.conns[i]?
    let r ← handlerBrowser w.config conn data
    return { w with config := r.config, conns := afterCall w.conns i r.ret r.conn }
  | .server i data => do
    let conn ← w.conns[i]?
    let r ← handlerServer w.config conn data
    return ⟨r.config, afterCall w.conns i r.ret r.conn, w.manifests ++ manifestBodies r.dispatched⟩
  | .hangup i => some { w with conns := w.conns.eraseIdx i }

/-- The states of the runs that start with `config`. -/
inductive Reachable (config : Config) : ProxyState → Prop
  | start : Reachable config (ProxyState.start config)
  | step {w w' : ProxyState} (e : ProxyEvent) (h : Reachable config w) (hstep : proxyStep w e = some w') :
      Reachable config w'

/-- When `data` arrives, `select_bitrate` is called with `list`. -/
def SelectsFrom (config : Config) (conn : ProxyConn) (data : List UInt8) (list : List Int) : Prop :=
  ∃ buf request, receive conn.browser.buf conn.browser.offset data = some buf ∧
    parse buf data.length = some request ∧ ¬request.status < 0 ∧ ¬conn.server.fd < 0 ∧
    checkType request = .chunk ∧ list = chooseList config conn

/-- A manifest with a usable bitrate is among `manifests`. -/
def HasUsable (manifests : List (List UInt8)) : Prop :=
  ∃ body ∈ manifests, ∃ list, parseXmlToList body = some list ∧ list ≠ []

lemma HasUsable.append {manifests : List (List UInt8)} (h : HasUsable manifests) (more : List (List UInt8)) :
    HasUsable (manifests ++ more) := by
  obtain ⟨body, hbody, h⟩ := h
  exact ⟨body, List.mem_append_left more hbody, h⟩

/-! ## The lists of one connection -/

/-- The lists in use come from the manifests: the shared one is filled with the first usable one. -/
structure Stocked (manifests : List (List UInt8)) (config : Config) (conn : ProxyConn) : Prop where
  own : conn.bitrateList ≠ [] → HasUsable manifests
  shared : config.defaultList ≠ [] ↔ HasUsable manifests

lemma Stocked.hasBitrates_iff {manifests : List (List UInt8)} {config : Config} {conn : ProxyConn}
    (h : Stocked manifests config conn) : HasBitrates config conn ↔ HasUsable manifests := by
  constructor
  · rintro (hown | hshared)
    · exact h.own hown
    · exact h.shared.mp hshared
  · exact fun husable => Or.inr (h.shared.mpr husable)

/-- The handler of a manifest takes over its list, and fills the shared one if it is empty. -/
lemma Handler.run_lists_f4m {config config' : Config} {conn conn' : ProxyConn} {body : List UInt8}
    {sent : List Sent} (h : Handler.f4m.run config conn body = some (config', conn', sent)) :
    ∃ list, parseXmlToList body = some list ∧ conn'.bitrateList = list ∧
      config'.defaultList = if config.defaultList = [] then list else config.defaultList := by
  obtain ⟨list, ret, saved, hparse, -, rfl, rfl, -⟩ := handleRespF4m_eq_some h
  refine ⟨list, hparse, rfl, ?_⟩
  split
  · exact dupBitrateList_eq list
  · rfl

lemma respond_stocked {manifests : List (List UInt8)} {config : Config} {conn : ProxyConn}
    {header body : List UInt8} {run : ServerRun} (hstocked : Stocked manifests config conn)
    (h : respond config conn header body = some run) :
    Stocked (manifests ++ manifestBodies run.dispatched) run.config run.conn := by
  obtain ⟨handler, -, hdispatched, conn', hrun, hconn⟩ := respond_dispatched h
  have hlist : run.conn.bitrateList = conn'.bitrateList := by
    rw [hconn]
    rfl
  rw [hdispatched]
  by_cases hkind : handler = .f4m
  · subst hkind
    obtain ⟨list, hparse, hown, hshared⟩ := Handler.run_lists_f4m hrun
    have hbodies : manifestBodies [⟨.f4m, header, body⟩] = [body] := rfl
    have hnew : list ≠ [] → HasUsable (manifests ++ [body]) := fun hne =>
      ⟨body, List.mem_append_right _ (List.mem_singleton.mpr rfl), list, hparse, hne⟩
    have hold : HasUsable (manifests ++ [body]) → HasUsable manifests ∨ list ≠ [] := by
      rintro ⟨b, hb, l, hl, hne⟩
      rcases List.mem_append.mp hb with hb | hb
      · exact Or.inl ⟨b, hb, l, hl, hne⟩
      · rw [List.mem_singleton.mp hb, hparse] at hl
        obtain rfl := Option.some.inj hl
        exact Or.inr hne
    rw [hbodies]
    constructor
    · rw [hlist, hown]
      exact hnew
    · rw [hshared]
      constructor
      · intro hne
        split at hne
        · exact hnew hne
        · exact (hstocked.shared.mp hne).append _
      · intro husable
        split
        · rename_i hempty
          rcases hold husable with hbefore | hne
          · exact absurd hempty (hstocked.shared.mpr hbefore)
          · exact hne
        · assumption
  · obtain ⟨hkept, -⟩ := Handler.run_forward hkind hrun
    have hbodies : manifestBodies [⟨handler, header, body⟩] = [] := by
      simp [manifestBodies, hkind]
    rw [hbodies, List.append_nil]
    exact ⟨by rw [hlist, hkept.bitrateList]; exact hstocked.own, by rw [hkept.defaultList]; exact hstocked.shared⟩

lemma respondAll_stocked {manifests : List (List UInt8)} {config : Config} {conn : ProxyConn}
    {responses : List (List UInt8 × List UInt8)} {run : ServerRun} (hstocked : Stocked manifests config conn)
    (h : respondAll config conn responses = some run) :
    Stocked (manifests ++ manifestBodies run.dispatched) run.config run.conn := by
  induction responses generalizing manifests config conn run with
  | nil =>
    obtain rfl := Option.some.inj h
    simp only [manifestBodies, List.filter_nil, List.map_nil, List.append_nil]
    exact ⟨hstocked.own, hstocked.shared⟩
  | cons response responses ih =>
    obtain ⟨header, body⟩ := response
    obtain ⟨first, rest, hfirst, hrest, rfl⟩ := respondAll_cons_eq_some h
    have hnext := ih (respond_stocked hstocked hfirst) hrest
    simpa [manifestBodies] using hnext

/-- Whatever is received from the server, the lists still come from the manifests handled so far. -/
lemma handlerServer_stocked {manifests : List (List UInt8)} {config : Config} {conn : ProxyConn}
    {data : List UInt8} {r : ServerResult} (hstocked : Stocked manifests config conn)
    (h : handlerServer config conn data = some r) :
    Stocked (manifests ++ manifestBodies r.dispatched) r.config r.conn := by
  obtain ⟨run, hrun, hconfig, hcore, -, hdispatched⟩ := handlerServer_handles h
  have hlist : r.conn.bitrateList = run.conn.bitrateList := by
    rw [← hcore]
    rfl
  have hall := respondAll_stocked hstocked hrun
  rw [hdispatched, hconfig]
  exact ⟨by rw [hlist]; exact hall.own, hall.shared⟩

/-- What is received from the browser changes at most the list of its connection, to the shared one. -/
lemma handlerBrowser_stocked {manifests : List (List UInt8)} {config : Config} {conn : ProxyConn}
    {data : List UInt8} {r : BrowserResult} (hstocked : Stocked manifests config conn)
    (h : handlerBrowser config conn data = some r) :
    r.config.defaultList = config.defaultList ∧ (r.conn.bitrateList ≠ [] → HasUsable manifests) := by
  obtain ⟨buf, request, -, -, ⟨-, rfl⟩ | ⟨-, -, rfl⟩ | ⟨-, -, ⟨config', conn', sent⟩, hforward, rfl⟩⟩ :=
    handlerBrowser_cases h
  · exact ⟨rfl, hstocked.own⟩
  · exact ⟨rfl, hstocked.own⟩
  · rcases forwardRequest_cases hforward with ⟨-, bitrate, text, chunkName, newBuf, -, rfl, rfl, -⟩ |
      ⟨-, text, -, rfl, rfl, -⟩ | ⟨-, -, text, -, rfl, rfl, -⟩
    · refine ⟨rfl, fun hne => hstocked.hasBitrates_iff.mp ?_⟩
      exact (chooseList_ne_nil_iff config conn).mp hne
    · exact ⟨rfl, hstocked.own⟩
    · exact ⟨rfl, hstocked.own⟩

/-! ## Runs -/

/-- A call of `handler_browser`. -/
lemma proxyStep_browser {w w' : ProxyState} {i : Nat} {data : List UInt8}
    (h : proxyStep w (.browser i data) = some w') :
    ∃ conn r, w.conns[i]? = some conn ∧ handlerBrowser w.config conn data = some r ∧
      w' = { w with config := r.config, conns := afterCall w.conns i r.ret r.conn } := by
  obtain ⟨conn, hconn, h⟩ := Option.bind_eq_some_iff.mp h
  obtain ⟨r, hcall, h⟩ := Option.bind_eq_some_iff.mp h
  exact ⟨conn, r, hconn, hcall, (Option.some.inj h).symm⟩

/-- A call of `handler_server`. -/
lemma proxyStep_server {w w' : ProxyState} {i : Nat} {data : List UInt8}
    (h : proxyStep w (.server i data) = some w') :
    ∃ conn r, w.conns[i]? = some conn ∧ handlerServer w.config conn data = some r ∧
      w' = ⟨r.config, afterCall w.conns i r.ret r.conn, w.manifests ++ manifestBodies r.dispatched⟩ := by
  obtain ⟨conn, hconn, h⟩ := Option.bind_eq_some_iff.mp h
  obtain ⟨r, hcall, h⟩ := Option.bind_eq_some_iff.mp h
  exact ⟨conn, r, hconn, hcall, (Option.some.inj h).symm⟩

/-- What holds in every state of a run. -/
structure ProxyInv (w : ProxyState) : Prop where
  own : ∀ conn ∈ w.conns, conn.bitrateList ≠ [] → HasUsable w.manifests
  shared : w.config.defaultList ≠ [] ↔ HasUsable w.manifests

lemma ProxyInv.stocked {w : ProxyState} (hw : ProxyInv w) {i : Nat} {conn : ProxyConn}
    (hconn : w.conns[i]? = some conn) : Stocked w.manifests w.config conn :=
  ⟨hw.own conn (List.mem_of_getElem? hconn), hw.shared⟩

lemma mem_afterCall {conns : List ProxyConn} {i : Nat} {ret : Int} {conn c : ProxyConn}
    (h : c ∈ afterCall conns i ret conn) : c ∈ conns ∨ c = conn ∧ ¬ret < 0 := by
  unfold afterCall at h
  split at h
  · exact Or.inl (List.mem_of_mem_eraseIdx h)
  · rename_i hopen
    exact (List.mem_or_eq_of_mem_set h).imp_right fun heq => ⟨heq, hopen⟩

lemma proxyInv_start (config : Config) : ProxyInv (ProxyState.start config) :=
  ⟨by simp [ProxyState.start], by simp [ProxyState.start, HasUsable]⟩

lemma proxyInv_step {w w' : ProxyState} {e : ProxyEvent} (hw : ProxyInv w) (h : proxyStep w e = some w') :
    ProxyInv w' := by
  cases e with
  | accept ip serverFd =>
    obtain rfl := Option.some.inj h
    refine ⟨fun conn hconn hne => ?_, hw.shared⟩
    rcases List.mem_cons.mp hconn with rfl | hconn
    · exact absurd rfl hne
    · exact hw.own conn hconn hne
  | browser i data =>
    obtain ⟨conn, r, hconn, hcall, rfl⟩ := proxyStep_browser h
    obtain ⟨hshared, hown⟩ := handlerBrowser_stocked (hw.stocked hconn) hcall
    refine ⟨fun c hc hne => ?_, by rw [hshared]; exact hw.shared⟩
    rcases mem_afterCall hc with hc | ⟨rfl, -⟩
    · exact hw.own c hc hne
    · exact hown hne
  | server i data =>
    obtain ⟨conn, r, hconn, hcall, rfl⟩ := proxyStep_server h
    have hstocked := handlerServer_stocked (hw.stocked hconn) hcall
    refine ⟨fun c hc hne => ?_, hstocked.shared⟩
    rcases mem_afterCall hc with hc | ⟨rfl, -⟩
    · exact (hw.own c hc hne).append _
    · exact hstocked.own hne
  | hangup i =>
    obtain rfl := Option.some.inj h
    exact ⟨fun conn hconn hne => hw.own conn (List.mem_of_mem_eraseIdx hconn) hne, hw.shared⟩

lemma Reachable.inv {config : Config} {w : ProxyState} (h : Reachable config w) : ProxyInv w := by
  induction h with
  | start => exact proxyInv_start config
  | step e _ hstep ih => exact proxyInv_step ih hstep

/-- `select_bitrate` is called with a list that is not empty exactly when a manifest with a usable
bitrate was handled before, on any connection. -/
theorem selects_from_bitrates_iff (config : Config) (w : ProxyState) (hreach : Reachable config w) (i : Nat)
    (conn : ProxyConn) (hconn : w.conns[i]? = some conn) (data : List UInt8) (list : List Int)
    (hselects : SelectsFrom w.config conn data list) : list ≠ [] ↔ HasUsable w.manifests := by
  obtain ⟨buf, request, -, -, -, -, -, rfl⟩ := hselects
  rw [chooseList_ne_nil_iff]
  exact (hreach.inv.stocked hconn).hasBitrates_iff

section Example

/-- A connection is accepted before any other. -/
lemma reachable_one : Reachable newConfig ⟨newConfig, [proxyConnCreate newConfig (bytes "1.0.0.1") (some 5)], []⟩ :=
  .step (.accept (bytes "1.0.0.1") (some 5)) .start rfl

/-- The first thing that arrives is a request for a chunk. -/
lemma first_selects :
    SelectsFrom newConfig (proxyConnCreate newConfig (bytes "1.0.0.1") (some 5)) chunkData [] :=
  ⟨chunkData, chunkRequest, by decide, parse_chunkData, by decide, by decide, by decide, rfl⟩

/-- A manifest request, and the answer to it with two bitrates. -/
def listRequest : List UInt8 := bytes "GET /v.f4m HTTP/1.1\r\n\r\n"
def listAnswer : List UInt8 := bytes "HTTP/1.1 200 OK\r\nContent-Length: 65\r\n\r\n" ++ twoMedia

/-- A request for a chunk behind a manifest. -/
lemma second_selects : ∃ w conn, Reachable newConfig w ∧ w.conns[0]? = some conn ∧
    SelectsFrom w.config conn chunkData [100, 500] := by
  have h : ((proxyStep (ProxyState.start newConfig) (.accept (bytes "1.0.0.1") (some 5))).bind fun w₁ =>
      (proxyStep w₁ (.browser 0 listRequest)).bind fun w₂ => (proxyStep w₂ (.server 0 listAnswer)).bind fun w₃ =>
        (w₃.conns[0]?).bind fun conn => (receive conn.browser.buf conn.browser.offset chunkData).bind fun buf =>
          (parse buf chunkData.length).map fun request =>
            (decide (request.status < 0), decide (conn.server.fd < 0), checkType request,
              chooseList w₃.config conn)) = some (false, false, .chunk, [100, 500]) := by
    decide +kernel
  obtain ⟨w₁, h₁, h⟩ := Option.bind_eq_some_iff.mp h
  obtain ⟨w₂, h₂, h⟩ := Option.bind_eq_some_iff.mp h
  obtain ⟨w₃, h₃, h⟩ := Option.bind_eq_some_iff.mp h
  obtain ⟨conn, hconn, h⟩ := Option.bind_eq_some_iff.mp h
  obtain ⟨buf, hrecv, h⟩ := Option.bind_eq_some_iff.mp h
  obtain ⟨request, hparse, h⟩ := Option.map_eq_some_iff.mp h
  simp only [Prod.mk.injEq, decide_eq_false_iff_not] at h
  obtain ⟨hstatus, hfd, htype, hlist⟩ := h
  exact ⟨w₃, conn, .step _ (.step _ (.step _ .start h₁) h₂) h₃, hconn, buf, request, hrecv, hparse, hstatus, hfd, htype,
    hlist.symm⟩

/-- Before any manifest, and behind one with two bitrates. -/
theorem selects_from_bitrates_iff_first :
    (([] : List Int) ≠ [] ↔ HasUsable []) ∧
      ∃ w conn, Reachable newConfig w ∧ w.conns[0]? = some conn ∧ SelectsFrom w.config conn chunkData [100, 500] ∧
        (([100, 500] : List Int) ≠ [] ↔ HasUsable w.manifests) := by
  refine ⟨selects_from_bitrates_iff newConfig _ reachable_one 0 _ rfl chunkData [] first_selects, ?_⟩
  obtain ⟨w, conn, hreach, hconn, hselects⟩ := second_selects
  exact ⟨w, conn, hreach, hconn, hselects,
    selects_from_bitrates_iff newConfig w hreach 0 conn hconn chunkData [100, 500] hselects⟩

/-- A request for a chunk before any manifest is given an empty list. -/
theorem first_chunk_has_no_bitrate :
    ¬∀ (config : Config) (w : ProxyState), Reachable config w → ∀ (i : Nat) (conn : ProxyConn),
      w.conns[i]? = some conn → ∀ (data : List UInt8) (list : List Int),
      SelectsFrom w.config conn data list → list ≠ [] := fun h =>
  h newConfig _ reachable_one 0 _ rfl chunkData [] first_selects rfl

end Example

end VideoCDN.Proxy
