import VideoCDN.Lib.Sessions
import VideoCDN.Proxy.SmoothedThroughput

/-!
# The connections as sessions

The connections of the proxy are sessions that share the configuration, and with it the list of bitrates
and the history of the estimates. Beside it stand the manifests that were handled and the calls of
`estimate_throughput` that were made, in the order of the events.
-/

namespace VideoCDN.Proxy

open CString Inet

/-- What the connections share, and what was done on any of them. -/
structure Shared where
  config : Config
  manifests : List (List UInt8)
  calls : List EstimateCall

/-- The connection a call leaves open. -/
def openAfter (ret : Int) (conn : ProxyConn) : Option ProxyConn := if ret < 0 then none else some conn

lemma mem_openAfter {ret : Int} {conn c : ProxyConn} (h : c ∈ openAfter ret conn) : c = conn := by
  unfold openAfter at h
  split at h
  · cases h
  · exact (Option.some.inj h).symm

/-- A connection is accepted from one of the clients. -/
def Opens (clients : List UInt8 → Prop) (s : Shared) (conn : ProxyConn) : Prop :=
  ∃ ip serverFd, clients ip ∧ conn = proxyConnCreate s.config ip serverFd

/-- Something is received on a connection, or `recv` fails on it. -/
inductive Acts : Shared → ProxyConn → Shared → Option ProxyConn → Prop
  | browser {s : Shared} {conn : ProxyConn} (data : List UInt8) {r : BrowserResult}
      (h : handlerBrowser s.config conn data = some r) :
      Acts s conn { s with config := r.config } (openAfter r.ret r.conn)
  | server {s : Shared} {conn : ProxyConn} (data : List UInt8) {r : ServerResult}
      (h : handlerServer s.config conn data = some r) :
      Acts s conn ⟨r.config, s.manifests ++ manifestBodies r.dispatched,
        s.calls ++ estimateCalls s.config conn (handled r.dispatched)⟩ (openAfter r.ret r.conn)
  | hangup {s : Shared} {conn : ProxyConn} : Acts s conn s none

/-- The runs of the sessions. -/
def SessionRun (clients : List UInt8 → Prop) :
    Sessions.World Shared ProxyConn → Sessions.World Shared ProxyConn → Prop :=
  Relation.ReflTransGen (Sessions.Step (Opens clients) Acts)

/-- The runs from `w₀` in which connections are accepted from the clients, with the calls that were made. -/
inductive LoggedRun (clients : List UInt8 → Prop) (w₀ : ProxyState) : ProxyState → List EstimateCall → Prop
  | start : LoggedRun clients w₀ w₀ []
  | step {w w' : ProxyState} {calls : List EstimateCall} (e : ProxyEvent) (h : LoggedRun clients w₀ w calls)
      (hclient : ∀ ip serverFd, e = .accept ip serverFd → clients ip) (hstep : proxyStep w e = some w') :
      LoggedRun clients w₀ w' (calls ++ stepCalls w e)

/-- The proxy as a world of sessions. -/
def ProxyState.sessions (w : ProxyState) (calls : List EstimateCall) : Sessions.World Shared ProxyConn :=
  ⟨⟨w.config, w.manifests, calls⟩, w.conns⟩

variable {clients : List UInt8 → Prop} {w₀ w w' : ProxyState} {calls : List EstimateCall}

/-- The connection of a call and the others. -/
lemma afterCall_split {conns : List ProxyConn} {i : Nat} {conn : ProxyConn} (h : conns[i]? = some conn) :
    ∃ pre post, conns = pre ++ conn :: post ∧ conns.eraseIdx i = pre ++ post ∧
      ∀ ret conn', afterCall conns i ret conn' = pre ++ ((openAfter ret conn').toList ++ post) := by
  obtain ⟨hi, rfl⟩ := List.getElem?_eq_some_iff.mp h
  refine ⟨conns.take i, conns.drop (i + 1), ?_, List.eraseIdx_eq_take_drop_succ _ _, fun ret conn' => ?_⟩
  · rw [List.getElem_cons_drop, List.take_append_drop]
  · unfold afterCall openAfter
    by_cases hret : ret < 0
    · rw [if_pos hret, if_pos hret, List.eraseIdx_eq_take_drop_succ]
      rfl
    · rw [if_neg hret, if_neg hret, List.set_eq_take_append_cons_drop, if_pos hi]
      rfl

/-- A step of the proxy is one of its sessions'; `recv` may also fail where there is none. -/
lemma proxyStep_sessions {e : ProxyEvent} (hclient : ∀ ip serverFd, e = .accept ip serverFd → clients ip)
    (h : proxyStep w e = some w') (calls : List EstimateCall) :
    SessionRun clients (w.sessions calls) (w'.sessions (calls ++ stepCalls w e)) := by
  cases e with
  | accept ip serverFd =>
    obtain rfl := Option.some.inj h
    simp only [stepCalls, List.append_nil]
    exact .single (.opens _ ⟨ip, serverFd, hclient ip serverFd rfl, rfl⟩)
  | browser i data =>
    obtain ⟨conn, r, hconn, hcall, rfl⟩ := proxyStep_browser h
    obtain ⟨pre, post, hsplit, -, hafter⟩ := afterCall_split hconn
    simp only [stepCalls, List.append_nil, ProxyState.sessions, hafter]
    rw [hsplit]
    exact .single (.acts (.browser data hcall))
  | server i data =>
    obtain ⟨conn, r, hconn, hcall, rfl⟩ := proxyStep_server h
    obtain ⟨pre, post, hsplit, -, hafter⟩ := afterCall_split hconn
    simp only [stepCalls, hconn, hcall, Option.bind_some, Option.map_some, Option.getD_some, ProxyState.sessions,
      hafter]
    rw [hsplit]
    exact .single (.acts (.server data hcall))
  | hangup i =>
    obtain rfl := Option.some.inj h
    simp only [stepCalls, List.append_nil]
    cases hconn : w.conns[i]? with
    | none =>
      rw [List.eraseIdx_of_length_le (List.getElem?_eq_none_iff.mp hconn)]
      exact .refl
    | some conn =>
      obtain ⟨pre, post, hsplit, herase, -⟩ := afterCall_split hconn
      simp only [ProxyState.sessions, herase]
      rw [hsplit]
      exact .single (.acts Acts.hangup)

lemma LoggedRun.sessions (h : LoggedRun clients w₀ w calls) (before : List EstimateCall) :
    SessionRun clients (w₀.sessions before) (w.sessions (before ++ calls)) := by
  induction h with
  | start =>
    rw [List.append_nil]
    exact .refl
  | step e _ hclient hstep ih =>
    rw [← List.append_assoc]
    exact ih.trans (proxyStep_sessions hclient hstep _)

/-- What calls keep holds at the end of a run. -/
lemma LoggedRun.keeps {shared : Shared → Prop} {own : Shared → ProxyConn → Prop}
    {apart : ProxyConn → ProxyConn → Prop} (h : LoggedRun clients w₀ w calls)
    (hkeeps : Sessions.Keeps (Opens clients) Acts shared own apart) (before : List EstimateCall)
    (hw : (w₀.sessions before).Sound shared own apart) : (w.sessions (before ++ calls)).Sound shared own apart :=
  hkeeps.run hw (h.sessions before)

lemma LoggedRun.trans {later : List EstimateCall} (h : LoggedRun clients w₀ w calls)
    (h' : LoggedRun clients w w' later) : LoggedRun clients w₀ w' (calls ++ later) := by
  induction h' with
  | start => rwa [List.append_nil]
  | step e _ hclient hstep ih =>
    rw [← List.append_assoc]
    exact .step e ih hclient hstep

lemma LoggedRun.mono {clients' : List UInt8 → Prop} (h : LoggedRun clients w₀ w calls)
    (hmono : ∀ ip, clients ip → clients' ip) : LoggedRun clients' w₀ w calls := by
  induction h with
  | start => exact .start
  | step e _ hclient hstep ih => exact .step e ih (fun ip serverFd he => hmono ip (hclient ip serverFd he)) hstep

/-- The state and the calls of a sequence of events. -/
def runEvents (w : ProxyState) : List ProxyEvent → Option (ProxyState × List EstimateCall)
  | [] => some (w, [])
  | e :: events => do
    let w' ← proxyStep w e
    let (w'', calls) ← runEvents w' events
    return (w'', stepCalls w e ++ calls)

lemma loggedRun_of_events {events : List ProxyEvent}
    (hclient : ∀ ip serverFd, .accept ip serverFd ∈ events → clients ip) (h : runEvents w events = some (w', calls)) :
    LoggedRun clients w w' calls := by
  induction events generalizing w calls with
  | nil =>
    obtain ⟨rfl, rfl⟩ := Prod.mk.inj (Option.some.inj h)
    exact .start
  | cons e events ih =>
    obtain ⟨w₁, hstep, h⟩ := Option.bind_eq_some_iff.mp h
    obtain ⟨⟨w₂, later⟩, hrest, h⟩ := Option.bind_eq_some_iff.mp h
    obtain ⟨rfl, rfl⟩ := Prod.mk.inj (Option.some.inj h)
    have hone : LoggedRun clients w w₁ ([] ++ stepCalls w e) :=
      .step e .start (fun ip serverFd he => hclient ip serverFd (he ▸ List.mem_cons_self)) hstep
    exact hone.trans (ih (fun ip serverFd he => hclient ip serverFd (List.mem_cons_of_mem e he)) hrest)

/-- Every reachable state is reached in such a run. -/
lemma Reachable.logged {config : Config} (h : Reachable config w) :
    ∃ calls, LoggedRun (fun _ => True) (ProxyState.start config) w calls := by
  induction h with
  | start => exact ⟨[], .start⟩
  | step e _ hstep ih =>
    obtain ⟨calls, hrun⟩ := ih
    exact ⟨_, .step e hrun (fun _ _ _ => trivial) hstep⟩

end VideoCDN.Proxy
