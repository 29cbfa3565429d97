import VideoCDN.Proxy.ServerLoop

/-!
# What a call of a handler leaves alone

A call for what the browser sent neither changes the socket to the server nor what receiving responses
keeps, and a call for what the server sent does not change the browser's side.
-/

namespace VideoCDN.Proxy

open CString Buffer Http

variable {config config' : Config} {conn conn' : ProxyConn} {data : List UInt8}

/-! ## Requests -/

/-- Bytes sent to one peer. -/
def AllTo (peer : Peer) (sent : List Sent) : Prop := ∀ s ∈ sent, s.peer = peer

lemma allTo_sendData (peer : Peer) (data : List UInt8) : AllTo peer (sendData peer data) := by
  unfold sendData
  split
  · exact fun s hs => absurd hs List.not_mem_nil
  · intro s hs
    rw [List.mem_singleton.mp hs]

lemma forwardRequest_keeps {request : Request} {oldOffset : Int} {recvlen : Nat} {sent : List Sent}
    (h : forwardRequest config conn request oldOffset recvlen = some (config', conn', sent)) :
    conn'.browser = conn.browser ∧ conn'.server.fd = conn.server.fd ∧
      conn'.server.transport = conn.server.transport ∧ AllTo .server sent := by
  rcases forwardRequest_cases h with ⟨-, bitrate, text, chunkName, newBuf, -, rfl, rfl, rfl⟩ |
    ⟨-, text, -, rfl, rfl, rfl⟩ | ⟨-, -, text, -, rfl, rfl, rfl⟩
  · exact ⟨rfl, rfl, rfl, allTo_sendData _ _⟩
  · exact ⟨rfl, rfl, rfl, allTo_sendData _ _⟩
  · exact ⟨rfl, rfl, rfl, allTo_sendData _ _⟩

lemma requestText_ne_nil (method uri version : List UInt8) (headers : List (List UInt8 × List UInt8)) :
    requestText method uri version headers ≠ [] := by
  simp [requestText]

lemma constructHttpReq_ne_nil {request : Request} {text : List UInt8} (h : constructHttpReq request = some text) :
    text ≠ [] := by
  obtain ⟨version, -, rfl, -⟩ := constructHttpReq_eq_some_iff.mp h
  exact requestText_ne_nil _ _ _ _

lemma sendData_ne_nil {peer : Peer} {data : List UInt8} (h : data ≠ []) : sendData peer data ≠ [] := by
  simp [sendData, h]

/-- A request that is forwarded is never empty. -/
lemma forwardRequest_sent_ne_nil {request : Request} {oldOffset : Int} {recvlen : Nat} {sent : List Sent}
    (h : forwardRequest config conn request oldOffset recvlen = some (config', conn', sent)) : sent ≠ [] := by
  rcases forwardRequest_cases h with ⟨-, bitrate, text, chunkName, newBuf, htext, -, -, rfl⟩ |
    ⟨-, text, htext, -, -, rfl⟩ | ⟨-, -, text, htext, -, -, rfl⟩
  · apply sendData_ne_nil
    apply List.ne_nil_of_length_pos
    rw [length_fetch]
    exact List.length_pos_of_ne_nil (constructHttpReq_ne_nil htext)
  · exact sendData_ne_nil (constructHttpReq_ne_nil htext)
  · exact sendData_ne_nil (constructHttpReq_ne_nil htext)

lemma handlerBrowser_frame {r : BrowserResult} (h : handlerBrowser config conn data = some r) :
    r.conn.server.fd = conn.server.fd ∧ r.conn.server.transport = conn.server.transport ∧ AllTo .server r.sent := by
  obtain ⟨buf, request, -, -, ⟨-, rfl⟩ | ⟨-, -, rfl⟩ | ⟨-, -, forward, hforward, rfl⟩⟩ :=
    handlerBrowser_cases h
  · exact ⟨rfl, rfl, fun s hs => absurd hs List.not_mem_nil⟩
  · exact ⟨rfl, rfl, fun s hs => absurd hs List.not_mem_nil⟩
  · obtain ⟨-, hfd, htransport, hsent⟩ := forwardRequest_keeps hforward
    exact ⟨hfd, htransport, hsent⟩

/-! ## Responses -/

lemma Handler.run_fd {handler : Handler} {body : List UInt8} {sent : List Sent}
    (h : handler.run config conn body = some (config', conn', sent)) : conn'.server.fd = conn.server.fd := by
  rcases Handler.run_cases h with ⟨-, rfl, -⟩ | ⟨-, hf4m⟩ | ⟨-, hestimate, -⟩
  · rfl
  · obtain ⟨list, ret, saved, -, -, -, rfl, -⟩ := handleRespF4m_eq_some hf4m
    rfl
  · obtain ⟨T, list, tCurrent, ret, chunkName, -, -, -, -, rfl⟩ := estimateThroughput_eq_some hestimate
    rfl

lemma respond_frame {header body : List UInt8} {run : ServerRun} (h : respond config conn header body = some run) :
    run.conn.browser = conn.browser ∧ run.conn.server.fd = conn.server.fd := by
  obtain ⟨handler, -, -, conn', hrun, hconn⟩ := respond_dispatched h
  have hbrowser := Handler.run_browser hrun
  have hfd := Handler.run_fd hrun
  rw [hconn]
  exact ⟨hbrowser, hfd⟩

lemma respondAll_frame {responses : List (List UInt8 × List UInt8)} {run : ServerRun}
    (h : respondAll config conn responses = some run) :
    run.conn.browser = conn.browser ∧ run.conn.server.fd = conn.server.fd := by
  induction responses generalizing config conn run with
  | nil =>
    obtain rfl := Option.some.inj h
    exact ⟨rfl, rfl⟩
  | cons response responses ih =>
    obtain ⟨header, body⟩ := response
    obtain ⟨first, rest, hfirst, hrest, rfl⟩ := respondAll_cons_eq_some h
    obtain ⟨hbrowser, hfd⟩ := respond_frame hfirst
    obtain ⟨hbrowser', hfd'⟩ := ih hrest
    exact ⟨hbrowser'.trans hbrowser, hfd'.trans hfd⟩

lemma handlerServer_frame {r : ServerResult} (h : handlerServer config conn data = some r) :
    r.conn.browser = conn.browser ∧ r.conn.server.fd = conn.server.fd := by
  obtain ⟨run, hrun, -, hcore, -, -⟩ := handlerServer_handles h
  obtain ⟨hbrowser, hfd⟩ := respondAll_frame hrun
  rw [← hcore] at hbrowser hfd
  exact ⟨hbrowser, hfd⟩

end VideoCDN.Proxy
