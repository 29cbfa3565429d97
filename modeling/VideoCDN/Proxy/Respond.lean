import VideoCDN.Proxy.Connection

/-!
# The handlers of a response and the transport

A handler gets the header section and the body of a response. It neither reads nor writes what
receiving responses keeps in the connection, so what a sequence of responses does depends on the
responses alone.
-/

namespace VideoCDN.Proxy

open CString Buffer Http

/-- What receiving a response keeps in the connection. -/
structure Transport where
  request : Option Request
  offset : Int
  buf : List UInt8
  toSendLength : Int
  responseBody : Option (List UInt8)
  response : List UInt8

def Server.transport (s : Server) : Transport :=
  ⟨s.request, s.offset, s.buf, s.toSendLength, s.responseBody, s.response⟩

def ProxyConn.withTransport (conn : ProxyConn) (t : Transport) : ProxyConn :=
  conn.setServer fun s => { s with
    request := t.request, offset := t.offset, buf := t.buf, toSendLength := t.toSendLength,
    responseBody := t.responseBody, response := t.response }

/-- A connection with the header section for the handler, and otherwise without transport. -/
def ProxyConn.withResponse (conn : ProxyConn) (header : List UInt8) : ProxyConn :=
  conn.withTransport ⟨none, 0, [], 0, none, header⟩

/-- A connection apart from its transport. -/
def ProxyConn.core (conn : ProxyConn) : ProxyConn := conn.withResponse []

lemma state_eq_of_core {conn conn' : ProxyConn} (h : conn'.core = conn.core) : conn'.state = conn.state := by
  have hcore : conn'.core.state = conn.core.state := by rw [h]
  exact hcore

lemma estimateThroughput_withTransport (config : Config) (conn : ProxyConn) (t : Transport) (chunkSize : Nat) :
    estimateThroughput config (conn.withTransport t) chunkSize =
      (estimateThroughput config conn chunkSize).map fun r => (r.1, r.2.withTransport t) := by
  have hip : (conn.withTransport t).browser.ip = conn.browser.ip := rfl
  have hstart : (conn.withTransport t).tS = conn.tS := rfl
  have hname : (conn.withTransport t).server.chunkName = conn.server.chunkName := rfl
  have hbitrate : (conn.withTransport t).bitrate = conn.bitrate := rfl
  unfold estimateThroughput
  simp only [hip, hstart, hname, hbitrate]
  cases measuredTpt chunkSize ((config.getMillTime.1 + 2 ^ 64 - conn.tS) % 2 ^ 64) with
  | none => rfl
  | some T =>
    simp only [Option.bind_eq_bind, Option.bind_some]
    cases updateEstimate config.getMillTime.2.alpha config.getMillTime.2.ipTptList conn.browser.ip T with
    | none => rfl
    | some u =>
      simp only [Option.bind_some]
      cases replaceUriBitrate chunkNameSize conn.server.chunkName conn.bitrate with
      | none => rfl
      | some name => rfl

lemma forwardResponse_congr {conn conn' : ProxyConn} (h : cstr conn'.server.response = cstr conn.server.response)
    (body : List UInt8) : forwardResponse conn' body = forwardResponse conn body := by
  rw [forwardResponse, forwardResponse, h]

/-- What the handlers but that of a manifest leave alone. -/
structure Kept (config config' : Config) (conn conn' : ProxyConn) : Prop where
  browser : conn'.browser = conn.browser
  state : conn'.state = conn.state
  bitrateList : conn'.bitrateList = conn.bitrateList
  defaultList : config'.defaultList = config.defaultList
  response : conn'.server.response = conn.server.response
  f4mRequest : conn'.server.f4mRequest = conn.server.f4mRequest

/-- An update of the estimate. -/
lemma estimateThroughput_eq_some {config config' : Config} {conn conn' : ProxyConn} {chunkSize : Nat}
    (h : estimateThroughput config conn chunkSize = some (config', conn')) :
    ∃ T list tCurrent ret chunkName,
      measuredTpt chunkSize ((config.getMillTime.1 + 2 ^ 64 - conn.tS) % 2 ^ 64) = some T ∧
      updateEstimate config.getMillTime.2.alpha config.getMillTime.2.ipTptList conn.browser.ip T =
        some (list, tCurrent) ∧
      replaceUriBitrate chunkNameSize conn.server.chunkName conn.bitrate = some (ret, chunkName) ∧
      config' = { config.getMillTime.2 with ipTptList := list } ∧
      conn' = { conn with tCurr := castInt tCurrent, server := { conn.server with chunkName := chunkName } } := by
  simp only [estimateThroughput, Option.bind_eq_bind, Option.bind_eq_some_iff, Option.pure_def, Option.some.injEq,
    Prod.mk.injEq] at h
  obtain ⟨T, hT, ⟨list, tCurrent⟩, hupdate, ⟨ret, chunkName⟩, hname, rfl, rfl⟩ := h
  exact ⟨T, list, tCurrent, ret, chunkName, hT, hupdate, hname, rfl, rfl⟩

/-- The handler of a manifest: its bitrates are stored, and the request made from the saved one goes to the
server. -/
lemma handleRespF4m_eq_some {config config' : Config} {conn conn' : ProxyConn} {body : List UInt8}
    {sent : List Sent} (h : handleRespF4m config conn body = some (config', conn', sent)) :
    ∃ list ret saved, parseXmlToList body = some list ∧
      replaceF4mToNolist conn.server.f4mRequest = some (ret, saved) ∧
      config' = (if config.defaultList = [] then { config with defaultList := dupBitrateList list } else config) ∧
      conn' = { conn with
        bitrateList := list, state := .f4mNolist, server := { conn.server with f4mRequest := saved } } ∧
      sent = sendData .server (cstr saved) := by
  simp only [handleRespF4m, Option.bind_eq_bind, Option.bind_eq_some_iff, Option.pure_def, Option.some.injEq,
    Prod.mk.injEq] at h
  obtain ⟨list, hparse, ⟨ret, saved⟩, hreplace, rfl, rfl, rfl⟩ := h
  exact ⟨list, ret, saved, hparse, hreplace, rfl, rfl, rfl⟩

/-- The handler of a chunk updates the estimate and forwards the response. -/
lemma handleRespChunk_eq_some {config config' : Config} {conn conn' : ProxyConn} {body : List UInt8}
    {sent : List Sent} (h : handleRespChunk config conn body = some (config', conn', sent)) :
    estimateThroughput config conn body.length = some (config', conn') ∧ sent = forwardResponse conn' body := by
  simp only [handleRespChunk, Option.bind_eq_bind, Option.bind_eq_some_iff, Option.pure_def, Option.some.injEq,
    Prod.mk.injEq] at h
  obtain ⟨⟨config₁, conn₁⟩, hestimate, rfl, rfl, rfl⟩ := h
  exact ⟨hestimate, rfl⟩

/-- The handlers of a page and of a nolist manifest only forward the response. -/
lemma Handler.run_cases {handler : Handler} {config config' : Config} {conn conn' : ProxyConn}
    {body : List UInt8} {sent : List Sent} (h : handler.run config conn body = some (config', conn', sent)) :
    (config' = config ∧ conn' = conn ∧ sent = forwardResponse conn body ∧ handler ≠ .f4m ∧ handler ≠ .chunk) ∨
      (handler = .f4m ∧ handleRespF4m config conn body = some (config', conn', sent)) ∨
      handler = .chunk ∧ estimateThroughput config conn body.length = some (config', conn') ∧
        sent = forwardResponse conn' body := by
  cases handler with
  | html =>
    obtain ⟨rfl, rfl, rfl⟩ : config = config' ∧ conn = conn' ∧ forwardResponse conn body = sent := by
      simpa [Handler.run, handleRespHtml] using h
    exact Or.inl ⟨rfl, rfl, rfl, by decide, by decide⟩
  | f4mNolist =>
    obtain ⟨rfl, rfl, rfl⟩ : config = config' ∧ conn = conn' ∧ forwardResponse conn body = sent := by
      simpa [Handler.run, handleRespF4mNolist] using h
    exact Or.inl ⟨rfl, rfl, rfl, by decide, by decide⟩
  | f4m => exact Or.inr (Or.inl ⟨rfl, h⟩)
  | chunk => exact Or.inr (Or.inr ⟨rfl, handleRespChunk_eq_some h⟩)

lemma estimateThroughput_kept {config config' : Config} {conn conn' : ProxyConn} {chunkSize : Nat}
    (h : estimateThroughput config conn chunkSize = some (config', conn')) : Kept config config' conn conn' := by
  obtain ⟨T, list, tCurrent, ret, chunkName, -, -, -, rfl, rfl⟩ := estimateThroughput_eq_some h
  exact ⟨rfl, rfl, rfl, rfl, rfl, rfl⟩

/-- The handlers but that of a manifest forward the response. -/
lemma Handler.run_forward {handler : Handler} {config config' : Config} {conn conn' : ProxyConn}
    {body : List UInt8} {sent : List Sent} (hkind : handler ≠ .f4m)
    (h : handler.run config conn body = some (config', conn', sent)) :
    Kept config config' conn conn' ∧ sent = forwardResponse conn body := by
  rcases Handler.run_cases h with ⟨rfl, rfl, rfl, -⟩ | ⟨hf4m, -⟩ | ⟨-, hestimate, rfl⟩
  · exact ⟨⟨rfl, rfl, rfl, rfl, rfl, rfl⟩, rfl⟩
  · exact absurd hf4m hkind
  · have hkept := estimateThroughput_kept hestimate
    exact ⟨hkept, by rw [forwardResponse, hkept.response, forwardResponse]⟩

/-- A handler keeps the transport, and depends on the stored header section alone. -/
theorem Handler.run_withTransport (handler : Handler) (config : Config) (conn : ProxyConn) {t : Transport}
    (ht : cstr t.response = cstr conn.server.response) (body : List UInt8) :
    handler.run config (conn.withTransport t) body =
      (handler.run config conn body).map fun r => (r.1, r.2.1.withTransport t, r.2.2) := by
  have hforward : forwardResponse (conn.withTransport t) body = forwardResponse conn body :=
    forwardResponse_congr ht body
  cases handler with
  | html => simp only [Handler.run, handleRespHtml, Option.map_some, hforward]
  | f4mNolist => simp only [Handler.run, handleRespF4mNolist, Option.map_some, hforward]
  | f4m =>
    have hsaved : (conn.withTransport t).server.f4mRequest = conn.server.f4mRequest := rfl
    simp only [Handler.run, handleRespF4m, hsaved]
    cases parseXmlToList body with
    | none => rfl
    | some list =>
      simp only [Option.bind_eq_bind, Option.bind_some]
      cases replaceF4mToNolist conn.server.f4mRequest with
      | none => rfl
      | some saved => rfl
  | chunk =>
    simp only [Handler.run, handleRespChunk, estimateThroughput_withTransport]
    cases hestimate : estimateThroughput config conn body.length with
    | none => rfl
    | some r =>
      obtain ⟨config', conn'⟩ := r
      have hresponse : cstr (conn'.withTransport t).server.response = cstr conn'.server.response := by
        rw [(estimateThroughput_kept hestimate).response]
        exact ht
      simp only [Option.map_some, Option.bind_eq_bind, Option.bind_some, Option.pure_def,
        forwardResponse_congr hresponse]

/-! ## Sequences of responses -/

/-- What a connection did with what it received from the server. -/
structure ServerRun where
  config : Config
  conn : ProxyConn
  sent : List Sent
  dispatched : List Dispatched

/-- Header section and body of each call of a handler. -/
def handled (dispatched : List Dispatched) : List (List UInt8 × List UInt8) :=
  dispatched.map fun d => (d.header, d.body)

/-- A response, given by header section and body, is handled in the state the connection is in. -/
def respond (config : Config) (conn : ProxyConn) (header body : List UInt8) : Option ServerRun := do
  let handler ← conn.state.handler
  let (config, conn, sent) ← handler.run config (conn.withResponse header) body
  return ⟨config, conn.core, sent, [⟨handler, header, body⟩]⟩

/-- Responses are handled one after the other. -/
def respondAll : Config → ProxyConn → List (List UInt8 × List UInt8) → Option ServerRun
  | config, conn, [] => some ⟨config, conn.core, [], []⟩
  | config, conn, (header, body) :: responses => do
    let first ← respond config conn header body
    let run ← respondAll first.config first.conn responses
    return { run with sent := first.sent ++ run.sent, dispatched := first.dispatched ++ run.dispatched }

@[simp] lemma respond_core (config : Config) (conn : ProxyConn) (header body : List UInt8) :
    respond config conn.core header body = respond config conn header body := rfl

lemma respond_congr {conn conn' : ProxyConn} (h : conn'.core = conn.core) (config : Config)
    (header body : List UInt8) : respond config conn' header body = respond config conn header body := by
  rw [← respond_core, h, respond_core]

@[simp] lemma respondAll_core (config : Config) (conn : ProxyConn) (responses : List (List UInt8 × List UInt8)) :
    respondAll config conn.core responses = respondAll config conn responses := by
  cases responses <;> rfl

lemma respondAll_congr {conn conn' : ProxyConn} (h : conn'.core = conn.core) (config : Config)
    (responses : List (List UInt8 × List UInt8)) :
    respondAll config conn' responses = respondAll config conn responses := by
  rw [← respondAll_core, h, respondAll_core]

lemma respondAll_cons_isSome (config : Config) (conn : ProxyConn) (header body : List UInt8)
    (responses : List (List UInt8 × List UInt8)) :
    (respondAll config conn ((header, body) :: responses)).isSome =
      ((respond config conn header body).bind fun first => respondAll first.config first.conn responses).isSome := by
  rw [respondAll, Option.bind_eq_bind]
  cases respond config conn header body with
  | none => rfl
  | some first =>
    simp only [Option.bind_some]
    cases respondAll first.config first.conn responses <;> rfl

lemma respond_dispatched {config : Config} {conn : ProxyConn} {header body : List UInt8} {run : ServerRun}
    (h : respond config conn header body = some run) :
    ∃ handler, conn.state.handler = some handler ∧ run.dispatched = [⟨handler, header, body⟩] ∧
      ∃ conn', handler.run config (conn.withResponse header) body = some (run.config, conn', run.sent) ∧
        run.conn = conn'.core := by
  simp only [respond, Option.bind_eq_bind, Option.bind_eq_some_iff] at h
  obtain ⟨handler, hhandler, ⟨config', conn', sent⟩, hrun, h⟩ := h
  obtain rfl := Option.some.inj h
  exact ⟨handler, hhandler, rfl, conn', hrun, rfl⟩

lemma respondAll_cons_eq_some {config : Config} {conn : ProxyConn} {header body : List UInt8}
    {responses : List (List UInt8 × List UInt8)} {run : ServerRun}
    (h : respondAll config conn ((header, body) :: responses) = some run) :
    ∃ first rest, respond config conn header body = some first ∧
      respondAll first.config first.conn responses = some rest ∧
      run = { rest with sent := first.sent ++ rest.sent, dispatched := first.dispatched ++ rest.dispatched } := by
  obtain ⟨first, hfirst, h⟩ := Option.bind_eq_some_iff.mp h
  obtain ⟨rest, hrest, h⟩ := Option.bind_eq_some_iff.mp h
  exact ⟨first, rest, hfirst, hrest, (Option.some.inj h).symm⟩

lemma respondAll_append (config : Config) (conn : ProxyConn) (xs ys : List (List UInt8 × List UInt8)) :
    respondAll config conn (xs ++ ys) = (respondAll config conn xs).bind fun run =>
      (respondAll run.config run.conn ys).map fun run' => { run' with
        sent := run.sent ++ run'.sent, dispatched := run.dispatched ++ run'.dispatched } := by
  induction xs generalizing config conn with
  | nil =>
    simp only [List.nil_append, respondAll, Option.bind_some, respondAll_core]
    cases respondAll config conn ys <;> rfl
  | cons x xs ih =>
    obtain ⟨header, body⟩ := x
    simp only [List.cons_append, respondAll, Option.bind_eq_bind]
    cases respond config conn header body with
    | none => rfl
    | some first =>
      simp only [Option.bind_some, ih]
      cases respondAll first.config first.conn xs with
      | none => rfl
      | some run =>
        simp only [Option.bind_some, Option.pure_def]
        cases respondAll run.config run.conn ys with
        | none => rfl
        | some run' => simp

lemma Handler.run_browser {handler : Handler} {config config' : Config} {conn conn' : ProxyConn}
    {body : List UInt8} {sent : List Sent} (h : handler.run config conn body = some (config', conn', sent)) :
    conn'.browser = conn.browser := by
  by_cases hkind : handler = .f4m
  · subst hkind
    obtain ⟨list, ret, saved, -, -, -, rfl, -⟩ := handleRespF4m_eq_some h
    rfl
  · exact (Handler.run_forward hkind h).1.browser

end VideoCDN.Proxy
