import VideoCDN.Http.Message
import VideoCDN.Proxy.Bitrate
import VideoCDN.Proxy.Throughput

/-!
# A connection of the proxy

The handlers of `proxy2.c` for what arrives from the browser and from the server. A handler
takes the bytes its `recv` returned. Sockets accept everything that is sent. The clock is the
sequence of its readings, in the order they are taken. The log is left out.
-/

namespace VideoCDN.Proxy

open CString Buffer Http

inductive State
  | html
  | f4m
  | f4mNolist
  | chunk
  | uk
  deriving DecidableEq, Repr

/-- The browser's side of a connection. -/
structure Browser where
  request : Option Request
  type : ReqUri
  offset : Int
  buf : List UInt8
  ip : List UInt8

/-- The server's side; `responseBody` lists the bytes stored in the allocated array. -/
structure Server where
  fd : Int
  request : Option Request
  offset : Int
  buf : List UInt8
  toSendLength : Int
  f4mRequest : List UInt8
  responseBody : Option (List UInt8)
  response : List UInt8
  chunkName : List UInt8

structure ProxyConn where
  tCurr : Nat
  tS : Nat
  bitrate : Int
  bitrateList : List Int
  browser : Browser
  server : Server
  state : State

/-- What the connections share: the configuration, the history and the clock. -/
structure Config where
  alpha : ℚ
  defaultList : List Int
  ipTptList : List IpTpt
  clock : Nat → Nat
  readings : Nat

inductive Peer
  | browser
  | server
  deriving DecidableEq, Repr

/-- Bytes passed to `send`. -/
structure Sent where
  peer : Peer
  data : List UInt8
  deriving DecidableEq, Repr

/-- Nothing is sent where the length is 0. -/
def sendData (peer : Peer) (data : List UInt8) : List Sent := if data = [] then [] else [⟨peer, data⟩]

/-- The number of bytes sent. -/
def sentLength (sent : List Sent) : Nat := (sent.map fun s => s.data.length).sum

def chunkNameSize : Nat := 512

def Config.getMillTime (config : Config) : Nat × Config :=
  (config.clock config.readings, { config with readings := config.readings + 1 })

/-- The bytes `recv` appends to a buffer, at most as many as it has room for. -/
def receive (buf : List UInt8) (offset : Int) (data : List UInt8) : Option (List UInt8) :=
  if data = [] ∨ offset < 0 ∨ maxReqSize < offset + data.length then none
  else some (put buf offset.toNat data)

/-- `memmove` of the `n` bytes from position `i` on to the front. -/
def moveToFront (buf : List UInt8) (i : Nat) (n : Int) : List UInt8 :=
  if n > 0 then put buf 0 (fetch buf i n.toNat) else buf

/-! ## Requests -/

/-- What a call of `handler_browser` returns, does and sends; `forwarded` is the request it hands
to the server. -/
structure BrowserResult where
  ret : Int
  config : Config
  conn : ProxyConn
  sent : List Sent
  forwarded : Option Request

/-- The URI in the buffer for the name of the chunk. -/
def getVideoName (uri chunkName : List UInt8) : Option (List UInt8) :=
  if chunkNameSize ≤ uri.length then none else some (put chunkName 0 (uri ++ [0]))

/-- The list a bitrate is chosen from. -/
def chooseList (config : Config) (conn : ProxyConn) : List Int :=
  if conn.bitrateList = [] then dupBitrateList config.defaultList else conn.bitrateList

/-- The branch for a chunk: the bitrate is chosen and written into the request. -/
def forwardChunk (config : Config) (conn : ProxyConn) (request : Request) :
    Option (Config × ProxyConn × List Sent) := do
  let bitrate ← selectBitrate (chooseList config conn) conn.tCurr
  let buf ← constructHttpReq request
  let chunkName ← getVideoName request.httpUri conn.server.chunkName
  let (_, newBuf) ← replaceUriBitrate maxReqSize buf bitrate
  return (config.getMillTime.2, { conn with
    bitrateList := chooseList config conn, bitrate := bitrate, tS := config.getMillTime.1,
    server := { conn.server with chunkName := chunkName } },
    sendData .server (fetch newBuf 0 buf.length))

/-- The request as it is. -/
def proxyReqForward (request : Request) : Option (List Sent) := do
  let buf ← constructHttpReq request
  return sendData .server buf

/-- The bytes a manifest request was received with are saved. -/
def saveF4m (conn : ProxyConn) (oldOffset : Int) (recvlen : Nat) : ProxyConn :=
  let saved := put conn.server.f4mRequest 0 (fetch conn.browser.buf oldOffset.toNat recvlen)
  { conn with server := { conn.server with f4mRequest := saved } }

/-- The state a request of the given type leads to. -/
def requestState : ReqUri → State
  | .html => .html
  | .f4m => .f4m
  | .chunk => .chunk
  | .uk => .html

/-- The request is sent to the server in the way of its type. -/
def forwardRequest (config : Config) (conn : ProxyConn) (request : Request) (oldOffset : Int) (recvlen : Nat) :
    Option (Config × ProxyConn × List Sent) :=
  match checkType request with
  | .chunk => forwardChunk config conn request
  | .f4m => do
    let sent ← proxyReqForward request
    return (config, saveF4m conn oldOffset recvlen, sent)
  | _ => do
    let sent ← proxyReqForward request
    return (config, conn, sent)

/-- The connection with another request buffer. -/
def ProxyConn.setBrowser (conn : ProxyConn) (buf : List UInt8) (offset : Int) (request : Option Request)
    (type : ReqUri) : ProxyConn :=
  { conn with browser := { conn.browser with buf := buf, offset := offset, request := request, type := type } }

def handlerBrowser (config : Config) (conn : ProxyConn) (data : List UInt8) : Option BrowserResult := do
  let oldOffset := conn.browser.offset
  let buf ← receive conn.browser.buf oldOffset data
  let offset := oldOffset + data.length
  let request ← parse buf data.length
  if request.status < 0 then
    return ⟨0, config, conn.setBrowser buf offset (some request) conn.browser.type, [], none⟩
  let rest := offset - request.position
  let buf := moveToFront buf request.position rest
  let type := checkType request
  let conn := conn.setBrowser buf rest (some request) type
  if conn.server.fd < 0 then return ⟨-1, config, conn, [], none⟩
  let (config, conn, sent) ← forwardRequest config conn request oldOffset data.length
  let conn := { conn with state := requestState type, browser := { conn.browser with request := none } }
  return ⟨sentLength sent, config, conn, sent, some request⟩

/-! ## Responses -/

/-- The handlers of a response. -/
inductive Handler
  | html
  | f4m
  | f4mNolist
  | chunk
  deriving DecidableEq, Repr

/-- A call of a response handler. -/
structure Dispatched where
  handler : Handler
  header : List UInt8
  body : List UInt8
  deriving DecidableEq, Repr

/-- An `int` in an `unsigned long`, for a number cast to `int`. -/
def castInt (n : Nat) : Nat :=
  let m := n % 2 ^ 32
  if m < 2 ^ 31 then m else 2 ^ 64 - 2 ^ 32 + m

def estimateThroughput (config : Config) (conn : ProxyConn) (chunkSize : Nat) :
    Option (Config × ProxyConn) := do
  let (tFinish, config) := config.getMillTime
  let duration := (tFinish + 2 ^ 64 - conn.tS) % 2 ^ 64
  let T ← measuredTpt chunkSize duration
  let (list, tCurrent) ← updateEstimate config.alpha config.ipTptList conn.browser.ip T
  let (_, chunkName) ← replaceUriBitrate chunkNameSize conn.server.chunkName conn.bitrate
  return ({ config with ipTptList := list },
    { conn with tCurr := castInt tCurrent, server := { conn.server with chunkName := chunkName } })

/-- Header and body are sent to the browser. -/
def forwardResponse (conn : ProxyConn) (body : List UInt8) : List Sent :=
  sendData .browser (cstr conn.server.response) ++ sendData .browser body

def handleRespHtml (config : Config) (conn : ProxyConn) (body : List UInt8) :
    Option (Config × ProxyConn × List Sent) :=
  some (config, conn, forwardResponse conn body)

/-- The bitrates are read, and the manifest without them is requested. -/
def handleRespF4m (config : Config) (conn : ProxyConn) (body : List UInt8) :
    Option (Config × ProxyConn × List Sent) := do
  let list ← parseXmlToList body
  let config := if config.defaultList = [] then { config with defaultList := dupBitrateList list } else config
  let (_, f4mRequest) ← replaceF4mToNolist conn.server.f4mRequest
  return (config, { conn with
    bitrateList := list, state := .f4mNolist, server := { conn.server with f4mRequest := f4mRequest } },
    sendData .server (cstr f4mRequest))

def handleRespF4mNolist (config : Config) (conn : ProxyConn) (body : List UInt8) :
    Option (Config × ProxyConn × List Sent) :=
  some (config, conn, forwardResponse conn body)

def handleRespChunk (config : Config) (conn : ProxyConn) (body : List UInt8) :
    Option (Config × ProxyConn × List Sent) := do
  let (config, conn) ← estimateThroughput config conn body.length
  return (config, conn, forwardResponse conn body)

/-- The handler for the state of the connection. -/
def State.handler : State → Option Handler
  | .html => some .html
  | .f4m => some .f4m
  | .f4mNolist => some .f4mNolist
  | .chunk => some .chunk
  | .uk => none

def Handler.run : Handler → Config → ProxyConn → List UInt8 → Option (Config × ProxyConn × List Sent)
  | .html => handleRespHtml
  | .f4m => handleRespF4m
  | .f4mNolist => handleRespF4mNolist
  | .chunk => handleRespChunk

/-- What a call of `handler_server` returns, does and sends; `dispatched` lists the calls of
response handlers. -/
structure ServerResult where
  ret : Int
  config : Config
  conn : ProxyConn
  sent : List Sent
  dispatched : List Dispatched

def ProxyConn.setServer (conn : ProxyConn) (f : Server → Server) : ProxyConn := { conn with server := f conn.server }

/-- The bytes at the front of the buffer that belong to the body are moved there. -/
def drainBody (conn : ProxyConn) : Option ProxyConn := do
  let s := conn.server
  if s.toSendLength ≤ 0 then return conn
  let toSend := if s.toSendLength > s.offset then s.offset else s.toSendLength
  let request ← s.request
  let body ← s.responseBody
  let oldLenBody := request.contentLength - s.toSendLength
  let body := put body oldLenBody.toNat (fetch s.buf 0 toSend.toNat)
  return conn.setServer fun s => { s with
    responseBody := some body
    toSendLength := s.toSendLength - toSend
    offset := s.offset - toSend
    buf := moveToFront s.buf toSend.toNat (s.offset - toSend) }

/-- A complete response goes to its handler. The body handed over has the content length. -/
def dispatch (r : ServerResult) : Option ServerResult := do
  match r.conn.server.request with
  | none => return r
  | some request =>
    if request.status = needmore ∨ r.conn.server.toSendLength ≠ 0 then return r
    let body ← r.conn.server.responseBody
    let body := fetch body 0 request.contentLength.toNat
    match r.conn.state.handler with
    | none =>
      return { r with
        ret := -1, conn := r.conn.setServer fun s => { s with responseBody := none, request := none } }
    | some handler =>
      let (config, conn, sent) ← handler.run r.config r.conn body
      return { r with
        ret := sentLength sent
        config := config
        conn := conn.setServer fun s => { s with responseBody := none, request := none }
        sent := r.sent ++ sent
        dispatched := r.dispatched ++ [⟨handler, cstr r.conn.server.response, body⟩] }

/-- The header section at the front of the buffer is parsed, and taken out of the buffer. -/
def parseHeader (conn : ProxyConn) (recvlen : Nat) : Option ProxyConn := do
  let s := conn.server
  let request ← parseReponse s.buf recvlen
  if request.status < 0 then return conn.setServer fun s => { s with request := some request }
  -- the body and its terminator are counted in an `int`
  else if request.contentLength < 0 ∨ 2 ^ 31 ≤ request.contentLength + 1 ∨ maxReqSize ≤ request.position then none
  else
    let offset := s.offset - request.position
    return conn.setServer fun s => { s with
      request := some request
      toSendLength := request.contentLength
      responseBody := some []
      offset := offset
      response := put s.response 0 (fetch s.buf 0 request.position ++ [0])
      buf := moveToFront s.buf request.position offset }

/-- No header section is being waited for. -/
def Server.isReady (s : Server) : Bool :=
  match s.request with
  | none => true
  | some request => request.status ≠ needmore

/-- The loop of `handler_server`. Every round but the last takes a header section out of the
buffer, so the number of bytes is enough fuel. -/
def serverLoop (recvlen : Nat) : Nat → ServerResult → Option ServerResult
  | 0, _ => none
  | fuel + 1, r =>
    if r.conn.server.offset > 0 ∧ r.conn.server.isReady ∧ r.ret ≠ -1 then do
      let conn ← drainBody r.conn
      let r ← dispatch { r with conn := conn }
      if r.conn.server.offset ≤ 0 then return r
      let conn ← parseHeader r.conn recvlen
      if conn.server.isReady then serverLoop recvlen fuel { r with conn := conn }
      else return { r with conn := conn }
    else some r

def handlerServer (config : Config) (conn : ProxyConn) (data : List UInt8) : Option ServerResult := do
  let buf ← receive conn.server.buf conn.server.offset data
  let conn := conn.setServer fun s => { s with buf := buf, offset := s.offset + data.length }
  serverLoop data.length (data.length + 1) ⟨0, config, conn, [], []⟩

end VideoCDN.Proxy
