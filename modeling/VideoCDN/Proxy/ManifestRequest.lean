import VideoCDN.Proxy.Dispatch
import VideoCDN.Proxy.ProxyRun

/-!
# The request for the nolist manifest

The bytes of a manifest request are copied into a buffer that is used again for every manifest
request of the connection, without a terminator, and are changed there when the manifest arrives.
So what the proxy asks the server for also depends on the manifest requests before.
-/

namespace VideoCDN.Proxy.Manifest

open CString Buffer Http

/-! ## Runs of one connection -/

/-- A connection with the last manifest request, the number of requests the server has not answered,
and what was sent to the server for a nolist manifest, each with the manifest request of the time. -/
structure Session where
  conn : ProxyConn
  manifest : Option (List UInt8)
  waiting : Int
  asked : List (Option (List UInt8) × List UInt8)
  closed : Bool

def Session.start (conn : ProxyConn) : Session := ⟨conn, none, 0, [], false⟩

/-- Something is received on the connection. Other connections may have changed the configuration. -/
inductive Event
  | browser (config : Config) (data : List UInt8)
  | server (config : Config) (data : List UInt8)

/-- The bytes of the request that is parsed, when it is for a manifest. -/
def manifestRequest (conn : ProxyConn) (data : List UInt8) (request : Option Request) : Option (List UInt8) :=
  request.bind fun request =>
    if checkType request = .f4m then
      some ((put conn.browser.buf conn.browser.offset.toNat data).take request.position)
    else none

/-- A negative value closes the connection. -/
def step (s : Session) : Event → Option Session
  | .browser config data => do
    let r ← handlerBrowser config s.conn data
    return { s with
      conn := r.conn
      manifest := (manifestRequest s.conn data r.forwarded).or s.manifest
      waiting := s.waiting + r.forwarded.toList.length
      closed := decide (r.ret < 0) }
  | .server config data => do
    let r ← handlerServer config s.conn data
    return { s with
      conn := r.conn
      waiting := s.waiting + (sentTo .server r.sent).length - r.dispatched.length
      asked := s.asked ++ (sentTo .server r.sent).map fun sent => (s.manifest, sent)
      closed := decide (r.ret < 0) }

/-- The states of the runs in which every event satisfies `P` in the state it occurs in. -/
inductive Run (P : Session → Event → Prop) (conn : ProxyConn) : Session → Prop
  | start : Run P conn (Session.start conn)
  | step {s s' : Session} (h : Run P conn s) (hopen : s.closed = false) (e : Event) (he : P s e)
      (hstep : Manifest.step s e = some s') : Run P conn s'

/-- With `data` a manifest request is complete. -/
def IsManifestCall (conn : ProxyConn) (data : List UInt8) : Prop :=
  ∃ buf request, receive conn.browser.buf conn.browser.offset data = some buf ∧
    parse buf data.length = some request ∧ ¬request.status < 0 ∧ checkType request = .f4m

/-- `y` is `x` with the first `.f4m ` of its request line changed to `_nolist.f4m `. -/
def IsNolist (x y : List UInt8) : Prop :=
  ∃ pre post, x = pre ++ bytes ".f4m " ++ post ∧ y = pre ++ bytes "_nolist.f4m " ++ post ∧ 10 ∉ pre ∧
    ∀ j < pre.length, ¬bytes ".f4m " <+: x.drop j

/-- A manifest request that arrives on its own, can be read as a string, leaves room for the longer
name, and is longer than the changed manifest request before it. -/
structure Fits (s : Session) (data : List UInt8) : Prop where
  held : s.conn.browser.offset = 0
  alone : (scanHeader .start data 0).2 = data.length
  isString : IsString data
  room : data.length ≤ 8180
  longer : ∀ x, s.manifest = some x → x.length + 7 ≤ data.length

/-- Every manifest request has a URI that ends in `.f4m`, and fits. -/
def Meets (s : Session) : Event → Prop
  | .browser _ data => IsManifestCall s.conn data → HasManifestUri data ∧ Fits s data
  | .server _ _ => True

/-- The server is asked for the nolist manifest of the last manifest request, each time. -/
def Correct (s : Session) : Prop := ∀ p ∈ s.asked, ∃ x, p.1 = some x ∧ IsNolist x p.2

/-! ## The rewriting -/

lemma HasManifestUri.split {x : List UInt8} (h : HasManifestUri x) :
    ∃ pre post, x = pre ++ bytes ".f4m " ++ post ∧ 10 ∉ pre ∧ ∀ j < pre.length, ¬bytes ".f4m " <+: x.drop j := by
  obtain ⟨method, path, rest, rfl, hmethod, hpath⟩ := h
  have hinfix : bytes ".f4m " <:+: method ++ 32 :: (path ++ bytes ".f4m " ++ rest) :=
    ⟨method ++ 32 :: path, rest, by simp⟩
  obtain ⟨i, hi⟩ := Option.isSome_iff_exists.mp ((strstr_isSome_iff _ _).mpr hinfix)
  obtain ⟨hle, hhere, hfirst⟩ := (strstr_eq_some_iff _ _ _).mp hi
  obtain ⟨post, hpost⟩ := hhere
  -- the path is followed by an occurrence, so the first one is not behind it
  have hbound : i ≤ (method ++ 32 :: path).length := by
    by_contra hlt
    apply hfirst (method ++ 32 :: path).length (not_le.mp hlt)
    have hassoc : method ++ 32 :: (path ++ bytes ".f4m " ++ rest) =
        (method ++ 32 :: path) ++ (bytes ".f4m " ++ rest) := by simp
    rw [hassoc, List.drop_left]
    exact List.prefix_append _ _
  obtain ⟨x, hx⟩ : ∃ x, method ++ 32 :: (path ++ bytes ".f4m " ++ rest) = x := ⟨_, rfl⟩
  have hlen : (x.take i).length = i := by
    rw [← hx, List.length_take]
    exact Nat.min_eq_left hle
  have hline : x.take i = (method ++ 32 :: path).take i := by
    have hassoc : x = (method ++ 32 :: path) ++ (bytes ".f4m " ++ rest) := by simp [← hx]
    rw [hassoc, List.take_append_of_le_length hbound]
  rw [hx] at hpost hfirst ⊢
  refine ⟨x.take i, post, ?_, fun hmem => ?_, fun j hj => hfirst j (by omega)⟩
  · rw [List.append_assoc, hpost, List.take_append_drop]
  · rw [hline] at hmem
    have hmem := List.mem_of_mem_take hmem
    simp only [List.mem_append, List.mem_cons] at hmem
    rcases hmem with hmem | hmem | hmem
    · exact (hmethod 10 hmem).2 rfl
    · exact absurd hmem (by decide)
    · exact (hpath 10 hmem).2 rfl

/-- All zero. -/
def IsZero (s : List UInt8) : Prop := ∀ b ∈ s, b = 0

lemma IsZero.drop {s : List UInt8} (h : IsZero s) (n : Nat) : IsZero (s.drop n) :=
  fun b hb => h b (List.mem_of_mem_drop hb)

lemma IsZero.append {s t : List UInt8} (hs : IsZero s) (ht : IsZero t) : IsZero (s ++ t) := by
  intro b hb
  rcases List.mem_append.mp hb with hb | hb
  · exact hs b hb
  · exact ht b hb

lemma isZero_replicate (n : Nat) : IsZero (List.replicate n 0) := fun _ hb => List.eq_of_mem_replicate hb

lemma cstr_append_isZero {s zeros : List UInt8} (hs : IsString s) (hzeros : IsZero zeros) :
    cstr (s ++ zeros) = s := by
  cases zeros with
  | nil => rw [List.append_nil, cstr_eq_self _ hs]
  | cons b zeros =>
    obtain rfl := hzeros b List.mem_cons_self
    exact cstr_append_zero s zeros hs

lemma fetch_zeros {s zeros : List UInt8} (hzeros : IsZero zeros) {n : Nat} (h : (s ++ zeros).length ≤ n) :
    fetch (s ++ zeros) 0 n = s ++ List.replicate (n - s.length) 0 := by
  have hreplicate : zeros = List.replicate zeros.length 0 := List.eq_replicate_of_mem hzeros
  have hcount : n - s.length = zeros.length + (n - (s ++ zeros).length) := by
    rw [List.length_append] at h ⊢
    omega
  rw [fetch_eq_append h, List.append_assoc, hcount, ← List.replicate_append_replicate, ← hreplicate]

/-- The rewriting of a string with zeros behind it leaves zeros behind the new one. -/
lemma replaceF4mToNolist_eq {pre post zeros : List UInt8} (hx : IsString (pre ++ bytes ".f4m " ++ post))
    (hroom : (pre ++ bytes ".f4m " ++ post).length ≤ 8180)
    (hfirst : ∀ j < pre.length, ¬bytes ".f4m " <+: (pre ++ bytes ".f4m " ++ post).drop j) (hzeros : IsZero zeros) :
    ∃ zeros', replaceF4mToNolist (pre ++ bytes ".f4m " ++ post ++ zeros) =
      some (1, pre ++ bytes "_nolist.f4m " ++ post ++ zeros') ∧ IsZero zeros' := by
  have hcstr := cstr_append_isZero hx hzeros
  have hfound : bytes ".f4m " <:+: cstr (pre ++ bytes ".f4m " ++ post ++ zeros) := by
    rw [hcstr]
    exact List.infix_append pre _ post
  obtain ⟨⟨ret, saved⟩, hreplace⟩ := Option.isSome_iff_exists.mp ((replaceF4mToNolist_isSome_iff hfound).mpr (by
    rw [hcstr, maxReqSize]
    omega))
  obtain ⟨n, hsize, hsaved, hmax⟩ : ∃ n, (pre ++ bytes ".f4m " ++ post ++ zeros).length ≤ n ∧ saved.length ≤ n ∧
      maxReqSize ≤ n :=
    ⟨_, le_max_left _ _, (le_max_left _ _).trans (le_max_right _ _), (le_max_right _ _).trans (le_max_right _ _)⟩
  obtain ⟨k, hk⟩ : ∃ k, n - (pre ++ bytes ".f4m " ++ post).length = k + 1 :=
    Nat.exists_eq_add_one.mpr (by rw [maxReqSize] at hmax; omega)
  have hafter : 11 ≤ (List.replicate k (0 : UInt8)).length := by
    rw [List.length_replicate]
    rw [maxReqSize] at hmax
    omega
  have hin := replaceF4mToNolist_in_place hsize hmax hreplace
  rw [fetch_zeros hzeros hsize, hk, List.replicate_succ, replaceF4mToNolistIn_found hx hfirst hafter] at hin
  obtain ⟨rfl, hnew⟩ := Prod.mk.inj (Option.some.inj hin)
  -- the new string is in front, and what follows it is from the old zeros
  obtain ⟨zeros', rfl⟩ : pre ++ bytes "_nolist.f4m " ++ post <+: saved := by
    rw [← cstr_of_fetch (isString_nolist hx) hnew.symm]
    exact cstr_prefix_self saved
  refine ⟨zeros', hreplace, fun b hb => ?_⟩
  rw [fetch_eq_append hsaved, List.append_assoc _ zeros'] at hnew
  have hmem : b ∈ 0 :: ((List.replicate k 0).take 4 ++ (List.replicate k 0).drop 11) := by
    rw [List.append_cancel_left hnew]
    exact List.mem_append_left _ hb
  rcases List.mem_cons.mp hmem with hb | hmem
  · exact hb
  · rcases List.mem_append.mp hmem with hmem | hmem
    · exact isZero_replicate k b (List.mem_of_mem_take hmem)
    · exact isZero_replicate k b (List.mem_of_mem_drop hmem)

/-! ## What the handlers do with the saved request -/

/-- The buffer is zero behind the longest string it may hold, and holds the manifest request whose
manifest is awaited. -/
structure Saved (manifest : Option (List UInt8)) (conn : ProxyConn) : Prop where
  zeros : ∀ n, (∀ x, manifest = some x → x.length + 7 ≤ n) → IsZero (conn.server.f4mRequest.drop n)
  saved : conn.state = .f4m → ∃ x zeros, manifest = some x ∧ conn.server.f4mRequest = x ++ zeros ∧ IsZero zeros ∧
    IsString x ∧ x.length ≤ 8180 ∧ HasManifestUri x

lemma Saved.congr {manifest : Option (List UInt8)} {conn conn' : ProxyConn} (h : Saved manifest conn)
    (hbuf : conn'.server.f4mRequest = conn.server.f4mRequest) (hstate : conn'.state = .f4m → conn.state = .f4m) :
    Saved manifest conn' := by
  refine ⟨fun n hn => ?_, fun hf4m => ?_⟩
  · rw [hbuf]
    exact h.zeros n hn
  · rw [hbuf]
    exact h.saved (hstate hf4m)

lemma sentTo_server_forwardResponse (conn : ProxyConn) (body : List UInt8) :
    sentTo .server (forwardResponse conn body) = [] := by
  unfold forwardResponse sendData
  split <;> split <;> rfl

lemma run_manifest {manifest : Option (List UInt8)} {config config' : Config} {conn conn' : ProxyConn}
    {body : List UInt8} {sent : List Sent} (hsaved : Saved manifest conn) (hstate : conn.state = .f4m)
    (h : Handler.f4m.run config conn body = some (config', conn', sent)) :
    Saved manifest conn' ∧ ∃ x y, manifest = some x ∧ IsNolist x y ∧ sentTo .server sent = [y] := by
  obtain ⟨x, zeros, hx, hbuf, hzeros, hstring, hroom, huri⟩ := hsaved.saved hstate
  obtain ⟨pre, post, rfl, hline, hfirst⟩ := huri.split
  obtain ⟨zeros', hreplace, hzeros'⟩ := replaceF4mToNolist_eq hstring hroom hfirst hzeros
  obtain ⟨list, ret, saved, -, hreplace', -, rfl, rfl⟩ := handleRespF4m_eq_some h
  rw [hbuf, hreplace] at hreplace'
  obtain ⟨-, rfl⟩ := Prod.mk.inj (Option.some.inj hreplace')
  have hnew := isString_nolist hstring
  constructor
  · refine ⟨fun n hn => ?_, fun hf4m => by cases hf4m⟩
    have hlen : (pre ++ bytes "_nolist.f4m " ++ post).length ≤ n := by
      have hshort := hn _ hx
      have hold : (bytes ".f4m ").length = 5 := rfl
      have hnew : (bytes "_nolist.f4m ").length = 12 := rfl
      simp only [List.length_append] at hshort ⊢
      omega
    change IsZero ((pre ++ bytes "_nolist.f4m " ++ post ++ zeros').drop n)
    rw [List.drop_append, List.drop_eq_nil_of_le hlen, List.nil_append]
    exact hzeros'.drop _
  · refine ⟨_, _, hx, ⟨pre, post, rfl, rfl, hline, hfirst⟩, ?_⟩
    rw [cstr_append_isZero hnew hzeros', sendData, if_neg (by simp [bytes])]
    rfl

/-- One response keeps the invariant, and what is sent to the server while it is handled is right. -/
lemma respond_saved {manifest : Option (List UInt8)} {config : Config} {conn : ProxyConn}
    {header body : List UInt8} {run : ServerRun} (hsaved : Saved manifest conn)
    (h : respond config conn header body = some run) :
    Saved manifest run.conn ∧ ∀ y ∈ sentTo .server run.sent, ∃ x, manifest = some x ∧ IsNolist x y := by
  obtain ⟨handler, hhandler, -, conn', hrun, hconn⟩ := respond_dispatched h
  have hwith : Saved manifest (conn.withResponse header) := hsaved.congr rfl id
  rw [hconn]
  by_cases hkind : handler = .f4m
  · subst hkind
    have hstate : conn.state = .f4m := by
      cases hs : conn.state <;> rw [hs] at hhandler <;> cases hhandler
    obtain ⟨hsaved', x, y, hx, hy, hsent⟩ := run_manifest hwith hstate hrun
    refine ⟨hsaved'.congr rfl id, fun z hz => ?_⟩
    rw [hsent, List.mem_singleton] at hz
    exact ⟨x, hx, hz ▸ hy⟩
  · obtain ⟨hkept, hsent⟩ := Handler.run_forward hkind hrun
    refine ⟨hwith.congr hkept.f4mRequest fun hf4m => hkept.state ▸ hf4m, fun y hy => ?_⟩
    rw [hsent, sentTo_server_forwardResponse] at hy
    cases hy

lemma sentTo_append (peer : Peer) (sent sent' : List Sent) :
    sentTo peer (sent ++ sent') = sentTo peer sent ++ sentTo peer sent' := by
  simp [sentTo]

lemma respondAll_saved {manifest : Option (List UInt8)} {config : Config} {conn : ProxyConn}
    {responses : List (List UInt8 × List UInt8)} {run : ServerRun} (hsaved : Saved manifest conn)
    (h : respondAll config conn responses = some run) :
    Saved manifest run.conn ∧ ∀ y ∈ sentTo .server run.sent, ∃ x, manifest = some x ∧ IsNolist x y := by
  induction responses generalizing config conn run with
  | nil =>
    obtain rfl := Option.some.inj h
    exact ⟨hsaved.congr rfl id, fun y hy => by cases hy⟩
  | cons response responses ih =>
    obtain ⟨header, body⟩ := response
    obtain ⟨first, rest, hfirst, hrest, rfl⟩ := respondAll_cons_eq_some h
    obtain ⟨hsaved₁, hsent₁⟩ := respond_saved hsaved hfirst
    obtain ⟨hsaved₂, hsent₂⟩ := ih hsaved₁ hrest
    refine ⟨hsaved₂, fun y hy => ?_⟩
    rw [sentTo_append] at hy
    rcases List.mem_append.mp hy with hy | hy
    · exact hsent₁ y hy
    · exact hsent₂ y hy

/-- Whatever is received from the server, the requests sent to it are right. -/
lemma handlerServer_saved {manifest : Option (List UInt8)} {config : Config} {conn : ProxyConn}
    {data : List UInt8} {r : ServerResult} (hsaved : Saved manifest conn)
    (h : handlerServer config conn data = some r) :
    Saved manifest r.conn ∧ ∀ y ∈ sentTo .server r.sent, ∃ x, manifest = some x ∧ IsNolist x y := by
  obtain ⟨run, hrun, -, hcore, hsent, -⟩ := handlerServer_handles h
  obtain ⟨hsaved', hall⟩ := respondAll_saved hsaved hrun
  rw [← hcore] at hsaved'
  refine ⟨hsaved'.congr rfl id, fun y hy => ?_⟩
  rw [hsent] at hy
  exact hall y hy

/-! ## What is received from the browser -/

lemma saveF4m_saved {s : Session} {data : List UInt8} (hsaved : Saved s.manifest s.conn)
    (huri : HasManifestUri data) (hfits : Fits s data) (conn : ProxyConn)
    (hbuf : conn.server.f4mRequest = data ++ s.conn.server.f4mRequest.drop data.length) :
    Saved (some data) conn := by
  have hzeros := hsaved.zeros data.length hfits.longer
  constructor
  · intro n hn
    have hlen := hn data rfl
    rw [hbuf, List.drop_append, List.drop_eq_nil_of_le (by omega), List.nil_append]
    exact hzeros.drop _
  · exact fun _ => ⟨data, _, rfl, hbuf, hzeros, hfits.isString, hfits.room, huri⟩

/-- The call for a manifest request that fits copies the bytes of the request. -/
lemma manifestCall {s : Session} {config : Config} {data buf : List UInt8} {request : Request}
    (hsaved : Saved s.manifest s.conn) (huri : HasManifestUri data) (hfits : Fits s data)
    (hrecv : receive s.conn.browser.buf s.conn.browser.offset data = some buf)
    (hparse : parse buf data.length = some request) (htype : checkType request = .f4m) {conn' : ProxyConn}
    {config' : Config} {sent : List Sent}
    (hforward : forwardRequest config
      (s.conn.setBrowser (moveToFront buf request.position (s.conn.browser.offset + data.length - request.position))
        (s.conn.browser.offset + data.length - request.position) (some request) .f4m)
      request s.conn.browser.offset data.length = some (config', conn', sent)) :
    manifestRequest s.conn data (some request) = some data ∧ Saved (some data) { conn' with
      state := .f4m, browser := { conn'.browser with request := none } } := by
  have hbuf : buf = data ++ s.conn.browser.buf.drop data.length := by
    unfold receive at hrecv
    split at hrecv
    · cases hrecv
    · obtain rfl := Option.some.inj hrecv
      rw [hfits.held]
      exact put_zero _ _
  have hposition : request.position = data.length := by
    have htake : buf.take data.length = data := by rw [hbuf, List.take_left]
    rw [parse_position hparse, htake, hfits.alone]
  have hrest : s.conn.browser.offset + data.length - request.position = 0 := by
    rw [hfits.held, hposition]
    omega
  have hmove : moveToFront buf request.position 0 = buf := rfl
  rw [hrest, hmove, hfits.held] at hforward
  obtain ⟨-, text, -, -, rfl, -⟩ := ((forwardRequest_cases hforward).resolve_left fun h => by
    rw [htype] at h
    cases h.1).resolve_right fun h => h.2.1 htype
  constructor
  · rw [manifestRequest, Option.bind_some, if_pos htype, hfits.held, Int.toNat_zero, put_zero, hposition,
      List.take_left]
  · apply saveF4m_saved hsaved huri hfits
    change put s.conn.server.f4mRequest 0 (fetch buf (0 : Int).toNat data.length) = _
    rw [Int.toNat_zero, fetch_eq_take_drop _ (by rw [hbuf]; simp), List.drop_zero, put_zero, hbuf, List.take_left]

/-- Any other request leaves the saved one alone. -/
lemma forwardRequest_other {config config' : Config} {conn conn' : ProxyConn} {request : Request} {oldOffset : Int}
    {recvlen : Nat} {sent : List Sent} (htype : checkType request ≠ .f4m)
    (h : forwardRequest config conn request oldOffset recvlen = some (config', conn', sent)) :
    conn'.server.f4mRequest = conn.server.f4mRequest := by
  rcases forwardRequest_cases h with ⟨-, bitrate, text, chunkName, newBuf, -, -, rfl, -⟩ | ⟨hf4m, -⟩ |
    ⟨-, -, text, -, -, rfl, -⟩
  · rfl
  · exact absurd hf4m htype
  · rfl

lemma requestState_ne_f4m {type : ReqUri} (h : type ≠ .f4m) : requestState type ≠ .f4m := by
  cases type
  · decide
  · exact absurd rfl h
  · decide
  · decide

lemma handlerBrowser_saved {s : Session} {config : Config} {data : List UInt8} {r : BrowserResult}
    (hsaved : Saved s.manifest s.conn) (hmeets : Meets s (.browser config data))
    (h : handlerBrowser config s.conn data = some r) :
    Saved ((manifestRequest s.conn data r.forwarded).or s.manifest) r.conn := by
  obtain ⟨buf, request, hrecv, hparse, ⟨-, rfl⟩ | ⟨-, -, rfl⟩ | ⟨hstatus, -, ⟨config', conn', sent⟩, hforward, rfl⟩⟩ :=
    handlerBrowser_cases h
  · exact hsaved.congr rfl id
  · exact hsaved.congr rfl id
  · simp only [forwardedResult]
    by_cases htype : checkType request = .f4m
    · obtain ⟨huri, hfits⟩ := hmeets ⟨buf, request, hrecv, hparse, hstatus, htype⟩
      rw [ProxyConn.takeRequest, htype] at hforward
      obtain ⟨hrequest, hsaved'⟩ := manifestCall hsaved huri hfits hrecv hparse htype hforward
      rw [hrequest, htype]
      exact hsaved'
    · have hnone : manifestRequest s.conn data (some request) = none := by
        rw [manifestRequest, Option.bind_some, if_neg htype]
      rw [hnone, Option.none_or]
      have hbuf := forwardRequest_other htype hforward
      apply hsaved.congr
      · exact hbuf
      · exact fun hstate => absurd hstate (requestState_ne_f4m htype)

/-! ## Runs -/

/-- What holds in every state of a run. -/
structure Inv (s : Session) : Prop where
  saved : Saved s.manifest s.conn
  correct : Correct s

lemma inv_start (config : Config) (ip : List UInt8) (serverFd : Option Nat) :
    Inv (Session.start (proxyConnCreate config ip serverFd)) := by
  refine ⟨⟨fun n _ => ?_, fun hstate => by cases hstate⟩, fun p hp => by cases hp⟩
  change IsZero (([] : List UInt8).drop n)
  rw [List.drop_nil]
  exact fun b hb => by cases hb

lemma inv_step {s s' : Session} {e : Event} (hs : Inv s) (hmeets : Meets s e) (h : step s e = some s') : Inv s' := by
  cases e with
  | browser config data =>
    obtain ⟨r, hcall, h⟩ := Option.bind_eq_some_iff.mp h
    obtain rfl := Option.some.inj h
    exact ⟨handlerBrowser_saved hs.saved hmeets hcall, hs.correct⟩
  | server config data =>
    obtain ⟨r, hcall, h⟩ := Option.bind_eq_some_iff.mp h
    obtain rfl := Option.some.inj h
    obtain ⟨hsaved, hsent⟩ := handlerServer_saved hs.saved hcall
    refine ⟨hsaved, fun p hp => ?_⟩
    rcases List.mem_append.mp hp with hp | hp
    · exact hs.correct p hp
    · obtain ⟨y, hy, rfl⟩ := List.mem_map.mp hp
      exact hsent y hy

/-- In a run of a new connection whose manifest requests all have a URI that ends in `.f4m` and fit,
the server is asked for the nolist manifest of the last manifest request each time, in whatever
order requests and responses arrive. -/
theorem nolist_of_last_manifest (config : Config) (ip : List UInt8) (serverFd : Option Nat) (s : Session)
    (hrun : Run Meets (proxyConnCreate config ip serverFd) s) : Correct s := by
  have hinv : Inv s := by
    induction hrun with
    | start => exact inv_start config ip serverFd
    | step _ _ e he hstep ih => exact inv_step ih he hstep
  exact hinv.correct

section Example

def movieRequest : List UInt8 := bytes "GET /movie.f4m HTTP/1.1\r\nHost: b\r\n\r\n"
def shortRequest : List UInt8 := bytes "GET /v.f4m HTTP/1.1\r\nHost: b\r\n\r\n"
def answer : List UInt8 := bytes "HTTP/1.1 200 OK\r\nContent-Length: 1\r\n\r\nx"

/-- An accepted connection. -/
def exampleConn : ProxyConn := proxyConnCreate newConfig (bytes "1.0.0.1") (some 5)

lemma hasManifestUri_movie : HasManifestUri movieRequest :=
  ⟨bytes "GET", bytes "/movie", bytes "HTTP/1.1\r\nHost: b\r\n\r\n", by decide, by decide, by decide⟩

lemma hasManifestUri_short : HasManifestUri shortRequest :=
  ⟨bytes "GET", bytes "/v", bytes "HTTP/1.1\r\nHost: b\r\n\r\n", by decide, by decide, by decide⟩

/-- A longer manifest request. -/
def longRequest : List UInt8 := bytes "GET /movie-part-two.f4m HTTP/1.1\r\nHost: b\r\n\r\n"

lemma hasManifestUri_long : HasManifestUri longRequest :=
  ⟨bytes "GET", bytes "/movie-part-two", bytes "HTTP/1.1\r\nHost: b\r\n\r\n", by decide, by decide, by decide⟩

/-- A manifest, and a second one with a longer name. -/
theorem nolist_of_last_manifest_movie :
    ∃ s, Run Meets exampleConn s ∧ s.asked.map Prod.fst = [some movieRequest, some longRequest] ∧ Correct s := by
  have h : ((step (Session.start exampleConn) (.browser newConfig movieRequest)).bind fun s₁ =>
      (step s₁ (.server newConfig answer)).bind fun s₂ => (step s₂ (.server newConfig answer)).bind fun s₃ =>
        (step s₃ (.browser newConfig longRequest)).bind fun s₄ => (step s₄ (.server newConfig answer)).map fun s₅ =>
          ([s₁.closed, s₂.closed, s₃.closed, s₄.closed], s₃.conn.browser.offset,
            s₃.manifest :: s₅.asked.map Prod.fst)) =
      some ([false, false, false, false], 0, [some movieRequest, some movieRequest, some longRequest]) := by
    decide +kernel
  obtain ⟨s₁, h₁, h⟩ := Option.bind_eq_some_iff.mp h
  obtain ⟨s₂, h₂, h⟩ := Option.bind_eq_some_iff.mp h
  obtain ⟨s₃, h₃, h⟩ := Option.bind_eq_some_iff.mp h
  obtain ⟨s₄, h₄, h⟩ := Option.bind_eq_some_iff.mp h
  obtain ⟨s₅, h₅, h⟩ := Option.map_eq_some_iff.mp h
  simp only [Prod.mk.injEq, List.cons.injEq] at h
  obtain ⟨⟨hopen₁, hopen₂, hopen₃, hopen₄, -⟩, hoffset, hmanifest, hasked⟩ := h
  have hfirst : Meets (Session.start exampleConn) (.browser newConfig movieRequest) := by
    intro _
    refine ⟨hasManifestUri_movie, rfl, by decide, by decide, by decide, fun x hx => ?_⟩
    cases hx
  have hfourth : Meets s₃ (.browser newConfig longRequest) := by
    intro _
    refine ⟨hasManifestUri_long, hoffset, by decide, by decide, by decide, fun x hx => ?_⟩
    obtain rfl := Option.some.inj (hmanifest.symm.trans hx)
    decide
  have hrun₃ := Run.step (Run.step (Run.step Run.start rfl _ hfirst h₁) hopen₁ (.server newConfig answer) trivial h₂)
    hopen₂ (.server newConfig answer) trivial h₃
  have hrun := Run.step (Run.step hrun₃ hopen₃ _ hfourth h₄) hopen₄ (.server newConfig answer) trivial h₅
  exact ⟨s₅, hrun, hasked, nolist_of_last_manifest newConfig (bytes "1.0.0.1") (some 5) s₅ hrun⟩

/-- Something arrives from the browser only while no request is unanswered, and from the server only
while one is. A manifest request arrives in one `recv`, with a URI that ends in `.f4m`. -/
def InLockStep (s : Session) : Event → Prop
  | .browser _ data => s.waiting = 0 ∧
      (IsManifestCall s.conn data → s.conn.browser.offset = 0 ∧ HasManifestUri data)
  | .server _ _ => 0 < s.waiting

lemma IsNolist.length {x y : List UInt8} (h : IsNolist x y) : y.length = x.length + 7 := by
  obtain ⟨pre, post, rfl, rfl, -, -⟩ := h
  have hold : (bytes ".f4m ").length = 5 := rfl
  have hnew : (bytes "_nolist.f4m ").length = 12 := rfl
  simp only [List.length_append]
  omega

/-- A manifest request that is shorter than the one before it: the server is asked with the last
bytes of the longer one behind. -/
theorem shorter_manifest_keeps_old_bytes :
    ¬∀ (config : Config) (ip : List UInt8) (serverFd : Option Nat) (s : Session),
      Run InLockStep (proxyConnCreate config ip serverFd) s → Correct s := by
  intro h
  have hevents : ((step (Session.start exampleConn) (.browser newConfig movieRequest)).bind fun s₁ =>
      (step s₁ (.server newConfig answer)).bind fun s₂ => (step s₂ (.server newConfig answer)).bind fun s₃ =>
        (step s₃ (.browser newConfig shortRequest)).bind fun s₄ => (step s₄ (.server newConfig answer)).map fun s₅ =>
          ([s₁.waiting, s₂.waiting, s₃.waiting, s₃.conn.browser.offset, s₄.waiting],
            [s₁.closed, s₂.closed, s₃.closed, s₄.closed], s₅.asked.map fun p => (p.1.map List.length, p.2.length))) =
      some ([1, 1, 0, 0, 1], [false, false, false, false], [(some 36, 43), (some 32, 50)]) := by
    decide +kernel
  obtain ⟨s₁, h₁, hevents⟩ := Option.bind_eq_some_iff.mp hevents
  obtain ⟨s₂, h₂, hevents⟩ := Option.bind_eq_some_iff.mp hevents
  obtain ⟨s₃, h₃, hevents⟩ := Option.bind_eq_some_iff.mp hevents
  obtain ⟨s₄, h₄, hevents⟩ := Option.bind_eq_some_iff.mp hevents
  obtain ⟨s₅, h₅, hevents⟩ := Option.map_eq_some_iff.mp hevents
  simp only [Prod.mk.injEq, List.cons.injEq] at hevents
  obtain ⟨⟨hw₁, hw₂, hw₃, hoffset, hw₄, -⟩, ⟨hopen₁, hopen₂, hopen₃, hopen₄, -⟩, hasked⟩ := hevents
  have hfirst : InLockStep (Session.start exampleConn) (.browser newConfig movieRequest) :=
    ⟨rfl, fun _ => ⟨rfl, hasManifestUri_movie⟩⟩
  have hfourth : InLockStep s₃ (.browser newConfig shortRequest) :=
    ⟨hw₃, fun _ => ⟨hoffset, hasManifestUri_short⟩⟩
  have hserver : ∀ s : Session, s.waiting = 1 → InLockStep s (.server newConfig answer) := by
    intro s hs
    change 0 < s.waiting
    omega
  have hrun₂ := Run.step (Run.step Run.start rfl _ hfirst h₁) hopen₁ _ (hserver s₁ hw₁) h₂
  have hrun₄ := Run.step (Run.step hrun₂ hopen₂ _ (hserver s₂ hw₂) h₃) hopen₃ _ hfourth h₄
  have hcorrect := h newConfig (bytes "1.0.0.1") (some 5) s₅ (Run.step hrun₄ hopen₄ _ (hserver s₄ hw₄) h₅)
  -- the second request sent is too long
  have hmem : (some 32, 50) ∈ s₅.asked.map fun p => (p.1.map List.length, p.2.length) := by
    rw [hasked]
    decide
  obtain ⟨p, hp, hlengths⟩ := List.mem_map.mp hmem
  obtain ⟨x, hx, hnolist⟩ := hcorrect p hp
  rw [hx, Option.map_some, Prod.mk.injEq, Option.some.injEq, hnolist.length] at hlengths
  omega

end Example

end VideoCDN.Proxy.Manifest
