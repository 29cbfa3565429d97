import VideoCDN.Lib.Refinement
import VideoCDN.Proxy.CallFrames
import VideoCDN.Proxy.ChosenBitrates
import VideoCDN.Proxy.ManifestRequest

/-!
# The proxy as a relay

What a connection of the proxy is for: the server is asked for what the browser wants in another form, a
manifest without its bitrates and a chunk in the chosen bitrate, and its answers go to the browser.
That the manifest with the bitrates is requested and read in between is not visible.
-/

namespace VideoCDN.Proxy

open CString Buffer Http Refinement

/-- A request of the browser, with the list and the estimate that a bitrate is chosen by. -/
structure Ask where
  data : List UInt8
  request : Request
  list : List Int
  tpt : Nat

/-- The text of the request is for a chunk in the chosen bitrate. -/
def AsksChunk (q : Ask) (text : List UInt8) : Prop :=
  ∃ P digits s f bitrate, q.request.httpUri = chunkUri P digits s f ∧ selectBitrate q.list q.tpt = some bitrate ∧
    text = chunkText q.request P (decimalInt bitrate) s f

/-- What the server is asked for. -/
def Adapts (q : Ask) (text : List UInt8) : Prop :=
  match checkType q.request with
  | .f4m => Manifest.IsNolist q.data text
  | .chunk => AsksChunk q text
  | _ => constructHttpReq q.request = some text

/-- What the browser is shown when the server answers the request. -/
def Shows (origin : List UInt8 → Response → Prop) (text : List UInt8) (shown : List (List UInt8)) : Prop :=
  ∃ x, origin text x ∧ shown = [x.header, x.body]

/-! ## Runs of a connection -/

/-- A connection with the last manifest request and the texts of the requests that the server has not answered. -/
structure Relaying where
  world : World
  saved : Option (List UInt8)
  asked : List (List UInt8)

namespace Relaying

def start (config : Config) (conn : ProxyConn) : Relaying := ⟨Proxy.start config conn, none, []⟩

/-- Other connections may have changed the configuration. -/
def withConfig (s : Relaying) (config : Config) : World := { s.world with config := config }

/-- A whole request arrives and is forwarded. -/
def afterRequest (s : Relaying) (config : Config) (data : List UInt8) (request : Request) (r : BrowserResult) :
    Relaying :=
  ⟨(s.withConfig config).afterRequest request r, if checkType request = .f4m then some data else s.saved,
    s.asked ++ sentTo .server r.sent⟩

/-- The server answers the first outstanding request, where `queue` and `asked` belong to the others. -/
def afterResponse (s : Relaying) (config : Config) (o : Outstanding) (queue : List Outstanding)
    (asked : List (List UInt8)) (x : Response) (run : ServerRun) : Relaying :=
  ⟨(s.withConfig config).afterResponse o queue x run, s.saved, asked ++ sentTo .server run.sent⟩

/-- What the browser sees of a response. -/
def shown (run : ServerRun) : Option (Label Ask (List (List UInt8))) :=
  if sentTo .browser run.sent = [] then none else some (.answer (sentTo .browser run.sent))

/-- The steps of a connection to a server that answers a request by one of the responses `origin` allows. -/
inductive Step (origin : List UInt8 → Response → Prop) :
    Relaying → Config → Event → Option (Label Ask (List (List UInt8))) → Relaying → Prop
  | request (s : Relaying) (config : Config) (data : List UInt8) (request : Request) (r : BrowserResult)
      (hdata : IsHeaderSection data) (hcall : handlerBrowser config s.world.conn data = some r) (hret : ¬r.ret < 0)
      (hforwarded : r.forwarded = some request) :
      Step origin s config (.request data request)
        (some (.request ⟨data, request, chooseList config s.world.conn, s.world.conn.tCurr⟩))
        (s.afterRequest config data request r)
  | response (s : Relaying) (config : Config) (x : Response) (chunks : List (List UInt8)) (run : ServerRun)
      (o : Outstanding) (queue : List Outstanding) (text : List UInt8) (asked : List (List UInt8))
      (hqueue : s.world.queue = o :: queue) (hasked : s.asked = text :: asked) (horigin : origin text x)
      (hchunks : AreResults chunks) (hsplit : chunks.flatten = x.text)
      (hrun : serverRun config s.world.conn chunks = some run) :
      Step origin s config (.response x chunks) (shown run) (s.afterResponse config o queue asked x run)

/-- The connection and its last manifest request. -/
def session (s : Relaying) : Manifest.Session := ⟨s.world.conn, s.saved, 0, [], false⟩

end Relaying

/-- The digits that are changed are those of the URI, and as many as the bitrate has. -/
structure Rewritable (request : Request) (bitrate : Int) (P digits s f : List UInt8) : Prop where
  uri : request.httpUri = chunkUri P digits s f
  method : ¬bytes "Seg" <:+: request.httpMethod
  directory : ¬bytes "Seg" <:+: P
  isDigits : ∀ c ∈ digits, isdigit c = true
  width : (decimalInt bitrate).length = digits.length

/-- Requests and responses meet the conditions for their order. A manifest request has a URI that ends in
`.f4m`, and fits, and the bitrate chosen for a chunk can be written into its request. -/
def Relaying.Meets (s : Relaying) (config : Config) (e : Event) : Prop :=
  Proxy.Meets (s.withConfig config) e ∧ match e with
  | .request data request =>
    (checkType request = .f4m → Manifest.HasManifestUri data ∧ Manifest.Fits s.session data) ∧
      (checkType request = .chunk → ∃ bitrate P digits t f,
        selectBitrate (chooseList config s.world.conn) s.world.conn.tCurr = some bitrate ∧
          Rewritable request bitrate P digits t f)
  | .response _ _ => True

/-! ## The request sent -/

/-- A chunk is asked for in the chosen bitrate. -/
lemma forwardChunk_sent {config config' : Config} {conn conn' : ProxyConn} {request : Request} {sent : List Sent}
    (hclean : request.IsClean) {bitrate : Int}
    (hbitrate : selectBitrate (chooseList config conn) conn.tCurr = some bitrate)
    {P digits s f : List UInt8} (h : Rewritable request bitrate P digits s f)
    (hforward : forwardChunk config conn request = some (config', conn', sent)) :
    sent = [⟨.server, chunkText request P (decimalInt bitrate) s f⟩] := by
  obtain ⟨bitrate', text, chunkName, ret, newBuf, hbitrate', hconstruct, -, hreplace, -, -, rfl⟩ :=
    forwardChunk_eq_some hforward
  obtain rfl := Option.some.inj (hbitrate.symm.trans hbitrate')
  obtain ⟨rfl, hfits⟩ := (constructHttpReq_chunk_iff hclean h.uri text).mp hconstruct
  have hlength : (chunkText request P digits s f).length = (chunkText request P (decimalInt bitrate) s f).length := by
    have hwidth := length_chunkText request P digits (decimalInt bitrate) s f
    have hsame := h.width
    omega
  rcases replaceUriBitrate_chunkText hclean h.uri h.directory h.isDigits bitrate with ⟨-, tail, hfound⟩ | ⟨hno, -⟩
  · obtain ⟨-, rfl⟩ := Prod.mk.inj (Option.some.inj (hreplace.symm.trans hfound))
    rw [List.take_of_length_le (by omega), hlength, fetch_eq_take_drop _ (by simp), List.drop_zero, List.take_left,
      sendData, if_neg (chunkText_ne_nil _ _ _ _ _)]
  · exact absurd hno h.method

lemma handlerBrowser_sent {config : Config} {conn : ProxyConn} {data : List UInt8} {r : BrowserResult}
    {request : Request} (h : handlerBrowser config conn data = some r) (hforwarded : r.forwarded = some request)
    (htype : checkType request = .chunk) {bitrate : Int}
    (hbitrate : selectBitrate (chooseList config conn) conn.tCurr = some bitrate) {P digits s f : List UInt8}
    (hrewritable : Rewritable request bitrate P digits s f) :
    r.sent = [⟨.server, chunkText request P (decimalInt bitrate) s f⟩] := by
  obtain ⟨buf, request', -, hparse, ⟨-, rfl⟩ | ⟨-, -, rfl⟩ | ⟨-, -, ⟨config', conn', sent⟩, hforward, rfl⟩⟩ :=
    handlerBrowser_cases h
  · cases hforwarded
  · cases hforwarded
  · obtain rfl := Option.some.inj hforwarded
    rw [forwardRequest, htype] at hforward
    exact forwardChunk_sent (parse_isClean hparse) (by exact hbitrate) hrewritable hforward

/-- One text is sent to the server, that of a chunk in the chosen bitrate and of other requests as they are. -/
lemma handlerBrowser_asks {config : Config} {conn : ProxyConn} {data : List UInt8} {r : BrowserResult}
    {request : Request} (h : handlerBrowser config conn data = some r) (hforwarded : r.forwarded = some request)
    (hchunk : checkType request = .chunk → ∃ bitrate P digits s f,
      selectBitrate (chooseList config conn) conn.tCurr = some bitrate ∧ Rewritable request bitrate P digits s f) :
    ∃ text, sentTo .server r.sent = [text] ∧
      (checkType request ≠ .f4m → Adapts ⟨data, request, chooseList config conn, conn.tCurr⟩ text) := by
  by_cases htype : checkType request = .chunk
  · obtain ⟨bitrate, P, digits, s, f, hbitrate, hrewritable⟩ := hchunk htype
    refine ⟨_, congrArg (sentTo .server) (handlerBrowser_sent h hforwarded htype hbitrate hrewritable), fun _ => ?_⟩
    rw [Adapts, htype]
    exact ⟨P, digits, s, f, bitrate, hrewritable.uri, hbitrate, rfl⟩
  · obtain ⟨buf, request', -, -, ⟨-, rfl⟩ | ⟨-, -, rfl⟩ | ⟨-, -, ⟨config', conn', sent⟩, hforward, rfl⟩⟩ :=
      handlerBrowser_cases h
    · cases hforwarded
    · cases hforwarded
    · obtain rfl := Option.some.inj hforwarded
      have hplain : ∀ text, constructHttpReq request' = some text → sent = sendData .server text →
          sentTo .server sent = [text] := by
        intro text htext hsent
        rw [hsent, sendData, if_neg (constructHttpReq_ne_nil htext)]
        rfl
      rcases forwardRequest_cases hforward with ⟨hchunk', -⟩ | ⟨hf4m, text, htext, -, -, hsent⟩ |
        ⟨-, hf4m, text, htext, -, -, hsent⟩
      · exact absurd hchunk' htype
      · exact ⟨text, hplain text htext hsent, fun hnot => absurd hf4m hnot⟩
      · refine ⟨text, hplain text htext hsent, fun _ => ?_⟩
        cases hkind : checkType request' with
        | html => rw [Adapts, hkind]; exact htext
        | uk => rw [Adapts, hkind]; exact htext
        | f4m => exact absurd hkind hf4m
        | chunk => exact absurd hkind htype

/-! ## The saved request -/

lemma Manifest.IsNolist.unique {x y y' : List UInt8} (h : Manifest.IsNolist x y) (h' : Manifest.IsNolist x y') :
    y = y' := by
  obtain ⟨pre, post, rfl, rfl, -, hfirst⟩ := h
  obtain ⟨pre', post', heq, rfl, -, hfirst'⟩ := h'
  have hhere : bytes ".f4m " <+: (pre ++ bytes ".f4m " ++ post).drop pre.length := by
    rw [List.append_assoc, List.drop_left]
    exact List.prefix_append _ _
  have hhere' : bytes ".f4m " <+: (pre ++ bytes ".f4m " ++ post).drop pre'.length := by
    rw [heq, List.append_assoc, List.drop_left]
    exact List.prefix_append _ _
  have hlength : pre.length = pre'.length := by
    by_contra hne
    rcases Nat.lt_or_gt_of_ne hne with hlt | hlt
    · exact hfirst' _ hlt (heq ▸ hhere)
    · exact hfirst _ hlt hhere'
  rw [List.append_assoc, List.append_assoc] at heq
  obtain ⟨rfl, hrest⟩ := List.append_inj heq hlength
  rw [List.append_cancel_left hrest]

namespace Relaying

variable {origin : List UInt8 → Response → Prop} {s s' : Relaying} {config : Config}

/-- The condition for the saved request. -/
lemma manifest_meets {data : List UInt8} {r : BrowserResult} {request : Request}
    (hcall : handlerBrowser config s.world.conn data = some r) (hforwarded : r.forwarded = some request)
    (hmanifest : checkType request = .f4m → Manifest.HasManifestUri data ∧ Manifest.Fits s.session data) :
    Manifest.Meets s.session (.browser config data) := by
  rintro ⟨buf, request', hrecv, hparse, hstatus, htype⟩
  obtain ⟨buf₁, request₁, hrecv₁, hparse₁, hcases⟩ := handlerBrowser_cases hcall
  obtain rfl := Option.some.inj (hrecv.symm.trans hrecv₁)
  obtain rfl := Option.some.inj (hparse.symm.trans hparse₁)
  rcases hcases with ⟨-, rfl⟩ | ⟨-, -, rfl⟩ | ⟨-, -, forward, -, rfl⟩
  · cases hforwarded
  · cases hforwarded
  · obtain rfl := Option.some.inj hforwarded
    exact hmanifest htype

/-- The bytes that are parsed for a manifest request are those that were received. -/
lemma manifestRequest_alone {data : List UInt8} {r : BrowserResult} {request : Request}
    (hfits : Manifest.Fits s.session data) (hcall : handlerBrowser config s.world.conn data = some r)
    (hforwarded : r.forwarded = some request) (htype : checkType request = .f4m) :
    Manifest.manifestRequest s.session.conn data (some request) = some data := by
  obtain ⟨buf, request', hrecv, hparse, ⟨-, rfl⟩ | ⟨-, -, rfl⟩ | ⟨-, -, forward, -, rfl⟩⟩ := handlerBrowser_cases hcall
  · cases hforwarded
  · cases hforwarded
  · obtain rfl := Option.some.inj hforwarded
    have hheld : s.session.conn.browser.offset = 0 := hfits.held
    have hbuf : buf.take data.length = data := by
      unfold receive at hrecv
      split at hrecv
      · cases hrecv
      · obtain rfl := Option.some.inj hrecv
        have hoffset : s.world.conn.browser.offset = 0 := hheld
        rw [hoffset, Int.toNat_zero, put_zero, List.take_left]
    have hposition : request'.position = data.length := by
      rw [parse_position hparse, hbuf, hfits.alone]
    rw [Manifest.manifestRequest, Option.bind_some, if_pos htype, hheld, Int.toNat_zero, put_zero, hposition,
      List.take_left]

/-- A request leaves the saved one in its buffer. -/
lemma saved_request {data : List UInt8} {r : BrowserResult} {request : Request}
    (hsaved : Manifest.Saved s.saved s.world.conn) (hcall : handlerBrowser config s.world.conn data = some r)
    (hforwarded : r.forwarded = some request)
    (hmanifest : checkType request = .f4m → Manifest.HasManifestUri data ∧ Manifest.Fits s.session data) :
    Manifest.Saved (if checkType request = .f4m then some data else s.saved) r.conn := by
  have hsaved' := Manifest.handlerBrowser_saved (s := s.session) hsaved
    (manifest_meets hcall hforwarded hmanifest) hcall
  rw [hforwarded] at hsaved'
  by_cases htype : checkType request = .f4m
  · rw [if_pos htype]
    rwa [manifestRequest_alone (hmanifest htype).2 hcall hforwarded htype] at hsaved'
  · have hnone : Manifest.manifestRequest s.session.conn data (some request) = none := by
      rw [Manifest.manifestRequest, Option.bind_some, if_neg htype]
    rw [if_neg htype]
    rwa [hnone] at hsaved'

/-! ## Refinement -/

/-- What is outstanding at the relay: what the server was asked for, or will be when the manifest was read. -/
def Outstands (s : Relaying) (outstanding : List (List UInt8)) : Prop :=
  (∀ o ∈ s.world.queue, o.kind ≠ .f4m) ∧ outstanding = s.asked ∨
    ∃ o x y, s.world.queue = [o] ∧ o.kind = .f4m ∧ s.saved = some x ∧ Manifest.IsNolist x y ∧ outstanding = [y]

/-- A connection and the relay it is. -/
structure Rel (s : Relaying) (outstanding : List (List UInt8)) : Prop where
  inv : Inv s.world
  saved : Manifest.Saved s.saved s.world.conn
  length : s.asked.length = s.world.queue.length
  outstands : s.Outstands outstanding

lemma inv_withConfig (h : Inv s.world) (config : Config) : Inv (s.withConfig config) :=
  ⟨⟨h.correct.handlers, h.correct.order, h.correct.relayed, h.correct.manifests⟩, h.browser, h.server, h.state,
    h.single, h.full, h.saved⟩

lemma rel_start (config : Config) (ip : List UInt8) (serverFd : Option Nat) :
    Rel (start config (proxyConnCreate config ip serverFd)) [] where
  inv := inv_start ⟨rfl, [], rfl⟩ ⟨rfl, rfl, rfl, [], rfl⟩
  saved := (Manifest.inv_start config ip serverFd).saved
  length := rfl
  outstands := Or.inl ⟨fun _ ho => (List.not_mem_nil ho).elim, rfl⟩

lemma step_request {data : List UInt8} {request : Request} {r : BrowserResult} {outstanding : List (List UInt8)}
    (hrel : Rel s outstanding) (hmeets : s.Meets config (.request data request)) (hdata : IsHeaderSection data)
    (hcall : handlerBrowser config s.world.conn data = some r) (hret : ¬r.ret < 0)
    (hforwarded : r.forwarded = some request) :
    ∃ text, Adapts ⟨data, request, chooseList config s.world.conn, s.world.conn.tCurr⟩ text ∧
      Rel (s.afterRequest config data request r) (outstanding ++ [text]) := by
  obtain ⟨hmeets, hmanifest, hchunk⟩ := hmeets
  have hinv : Inv ((s.withConfig config).afterRequest request r) :=
    inv_request (inv_withConfig hrel.inv config) hmeets hdata hcall hret hforwarded
  obtain ⟨hkinds, halone⟩ := hmeets
  have hsaved := saved_request hrel.saved hcall hforwarded hmanifest
  obtain ⟨text, hsent, hadapts⟩ := handlerBrowser_asks hcall hforwarded hchunk
  have hlength : (s.afterRequest config data request r).asked.length =
      (s.afterRequest config data request r).world.queue.length := by
    change (s.asked ++ sentTo .server r.sent).length = (s.world.queue ++ [_]).length
    rw [hsent, List.length_append, List.length_append, hrel.length]
    rfl
  by_cases htype : checkType request = .f4m
  · -- nothing is outstanding, and the nolist manifest will be asked for later
    have hempty : s.world.queue = [] := (halone htype).1
    obtain rfl : outstanding = [] := by
      rcases hrel.outstands with ⟨-, hasked⟩ | ⟨o, x, y, hqueue, -⟩
      · rw [hasked, ← List.length_eq_zero_iff, hrel.length, hempty]
        rfl
      · rw [hempty] at hqueue
        cases hqueue
    obtain ⟨pre, post, hsplit, hline, hfirst⟩ := (hmanifest htype).1.split
    have hnolist : Manifest.IsNolist data (pre ++ bytes "_nolist.f4m " ++ post) :=
      ⟨pre, post, hsplit, rfl, hline, hfirst⟩
    have hqueue : (s.afterRequest config data request r).world.queue =
        [⟨kindOf (checkType request), s.world.requests, decide (checkType request = .f4m)⟩] := by
      change s.world.queue ++ _ = _
      rw [hempty]
      rfl
    have hkind : kindOf (checkType request) = .f4m := by
      rw [htype]
      rfl
    have hnew : (s.afterRequest config data request r).saved = some data := if_pos htype
    refine ⟨_, ?_, hinv, hsaved, hlength, Or.inr ⟨_, data, _, hqueue, hkind, hnew, hnolist, rfl⟩⟩
    rw [Adapts, htype]
    exact hnolist
  · -- the others are outstanding with the texts that were sent
    have hnot : ∀ o ∈ s.world.queue, o.kind ≠ .f4m := by
      intro o ho hf4m
      have hkind := hkinds o ho
      rw [hf4m] at hkind
      exact htype (kindOf_eq_f4m (Or.inl hkind.symm))
    have hasked : outstanding = s.asked := by
      rcases hrel.outstands with ⟨-, hasked⟩ | ⟨o, x, y, hqueue, hf4m, -⟩
      · exact hasked
      · exact absurd hf4m (hnot o (by rw [hqueue]; exact List.mem_singleton.mpr rfl))
    refine ⟨text, hadapts htype, hinv, hsaved, hlength, Or.inl ⟨fun o ho => ?_, ?_⟩⟩
    · rcases List.mem_append.mp ho with ho | ho
      · exact hnot o ho
      · rw [List.mem_singleton.mp ho]
        exact fun hkind => htype (kindOf_eq_f4m (Or.inl hkind))
    · rw [hasked, ← hsent]
      rfl

lemma saved_of_core {manifest : Option (List UInt8)} {conn conn' : ProxyConn} (h : Manifest.Saved manifest conn')
    (hcore : conn.core = conn'.core) : Manifest.Saved manifest conn := by
  have hbuf : conn.core.server.f4mRequest = conn'.core.server.f4mRequest := by rw [hcore]
  have hstate := state_eq_of_core hcore
  exact h.congr hbuf fun hf4m => hstate ▸ hf4m

/-- Handling the response to a request for a manifest is not visible; the server is asked for the nolist one. -/
lemma step_manifest {x : Response} {run : ServerRun} {conn' : ProxyConn} {text : List UInt8}
    {outstanding : List (List UInt8)} {o : Outstanding} {queue : List Outstanding} {asked : List (List UInt8)}
    (hrel : Rel s outstanding) (hinv : Inv ((s.withConfig config).afterResponse o queue x run))
    (hqueue : s.world.queue = o :: queue) (hasked : s.asked = text :: asked) (hkind : o.kind = .f4m)
    (hhandler : Handler.f4m.run config (s.world.conn.withResponse x.header) x.body = some (run.config, conn', run.sent))
    (hcore : run.conn.core = conn'.core) :
    shown run = none ∧ Rel (s.afterResponse config o queue asked x run) outstanding := by
  have hmem : o ∈ s.world.queue := by
    rw [hqueue]
    exact List.mem_cons_self
  obtain rfl : queue = [] := by
    have hone := hrel.inv.single o hmem (Or.inl hkind)
    rw [hqueue] at hone
    exact (List.cons.inj hone).2
  obtain rfl : asked = [] := by
    have hlength := hrel.length
    rw [hqueue, hasked] at hlength
    simpa using hlength
  have hstate : s.world.conn.state = .f4m := by
    have hhandler' := hrel.inv.state o hmem
    rw [hkind] at hhandler'
    cases hs : s.world.conn.state <;> rw [hs] at hhandler' <;> cases hhandler'
  have hsaved' : Manifest.Saved s.saved (s.world.conn.withResponse x.header) := hrel.saved.congr rfl id
  obtain ⟨hafter, y, z, hy, hnolist, hserver⟩ := Manifest.run_manifest hsaved' hstate hhandler
  obtain ⟨-, nolist, hsent, -⟩ := run_f4m (hrel.inv.saved o hmem hkind) hhandler
  obtain ⟨o', y', z', hqueue', -, hy', hnolist', rfl⟩ := hrel.outstands.resolve_left fun h => h.1 o hmem hkind
  obtain rfl := Option.some.inj (hy.symm.trans hy')
  obtain rfl := hnolist.unique hnolist'
  refine ⟨?_, hinv, ?_, ?_, Or.inl ⟨fun o₁ ho₁ => ?_, ?_⟩⟩
  · have hnone : sentTo .browser run.sent = [] := by rw [hsent]; rfl
    rw [shown, if_pos hnone]
  · exact saved_of_core hafter hcore
  · change ([] ++ sentTo .server run.sent).length = ([] ++ (sentTo .server run.sent).map _).length
    rw [List.nil_append, List.nil_append, List.length_map]
  · change o₁ ∈ [] ++ (sentTo .server run.sent).map (ownRequest o.index) at ho₁
    rw [List.nil_append, List.mem_map] at ho₁
    obtain ⟨data, -, rfl⟩ := ho₁
    exact fun h => by cases h
  · change _ = [] ++ sentTo .server run.sent
    rw [hserver, List.nil_append]

/-- Any other response is shown to the browser as the answer to what was asked for first. -/
lemma step_forwards {x : Response} {run : ServerRun} {conn' : ProxyConn} {text : List UInt8} {handler : Handler}
    {outstanding : List (List UInt8)} {o : Outstanding} {queue : List Outstanding} {asked : List (List UInt8)}
    (hrel : Rel s outstanding) (hinv : Inv ((s.withConfig config).afterResponse o queue x run))
    (hqueue : s.world.queue = o :: queue) (hasked : s.asked = text :: asked) (hkind : o.kind ≠ .f4m)
    (hnot : handler ≠ .f4m)
    (hhandler : handler.run config (s.world.conn.withResponse x.header) x.body = some (run.config, conn', run.sent))
    (hcore : run.conn.core = conn'.core) :
    shown run = some (.answer [x.header, x.body]) ∧ outstanding = text :: asked ∧
      Rel (s.afterResponse config o queue asked x run) asked := by
  have hmem : o ∈ s.world.queue := by
    rw [hqueue]
    exact List.mem_cons_self
  have hheader : x.header ≠ [] := List.ne_nil_of_length_pos x.isResponseHeader.endsSearch.length_pos
  obtain ⟨hsent, hstate⟩ := run_forwards hnot x.isResponseHeader.isString hheader x.body_ne hhandler
  have hserver : sentTo .server run.sent = [] := by rw [hsent]; rfl
  have hboth : sentTo .browser run.sent = [x.header, x.body] := by rw [hsent]; rfl
  obtain ⟨hnone, hsame⟩ : (∀ o ∈ s.world.queue, o.kind ≠ .f4m) ∧ outstanding = s.asked := by
    refine hrel.outstands.resolve_right ?_
    rintro ⟨o', y, z, hqueue', hf4m, -⟩
    rw [hqueue', List.mem_singleton] at hmem
    exact hkind (hmem ▸ hf4m)
  obtain ⟨hkept, -⟩ := Handler.run_forward hnot hhandler
  refine ⟨?_, hsame.trans hasked, hinv, ?_, ?_, Or.inl ⟨fun o₁ ho₁ => ?_, ?_⟩⟩
  · rw [shown, hboth, if_neg (List.cons_ne_nil _ _)]
  · have hafter : Manifest.Saved s.saved conn' := by
      have hwith : Manifest.Saved s.saved (s.world.conn.withResponse x.header) := hrel.saved.congr rfl id
      exact hwith.congr hkept.f4mRequest fun hf4m => hkept.state ▸ hf4m
    exact saved_of_core hafter hcore
  · have hlength := hrel.length
    rw [hqueue, hasked] at hlength
    change (asked ++ sentTo .server run.sent).length = (queue ++ (sentTo .server run.sent).map _).length
    rw [hserver, List.append_nil, List.map_nil, List.append_nil]
    exact Nat.succ.inj hlength
  · change o₁ ∈ queue ++ (sentTo .server run.sent).map _ at ho₁
    rw [hserver, List.map_nil, List.append_nil] at ho₁
    apply hnone
    rw [hqueue]
    exact List.mem_cons_of_mem o ho₁
  · change asked = asked ++ sentTo .server run.sent
    rw [hserver, List.append_nil]

/-- A step that meets the conditions. -/
def Orderly (origin : List UInt8 → Response → Prop) (s : Relaying) (l : Option (Label Ask (List (List UInt8))))
    (s' : Relaying) : Prop :=
  ∃ config e, Step origin s config e l s' ∧ s.Meets config e

/-- A connection of the proxy refines the relay. -/
theorem refines_relay (origin : List UInt8 → Response → Prop) :
    Refines (Orderly origin) (Relay Adapts (Shows origin)) Rel := by
  rintro s outstanding l s' hrel ⟨config, e, hstep, hmeets⟩
  cases hstep with
  | request data request r hdata hcall hret hforwarded =>
    obtain ⟨text, hadapts, hrel'⟩ := step_request hrel hmeets hdata hcall hret hforwarded
    exact Or.inr ⟨_, .request _ _ _ hadapts, hrel'⟩
  | response x chunks run o queue text asked hqueue hasked horigin hchunks hsplit hrun =>
    have hinv' := inv_withConfig hrel.inv config
    have hinv := inv_response hinv' hmeets.1 hqueue hchunks hsplit hrun
    obtain ⟨hhandled, -⟩ := serverRun_response hinv'.server hmeets.1 hchunks hsplit hrun
    obtain ⟨handler, conn', hstate, -, hhandler, hcore⟩ := serverRun_one hrun hhandled
    have hkind : handler = o.kind := by
      have ho : o ∈ s.world.queue := by rw [hqueue]; exact List.mem_cons_self
      exact Option.some.inj (hstate.symm.trans (hrel.inv.state o ho))
    by_cases hf4m : handler = .f4m
    · subst hf4m
      obtain ⟨hnone, hrel'⟩ := step_manifest hrel hinv hqueue hasked hkind.symm hhandler hcore
      exact Or.inl ⟨hnone, hrel'⟩
    · obtain ⟨hshown, rfl, hrel'⟩ :=
        step_forwards hrel hinv hqueue hasked (fun h => hf4m (hkind.trans h)) hf4m hhandler hcore
      refine Or.inr ⟨asked, ?_, hrel'⟩
      rw [hshown]
      exact .answer text _ asked ⟨x, horigin, rfl⟩

end Relaying

section Example

end Example

end VideoCDN.Proxy
