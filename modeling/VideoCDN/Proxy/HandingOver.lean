import VideoCDN.Proxy.BodyReassembly

/-!
# Handing over a response

What a call hands over: nothing on a connection that waits for more of a header section, and otherwise a body
of the length that was read from the header section stored with it.
-/

namespace VideoCDN.Proxy

open CString Buffer Http

/-- In a round of a call, after which `before` had been handed over, the response is handed over and no
response is there any more. -/
def DeliveredIn (config : Config) (conn : ProxyConn) (data : List UInt8) (before : List Dispatched)
    (x : SizedResponse) : Prop :=
  ∃ buf r, receive conn.server.buf conn.server.offset data = some buf ∧
    Passes data.length (startCall config conn buf (conn.server.offset + data.length)) r ∧
    r.conn.server.request = none ∧ ∃ handler, r.dispatched = before ++ [⟨handler, x.header, x.body⟩]

/-- The arguments of a call of `handler_server`. -/
structure ServerCall where
  config : Config
  conn : ProxyConn
  data : List UInt8

/-- The last call, of those for the given results. -/
def Interleaving.lastCall (env : Interleaving) : Nat → ServerCall → List (List UInt8) → Option ServerCall
  | _, call, [] => some call
  | n, call, data :: later => do
    let r ← handlerServer call.config call.conn call.data
    if r.ret < 0 then none
    else env.lastCall (n + 1) ⟨(env.before n r.conn).1, (env.before n r.conn).2, data⟩ later

section Lost

variable {config : Config} {conn : ProxyConn} {data : List UInt8} {before : List Dispatched} {x : SizedResponse}

lemma Lost.of_transport {s s' : Server} (hlost : Lost s) (h : s'.transport = s.transport) : Lost s' := by
  have hrequest : s'.request = s.request := congrArg Transport.request h
  have hoffset : s'.offset = s.offset := congrArg Transport.offset h
  rcases hlost with hwaits | hneg
  · left
    rw [Server.isReady, hrequest]
    exact hwaits
  · right
    rw [hoffset]
    exact hneg

variable (config) in
/-- A lost connection only stores bytes. -/
lemma Lost.call (hlost : Lost conn.server) {buf : List UInt8}
    (hrecv : receive conn.server.buf conn.server.offset data = some buf) :
    (startCall config conn buf (conn.server.offset + data.length)).conn.server.isReady = false := by
  rcases hlost with hwaits | hneg
  · exact hwaits
  · have hbounds := hrecv
    unfold receive at hbounds
    rw [if_pos (Or.inr (Or.inl hneg))] at hbounds
    cases hbounds

lemma Lost.not_deliveredIn (hlost : Lost conn.server) : ¬DeliveredIn config conn data before x := by
  rintro ⟨buf, r, hrecv, hpass, -⟩
  have hwaits := hlost.call config hrecv
  obtain ⟨r₂, hround⟩ := hpass.turns
  rw [(turn_goes hround).2.1] at hwaits
  cases hwaits

lemma Lost.handlerServer (hlost : Lost conn.server) {r : ServerResult}
    (h : Proxy.handlerServer config conn data = some r) : Lost r.conn.server := by
  obtain ⟨buf, hrecv, hloop⟩ := handlerServer_eq_some h
  have hwaits := hlost.call config hrecv
  rw [serverLoop, if_neg (by simp [hwaits])] at hloop
  obtain rfl := Option.some.inj hloop
  exact Or.inl hwaits

lemma Lost.lastCall {env : Interleaving} {n : Nat} {call last : ServerCall} {later : List (List UInt8)}
    (hlost : Lost call.conn.server) (h : env.lastCall n call later = some last) : Lost last.conn.server := by
  induction later generalizing n call with
  | nil =>
    obtain rfl := Option.some.inj h
    exact hlost
  | cons data later ih =>
    obtain ⟨r, hcall, h⟩ := Option.bind_eq_some_iff.mp h
    split at h
    · cases h
    · exact ih ((hlost.handlerServer hcall).of_transport (env.between n r.conn).transport) h

/-- Between the calls a connection is lost, or its buffer is empty. -/
lemma Reachable.lost_or_empty {config : Config} {w : ProxyState} (h : Reachable config w) :
    ∀ conn ∈ w.conns, Lost conn.server ∨ conn.server.offset = 0 := by
  apply h.induct_conns (P := fun conn => Lost conn.server ∨ conn.server.offset = 0)
  · exact fun config ip serverFd => Or.inr rfl
  · intro config conn data r hconn hcall
    have htransport := (handlerBrowser_frame hcall).2.1
    rcases hconn with hlost | hempty
    · exact Or.inl (hlost.of_transport htransport)
    · exact Or.inr ((congrArg Transport.offset htransport).trans hempty)
  · intro config conn data r _ hcall hopen
    obtain ⟨buf, -, hloop⟩ := handlerServer_eq_some hcall
    rcases serverLoop_ends hloop with hle | hwaits | hclosed
    · rcases lt_or_eq_of_le hle with hneg | hzero
      · exact Or.inl (Or.inr hneg)
      · exact Or.inr hzero
    · exact Or.inl (Or.inl hwaits)
    · omega

end Lost

/-! ## The length that is handed over -/

/-- With this header section stored, the length is the one it states. -/
def Labelled (header : List UInt8) (conn : ProxyConn) : Prop :=
  ∀ request, conn.server.request = some request → request.status ≠ needmore →
    cstr conn.server.response = header → ∃ n : Nat, request.contentLength = n ∧ StatesBody header n

section Labelled

variable {header : List UInt8} {conn conn' : ProxyConn} {recvlen : Nat}

lemma Labelled.of_none (h : conn.server.request = none) : Labelled header conn := by
  intro request hrequest
  rw [h] at hrequest
  cases hrequest

lemma Labelled.of_same (hlabelled : Labelled header conn) (hrequest : conn'.server.request = conn.server.request)
    (hresponse : conn'.server.response = conn.server.response) : Labelled header conn' := by
  unfold Labelled
  rw [hrequest, hresponse]
  exact hlabelled

lemma drainBody_same (h : drainBody conn = some conn') :
    conn'.server.request = conn.server.request ∧ conn'.server.response = conn.server.response := by
  unfold drainBody at h
  dsimp only at h
  split at h
  · obtain rfl := Option.some.inj h
    exact ⟨rfl, rfl⟩
  · simp only [Option.bind_eq_bind, Option.bind_eq_some_iff] at h
    obtain ⟨request, -, body, -, h⟩ := h
    obtain rfl := Option.some.inj h
    exact ⟨rfl, rfl⟩

lemma turn_labelled {r r₁ : ServerResult} (hlabelled : Labelled header r.conn) (h : turn r = some r₁) :
    Labelled header r₁.conn := by
  obtain ⟨conn, hdrain, hdispatch⟩ := turn_steps h
  obtain ⟨hrequest, hresponse⟩ := drainBody_same hdrain
  rcases dispatch_spec hdispatch with ⟨rfl, -⟩ | ⟨hover, -⟩
  · exact hlabelled.of_same hrequest hresponse
  · exact .of_none hover.request

/-- The header section that is stored is the one the length was read from. -/
lemma parseHeader_labelled (hheader : IsResponseHeader header)
    (h : parseHeader conn recvlen = some conn') : Labelled header conn' := by
  unfold parseHeader at h
  obtain ⟨request, hparse, h⟩ := Option.bind_eq_some_iff.mp h
  obtain ⟨hposition, hsearch⟩ := parseReponse_scan hparse
  rcases hsearch with ⟨hstatus, hend⟩ | ⟨hneed, -⟩
  · rw [if_neg (by rw [hstatus]; decide)] at h
    split at h
    · cases h
    · rename_i hfits
      obtain rfl := Option.some.inj h
      intro request' hrequest' _ hstored
      obtain rfl := Option.some.inj hrequest'
      obtain ⟨n, hn⟩ := Int.eq_ofNat_of_zero_le (show 0 ≤ request.contentLength by omega)
      refine ⟨n, hn, ?_⟩
      -- the bytes that were taken are those of the header section
      have hle := scanHeader_le .start (conn.server.buf.take recvlen) 0
      rw [← hposition, Nat.zero_add, List.length_take] at hle
      have hfetch : fetch conn.server.buf 0 request.position = conn.server.buf.take request.position := by
        rw [fetch_eq_take_drop _ (by omega), List.drop_zero]
      have hcstr : cstr (conn.server.buf.take request.position) = header := by
        rw [← hstored]
        simp only [ProxyConn.setServer, put_zero, hfetch, List.append_assoc, List.singleton_append, cstr_append_nul]
      have hprefix : header <+: conn.server.buf.take request.position := by
        rw [← hcstr]
        exact cstr_prefix_self _
      have hwithin : header <+: conn.server.buf.take recvlen :=
        hprefix.trans (List.take_prefix_take_left (by omega))
      obtain ⟨rest, hrest⟩ := hwithin.trans (List.take_prefix recvlen conn.server.buf)
      refine ⟨?_, by omega⟩
      rw [← hheader.contentLength_iff rest, hrest, ← hn]
      exact parseReponse_length hparse hstatus
  · rw [if_pos (by rw [hneed]; decide)] at h
    obtain rfl := Option.some.inj h
    intro request' hrequest' hstatus
    obtain rfl := Option.some.inj hrequest'
    exact absurd hneed hstatus

lemma handlerServer_labelled {config : Config} {data : List UInt8} {r : ServerResult}
    (hheader : IsResponseHeader header) (hlabelled : Labelled header conn)
    (h : handlerServer config conn data = some r) : Labelled header r.conn := by
  apply handlerServer_induct (P := fun r => Labelled header r.conn) _ _ _ h
  · exact fun r r₁ => turn_labelled
  · exact fun buf r₁ conn _ _ _ _ => parseHeader_labelled hheader
  · exact fun buf _ => hlabelled.of_same rfl rfl

lemma lastCall_labelled {env : Interleaving} {n : Nat} {call last : ServerCall} {later : List (List UInt8)}
    (hheader : IsResponseHeader header) (hlabelled : Labelled header call.conn)
    (h : env.lastCall n call later = some last) : Labelled header last.conn := by
  induction later generalizing n call with
  | nil =>
    obtain rfl := Option.some.inj h
    exact hlabelled
  | cons data later ih =>
    obtain ⟨r, hcall, h⟩ := Option.bind_eq_some_iff.mp h
    split at h
    · cases h
    · have htransport := (env.between n r.conn).transport
      apply ih _ h
      exact (handlerServer_labelled hheader hlabelled hcall).of_same (congrArg Transport.request htransport)
        (congrArg Transport.response htransport)

/-- A body that is handed over with the header section has the length it states. -/
lemma turn_statesBody {r r₁ : ServerResult} {handler : Handler} {body : List UInt8}
    (hlabelled : Labelled header r.conn) (h : turn r = some r₁)
    (hone : r₁.dispatched = r.dispatched ++ [⟨handler, header, body⟩]) : StatesBody header body.length := by
  obtain ⟨conn, hdrain, hdispatch⟩ := turn_steps h
  obtain ⟨hrequest, hresponse⟩ := drainBody_same hdrain
  have hnone : ¬r₁.dispatched = r.dispatched := by
    rw [hone]
    simp
  rcases dispatch_cases hdispatch with ⟨rfl, -⟩ | ⟨request, hsome, hstatus, ⟨-, -, -, -, hsame⟩ |
    ⟨stored, body', run, hstored, hlen, hrespond, -, -, -, hmore⟩⟩
  · exact absurd rfl hnone
  · exact absurd hsame hnone
  · obtain ⟨handler', -, hrun, -⟩ := respond_dispatched hrespond
    rw [hone, hrun] at hmore
    have heq := List.append_cancel_left hmore
    simp only [List.cons.injEq, Dispatched.mk.injEq, and_true] at heq
    obtain ⟨-, hheader, rfl⟩ := heq
    obtain ⟨n, hn, hstates⟩ := (hlabelled.of_same hrequest hresponse) request hsome hstatus
      (hstored.symm.trans hheader.symm)
    rw [hlen, hn, Int.toNat_natCast]
    exact hstates

lemma Passes.statesBody {r r₁ : ServerResult} {handler : Handler} {body : List UInt8}
    (hheader : IsResponseHeader header) (hlabelled : Labelled header r.conn) (h : Passes recvlen r r₁)
    (hone : r₁.dispatched = r.dispatched ++ [⟨handler, header, body⟩]) : StatesBody header body.length := by
  induction h with
  | here hround => exact turn_statesBody hlabelled hround hone
  | later hround _ hparse hrest ih =>
    obtain ⟨first, hfirst⟩ := turn_dispatched hround
    obtain ⟨more, hmore⟩ := hrest.dispatched
    simp only at hmore
    rw [← hfirst, List.append_assoc, hone] at hmore
    have hsplit := List.append_cancel_left hmore
    cases first with
    | nil =>
      rw [List.append_nil] at hfirst
      exact ih (parseHeader_labelled hheader hparse) (by simpa [hfirst] using hone)
    | cons d ds =>
      rw [List.cons_append, List.cons.injEq] at hsplit
      obtain ⟨rfl, hnil⟩ := hsplit
      obtain ⟨rfl, -⟩ := List.append_eq_nil_iff.mp hnil
      exact turn_statesBody hlabelled hround hfirst.symm

end Labelled

/-! ## The round of a complete response -/

section Round

variable {header got part rest : List UInt8} {n : Nat}

/-- With the rest of the body in the buffer, or bytes behind a complete one, the next round hands over the
response, if the handler returns. -/
lemma turn_busy {r : ServerResult} (hbusy : Busy r.conn.server header n got (part ++ rest))
    (hheader : IsString header) (hlen : got.length + part.length = n) (hne : part ++ rest ≠ []) (hret : r.ret ≠ -1)
    (hstate : r.conn.state ≠ .uk) :
    (∀ run, respond r.config r.conn header (got ++ part) = some run →
        ∃ r₁, turn r = some r₁ ∧ r₁.conn.server.request = none ∧ r₁.dispatched = r.dispatched ++ run.dispatched) ∧
      (respond r.config r.conn header (got ++ part) = none → turn r = none) := by
  have hpos := List.length_pos_of_ne_nil hne
  have hoffset : r.conn.server.offset > 0 := by
    rw [hbusy.offset]
    omega
  obtain ⟨conn, hdrain, hbusy', hcore⟩ : ∃ conn, drainBody r.conn = some conn ∧
      Busy conn.server header n (got ++ part) rest ∧ conn.core = r.conn.core := by
    by_cases hpart : part = []
    · subst hpart
      refine ⟨r.conn, ?_, by rwa [List.append_nil], rfl⟩
      have hzero : r.conn.server.toSendLength ≤ 0 := by
        rw [hbusy.toSend, ← hlen]
        simp
      rw [drainBody, if_pos hzero]
      rfl
    · exact drainBody_busy hbusy hpart (Or.inr hlen)
  have hturn : turn r = dispatch { r with conn := conn } := by
    rw [turn, if_pos ⟨hoffset, hbusy.isReady, hret⟩, hdrain]
    rfl
  have hstate' : conn.state ≠ .uk := by
    rw [state_eq_of_core hcore]
    exact hstate
  obtain ⟨handler, hhandler⟩ := State.exists_handler hstate'
  have hdispatch := dispatch_busy (r := { r with conn := conn }) hbusy' (by simpa using hlen)
  simp only [hhandler] at hdispatch
  rw [hturn, hdispatch, ← respond_congr hcore]
  constructor
  · intro run hrun
    obtain ⟨handler', conn', hhandler', hdispatched, hcall, -, -⟩ := run_of_respond hbusy'.response hheader hrun
    obtain rfl := Option.some.inj (hhandler.symm.trans hhandler')
    rw [hcall]
    exact ⟨_, rfl, rfl, by rw [hdispatched]⟩
  · intro hnone
    rw [run_of_respond_none hbusy'.response hheader hhandler hnone]
    rfl

end Round

end VideoCDN.Proxy
