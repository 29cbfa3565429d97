import VideoCDN.Proxy.HandingOver

/-!
# When a finished response is handed over

A response is handed over at the start of a round, and there is a round only for bytes that are left. So a
response without a body waits for the first byte behind it, and one whose header section does not arrive
with its first byte is never handed over.
-/

namespace VideoCDN.Proxy

open CString Buffer Http

/-- The loop of the call gets to the first bytes of a response: they are at the front of the buffer when a
header section is looked for, at the end of a round. -/
structure Begins (call : ServerCall) (r : ServerResult) (first : List UInt8) : Prop where
  passes : ∃ buf, receive call.conn.server.buf call.conn.server.offset call.data = some buf ∧
    Passes call.data.length (startCall call.config call.conn buf (call.conn.server.offset + call.data.length)) r
  first_ne : first ≠ []
  offset : r.conn.server.offset = first.length
  buf : ∃ tail, r.conn.server.buf = first ++ tail

/-- The calls return and keep the connection, and the last one hands over the response. Where it is the call
that the response began in, it does so after `before`. -/
def Prompt (env : Interleaving) (call : ServerCall) (before : List Dispatched) (later : List (List UInt8))
    (x : SizedResponse) : Prop :=
  ∃ last, env.lastCall 0 call later = some last ∧
    DeliveredIn last.config last.conn last.data (if later = [] then before else []) x

/-- The handler for the state of the connection in the last call returns. -/
def HandlerReturns (env : Interleaving) (call : ServerCall) (r : ServerResult) (x : SizedResponse) :
    List (List UInt8) → Prop
  | [] => (respond r.config r.conn x.header x.body).isSome
  | data :: later => ∀ last, env.lastCall 0 call (data :: later) = some last →
    (respond last.config last.conn x.header x.body).isSome

/-- The header section arrives with its first byte and gives the length of the body, and the response has a
body or arrives with bytes behind its header section. -/
structure ReadInTime (first : List UInt8) (x : SizedResponse) : Prop where
  whole : x.header.length ≤ first.length
  fits : x.header.length < maxReqSize
  length : StatesBody x.header x.body.length
  more : x.body ≠ [] ∨ x.header.length < first.length

/-! ## The call that a response begins in -/

section Begins

variable {env : Interleaving} {call last : ServerCall} {r : ServerResult} {first rest : List UInt8}
  {later : List (List UInt8)} {x : SizedResponse}

/-- Nothing of the response was read before. -/
lemma Begins.idle (hbegins : Begins call r first) (hsettled : Settled call.conn) :
    Settled r.conn ∧ 0 ≤ r.ret ∧ Idle r.conn.server first := by
  obtain ⟨buf, -, hpass⟩ := hbegins.passes
  have hstart : Settled (startCall call.config call.conn buf (call.conn.server.offset + call.data.length)).conn :=
    ⟨hsettled.nonneg, hsettled.toSend, hsettled.state⟩
  obtain ⟨hsettled', hret, hnone⟩ := hpass.settled hstart le_rfl
  have hpos := List.length_pos_of_ne_nil hbegins.first_ne
  have hrequest := hnone (by rw [hbegins.offset]; omega)
  exact ⟨hsettled', hret, hrequest, hsettled'.toSend hrequest, hbegins.offset, hbegins.buf⟩

/-- The call goes on from there. -/
lemma Begins.call_eq (hbegins : Begins call r first) (hsettled : Settled call.conn)
    (hempty : call.conn.server.offset = 0) :
    first.length ≤ call.data.length ∧ ∃ fuel, first.length ≤ fuel ∧
      handlerServer call.config call.conn call.data = serverLoop call.data.length (fuel + 1) r := by
  obtain ⟨-, hret, hidle⟩ := hbegins.idle hsettled
  obtain ⟨buf, hrecv, hpass⟩ := hbegins.passes
  have hpos := List.length_pos_of_ne_nil hbegins.first_ne
  have hstart : (startCall call.config call.conn buf (call.conn.server.offset + call.data.length)).conn.server.offset =
      call.data.length := by
    simp [startCall, ProxyConn.setServer, hempty]
  have hle := hpass.offset_le
  rw [hstart, hbegins.offset] at hle
  have hfuel : (startCall call.config call.conn buf
      (call.conn.server.offset + call.data.length)).conn.server.offset < call.data.length + 1 := by
    rw [hstart]
    omega
  obtain ⟨fuel, hfuel, hloop⟩ := hpass.serverLoop_eq hfuel (by rw [hbegins.offset]; omega)
  rw [hbegins.offset] at hfuel
  refine ⟨by omega, fuel, by omega, ?_⟩
  rw [serverLoop_afterTurn hidle hbegins.first_ne (by omega), ← hloop, handlerServer_eq, hrecv, Option.bind_some]

lemma lastCall_cons {n : Nat} {data : List UInt8} (h : env.lastCall n call (data :: later) = some last) :
    ∃ r, handlerServer call.config call.conn call.data = some r ∧ ¬r.ret < 0 ∧
      env.lastCall (n + 1) ⟨(env.before n r.conn).1, (env.before n r.conn).2, data⟩ later = some last := by
  obtain ⟨r, hcall, h⟩ := Option.bind_eq_some_iff.mp h
  split at h
  · cases h
  · rename_i hopen
    exact ⟨r, hcall, hopen, h⟩

/-- A response that is handed over in the call it began in is handed over in a later round. -/
lemma Begins.later_round (hbegins : Begins call r first)
    (h : DeliveredIn call.config call.conn call.data r.dispatched x) :
    ∃ conn r', parseHeader r.conn call.data.length = some conn ∧
      Passes call.data.length { r with conn := conn } r' ∧
      ∃ handler, r'.dispatched = r.dispatched ++ [⟨handler, x.header, x.body⟩] := by
  obtain ⟨buf, hrecv, hpass⟩ := hbegins.passes
  obtain ⟨buf', r', hrecv', hpass', -, handler, hone⟩ := h
  obtain rfl := Option.some.inj (hrecv.symm.trans hrecv')
  rcases hpass.linear hpass' with rfl | ⟨-, conn, hparse, hlater⟩ | ⟨-, conn, -, hlater⟩
  · simp at hone
  · exact ⟨conn, r', hparse, hlater, handler, hone⟩
  · have hle := hlater.dispatched.length_le
    simp only [hone, List.length_append, List.length_singleton] at hle
    omega

/-- Only a response whose header section states the length of its body is handed over as it is. -/
lemma Prompt.statesBody (hbegins : Begins call r first) (hsettled : Settled call.conn)
    (hempty : call.conn.server.offset = 0) (h : Prompt env call r.dispatched later x) :
    StatesBody x.header x.body.length := by
  have hheader := x.isResponseHeader
  obtain ⟨last, hlast, hdelivered⟩ := h
  obtain ⟨-, -, hidle⟩ := hbegins.idle hsettled
  cases later with
  | nil =>
    obtain rfl := Option.some.inj hlast
    rw [if_pos rfl] at hdelivered
    obtain ⟨conn, r', hparse, hpass, handler, hone⟩ := hbegins.later_round hdelivered
    exact hpass.statesBody hheader (parseHeader_labelled hheader hparse) hone
  | cons data later =>
    rw [if_neg (List.cons_ne_nil _ _)] at hdelivered
    obtain ⟨r', hcall, -, hrest⟩ := lastCall_cons hlast
    obtain ⟨-, fuel, -, heq⟩ := hbegins.call_eq hsettled hempty
    rw [heq] at hcall
    have hlabelled : Labelled x.header r'.conn := by
      apply serverLoop_induct (P := fun r => Labelled x.header r.conn) _ _ (.of_none hidle.request) hcall
      · exact fun r r₁ => turn_labelled
      · exact fun r₁ conn _ _ _ => parseHeader_labelled hheader
    have htransport := (env.between 0 r'.conn).transport
    have hlabelled' := lastCall_labelled hheader (hlabelled.of_same (congrArg Transport.request htransport)
      (congrArg Transport.response htransport)) hrest
    obtain ⟨buf, r₁, -, hpass, -, handler, hone⟩ := hdelivered
    exact hpass.statesBody hheader (hlabelled'.of_same rfl rfl) hone

/-- Where the header section is not read, the call does not return. -/
lemma Begins.not_prompt_of_none (hbegins : Begins call r first) (hsettled : Settled call.conn)
    (hempty : call.conn.server.offset = 0) (hparse : parseHeader r.conn call.data.length = none) :
    ¬Prompt env call r.dispatched later x := by
  obtain ⟨-, hret, hidle⟩ := hbegins.idle hsettled
  rintro ⟨last, hlast, hdelivered⟩
  cases later with
  | nil =>
    obtain rfl := Option.some.inj hlast
    obtain ⟨conn, r', hparse', -⟩ := hbegins.later_round hdelivered
    rw [hparse] at hparse'
    cases hparse'
  | cons data later =>
    obtain ⟨r', hcall, -⟩ := lastCall_cons hlast
    obtain ⟨-, fuel, -, heq⟩ := hbegins.call_eq hsettled hempty
    rw [heq, serverLoop_idle hidle hbegins.first_ne (by omega), hparse] at hcall
    cases hcall

/-- A header section that does not arrive with its first byte is never read. -/
lemma Begins.not_prompt_of_cut (hbegins : Begins call r first) (hsettled : Settled call.conn)
    (hempty : call.conn.server.offset = 0) {post : List UInt8} (hcut : x.header = first ++ post) (hpost : post ≠ [])
    (hlater : later ≠ []) : ¬Prompt env call r.dispatched later x := by
  obtain ⟨-, hret, hidle⟩ := hbegins.idle hsettled
  rintro ⟨last, hlast, hdelivered⟩
  obtain ⟨data, later, rfl⟩ := List.exists_cons_of_ne_nil hlater
  obtain ⟨r', hcall, -, hrest⟩ := lastCall_cons hlast
  obtain ⟨hwithin, fuel, -, heq⟩ := hbegins.call_eq hsettled hempty
  rw [heq] at hcall
  obtain ⟨-, hlost⟩ := serverLoop_cut x.isResponseHeader.endsSearch hidle hcut hbegins.first_ne hpost hwithin
    (by omega) hcall
  have hnext : Lost (env.before 0 r'.conn).2.server := hlost.of_transport (env.between 0 r'.conn).transport
  have hlost' : Lost last.conn.server := Lost.lastCall hnext hrest
  exact hlost'.not_deliveredIn hdelivered

lemma parseHeader_long {recvlen : Nat} {conn : ProxyConn} {header : List UInt8} (hheader : EndsSearch header)
    (hidle : Idle conn.server (header ++ rest)) (hle : header.length ≤ recvlen) (hlong : maxReqSize ≤ header.length) :
    parseHeader conn recvlen = none := by
  obtain ⟨tail, hbuf⟩ := hidle.buf
  have hscan : scanHeader .start (conn.server.buf.take recvlen) 0 = (.crlfcrlf, header.length) := by
    rw [hbuf, List.append_assoc, List.take_append, List.take_of_length_le hle]
    exact hheader.append _
  by_contra hsome
  obtain ⟨conn', h⟩ := Option.ne_none_iff_exists'.mp hsome
  unfold parseHeader at h
  obtain ⟨request, hparse, h⟩ := Option.bind_eq_some_iff.mp h
  obtain ⟨hposition, hsearch⟩ := parseReponse_scan hparse
  rw [hscan] at hposition hsearch
  obtain ⟨hstatus, -⟩ := hsearch.resolve_right fun hno => hno.2 rfl
  rw [if_neg (by rw [hstatus]; decide), if_pos (Or.inr (Or.inr (by rw [hposition]; exact hlong)))] at h
  cases h

end Begins

/-! ## The calls after it -/

section Later

variable {env : Interleaving} {call : ServerCall} {later : List (List UInt8)} {header got body after : List UInt8}
  {n : Nat}

lemma lt_length_flatten {data : List UInt8} {n : Nat} (hlast : ∀ last ∈ (data :: later).getLast?, n < last.length) :
    n < (data :: later).flatten.length := by
  have hmem : (data :: later).getLast (List.cons_ne_nil _ _) ∈ data :: later := List.getLast_mem _
  have hle := (List.sublist_flatten_of_mem hmem).length_le
  exact (hlast _ (List.getLast?_eq_some_getLast _)).trans_le hle

variable (env n call) in
/-- The parts of a body are stored up to the last call. -/
lemma lastCall_busy (hbusy : Busy call.conn.server header body.length got []) (hsettled : Settled call.conn)
    (hresults : AreResults (call.data :: later)) (hsplit : got ++ (call.data :: later).flatten = body ++ after)
    (hlast : ∀ data ∈ (call.data :: later).getLast?, after.length < data.length) :
    ∃ last got' part, env.lastCall n call later = some last ∧ Settled last.conn ∧
      Busy last.conn.server header body.length got' [] ∧ last.data = part ++ after ∧ got' ++ part = body ∧
      part ≠ [] ∧ last.data.length ≤ maxReqSize := by
  induction later generalizing n call got with
  | nil =>
    have hlt := hlast call.data rfl
    rw [List.flatten_singleton] at hsplit
    have hlen := congrArg List.length hsplit
    rw [List.length_append, List.length_append] at hlen
    obtain ⟨part, rfl⟩ : got <+: body :=
      List.prefix_of_prefix_length_le ⟨call.data, hsplit⟩ ⟨after, rfl⟩ (by omega)
    rw [List.append_assoc, List.append_cancel_left_eq] at hsplit
    refine ⟨call, got, part, rfl, hsettled, hbusy, hsplit, rfl, ?_, hresults.head.2⟩
    rintro rfl
    rw [hsplit] at hlt
    simp at hlt
  | cons data later ih =>
    obtain ⟨hdata, hlen⟩ := hresults.head
    -- the bytes behind the response are in the last result
    have hlast' : ∀ final ∈ (data :: later).getLast?, after.length < final.length := fun final hfinal =>
      hlast final (by rw [List.getLast?_cons_cons]; exact hfinal)
    have hmore := lt_length_flatten hlast'
    have hlength := congrArg List.length hsplit
    rw [List.flatten_cons, List.length_append, List.length_append, List.length_append] at hlength
    obtain ⟨r, hcall, hret, hbusy'⟩ := handlerServer_part call.config hbusy hdata hlen (by omega)
    have hbetween := env.between n r.conn
    obtain ⟨last, got', part, hlast', hrest⟩ := @ih
      ⟨(env.before n r.conn).1, (env.before n r.conn).2, data⟩ _ (n + 1) (hbusy'.of_transport hbetween.transport)
      (hbetween.settled (handlerServer_settled hsettled hcall)) hresults.tail
      (by rw [List.append_assoc, ← List.flatten_cons]; exact hsplit)
      hlast'
    have hopen : ¬r.ret < 0 := by omega
    refine ⟨last, got', part, ?_, hrest⟩
    rw [Interleaving.lastCall, hcall, Option.bind_eq_bind, Option.bind_some, if_neg hopen]
    exact hlast'

/-- The call for the rest of a body hands over the response exactly when the handler returns. -/
lemma deliveredIn_busy {x : SizedResponse} {part : List UInt8}
    (hbusy : Busy call.conn.server x.header x.body.length got []) (hsettled : Settled call.conn)
    (hdata : call.data = part ++ after) (hbody : got ++ part = x.body) (hpart : part ≠ [])
    (hlen : call.data.length ≤ maxReqSize) :
    DeliveredIn call.config call.conn call.data [] x ↔
      (respond call.config call.conn x.header x.body).isSome := by
  have hne : part ++ after ≠ [] := List.append_ne_nil_of_left_ne_nil hpart _
  obtain ⟨tail, hrecv⟩ := receive_empty hbusy.offset (by rwa [hdata]) hlen
  obtain ⟨start, hstart⟩ : ∃ start, start =
    startCall call.config call.conn (call.data ++ tail) (call.conn.server.offset + call.data.length) := ⟨_, rfl⟩
  have hbusy' : Busy start.conn.server x.header x.body.length got (part ++ after) := by
    rw [hstart, ← hdata]
    exact hbusy.startCall call.data tail
  have hlength := congrArg List.length hbody
  rw [List.length_append] at hlength
  have hsame : respond start.config start.conn x.header (got ++ part) =
      respond call.config call.conn x.header x.body := by
    rw [hbody, hstart]
    rfl
  obtain ⟨hsome, hnone⟩ := turn_busy hbusy' x.isResponseHeader.isString hlength hne (by rw [hstart]; simp [startCall])
    (by rw [hstart]; exact hsettled.state)
  rw [hsame] at hsome hnone
  constructor
  · rintro ⟨buf, r, hrecv', hpass, -⟩
    obtain rfl := Option.some.inj (hrecv.symm.trans hrecv')
    rw [← hstart] at hpass
    obtain ⟨r₁, hround⟩ := hpass.turns
    by_contra hno
    rw [hnone (by simpa using hno)] at hround
    cases hround
  · intro hreturns
    obtain ⟨run, hrun⟩ := Option.isSome_iff_exists.mp hreturns
    obtain ⟨r₁, hround, hrequest, hone⟩ := hsome run hrun
    obtain ⟨handler, -, hdispatched, -⟩ := respond_dispatched hrun
    refine ⟨_, r₁, hrecv, ?_, hrequest, handler, ?_⟩
    · rw [← hstart]
      exact .here hround
    · rw [hone, hdispatched, hstart]
      rfl

end Later

/-! ## Prompt delivery -/

section Prompt

variable {env : Interleaving} {call : ServerCall} {r : ServerResult} {rest after : List UInt8} {x : SizedResponse}
  {conn : ProxyConn}

/-- All of the response is there: it is handed over in the next round, if there are bytes for one. -/
lemma prompt_here (hbegins : Begins call r (x.header ++ rest)) (hsettled : Settled call.conn)
    (hsplit : rest = x.body ++ after)
    (hparse : parseHeader r.conn call.data.length = some conn)
    (hbusy : Busy conn.server x.header x.body.length [] rest) (hcore : conn.core = r.conn.core) :
    Prompt env call r.dispatched [] x ↔ rest ≠ [] ∧ (respond r.config r.conn x.header x.body).isSome := by
  obtain ⟨hsettled', hret, -⟩ := hbegins.idle hsettled
  have hstate : conn.state ≠ .uk := by
    rw [state_eq_of_core hcore]
    exact hsettled'.state
  have hrespond := respond_congr hcore r.config x.header x.body
  constructor
  · rintro ⟨last, hlast, hdelivered⟩
    obtain rfl := Option.some.inj hlast
    obtain ⟨conn', r', hparse', hpass, -⟩ := hbegins.later_round hdelivered
    obtain rfl := Option.some.inj (hparse.symm.trans hparse')
    obtain ⟨r₁, hround⟩ := hpass.turns
    have hoffset := (turn_goes hround).1
    have hne : rest ≠ [] := by
      rintro rfl
      rw [hbusy.offset] at hoffset
      exact lt_irrefl _ hoffset
    refine ⟨hne, ?_⟩
    subst hsplit
    obtain ⟨-, hnone⟩ := turn_busy (r := { r with conn := conn }) hbusy x.isResponseHeader.isString
      (Nat.zero_add _) hne (show r.ret ≠ -1 by omega) hstate
    rw [← hrespond]
    by_contra hno
    rw [hnone (by simpa using hno)] at hround
    cases hround
  · rintro ⟨hne, hreturns⟩
    subst hsplit
    obtain ⟨run, hrun⟩ := Option.isSome_iff_exists.mp hreturns
    rw [← hrespond] at hrun
    obtain ⟨hsome, -⟩ := turn_busy (r := { r with conn := conn }) hbusy x.isResponseHeader.isString
      (Nat.zero_add _) hne (show r.ret ≠ -1 by omega) hstate
    obtain ⟨r₁, hround, hrequest, hone⟩ := hsome run hrun
    obtain ⟨handler, -, hdispatched, -⟩ := respond_dispatched hrun
    obtain ⟨buf, hrecv, hpass⟩ := hbegins.passes
    have hpos := List.length_pos_of_ne_nil hbegins.first_ne
    refine ⟨call, rfl, buf, r₁, hrecv, ?_, hrequest, handler, ?_⟩
    · apply hpass.beyond
      exact ⟨by rw [hbegins.offset]; omega, conn, hparse, .here hround⟩
    · rw [if_pos rfl, hone, hdispatched]

variable (env) in
/-- A part of the body arrives later: the response is handed over in the call for its last byte. -/
lemma prompt_later (hbegins : Begins call r (x.header ++ rest)) (hsettled : Settled call.conn)
    (hempty : call.conn.server.offset = 0) {data : List UInt8} {later : List (List UInt8)}
    (hresults : AreResults (data :: later)) (hsplit : rest ++ (data :: later).flatten = x.body ++ after)
    (hlast : ∀ last ∈ (data :: later).getLast?, after.length < last.length) (hfits : x.header.length < maxReqSize)
    (hlength : StatesBody x.header x.body.length) :
    rest.length < x.body.length ∧
      (Prompt env call r.dispatched (data :: later) x ↔ HandlerReturns env call r x (data :: later)) := by
  obtain ⟨hsettled', hret, hidle⟩ := hbegins.idle hsettled
  obtain ⟨hwithin, fuel, hfuel, heq⟩ := hbegins.call_eq hsettled hempty
  have hheader := x.isResponseHeader.endsSearch.length_pos
  rw [List.length_append] at hwithin hfuel
  -- the bytes behind the response are in the last result
  have hmore := lt_length_flatten hlast
  have hlengths := congrArg List.length hsplit
  rw [List.length_append, List.length_append] at hlengths
  refine ⟨by omega, ?_⟩
  have hle : x.header.length ≤ call.data.length := by omega
  rcases serverLoop_header fuel x.isResponseHeader hfits hidle hle (by omega) with
    ⟨-, hno⟩ | ⟨n, conn, hn, hloop, hbusy, -⟩
  · exact absurd ⟨_, hlength⟩ hno
  · have hsame : n = x.body.length := hn.unique x.isResponseHeader hlength
    subst hsame
    obtain ⟨fuel, rfl⟩ := Nat.exists_eq_add_of_lt (show 0 < fuel by omega)
    obtain ⟨conn', hloop', hbusy', -⟩ := serverLoop_within (r := { r with conn := conn }) call.data.length (0 + fuel)
      hbusy (by simpa using (show rest.length < x.body.length by omega)) hret
    have hcall : handlerServer call.config call.conn call.data = some { r with conn := conn' } := by
      rw [heq, hloop, hloop']
    have hbetween := env.between 0 conn'
    obtain ⟨last, got, part, hlastCall, hsettled₁, hbusy₁, hdata, hbody, hpart, hlen⟩ :=
      lastCall_busy env ⟨(env.before 0 conn').1, (env.before 0 conn').2, data⟩ 1
        (hbusy'.of_transport hbetween.transport) (hbetween.settled (handlerServer_settled hsettled hcall)) hresults
        hsplit hlast
    have hlastCall' : env.lastCall 0 call (data :: later) = some last := by
      rw [Interleaving.lastCall, hcall, Option.bind_eq_bind, Option.bind_some]
      simp only [not_lt.mpr hret, if_false]
      exact hlastCall
    have hdelivered := deliveredIn_busy hbusy₁ hsettled₁ hdata hbody hpart hlen
    unfold Prompt HandlerReturns
    simp only [hlastCall', Option.some.injEq, exists_eq_left', forall_eq', List.cons_ne_nil, if_false]
    exact hdelivered

variable (env) in
/-- Once the length of the body is stated, it is handed over where the handler returns, if it has a body or bytes
are left for a round. -/
lemma prompt_iff_of_statesBody (hbegins : Begins call r (x.header ++ rest)) (hsettled : Settled call.conn)
    (hempty : call.conn.server.offset = 0) {later : List (List UInt8)} (hresults : AreResults later)
    (hsplit : rest ++ later.flatten = x.body ++ after)
    (hlast : ∀ last ∈ later.getLast?, after.length < last.length) (hle : x.header.length ≤ call.data.length)
    (hfits : x.header.length < maxReqSize) (hlength : StatesBody x.header x.body.length) :
    Prompt env call r.dispatched later x ↔
      (x.body ≠ [] ∨ x.header.length < (x.header ++ rest).length) ∧ HandlerReturns env call r x later := by
  obtain ⟨-, -, hidle⟩ := hbegins.idle hsettled
  rcases parseHeader_whole x.isResponseHeader hfits hidle hle with ⟨-, hno⟩ | ⟨n, conn, hn, hparse, hbusy, hcore⟩
  · exact absurd ⟨_, hlength⟩ hno
  have hsame : n = x.body.length := hn.unique x.isResponseHeader hlength
  subst hsame
  cases later with
  | nil =>
    rw [List.flatten_nil, List.append_nil] at hsplit
    rw [prompt_here hbegins hsettled hsplit hparse hbusy hcore]
    apply and_congr_left
    intro _
    rw [List.length_append, Nat.lt_add_right_iff_pos, List.length_pos_iff, or_iff_right_of_imp]
    intro hbody
    rw [hsplit]
    exact List.append_ne_nil_of_left_ne_nil hbody _
  | cons data later =>
    obtain ⟨hlt, hiff⟩ := prompt_later env hbegins hsettled hempty hresults hsplit hlast hfits hlength
    have hbody : x.body ≠ [] := List.ne_nil_of_length_pos (by omega)
    rw [hiff, and_iff_right (Or.inl hbody)]

end Prompt

/-- A response is handed over in the call that its last byte is received in exactly when the connection is not
lost, its header section arrives with its first byte and states the length of the body, it has a body or more
arrives behind the header section, and the handler returns. -/
theorem delivered_promptly_iff {config : Config} {w : ProxyState} (hreach : Reachable config w) {call : ServerCall}
    (hconn : call.conn ∈ w.conns) (env : Interleaving) (x : SizedResponse) {r : ServerResult}
    {first after : List UInt8} {later : List (List UInt8)}
    (hbegins : ¬Lost call.conn.server → Begins call r first) (hresults : AreResults later)
    (hsplit : first ++ later.flatten = x.text ++ after)
    (hlast : ∀ last ∈ (first :: later).getLast?, after.length < last.length) :
    Prompt env call r.dispatched later x ↔
      ¬Lost call.conn.server ∧ ReadInTime first x ∧ HandlerReturns env call r x later := by
  by_cases hlost : Lost call.conn.server
  · refine iff_of_false ?_ fun h => h.1 hlost
    rintro ⟨last, hlastCall, hdelivered⟩
    exact (hlost.lastCall hlastCall).not_deliveredIn hdelivered
  have hsettled := hreach.settled _ hconn
  have hempty := (hreach.lost_or_empty _ hconn).resolve_left hlost
  have hb := hbegins hlost
  obtain ⟨-, -, hidle⟩ := hb.idle hsettled
  obtain ⟨hwithin, -⟩ := hb.call_eq hsettled hempty
  have hlengths := congrArg List.length hsplit
  rw [SizedResponse.text, List.append_assoc, List.length_append, List.length_append] at hlengths
  rcases lt_or_ge first.length x.header.length with hcut | hwhole
  · refine iff_of_false ?_ fun h => absurd h.2.1.whole (not_le.mpr hcut)
    obtain ⟨post, hpost⟩ : first <+: x.header :=
      List.prefix_of_prefix_length_le ⟨later.flatten, hsplit⟩ ⟨x.body ++ after, by simp [SizedResponse.text]⟩ hcut.le
    apply hb.not_prompt_of_cut hsettled hempty hpost.symm
    · rintro rfl
      rw [List.append_nil] at hpost
      rw [hpost] at hcut
      exact lt_irrefl _ hcut
    · rintro rfl
      rw [List.flatten_nil, List.length_nil] at hlengths
      omega
  · obtain ⟨rest, rfl⟩ : x.header <+: first :=
      List.prefix_of_prefix_length_le ⟨x.body ++ after, by simp [SizedResponse.text]⟩ ⟨later.flatten, hsplit⟩ hwhole
    have hrest : rest ++ later.flatten = x.body ++ after := by
      simpa [SizedResponse.text] using hsplit
    have hle := hwhole.trans hwithin
    have hlast' : ∀ last ∈ later.getLast?, after.length < last.length := by
      cases later with
      | nil => simp
      | cons data later => exact fun last hmem => hlast last (by rw [List.getLast?_cons_cons]; exact hmem)
    rcases le_or_gt maxReqSize x.header.length with hlong | hfits
    · refine iff_of_false ?_ fun h => absurd h.2.1.fits (not_lt.mpr hlong)
      exact hb.not_prompt_of_none hsettled hempty (parseHeader_long x.isResponseHeader.endsSearch hidle hle hlong)
    · by_cases hlength : StatesBody x.header x.body.length
      · rw [prompt_iff_of_statesBody env hb hsettled hempty hresults hrest hlast' hle hfits hlength]
        exact ⟨fun h => ⟨hlost, ⟨hwhole, hfits, hlength, h.1⟩, h.2⟩, fun h => ⟨h.2.1.more, h.2.2⟩⟩
      · exact iff_of_false (fun h => hlength (h.statesBody hb hsettled hempty)) fun h => hlength h.2.1.length

section Example

lemma turn_idle {r : ServerResult} {held : List UInt8} (hidle : Idle r.conn.server held) (hheld : held ≠ [])
    (hret : r.ret ≠ -1) : turn r = some r := by
  have hpos := List.length_pos_of_ne_nil hheld
  have hoffset : r.conn.server.offset > 0 := by
    rw [hidle.offset]
    omega
  have hdrain : drainBody r.conn = some r.conn := by
    rw [drainBody, if_pos hidle.toSend.le]
    rfl
  rw [turn, if_pos ⟨hoffset, hidle.isReady, hret⟩, hdrain, Option.bind_eq_bind, Option.bind_some]
  simp only [dispatch, hidle.request]
  rfl

/-- A response that arrives on a new connection begins there. -/
lemma begins_new (data : List UInt8) (hne : data ≠ []) (hlen : data.length ≤ maxReqSize) :
    Begins ⟨newConfig, proxyConnCreate newConfig (bytes "1.0.0.1") (some 5), data⟩
      (startCall newConfig (proxyConnCreate newConfig (bytes "1.0.0.1") (some 5)) data data.length) data := by
  have hoffset : (0 : Int) + data.length = data.length := zero_add _
  have hidle : Idle (startCall newConfig (proxyConnCreate newConfig (bytes "1.0.0.1") (some 5)) data
      data.length).conn.server data := ⟨rfl, rfl, rfl, [], (List.append_nil data).symm⟩
  have hfits : ¬(data = [] ∨ (0 : Int) < 0 ∨ (maxReqSize : Int) < 0 + data.length) := by
    rintro (h | h | h)
    · exact hne h
    · omega
    · omega
  refine ⟨⟨data, ?_, .here ?_⟩, hne, rfl, [], (List.append_nil data).symm⟩
  · change receive [] 0 data = some data
    rw [receive, if_neg hfits]
    simp [put]
  · change turn (startCall _ _ data (0 + data.length)) = _
    rw [hoffset]
    exact turn_idle hidle hne (by simp [startCall])

/-- Behind a page the header section of another and its first byte are received. -/
def pipelined : ServerCall :=
  ⟨newConfig, proxyConnCreate newConfig (bytes "1.0.0.1") (some 5), sizedPage.text ++ threeBytes.header ++ bytes "y"⟩

lemma begins_pipelined :
    ∃ r, Begins pipelined r (threeBytes.header ++ bytes "y") ∧ r.dispatched.map Dispatched.body = [sizedPage.body] := by
  have hrounds : ((receive [] 0 pipelined.data).bind fun buf =>
      (turn (startCall pipelined.config pipelined.conn buf pipelined.data.length)).bind fun r₁ =>
        (parseHeader r₁.conn pipelined.data.length).bind fun conn => (turn { r₁ with conn := conn }).map fun r =>
          (decide (0 < r₁.conn.server.offset), r.conn.server.offset, r.conn.server.buf.take 39,
            r.dispatched.map Dispatched.body)) =
      some (true, 39, threeBytes.header ++ bytes "y", [sizedPage.body]) := by
    decide +kernel
  obtain ⟨buf, hrecv, hrounds⟩ := Option.bind_eq_some_iff.mp hrounds
  obtain ⟨r₁, hfirst, hrounds⟩ := Option.bind_eq_some_iff.mp hrounds
  obtain ⟨conn, hparse, hrounds⟩ := Option.bind_eq_some_iff.mp hrounds
  obtain ⟨r, hsecond, hrounds⟩ := Option.map_eq_some_iff.mp hrounds
  simp only [Prod.mk.injEq, decide_eq_true_eq] at hrounds
  obtain ⟨hoffset, hleft, hbuf, hbodies⟩ := hrounds
  have hstart : startCall pipelined.config pipelined.conn buf (pipelined.conn.server.offset + pipelined.data.length) =
      startCall pipelined.config pipelined.conn buf pipelined.data.length := by
    rw [show pipelined.conn.server.offset = 0 from rfl, zero_add]
  refine ⟨r, ⟨⟨buf, hrecv, hstart ▸ .later hfirst hoffset hparse (.here hsecond)⟩, by decide, hleft,
    r.conn.server.buf.drop 39, ?_⟩, hbodies⟩
  rw [← hbuf, List.take_append_drop]

/-- The second page is handed over in the call that its last bytes arrive in. -/
theorem delivered_promptly_iff_page :
    ∃ r, Begins pipelined r (threeBytes.header ++ bytes "y") ∧ r.dispatched.map Dispatched.body = [sizedPage.body] ∧
      Prompt quiet pipelined r.dispatched [bytes "es"] threeBytes := by
  obtain ⟨r, hbegins, hbodies⟩ := begins_pipelined
  refine ⟨r, hbegins, hbodies, ?_⟩
  have hsplit : threeBytes.header ++ bytes "y" ++ [bytes "es"].flatten = threeBytes.text ++ [] := by decide
  apply (delivered_promptly_iff reachable_one (List.mem_singleton.mpr rfl) quiet threeBytes (fun _ => hbegins)
    (by unfold AreResults; decide) hsplit (by decide)).mpr
  refine ⟨by unfold Lost; decide, ⟨by decide, by decide,
    ⟨threeBytes_fieldFirst.statesLength (by decide), by decide⟩, Or.inl (by decide)⟩, fun last hlast => ?_⟩
  have hreturns : ((quiet.lastCall 0 pipelined [bytes "es"]).map fun last =>
      (respond last.config last.conn threeBytes.header threeBytes.body).isSome) = some true := by
    decide +kernel
  rw [hlast] at hreturns
  exact Option.some.inj hreturns

/-- A response without a body. -/
def emptyReply : SizedResponse where
  lines := [bytes "HTTP/1.1 200 OK", bytes "Content-Length: 0"]
  body := []
  isLine := by decide
  lengthLine := ⟨bytes "Content-Length: ", by decide⟩

lemma emptyReply_parse :
    ((parseHeader (startCall newConfig (proxyConnCreate newConfig (bytes "1.0.0.1") (some 5)) emptyReply.text
      emptyReply.text.length).conn emptyReply.text.length).map fun conn => conn.server.offset) = some 0 := by
  decide +kernel

/-- A response without a body is held back when nothing follows it. -/
theorem empty_reply_held_back :
    ¬∀ (config : Config) (w : ProxyState), Reachable config w → ∀ call : ServerCall, call.conn ∈ w.conns →
      ∀ (env : Interleaving) (x : SizedResponse) (r : ServerResult) (first after : List UInt8)
      (later : List (List UInt8)), Begins call r first → AreResults later →
      first ++ later.flatten = x.text ++ after → (∀ last ∈ (first :: later).getLast?, after.length < last.length) →
      x.header.length ≤ first.length → x.header.length < maxReqSize → StatesBody x.header x.body.length →
      HandlerReturns env call r x later → Prompt env call r.dispatched later x := by
  intro h
  have hbegins := begins_new emptyReply.text (by decide) (by decide)
  have hfirst : emptyReply.FieldFirst := ⟨[bytes "HTTP/1.1 200 OK"], bytes "Content-Length: ", [], by decide⟩
  obtain ⟨last, hlast, hdelivered⟩ := h newConfig _ reachable_one
    ⟨newConfig, proxyConnCreate newConfig (bytes "1.0.0.1") (some 5), emptyReply.text⟩ (List.mem_singleton.mpr rfl)
    quiet emptyReply _ emptyReply.text [] [] hbegins (by simp [AreResults]) (List.append_nil _) (by decide)
    (by decide) (by decide) ⟨hfirst.statesLength (by decide), by decide⟩ (by unfold HandlerReturns; decide)
  obtain rfl := Option.some.inj hlast
  obtain ⟨conn, r', hparse, hpass, -⟩ := hbegins.later_round hdelivered
  obtain ⟨r₁, hround⟩ := hpass.turns
  have hoffset := (turn_goes hround).1
  have hzero := emptyReply_parse
  have hparse' : parseHeader (startCall newConfig (proxyConnCreate newConfig (bytes "1.0.0.1") (some 5))
      emptyReply.text emptyReply.text.length).conn emptyReply.text.length = some conn := hparse
  rw [hparse', Option.map_some, Option.some.injEq] at hzero
  exact absurd hoffset (by simp only [hzero]; decide)

end Example

end VideoCDN.Proxy
