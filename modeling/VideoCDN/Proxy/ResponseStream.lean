import VideoCDN.Proxy.ServerLoop

/-!
# The stream of responses

A header section is looked for once, in what its first bytes arrived with. So the responses of a
stream go to the handlers exactly when no `recv` result ends inside a header section, every header
section states the length of its body first, and the handlers can handle the responses.
-/

namespace VideoCDN.Proxy

open CString Buffer Http

/-- The calls for successive results; a negative value closes the connection. -/
def serverRun : Config → ProxyConn → List (List UInt8) → Option ServerRun
  | config, conn, [] => some ⟨config, conn, [], []⟩
  | config, conn, data :: chunks => do
    let r ← handlerServer config conn data
    if r.ret < 0 then none
    else
      let run ← serverRun r.config r.conn chunks
      return { run with sent := r.sent ++ run.sent, dispatched := r.dispatched ++ run.dispatched }

/-- The bytes of a sequence of responses. -/
def stream (responses : List Response) : List UInt8 := responses.flatMap Response.text

/-- The first `n` bytes end inside a header section. -/
def CutsHeader (responses : List Response) (n : Nat) : Prop :=
  ∃ before x after, responses = before ++ x :: after ∧ (stream before).length < n ∧
    n < (stream before).length + x.header.length

/-- How much has arrived after each `recv`, where `n` bytes had before. -/
def arrived : Nat → List (List UInt8) → List Nat
  | n, [] => [n]
  | n, data :: chunks => n :: arrived (n + data.length) chunks

/-- Header section and body of each response. -/
def pairs (responses : List Response) : List (List UInt8 × List UInt8) := responses.map fun x => (x.header, x.body)

/-- The responses of a stream go to the handlers, in order. -/
def DispatchesAll (config : Config) (conn : ProxyConn) (responses : List Response) (chunks : List (List UInt8)) :
    Prop :=
  ∃ run, serverRun config conn chunks = some run ∧ handled run.dispatched = pairs responses

/-! ## Cuts -/

lemma not_cutsHeader_zero (responses : List Response) : ¬CutsHeader responses 0 := by
  rintro ⟨before, x, after, -, hlt, -⟩
  omega

lemma stream_cons (x : Response) (responses : List Response) :
    stream (x :: responses) = x.header ++ (x.body ++ stream responses) := by
  simp [stream, Response.text]

lemma length_stream_cons (x : Response) (responses : List Response) :
    (stream (x :: responses)).length = x.text.length + (stream responses).length := by
  rw [stream, List.flatMap_cons, List.length_append]
  rfl

lemma cutsHeader_cons (x : Response) (responses : List Response) (n : Nat) :
    CutsHeader (x :: responses) n ↔
      (0 < n ∧ n < x.header.length) ∨ CutsHeader responses (n - x.text.length) := by
  constructor
  · rintro ⟨before, y, after, hsplit, hlt, hgt⟩
    cases before with
    | nil =>
      obtain ⟨rfl, -⟩ := List.cons.inj hsplit
      left
      simpa [stream] using And.intro hlt hgt
    | cons z before =>
      obtain ⟨rfl, hrest⟩ := List.cons.inj hsplit
      rw [length_stream_cons] at hlt hgt
      exact Or.inr ⟨before, y, after, hrest, by omega, by omega⟩
  · rintro (⟨hpos, hlt⟩ | ⟨before, y, after, rfl, hlt, hgt⟩)
    · exact ⟨[], x, responses, rfl, by simpa [stream] using hpos, by simpa [stream] using hlt⟩
    · refine ⟨x :: before, y, after, rfl, ?_, ?_⟩
      · rw [length_stream_cons]
        omega
      · rw [length_stream_cons]
        omega

instance decidableCutsHeader : (responses : List Response) → (n : Nat) → Decidable (CutsHeader responses n)
  | [], _ => isFalse fun ⟨_, _, _, hnil, _⟩ => List.append_ne_nil_of_right_ne_nil _ (List.cons_ne_nil _ _) hnil.symm
  | x :: responses, n =>
    have := decidableCutsHeader responses (n - x.text.length)
    decidable_of_iff _ (cutsHeader_cons x responses n).symm

lemma le_of_mem_arrived {n m : Nat} {chunks : List (List UInt8)} (h : m ∈ arrived n chunks) : n ≤ m := by
  induction chunks generalizing n with
  | nil => exact (List.mem_singleton.mp h).ge
  | cons data chunks ih =>
    rcases List.mem_cons.mp h with rfl | h
    · exact le_rfl
    · exact (Nat.le_add_right n data.length).trans (ih h)

lemma self_mem_arrived (n : Nat) (chunks : List (List UInt8)) : n ∈ arrived n chunks := by
  cases chunks <;> exact List.mem_cons_self

/-- Where a header section has arrived already, only later ones can be cut. -/
lemma cuts_after_header (x : Response) (responses : List Response) {base n : Nat} (chunks : List (List UInt8))
    (hn : base + x.header.length ≤ n) :
    (∀ m ∈ arrived n chunks, ¬CutsHeader (x :: responses) (m - base)) ↔
      ∀ m ∈ arrived n chunks, ¬CutsHeader responses (m - (base + x.text.length)) := by
  refine forall₂_congr fun m hm => not_congr ?_
  have hle := le_of_mem_arrived hm
  rw [cutsHeader_cons, Nat.sub_sub]
  constructor
  · rintro (⟨-, hlt⟩ | h)
    · omega
    · exact h
  · exact Or.inr

/-- A position before the responses cuts none of them. -/
lemma cuts_cons_chunk (responses : List Response) {base n : Nat} (hn : n ≤ base) (data : List UInt8)
    (chunks : List (List UInt8)) :
    (∀ m ∈ arrived n (data :: chunks), ¬CutsHeader responses (m - base)) ↔
      ∀ m ∈ arrived (n + data.length) chunks, ¬CutsHeader responses (m - base) := by
  rw [arrived, List.forall_mem_cons, Nat.sub_eq_zero_of_le hn]
  simp [not_cutsHeader_zero]

/-! ## The rest of a run -/

section Rest

variable {config : Config} {conn : ProxyConn} {chunks : List (List UInt8)} {recvlen fuel : Nat}
  {r r' : ServerResult} {P : Server → Prop}

/-- The run from a round of the loop on. -/
def finish (recvlen fuel : Nat) (r : ServerResult) (chunks : List (List UInt8)) : Option ServerRun := do
  let r ← serverLoop recvlen fuel r
  if r.ret < 0 then none
  else
    let run ← serverRun r.config r.conn chunks
    return { run with sent := r.sent ++ run.sent, dispatched := r.dispatched ++ run.dispatched }

/-- These responses are handled from there on, and the connection ends in a state with `P`. -/
def Completes (P : Server → Prop) (recvlen fuel : Nat) (r : ServerResult) (chunks : List (List UInt8))
    (responses : List Response) : Prop :=
  ∃ run, finish recvlen fuel r chunks = some run ∧
    handled run.dispatched = handled r.dispatched ++ pairs responses ∧ P run.conn.server

/-- The start of a call. -/
def startCall (config : Config) (conn : ProxyConn) (buf : List UInt8) (offset : Int) : ServerResult :=
  ⟨0, config, conn.setServer fun s => { s with buf := buf, offset := offset }, [], []⟩

lemma handlerServer_eq (config : Config) (conn : ProxyConn) (data : List UInt8) :
    handlerServer config conn data = (receive conn.server.buf conn.server.offset data).bind fun buf =>
      serverLoop data.length (data.length + 1) (startCall config conn buf (conn.server.offset + data.length)) := rfl

lemma handlerServer_eq_some {data : List UInt8} (h : handlerServer config conn data = some r) :
    ∃ buf, receive conn.server.buf conn.server.offset data = some buf ∧
      serverLoop data.length (data.length + 1) (startCall config conn buf (conn.server.offset + data.length)) =
        some r :=
  Option.bind_eq_some_iff.mp h

/-- A call that returns and keeps the connection comes before the others. -/
lemma serverRun_cons_eq_some {data : List UInt8} {run : ServerRun}
    (h : serverRun config conn (data :: chunks) = some run) :
    ∃ r later, handlerServer config conn data = some r ∧ ¬r.ret < 0 ∧
      serverRun r.config r.conn chunks = some later ∧
      run = { later with sent := r.sent ++ later.sent, dispatched := r.dispatched ++ later.dispatched } := by
  obtain ⟨r, hcall, h⟩ := Option.bind_eq_some_iff.mp h
  split at h
  · cases h
  · rename_i hret
    obtain ⟨later, hlater, h⟩ := Option.bind_eq_some_iff.mp h
    exact ⟨r, later, hcall, hret, hlater, (Option.some.inj h).symm⟩

lemma finish_eq_some {run : ServerRun} (h : finish recvlen fuel r chunks = some run) :
    ∃ r' later, serverLoop recvlen fuel r = some r' ∧ ¬r'.ret < 0 ∧
      serverRun r'.config r'.conn chunks = some later ∧
      run = { later with sent := r'.sent ++ later.sent, dispatched := r'.dispatched ++ later.dispatched } := by
  obtain ⟨r', hloop, h⟩ := Option.bind_eq_some_iff.mp h
  split at h
  · cases h
  · rename_i hret
    obtain ⟨later, hlater, h⟩ := Option.bind_eq_some_iff.mp h
    exact ⟨r', later, hloop, hret, hlater, (Option.some.inj h).symm⟩

lemma serverRun_cons {data buf : List UInt8}
    (hrecv : receive conn.server.buf conn.server.offset data = some buf) :
    serverRun config conn (data :: chunks) =
      finish data.length (data.length + 1) (startCall config conn buf (conn.server.offset + data.length)) chunks := by
  simp only [serverRun, finish, handlerServer_eq, hrecv, Option.bind_eq_bind, Option.bind_some]

/-- Where the loop ends, the run goes on with the next call. -/
lemma completes_cons {data buf : List UInt8} (hloop : serverLoop recvlen fuel r = some r') (hret : ¬r'.ret < 0)
    (hsame : r'.dispatched = r.dispatched) (hrecv : receive r'.conn.server.buf r'.conn.server.offset data = some buf)
    (responses : List Response) :
    Completes P recvlen fuel r (data :: chunks) responses ↔
      Completes P data.length (data.length + 1)
        (startCall r'.config r'.conn buf (r'.conn.server.offset + data.length)) chunks responses := by
  have hrun : serverRun r'.config r'.conn (data :: chunks) = finish data.length (data.length + 1)
      (startCall r'.config r'.conn buf (r'.conn.server.offset + data.length)) chunks := serverRun_cons hrecv
  unfold Completes
  rw [← hrun]
  simp only [finish, hloop, Option.bind_eq_bind, Option.bind_some, if_neg hret, hsame, startCall, handled,
    List.map_nil, List.nil_append]
  cases serverRun r'.config r'.conn (data :: chunks) with
  | none => simp
  | some run => simp

lemma serverRun_lost {run : ServerRun} (hlost : Lost conn.server) (h : serverRun config conn chunks = some run) :
    run.dispatched = [] := by
  induction chunks generalizing config conn run with
  | nil =>
    obtain rfl := Option.some.inj h
    rfl
  | cons data chunks ih =>
    obtain ⟨r, later, hcall, -, hlater, rfl⟩ := serverRun_cons_eq_some h
    obtain ⟨buf, hrecv, hloop⟩ := handlerServer_eq_some hcall
    -- the next bytes are only appended
    have hnot : conn.server.isReady = false := by
      rcases hlost with hno | hneg
      · exact hno
      · unfold receive at hrecv
        rw [if_pos (Or.inr (Or.inl hneg))] at hrecv
        cases hrecv
    have hnot' : (startCall config conn buf (conn.server.offset + data.length)).conn.server.isReady = false := hnot
    rw [serverLoop, if_neg (by simp [hnot'])] at hloop
    obtain rfl := Option.some.inj hloop
    simpa [startCall] using ih (Or.inl hnot') hlater

lemma serverRun_pending {run : ServerRun} {m : Int} (hpending : Pending conn.server m)
    (h : serverRun config conn chunks = some run) : ∀ d, run.dispatched.head? = some d → d.body.length = m.toNat := by
  induction chunks generalizing config conn run with
  | nil =>
    obtain rfl := Option.some.inj h
    simp
  | cons data chunks ih =>
    obtain ⟨r, later, hcall, hret, hlater, rfl⟩ := serverRun_cons_eq_some h
    obtain ⟨buf, -, hloop⟩ := handlerServer_eq_some hcall
    rcases serverLoop_pending (r := startCall config conn buf (conn.server.offset + data.length)) hpending hloop with
      hclosed | ⟨hsame, hpending'⟩ | ⟨d, ds, hds, hlen⟩
    · omega
    · simpa [hsame, startCall] using ih hpending' hlater
    · simp [hds, startCall, hlen]

/-- A response whose body was taken to have another length is not handled as it is. -/
lemma not_completes_pending {m : Int} (hpending : Pending r.conn.server m) (x : Response)
    (hm : m.toNat ≠ x.body.length) (responses : List Response) :
    ¬Completes P recvlen fuel r chunks (x :: responses) := by
  rintro ⟨log, hfinish, hlog, -⟩
  obtain ⟨r', run, hloop, hret, hrun, rfl⟩ := finish_eq_some hfinish
  have hfirst : ∃ d ds, r'.dispatched ++ run.dispatched = r.dispatched ++ d :: ds ∧ d.body.length = m.toNat := by
    rcases serverLoop_pending hpending hloop with hclosed | ⟨hsame, hpending'⟩ | ⟨d, ds, hds, hlen⟩
    · omega
    · have hhead := serverRun_pending hpending' hrun
      cases hrest : run.dispatched with
      | nil => simp [hsame, hrest, handled, pairs] at hlog
      | cons d ds => exact ⟨d, ds, by rw [hsame], hhead d (by rw [hrest]; rfl)⟩
    · exact ⟨d, ds ++ run.dispatched, by simp [hds], hlen⟩
  obtain ⟨d, ds, hds, hlen⟩ := hfirst
  rw [hds] at hlog
  simp only [handled, pairs, List.map_append, List.map_cons, List.append_cancel_left_eq, List.cons.injEq,
    Prod.mk.injEq] at hlog
  rw [hlog.1.2] at hlen
  exact hm hlen.symm

/-- A response whose header section was cut is not handled. -/
lemma not_completes_cut (x : Response) {held post : List UInt8} (hidle : Idle r.conn.server held)
    (hheader : x.header = held ++ post) (hheld : held ≠ []) (hpost : post ≠ []) (hle : held.length ≤ recvlen)
    (hret : 0 ≤ r.ret) (responses : List Response) :
    ¬Completes P recvlen (fuel + 1) r chunks (x :: responses) := by
  rintro ⟨log, hfinish, hlog, -⟩
  obtain ⟨r', run, hloop, -, hrun, rfl⟩ := finish_eq_some hfinish
  obtain ⟨hsame, hlost⟩ := serverLoop_cut x.isResponseHeader.endsSearch hidle hheader hheld hpost hle (by omega) hloop
  simp [hsame, serverRun_lost hlost hrun, handled, pairs] at hlog

/-- `recv` results are not empty, and not longer than asked for. -/
def AreResults (chunks : List (List UInt8)) : Prop := ∀ d ∈ chunks, d ≠ [] ∧ d.length ≤ maxReqSize

/-- The responses, which begin at `base`, are not cut, where `n` bytes have arrived, state their
lengths and can be handled. -/
structure Deliverable (config : Config) (conn : ProxyConn) (base n : Nat) (responses : List Response)
    (chunks : List (List UInt8)) : Prop where
  uncut : ∀ m ∈ arrived n chunks, ¬CutsHeader responses (m - base)
  lengths : ∀ x ∈ responses, StatesBody x.header x.body.length
  handled : (respondAll config conn (pairs responses)).isSome

/-- The same while the body of a response before them is received. -/
structure BodyDeliverable (config : Config) (conn : ProxyConn) (base n : Nat) (x : Response)
    (responses : List Response) (chunks : List (List UInt8)) : Prop where
  uncut : ∀ m ∈ arrived n chunks, ¬CutsHeader responses (m - base)
  lengths : ∀ x ∈ responses, StatesBody x.header x.body.length
  handled : (respondAll config conn (pairs (x :: responses))).isSome

lemma Deliverable.congr {conn' : ProxyConn} {base n : Nat} {responses : List Response}
    (hcore : conn'.core = conn.core) (h : Deliverable config conn base n responses chunks) :
    Deliverable config conn' base n responses chunks :=
  ⟨h.uncut, h.lengths, by rw [respondAll_congr hcore]; exact h.handled⟩

lemma BodyDeliverable.congr {conn' : ProxyConn} {base n : Nat} {x : Response} {responses : List Response}
    (hcore : conn'.core = conn.core) (h : BodyDeliverable config conn base n x responses chunks) :
    BodyDeliverable config conn' base n x responses chunks :=
  ⟨h.uncut, h.lengths, by rw [respondAll_congr hcore]; exact h.handled⟩

/-- From an idle connection exactly the deliverable responses are handled. -/
def IdleCompletes (P : Server → Prop) (responses : List Response) : Prop :=
  ∀ {recvlen fuel : Nat} {r : ServerResult} {held : List UInt8} {chunks : List (List UInt8)} (base : Nat),
    Idle r.conn.server held → held.length ≤ recvlen → held.length < fuel → 0 ≤ r.ret → AreResults chunks →
    held ++ chunks.flatten = stream responses →
    (Completes P recvlen fuel r chunks responses ↔
      Deliverable r.config r.conn base (base + held.length) responses chunks)

lemma AreResults.head {data : List UInt8} (h : AreResults (data :: chunks)) :
    data ≠ [] ∧ data.length ≤ maxReqSize := h data List.mem_cons_self

lemma AreResults.tail {data : List UInt8} (h : AreResults (data :: chunks)) : AreResults chunks :=
  fun d hd => h d (List.mem_cons_of_mem data hd)

lemma receive_empty {s : Server} {data : List UInt8} (hoffset : s.offset = 0) (hdata : data ≠ [])
    (hle : data.length ≤ maxReqSize) : ∃ tail, receive s.buf s.offset data = some (data ++ tail) := by
  rw [hoffset]
  exact receive_append [] s.buf hdata (by simpa using hle)

/-- A response whose body is complete is handled, and the others follow. -/
lemma completes_end (x : Response) {responses : List Response} (ih : IdleCompletes P responses)
    {got part rest : List UInt8} (hbusy : Busy r.conn.server x.header x.body.length got (part ++ rest))
    (hbody : got ++ part = x.body) (hpart : part ≠ []) (hle : (part ++ rest).length ≤ recvlen)
    (hfuel : (part ++ rest).length < fuel) (hret : 0 ≤ r.ret) (hchunks : AreResults chunks)
    (hstream : rest ++ chunks.flatten = stream responses) (base : Nat) :
    Completes P recvlen fuel r chunks (x :: responses) ↔
      BodyDeliverable r.config r.conn base (base + rest.length) x responses chunks := by
  obtain ⟨fuel, rfl⟩ := Nat.exists_eq_add_of_lt (Nat.zero_lt_of_lt hfuel)
  rw [Nat.zero_add] at hfuel ⊢
  rw [List.length_append] at hle hfuel
  have hlen : got.length + part.length = x.body.length := by
    rw [← hbody, List.length_append]
  have hhandled := respondAll_cons_isSome r.config r.conn x.header x.body (pairs responses)
  cases hrespond : respond r.config r.conn x.header x.body with
  | none =>
    rw [hrespond] at hhandled
    constructor
    · rintro ⟨run, hfinish, -⟩
      simp only [finish, Option.bind_eq_bind, Option.bind_eq_some_iff] at hfinish
      obtain ⟨r', hloop, h⟩ := hfinish
      rw [serverLoop_end_none hbusy hpart x.isResponseHeader.isString hlen (by omega) (by rw [hbody, hrespond])
        hloop] at h
      simp at h
    · intro h
      have := hhandled.symm.trans h.handled
      simp at this
  | some first =>
    rw [hrespond] at hhandled
    obtain ⟨r₁, hloop, hidle, hconfig, hcore, hret₁, hdispatched⟩ :=
      serverLoop_end recvlen fuel hbusy hpart x.isResponseHeader.isString hlen (by omega)
        (by rw [hbody, hrespond])
    have hpair : handled first.dispatched = [(x.header, x.body)] := by
      obtain ⟨handler, -, hd, -⟩ := respond_dispatched hrespond
      rw [hd]
      rfl
    have hcompletes : Completes P recvlen (fuel + 1) r chunks (x :: responses) ↔
        Completes P recvlen (fuel + 1) r₁ chunks responses := by
      have hexpected : handled r.dispatched ++ pairs (x :: responses) =
          handled r₁.dispatched ++ pairs responses := by
        simp only [hdispatched, handled, List.map_append, List.append_assoc] at hpair ⊢
        rw [hpair]
        rfl
      unfold Completes finish
      rw [hloop, hexpected]
    have hrest : (respondAll r₁.config r₁.conn (pairs responses)).isSome =
        (respondAll r.config r.conn (pairs (x :: responses))).isSome := by
      rw [← respondAll_core, hconfig, hcore]
      exact hhandled.symm
    rw [hcompletes, ih base hidle (by omega) (by omega) hret₁ hchunks hstream]
    constructor
    · rintro ⟨huncut, hlengths, hhandled⟩
      exact ⟨huncut, hlengths, by rwa [← hrest]⟩
    · rintro ⟨huncut, hlengths, hhandled⟩
      exact ⟨huncut, hlengths, by rwa [hrest]⟩

lemma bodyDeliverable_cons_chunk {base n : Nat} (hn : n ≤ base) (x : Response) (responses : List Response)
    (data : List UInt8) :
    BodyDeliverable config conn base n x responses (data :: chunks) ↔
      BodyDeliverable config conn base (n + data.length) x responses chunks := by
  have huncut := cuts_cons_chunk responses hn data chunks
  exact ⟨fun h => ⟨huncut.mp h.uncut, h.lengths, h.handled⟩, fun h => ⟨huncut.mpr h.uncut, h.lengths, h.handled⟩⟩

/-- A call that ends within a body leaves the connection busy with an empty buffer. -/
lemma serverLoop_within (recvlen fuel : Nat) {header got held : List UInt8} {n : Nat}
    (hbusy : Busy r.conn.server header n got held) (hlt : got.length + held.length < n) (hret : 0 ≤ r.ret) :
    ∃ conn', serverLoop recvlen (fuel + 1) r = some { r with conn := conn' } ∧
      Busy conn'.server header n (got ++ held) [] ∧ conn'.core = r.conn.core := by
  by_cases hheld : held = []
  · subst hheld
    refine ⟨r.conn, serverLoop_empty hbusy.offset, ?_, rfl⟩
    rwa [List.append_nil]
  · exact serverLoop_part hbusy hheld hlt (by omega)

lemma Busy.startCall {header got : List UInt8} {n : Nat} (hbusy : Busy conn.server header n got [])
    (data tail : List UInt8) :
    Busy (Proxy.startCall config conn (data ++ tail) (conn.server.offset + data.length)).conn.server header n got
      data := by
  refine ⟨hbusy.request, hbusy.toSend, hbusy.body, hbusy.response, ?_, tail, rfl⟩
  have hoffset : conn.server.offset = 0 := hbusy.offset
  simp [Proxy.startCall, ProxyConn.setServer, hoffset]

/-- The body of a response arrives in any number of parts. -/
lemma completes_busy (x : Response) {responses : List Response} (ih : IdleCompletes P responses)
    {got todo held : List UInt8} (hbusy : Busy r.conn.server x.header x.body.length got held)
    (hbody : got ++ todo = x.body) (htodo : todo ≠ []) (hle : held.length ≤ recvlen) (hfuel : held.length < fuel)
    (hret : 0 ≤ r.ret) (hchunks : AreResults chunks) (hstream : held ++ chunks.flatten = todo ++ stream responses)
    (base : Nat) {n : Nat} (hn : n + todo.length = base + held.length) :
    Completes P recvlen fuel r chunks (x :: responses) ↔
      BodyDeliverable r.config r.conn base n x responses chunks := by
  have hlength := congrArg List.length hbody
  rw [List.length_append] at hlength
  induction chunks generalizing r recvlen fuel got todo held n with
  | nil =>
    -- all bytes are here
    have hlen := congrArg List.length hstream
    rw [List.flatten_nil, List.append_nil, List.length_append] at hlen
    rw [List.flatten_nil, List.append_nil] at hstream
    subst hstream
    rw [completes_end x ih hbusy hbody htodo hle hfuel hret hchunks (by simp) base]
    rw [show n = base + (stream responses).length by omega]
  | cons data chunks ihc =>
    rcases le_or_gt todo.length held.length with hend | hmore
    · obtain ⟨rest, rfl⟩ : todo <+: held :=
        List.prefix_of_prefix_length_le ⟨stream responses, rfl⟩ ⟨(data :: chunks).flatten, hstream⟩ hend
      rw [List.append_assoc, List.append_cancel_left_eq] at hstream
      rw [completes_end x ih hbusy hbody htodo hle hfuel hret hchunks hstream base]
      rw [show n = base + rest.length by rw [List.length_append] at hn; omega]
    · obtain ⟨todo', rfl⟩ : held <+: todo :=
        List.prefix_of_prefix_length_le ⟨(data :: chunks).flatten, hstream⟩ ⟨stream responses, rfl⟩ hmore.le
      rw [List.append_assoc, List.append_cancel_left_eq, List.flatten_cons] at hstream
      rw [List.length_append] at hlength hn hmore
      obtain ⟨fuel, rfl⟩ := Nat.exists_eq_add_of_lt (Nat.zero_lt_of_lt hfuel)
      obtain ⟨conn', hloop, hbusy', hcore⟩ := serverLoop_within recvlen (0 + fuel) hbusy (by omega) hret
      obtain ⟨hdata, hdatalen⟩ := hchunks.head
      obtain ⟨tail, hrecv⟩ := receive_empty hbusy'.offset hdata hdatalen
      have htodo' : todo' ≠ [] := by
        rintro rfl
        simp at hmore
      have hnext := ihc (r := startCall r.config conn' (data ++ tail) (conn'.server.offset + data.length))
        (hbusy'.startCall data tail) (by rw [List.append_assoc, hbody]) htodo' le_rfl (Nat.lt_add_one _) le_rfl
        hchunks.tail hstream (n := n + data.length) (by omega) (by rw [List.length_append]; omega)
      have hcore' : (startCall r.config conn' (data ++ tail) (conn'.server.offset + data.length)).conn.core =
          r.conn.core := hcore
      rw [completes_cons hloop (by simpa using hret) rfl hrecv, bodyDeliverable_cons_chunk (by omega)]
      exact hnext.trans ⟨fun h => h.congr hcore'.symm, fun h => h.congr hcore'⟩

/-- The first response of an idle connection, when some of it is in the buffer. -/
lemma completes_idle (x : Response) {responses : List Response} (ih : IdleCompletes P responses) {held : List UInt8}
    (hidle : Idle r.conn.server held) (hheld : held ≠ []) (hle : held.length ≤ recvlen) (hfuel : held.length < fuel)
    (hret : 0 ≤ r.ret) (hchunks : AreResults chunks) (hstream : held ++ chunks.flatten = stream (x :: responses))
    (base : Nat) :
    Completes P recvlen fuel r chunks (x :: responses) ↔
      Deliverable r.config r.conn base (base + held.length) (x :: responses) chunks := by
  obtain ⟨fuel, rfl⟩ := Nat.exists_eq_add_of_lt (Nat.zero_lt_of_lt hfuel)
  rw [Nat.zero_add] at hfuel ⊢
  rw [stream_cons] at hstream
  have hpos := List.length_pos_of_ne_nil hheld
  rcases lt_or_ge held.length x.header.length with hcut | hwhole
  · -- the header section is cut here
    obtain ⟨post, hpost⟩ : held <+: x.header :=
      List.prefix_of_prefix_length_le ⟨chunks.flatten, hstream⟩ ⟨x.body ++ stream responses, rfl⟩ hcut.le
    have hne : post ≠ [] := by
      rintro rfl
      rw [List.append_nil] at hpost
      rw [hpost] at hcut
      exact lt_irrefl _ hcut
    refine iff_of_false (not_completes_cut x hidle hpost.symm hheld hne hle hret responses) fun h => ?_
    refine h.uncut _ (self_mem_arrived _ _) ((cutsHeader_cons x responses _).mpr (Or.inl ?_))
    omega
  · obtain ⟨rest, rfl⟩ : x.header <+: held :=
      List.prefix_of_prefix_length_le ⟨x.body ++ stream responses, rfl⟩ ⟨chunks.flatten, hstream⟩ hwhole
    rw [List.append_assoc, List.append_cancel_left_eq] at hstream
    have hheader := x.isResponseHeader.endsSearch.length_pos
    rw [List.length_append] at hfuel hle
    have hwithin : x.header.length ≤ recvlen := by omega
    rcases serverLoop_header fuel x.isResponseHeader x.fits hidle hwithin (by omega) with
      ⟨hnone, hno⟩ | ⟨m, conn', hm, hloop, hbusy, hcore⟩
    · refine iff_of_false ?_ fun h => hno ⟨_, h.lengths x List.mem_cons_self⟩
      rintro ⟨log, hfinish, -⟩
      simp [finish, hnone] at hfinish
    · have hcompletes : Completes P recvlen (fuel + 1) r chunks (x :: responses) ↔
          Completes P recvlen fuel { r with conn := conn' } chunks (x :: responses) := by
        unfold Completes finish
        rw [hloop]
      rw [hcompletes]
      by_cases hlen : m = x.body.length
      · subst hlen
        have hn : base + (x.header ++ rest).length + x.body.length = base + x.text.length + rest.length := by
          simp only [Response.text, List.length_append]
          omega
        rw [completes_busy x ih (r := { r with conn := conn' }) hbusy (List.nil_append _) x.body_ne (by omega)
          (by omega) hret hchunks hstream (base + x.text.length) hn]
        have hafter : base + x.header.length ≤ base + (x.header ++ rest).length := by
          rw [List.length_append]
          omega
        have huncut := cuts_after_header x responses chunks hafter
        constructor
        · intro h
          obtain ⟨h₁, h₂, h₃⟩ := h.congr hcore.symm
          exact ⟨huncut.mpr h₁, List.forall_mem_cons.mpr ⟨hm, h₂⟩, h₃⟩
        · intro h
          obtain ⟨h₁, h₂, h₃⟩ := h.congr hcore
          exact ⟨huncut.mp h₁, (List.forall_mem_cons.mp h₂).2, h₃⟩
      · refine iff_of_false
          (not_completes_pending (r := { r with conn := conn' }) (hbusy.pending (Nat.zero_le _)) x
            (by simpa using hlen) responses) fun h => hlen ?_
        exact hm.unique x.isResponseHeader (h.lengths x List.mem_cons_self)

lemma Idle.startCall (hidle : Idle conn.server []) (data tail : List UInt8) :
    Idle (Proxy.startCall config conn (data ++ tail) (conn.server.offset + data.length)).conn.server data := by
  have hoffset : conn.server.offset = 0 := hidle.offset
  exact ⟨hidle.request, hidle.toSend, by simp [Proxy.startCall, ProxyConn.setServer, hoffset], tail, rfl⟩

/-- The responses of a stream, one after the other. -/
theorem idleCompletes (hP : ∀ s, Idle s [] → P s) (responses : List Response) : IdleCompletes P responses := by
  induction responses with
  | nil =>
    intro recvlen fuel r held chunks base hidle hle hfuel hret hchunks hstream
    obtain ⟨rfl, hflat⟩ := List.append_eq_nil_iff.mp hstream
    obtain rfl : chunks = [] := by
      cases chunks with
      | nil => rfl
      | cons data chunks =>
        rw [List.flatten_cons] at hflat
        exact absurd (List.append_eq_nil_iff.mp hflat).1 hchunks.head.1
    obtain ⟨fuel, rfl⟩ := Nat.exists_eq_add_of_lt hfuel
    refine iff_of_true ⟨⟨r.config, r.conn, r.sent, r.dispatched⟩, ?_, by simp [pairs], hP _ hidle⟩ ⟨?_, by simp, rfl⟩
    · have hoffset : r.conn.server.offset = 0 := hidle.offset
      simp [finish, serverLoop_empty hoffset, serverRun, not_lt.mpr hret]
    · simp [CutsHeader]
  | cons x responses ih =>
    intro recvlen fuel r held chunks base hidle hle hfuel hret hchunks hstream
    by_cases hheld : held = []
    · subst hheld
      cases chunks with
      | nil =>
        have hpos := x.isResponseHeader.endsSearch.length_pos
        have hlen := congrArg List.length hstream
        rw [stream_cons] at hlen
        simp only [List.flatten_nil, List.append_nil, List.length_nil, List.length_append] at hlen
        omega
      | cons data chunks =>
        obtain ⟨fuel, rfl⟩ := Nat.exists_eq_add_of_lt hfuel
        obtain ⟨hdata, hdatalen⟩ := hchunks.head
        obtain ⟨tail, hrecv⟩ := receive_empty hidle.offset hdata hdatalen
        have hnext := completes_idle x ih (r := startCall r.config r.conn (data ++ tail) _)
          (hidle.startCall data tail) hdata le_rfl (Nat.lt_add_one _) le_rfl hchunks.tail hstream base
        have huncut := cuts_cons_chunk (x :: responses) (le_refl base) data chunks
        rw [completes_cons (serverLoop_empty hidle.offset) (by omega) rfl hrecv, hnext]
        have hcore : (startCall r.config r.conn (data ++ tail) (r.conn.server.offset + data.length)).conn.core =
            r.conn.core := rfl
        constructor
        · intro h
          obtain ⟨h₁, h₂, h₃⟩ := h.congr hcore.symm
          exact ⟨huncut.mpr h₁, h₂, h₃⟩
        · intro h
          obtain ⟨h₁, h₂, h₃⟩ := h.congr hcore
          exact ⟨huncut.mp h₁, h₂, h₃⟩
    · exact completes_idle x ih hidle hheld hle hfuel hret hchunks hstream base

lemma completes_run (hidle : Idle conn.server []) (responses : List Response) :
    Completes P 0 1 ⟨0, config, conn, [], []⟩ chunks responses ↔
      ∃ run, serverRun config conn chunks = some run ∧ handled run.dispatched = pairs responses ∧
        P run.conn.server := by
  have hzero : ¬(0 : Int) < 0 := lt_irrefl 0
  have hoffset : conn.server.offset = 0 := hidle.offset
  have hloop : serverLoop 0 1 ⟨0, config, conn, [], []⟩ = some ⟨0, config, conn, [], []⟩ :=
    serverLoop_empty hoffset
  unfold Completes finish
  simp only [hloop, Option.bind_eq_bind, Option.bind_some, if_neg hzero, handled, List.map_nil, List.nil_append]
  cases serverRun config conn chunks with
  | none => simp
  | some run => simp

lemma run_iff_deliverable (hP : ∀ s, Idle s [] → P s) (hidle : Idle conn.server []) (responses : List Response)
    (hchunks : AreResults chunks) (hsplit : chunks.flatten = stream responses) :
    (∃ run, serverRun config conn chunks = some run ∧ handled run.dispatched = pairs responses ∧
        P run.conn.server) ↔
      Deliverable config conn 0 0 responses chunks := by
  rw [← completes_run hidle]
  exact idleCompletes (r := ⟨0, config, conn, [], []⟩) hP responses 0 hidle (Nat.zero_le _) Nat.one_pos le_rfl
    hchunks hsplit

end Rest

/-- The responses of a stream go to the handlers exactly when no `recv` result ends inside a
header section, every header section states the length of its body first, and the handlers can
handle the responses one after the other. -/
theorem dispatchesAll_iff (config : Config) (conn : ProxyConn) (hidle : Idle conn.server [])
    (responses : List Response) (chunks : List (List UInt8)) (hchunks : AreResults chunks)
    (hsplit : chunks.flatten = stream responses) :
    DispatchesAll config conn responses chunks ↔
      (∀ n ∈ arrived 0 chunks, ¬CutsHeader responses n) ∧
        (∀ x ∈ responses, StatesBody x.header x.body.length) ∧
        (respondAll config conn (pairs responses)).isSome := by
  have hrun : DispatchesAll config conn responses chunks ↔ Deliverable config conn 0 0 responses chunks := by
    rw [← run_iff_deliverable (P := fun _ => True) (fun _ _ => trivial) hidle responses hchunks hsplit]
    simp only [and_true]
    rfl
  rw [hrun]
  exact ⟨fun h => ⟨h.uncut, h.lengths, h.handled⟩, fun h => ⟨h.1, h.2.1, h.2.2⟩⟩

/-- However bytes arrive from the server, what a run does is what the handlers do on the responses
they are called for. -/
theorem serverRun_handles {config : Config} {conn : ProxyConn} {chunks : List (List UInt8)} {run : ServerRun}
    (h : serverRun config conn chunks = some run) :
    respondAll config conn (handled run.dispatched) = some { run with conn := run.conn.core } := by
  induction chunks generalizing config conn run with
  | nil =>
    obtain rfl := Option.some.inj h
    rfl
  | cons data chunks ih =>
    obtain ⟨r, later, hcall, -, hlater, rfl⟩ := serverRun_cons_eq_some h
    obtain ⟨first, hfirst, hconfig, hcore, hsent, hdispatched⟩ := handlerServer_handles hcall
    change respondAll config conn (handled first.dispatched) = some first at hfirst
    rw [List.nil_append] at hsent hdispatched
    have hrest := ih hlater
    rw [hconfig, ← respondAll_core, hcore] at hrest
    have happend : handled (r.dispatched ++ later.dispatched) = handled r.dispatched ++ handled later.dispatched :=
      List.map_append
    rw [happend, respondAll_append, hdispatched, hfirst, Option.bind_some, hrest]
    simp [hsent]

section Example

/-- The response with a page. -/
def pageResponse : Response where
  lines := [bytes "HTTP/1.1 200 OK", bytes "Content-Length: 2"]
  body := bytes "ok"
  isLine := by decide
  lengthLine := by decide
  body_ne := by decide
  fits := by decide

/-- The response with a shorter page. -/
def shortResponse : Response where
  lines := [bytes "HTTP/1.1 200 OK", bytes "Content-Length: 1"]
  body := bytes "x"
  isLine := by decide
  lengthLine := by decide
  body_ne := by decide
  fits := by decide

lemma pageResponse_length : StatesBody pageResponse.header pageResponse.body.length :=
  ⟨(pageResponse.isResponseHeader.contentLength_iff [] _).mp (by decide), by decide⟩

lemma shortResponse_length : StatesBody shortResponse.header shortResponse.body.length :=
  ⟨(shortResponse.isResponseHeader.contentLength_iff [] _).mp (by decide), by decide⟩

lemma newConn_idle : Idle newConn.server [] := ⟨rfl, rfl, rfl, [], rfl⟩

/-- A body may be cut, where the next response begins in the same `recv`; a header section may not. -/
theorem dispatchesAll_iff_page :
    DispatchesAll newConfig newConn [pageResponse, shortResponse]
        [pageResponse.header ++ bytes "o", bytes "k" ++ shortResponse.text] ∧
      ¬DispatchesAll newConfig newConn [pageResponse, shortResponse]
        [pageResponse.text ++ bytes "HTTP", bytes "/1.1 200 OK\r\nContent-Length: 1\r\n\r\nx"] := by
  have hlengths : ∀ x ∈ [pageResponse, shortResponse], StatesBody x.header x.body.length := by
    intro x hx
    rcases List.mem_cons.mp hx with rfl | hx
    · exact pageResponse_length
    · rw [List.mem_singleton.mp hx]
      exact shortResponse_length
  constructor
  · apply (dispatchesAll_iff newConfig newConn newConn_idle _ _ (by unfold AreResults; decide) (by decide)).mpr
    exact ⟨by decide, hlengths, by decide⟩
  · intro h
    obtain ⟨huncut, -⟩ :=
      (dispatchesAll_iff newConfig newConn newConn_idle _ _ (by unfold AreResults; decide) (by decide)).mp h
    exact huncut 44 (by decide) (by decide)

/-- A response whose header section arrives in two parts is never handled. -/
theorem split_header_not_handled :
    ¬∀ (config : Config) (conn : ProxyConn), Idle conn.server [] →
      ∀ (responses : List Response) (chunks : List (List UInt8)), AreResults chunks →
      chunks.flatten = stream responses → DispatchesAll config conn responses chunks := by
  intro h
  obtain ⟨run, hrun, hhandled⟩ := h newConfig newConn newConn_idle [pageResponse]
    [bytes "HTTP/1.1 200", bytes " OK\r\nContent-Length: 2\r\n\r\nok"] (by unfold AreResults; decide) (by decide)
  have hnone : (serverRun newConfig newConn
      [bytes "HTTP/1.1 200", bytes " OK\r\nContent-Length: 2\r\n\r\nok"]).map ServerRun.dispatched = some [] := by
    decide
  rw [hrun, Option.map_some, Option.some.injEq] at hnone
  rw [hnone] at hhandled
  cases hhandled

end Example

end VideoCDN.Proxy
