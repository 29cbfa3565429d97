import VideoCDN.Proxy.CallFrames
import VideoCDN.Proxy.ResponseStream
import VideoCDN.Proxy.ProxyRun

/-!
# Rounds of `handler_server`

A round of the loop stores bytes of a body and hands over the response that is complete then. When bytes
are left, the next header section is looked for in front of the next round.
-/

namespace VideoCDN.Proxy

open CString Buffer Http

/-- A round of the loop, up to the call of `parse_reponse`. -/
def turn (r : ServerResult) : Option ServerResult :=
  if r.conn.server.offset > 0 ∧ r.conn.server.isReady ∧ r.ret ≠ -1 then do
    let conn ← drainBody r.conn
    dispatch { r with conn := conn }
  else none

/-- The loop gets from `r` through the round that ends in the second state. -/
inductive Passes (recvlen : Nat) : ServerResult → ServerResult → Prop
  | here {r r₁ : ServerResult} (h : turn r = some r₁) : Passes recvlen r r₁
  | later {r r₁ r₂ : ServerResult} {conn : ProxyConn} (h : turn r = some r₁) (hoffset : 0 < r₁.conn.server.offset)
      (hparse : parseHeader r₁.conn recvlen = some conn) (hrest : Passes recvlen { r₁ with conn := conn } r₂) :
      Passes recvlen r r₂

/-- The rest of the loop after a round. -/
def afterTurn (recvlen fuel : Nat) (r : ServerResult) : Option ServerResult :=
  if r.conn.server.offset ≤ 0 then some r
  else (parseHeader r.conn recvlen).bind fun conn =>
    if conn.server.isReady then serverLoop recvlen fuel { r with conn := conn } else some { r with conn := conn }

/-- The search of `parse_reponse` and what it returns. -/
lemma parseReponse_scan {buf : List UInt8} {size : Nat} {request : Request}
    (h : parseReponse buf size = some request) :
    request.position = (scanHeader .start (buf.take size) 0).2 ∧
      (request.status = success ∧ (scanHeader .start (buf.take size) 0).1 = .crlfcrlf ∨
        request.status = needmore ∧ (scanHeader .start (buf.take size) 0).1 ≠ .crlfcrlf) := by
  unfold parseReponse at h
  dsimp only at h
  split at h
  · rename_i hend
    obtain ⟨n, -, heq⟩ := Option.bind_eq_some_iff.mp h
    obtain rfl := Option.some.inj heq
    exact ⟨rfl, Or.inl ⟨rfl, hend⟩⟩
  · rename_i hno
    obtain rfl := Option.some.inj h
    exact ⟨rfl, Or.inr ⟨rfl, hno⟩⟩

lemma parseReponse_length {buf : List UInt8} {size : Nat} {request : Request}
    (h : parseReponse buf size = some request) (hstatus : request.status = success) :
    contentLength buf = some request.contentLength := by
  unfold parseReponse at h
  dsimp only at h
  split at h
  · obtain ⟨n, hn, heq⟩ := Option.bind_eq_some_iff.mp h
    obtain rfl := Option.some.inj heq
    exact hn
  · obtain rfl := Option.some.inj h
    exact absurd hstatus (show needmore ≠ success by decide)

section Loop

variable {recvlen fuel : Nat} {r r' r₁ : ServerResult} {conn conn' : ProxyConn}

lemma serverLoop_succ (recvlen fuel : Nat) (r : ServerResult) :
    serverLoop recvlen (fuel + 1) r =
      if r.conn.server.offset > 0 ∧ r.conn.server.isReady ∧ r.ret ≠ -1 then
        (turn r).bind (afterTurn recvlen fuel)
      else some r := by
  rw [serverLoop]
  by_cases hgo : r.conn.server.offset > 0 ∧ r.conn.server.isReady ∧ r.ret ≠ -1
  · rw [if_pos hgo, if_pos hgo, turn, if_pos hgo]
    simp only [Option.bind_eq_bind, Option.bind_assoc]
    rfl
  · rw [if_neg hgo, if_neg hgo]

lemma turn_goes (h : turn r = some r₁) : r.conn.server.offset > 0 ∧ r.conn.server.isReady ∧ r.ret ≠ -1 := by
  by_contra hstop
  rw [turn, if_neg hstop] at h
  cases h

lemma serverLoop_of_turn (h : turn r = some r₁) :
    serverLoop recvlen (fuel + 1) r = afterTurn recvlen fuel r₁ := by
  rw [serverLoop_succ, if_pos (turn_goes h), h, Option.bind_some]

/-- The loop ends at once, or it goes through a round. -/
lemma serverLoop_turns (h : serverLoop recvlen (fuel + 1) r = some r') :
    r' = r ∨ ∃ r₁, turn r = some r₁ ∧ afterTurn recvlen fuel r₁ = some r' := by
  rw [serverLoop_succ] at h
  split at h
  · obtain ⟨r₁, hturn, h⟩ := Option.bind_eq_some_iff.mp h
    exact Or.inr ⟨r₁, hturn, h⟩
  · exact Or.inl (Option.some.inj h).symm

lemma afterTurn_cases (h : afterTurn recvlen fuel r₁ = some r') :
    r₁.conn.server.offset ≤ 0 ∧ r' = r₁ ∨
      0 < r₁.conn.server.offset ∧ ∃ conn, parseHeader r₁.conn recvlen = some conn ∧
        (conn.server.isReady = false ∧ r' = { r₁ with conn := conn } ∨
          conn.server.isReady = true ∧ serverLoop recvlen fuel { r₁ with conn := conn } = some r') := by
  unfold afterTurn at h
  split at h
  · rename_i hempty
    exact Or.inl ⟨hempty, (Option.some.inj h).symm⟩
  · rename_i hmore
    obtain ⟨conn, hparse, h⟩ := Option.bind_eq_some_iff.mp h
    refine Or.inr ⟨not_le.mp hmore, conn, hparse, ?_⟩
    split at h
    · rename_i hready
      exact Or.inr ⟨hready, h⟩
    · rename_i hready
      exact Or.inl ⟨by simpa using hready, (Option.some.inj h).symm⟩

/-- What holds before a round, and what a round and a parse preserve, holds when the loop ends. The parses
are those of the rounds that the loop gets through. -/
lemma serverLoop_induct {P : ServerResult → Prop} (hturn : ∀ r r₁, P r → turn r = some r₁ → P r₁)
    (hparse : ∀ r₁ conn, Passes recvlen r r₁ → P r₁ → 0 < r₁.conn.server.offset →
      parseHeader r₁.conn recvlen = some conn → P { r₁ with conn := conn })
    (hr : P r) (h : serverLoop recvlen fuel r = some r') : P r' := by
  induction fuel generalizing r with
  | zero => cases h
  | succ fuel ih =>
    rcases serverLoop_turns h with rfl | ⟨r₁, hround, hafter⟩
    · exact hr
    · have hr₁ := hturn r r₁ hr hround
      rcases afterTurn_cases hafter with ⟨-, rfl⟩ | ⟨hoffset, conn, hconn, hrest⟩
      · exact hr₁
      · have hnext := hparse r₁ conn (.here hround) hr₁ hoffset hconn
        rcases hrest with ⟨-, rfl⟩ | ⟨-, hloop⟩
        · exact hnext
        · apply ih (r := { r₁ with conn := conn }) _ hnext hloop
          intro r₂ conn₂ hpass
          exact hparse r₂ conn₂ (.later hround hoffset hconn hpass)

/-- The states at the ends of the rounds are such states, too. -/
lemma Passes.induct {P : ServerResult → Prop} (hturn : ∀ r r₁, P r → turn r = some r₁ → P r₁)
    (hparse : ∀ r₁ conn, Passes recvlen r r₁ → P r₁ → 0 < r₁.conn.server.offset →
      parseHeader r₁.conn recvlen = some conn → P { r₁ with conn := conn })
    (hr : P r) (h : Passes recvlen r r') : P r' := by
  induction h with
  | here hround => exact hturn _ _ hr hround
  | later hround hoffset hconn hrest ih =>
    apply ih
    · intro r₂ conn₂ hpass
      exact hparse r₂ conn₂ (.later hround hoffset hconn hpass)
    · exact hparse _ _ (.here hround) (hturn _ _ hr hround) hoffset hconn

/-! ## One round -/

lemma Handler.run_transport {handler : Handler} {config config' : Config} {body : List UInt8} {sent : List Sent}
    (h : handler.run config conn body = some (config', conn', sent)) :
    conn'.server.transport = conn.server.transport := by
  have hsame : conn.withTransport conn.server.transport = conn := rfl
  have hrun := handler.run_withTransport config conn (t := conn.server.transport) rfl body
  rw [hsame, h, Option.map_some] at hrun
  have heq := congrArg (fun x => x.2.1) (Option.some.inj hrun)
  change conn' = conn'.withTransport conn.server.transport at heq
  rw [heq]
  rfl

lemma Handler.run_state {handler : Handler} {config config' : Config} {body : List UInt8} {sent : List Sent}
    (h : handler.run config conn body = some (config', conn', sent)) :
    conn'.state = if handler = .f4m then .f4mNolist else conn.state := by
  by_cases hkind : handler = .f4m
  · subst hkind
    obtain ⟨list, ret, saved, -, -, -, rfl, -⟩ := handleRespF4m_eq_some h
    rfl
  · rw [if_neg hkind]
    exact (Handler.run_forward hkind h).1.state

/-- What handing over does to the rest of the connection. -/
structure HandedOver (conn conn' : ProxyConn) : Prop where
  request : conn'.server.request = none
  toSend : conn.server.toSendLength = 0
  sameToSend : conn'.server.toSendLength = conn.server.toSendLength
  offset : conn'.server.offset = conn.server.offset
  buf : conn'.server.buf = conn.server.buf

/-- Without a complete response nothing happens; a complete one is handed over, and its handler is run
unless the state has none. -/
lemma dispatch_spec (h : dispatch r = some r') :
    r' = r ∧ (∀ request, r.conn.server.request = some request → request.status ≠ needmore →
        r.conn.server.toSendLength ≠ 0) ∨
      HandedOver r.conn r'.conn ∧
        (r.conn.state.handler = none ∧ r'.ret = -1 ∧ r'.conn.state = r.conn.state ∨
          r.conn.state.handler ≠ none ∧ 0 ≤ r'.ret ∧
            (r'.conn.state = r.conn.state ∨ r'.conn.state = .f4mNolist)) := by
  rcases dispatch_steps h with hwait | ⟨request, body, -, -, hzero, -, ⟨hnone, rfl⟩ |
    ⟨handler, config, conn, sent, hhandler, hrun, rfl⟩⟩
  · exact Or.inl hwait
  · exact Or.inr ⟨⟨rfl, hzero, rfl, rfl, rfl⟩, Or.inl ⟨hnone, rfl, rfl⟩⟩
  · have htransport := Handler.run_transport hrun
    refine Or.inr ⟨⟨rfl, hzero, congrArg Transport.toSendLength htransport, congrArg Transport.offset htransport,
      congrArg Transport.buf htransport⟩, Or.inr ⟨by simp [hhandler], Int.natCast_nonneg _, ?_⟩⟩
    change conn.state = _ ∨ conn.state = _
    rw [Handler.run_state hrun]
    split
    · exact Or.inr rfl
    · exact Or.inl rfl

/-- What storing does: some bytes at the front of the buffer leave it, all of them or the rest of the body. -/
lemma drainBody_spec (hoffset : 0 ≤ conn.server.offset) (h : drainBody conn = some conn') :
    conn'.server.request = conn.server.request ∧ conn'.state = conn.state ∧
      0 ≤ conn'.server.offset ∧ conn'.server.offset ≤ conn.server.offset ∧
      conn'.server.toSendLength ≤ conn.server.toSendLength ∧
      (0 ≤ conn.server.toSendLength → 0 ≤ conn'.server.toSendLength ∧
        (0 < conn'.server.offset → conn'.server.toSendLength = 0)) := by
  unfold drainBody at h
  dsimp only at h
  split at h
  · obtain rfl := Option.some.inj h
    refine ⟨rfl, rfl, hoffset, le_rfl, le_rfl, fun hnonneg => ⟨hnonneg, fun _ => by omega⟩⟩
  · simp only [Option.bind_eq_bind, Option.bind_eq_some_iff] at h
    obtain ⟨request, -, body, -, h⟩ := h
    obtain rfl := Option.some.inj h
    simp only [ProxyConn.setServer]
    obtain ⟨toSend, htoSend⟩ : ∃ toSend, toSend = if conn.server.toSendLength > conn.server.offset then
      conn.server.offset else conn.server.toSendLength := ⟨_, rfl⟩
    rw [← htoSend]
    have hcases : toSend = conn.server.offset ∧ conn.server.offset < conn.server.toSendLength ∨
        toSend = conn.server.toSendLength ∧ conn.server.toSendLength ≤ conn.server.offset := by
      rw [htoSend]
      split
      · exact Or.inl ⟨rfl, by omega⟩
      · exact Or.inr ⟨rfl, by omega⟩
    exact ⟨trivial, trivial, by omega, by omega, by omega, fun _ => ⟨by omega, fun _ => by omega⟩⟩

lemma turn_steps (h : turn r = some r₁) :
    ∃ conn, drainBody r.conn = some conn ∧ dispatch { r with conn := conn } = some r₁ := by
  rw [turn, if_pos (turn_goes h)] at h
  exact Option.bind_eq_some_iff.mp h

/-- A round takes bytes from the front of the buffer. -/
lemma turn_offset (h : turn r = some r₁) :
    0 ≤ r₁.conn.server.offset ∧ r₁.conn.server.offset ≤ r.conn.server.offset := by
  obtain ⟨hoffset, -, -⟩ := turn_goes h
  obtain ⟨conn, hdrain, hdispatch⟩ := turn_steps h
  obtain ⟨-, -, hnonneg, hle, -⟩ := drainBody_spec hoffset.le hdrain
  rcases dispatch_spec hdispatch with ⟨rfl, -⟩ | ⟨hover, -⟩
  · exact ⟨hnonneg, hle⟩
  · rw [hover.offset]
    exact ⟨hnonneg, hle⟩

/-! ## One parse -/

/-- The offset after a parse. -/
lemma parseHeader_offset (h : parseHeader conn recvlen = some conn') :
    ∃ request, parseReponse conn.server.buf recvlen = some request ∧
      (request.status = needmore ∧ conn'.server.offset = conn.server.offset ∨
        request.status = success ∧ conn'.server.offset = conn.server.offset - request.position) := by
  unfold parseHeader at h
  obtain ⟨request, hparse, h⟩ := Option.bind_eq_some_iff.mp h
  refine ⟨request, hparse, ?_⟩
  rcases (parseReponse_scan hparse).2 with ⟨hstatus, -⟩ | ⟨hstatus, -⟩
  · have hnot : ¬request.status < 0 := by
      rw [hstatus]
      decide
    rw [if_neg hnot] at h
    split at h
    · cases h
    · obtain rfl := Option.some.inj h
      exact Or.inr ⟨hstatus, rfl⟩
  · have hneg : request.status < 0 := by
      rw [hstatus]
      decide
    rw [if_pos hneg] at h
    obtain rfl := Option.some.inj h
    exact Or.inl ⟨hstatus, rfl⟩

lemma parseHeader_ready (h : parseHeader conn recvlen = some conn') (hready : conn'.server.isReady = true) :
    conn'.server.offset < conn.server.offset := by
  have hoffset := parseHeader_offset h
  obtain ⟨request, hparse, ⟨hneed, -⟩ | ⟨hstatus, hless⟩⟩ := hoffset
  · exfalso
    unfold parseHeader at h
    obtain ⟨request', hparse', h⟩ := Option.bind_eq_some_iff.mp h
    rw [hparse] at hparse'
    obtain rfl := Option.some.inj hparse'
    rw [if_pos (by rw [hneed]; decide)] at h
    obtain rfl := Option.some.inj h
    simp [ProxyConn.setServer, Server.isReady, hneed] at hready
  · obtain ⟨hposition, hsearch⟩ := parseReponse_scan hparse
    rcases hsearch with ⟨-, hend⟩ | ⟨hneed, -⟩
    · have hpos : 0 < (scanHeader .start (conn.server.buf.take recvlen) 0).2 :=
        lt_of_scanHeader (Prod.ext hend rfl) (by decide)
      rw [← hposition] at hpos
      omega
    · rw [hneed] at hstatus
      exact absurd hstatus (by decide)

/-! ## What holds between the calls -/

/-- No more than the rest of a body is expected, nothing without a header section, and the state has a
handler. -/
structure Settled (conn : ProxyConn) : Prop where
  nonneg : 0 ≤ conn.server.toSendLength
  toSend : conn.server.request = none → conn.server.toSendLength = 0
  state : conn.state ≠ .uk

lemma State.handler_eq_none_iff (s : State) : s.handler = none ↔ s = .uk := by
  cases s <;> simp [State.handler]

lemma State.exists_handler {s : State} (h : s ≠ .uk) : ∃ handler, s.handler = some handler :=
  Option.ne_none_iff_exists'.mp fun hnone => h ((State.handler_eq_none_iff s).mp hnone)

/-- A round leaves nothing of a response behind when bytes are left, and the connection is not closed. -/
lemma turn_settled (hsettled : Settled r.conn) (h : turn r = some r₁) :
    Settled r₁.conn ∧ (0 ≤ r.ret → 0 ≤ r₁.ret) ∧
      (0 < r₁.conn.server.offset → r₁.conn.server.request = none) := by
  obtain ⟨hoffset, hready, -⟩ := turn_goes h
  obtain ⟨conn, hdrain, hdispatch⟩ := turn_steps h
  obtain ⟨hrequest, hstate, -, -, hle, hmore⟩ := drainBody_spec hoffset.le hdrain
  obtain ⟨hnonneg, hdone⟩ := hmore hsettled.nonneg
  have hcleared : conn.server.request = none → conn.server.toSendLength = 0 := by
    intro hnone
    rw [hrequest] at hnone
    have := hsettled.toSend hnone
    omega
  have huk : conn.state ≠ .uk := by
    rw [hstate]
    exact hsettled.state
  rcases dispatch_spec hdispatch with ⟨rfl, hwait⟩ | ⟨hover, hrun⟩
  · refine ⟨⟨hnonneg, hcleared, huk⟩, id, fun hleft => ?_⟩
    -- a header section that is waited for stops the loop before
    cases hcase : conn.server.request with
    | none => rfl
    | some request =>
      have hstatus : request.status ≠ needmore := by
        rw [Server.isReady, ← hrequest, hcase] at hready
        simpa using hready
      exact absurd (hdone hleft) (hwait request hcase hstatus)
  · have hzero := hover.toSend
    simp only at hzero
    obtain ⟨-, hret, hnext⟩ := hrun.resolve_left fun hnone => huk ((State.handler_eq_none_iff _).mp hnone.1)
    refine ⟨⟨?_, fun _ => ?_, ?_⟩, fun _ => hret, fun _ => hover.request⟩
    · rw [hover.sameToSend]
      exact hnonneg
    · rw [hover.sameToSend]
      exact hzero
    · rcases hnext with hsame | hnolist
      · rw [hsame]
        exact huk
      · rw [hnolist]
        decide

lemma parseHeader_settled (hsettled : Settled conn) (h : parseHeader conn recvlen = some conn') : Settled conn' := by
  have hstate : conn'.state ≠ .uk := by
    rw [state_eq_of_core (parseHeader_core h)]
    exact hsettled.state
  unfold parseHeader at h
  obtain ⟨request, -, h⟩ := Option.bind_eq_some_iff.mp h
  split at h
  · obtain rfl := Option.some.inj h
    exact ⟨hsettled.nonneg, by simp [ProxyConn.setServer], hstate⟩
  · split at h
    · cases h
    · rename_i hlength
      obtain rfl := Option.some.inj h
      refine ⟨?_, by simp [ProxyConn.setServer], hstate⟩
      simp only [ProxyConn.setServer]
      omega

/-! ## The rounds of a call -/

lemma Passes.turns (h : Passes recvlen r r₁) : ∃ r₂, turn r = some r₂ := by
  cases h with
  | here hround => exact ⟨_, hround⟩
  | later hround _ _ _ => exact ⟨_, hround⟩

lemma Passes.settled (hsettled : Settled r.conn) (hret : 0 ≤ r.ret) (h : Passes recvlen r r₁) :
    Settled r₁.conn ∧ 0 ≤ r₁.ret ∧ (0 < r₁.conn.server.offset → r₁.conn.server.request = none) := by
  induction h with
  | here hround =>
    obtain ⟨hsettled', hret', hnone⟩ := turn_settled hsettled hround
    exact ⟨hsettled', hret' hret, hnone⟩
  | later hround _ hparse _ ih =>
    obtain ⟨hsettled', hret', -⟩ := turn_settled hsettled hround
    exact ih (parseHeader_settled hsettled' hparse) (hret' hret)

lemma Passes.offset_le (h : Passes recvlen r r₁) : r₁.conn.server.offset ≤ r.conn.server.offset := by
  induction h with
  | here hround => exact (turn_offset hround).2
  | later hround _ hparse hrest ih =>
    obtain ⟨r₂, hnext⟩ := hrest.turns
    have hless := parseHeader_ready hparse (turn_goes hnext).2.1
    have hle := (turn_offset hround).2
    simp only at ih
    omega

lemma turn_dispatched (h : turn r = some r₁) : r.dispatched <+: r₁.dispatched := by
  obtain ⟨conn, -, hdispatch⟩ := turn_steps h
  obtain ⟨run, -, -, -, -, hmore⟩ := dispatch_handles hdispatch
  exact ⟨run.dispatched, hmore.symm⟩

lemma Passes.dispatched (h : Passes recvlen r r₁) : r.dispatched <+: r₁.dispatched := by
  induction h with
  | here hround => exact turn_dispatched hround
  | later hround _ _ _ ih => exact (turn_dispatched hround).trans ih

/-- The loop goes on from `r` to a later round. -/
def Beyond (recvlen : Nat) (r r' : ServerResult) : Prop :=
  0 < r.conn.server.offset ∧
    ∃ conn, parseHeader r.conn recvlen = some conn ∧ Passes recvlen { r with conn := conn } r'

lemma Passes.beyond (h : Passes recvlen r r₁) (hbeyond : Beyond recvlen r₁ r') : Passes recvlen r r' := by
  induction h with
  | here hround =>
    obtain ⟨hoffset, conn, hparse, hrest⟩ := hbeyond
    exact .later hround hoffset hparse hrest
  | later hround hoffset hparse _ ih => exact .later hround hoffset hparse (ih hbeyond)

/-- The rounds of a loop follow one another. -/
lemma Passes.linear (h : Passes recvlen r r₁) (h' : Passes recvlen r r') :
    r' = r₁ ∨ Beyond recvlen r₁ r' ∨ Beyond recvlen r' r₁ := by
  induction h with
  | here hround =>
    cases h' with
    | here hround' => exact Or.inl (Option.some.inj (hround'.symm.trans hround))
    | later hround' hoffset hparse hrest =>
      obtain rfl := Option.some.inj (hround.symm.trans hround')
      exact Or.inr (Or.inl ⟨hoffset, _, hparse, hrest⟩)
  | later hround hoffset hparse hrest ih =>
    cases h' with
    | here hround' =>
      obtain rfl := Option.some.inj (hround.symm.trans hround')
      exact Or.inr (Or.inr ⟨hoffset, _, hparse, hrest⟩)
    | later hround' hoffset' hparse' hrest' =>
      obtain rfl := Option.some.inj (hround.symm.trans hround')
      obtain rfl := Option.some.inj (hparse.symm.trans hparse')
      exact ih hrest'

/-- With enough fuel the loop goes on from the end of any of its rounds. -/
lemma Passes.serverLoop_eq (h : Passes recvlen r r₁) (hfuel : r.conn.server.offset < fuel)
    (hoffset : 0 < r₁.conn.server.offset) :
    ∃ fuel' : Nat, r₁.conn.server.offset ≤ fuel' ∧
      serverLoop recvlen fuel r = afterTurn recvlen fuel' r₁ := by
  induction h generalizing fuel with
  | here hround =>
    have hle := turn_offset hround
    obtain ⟨fuel, rfl⟩ := Nat.exists_eq_add_of_lt (show 0 < fuel by omega)
    refine ⟨fuel, by omega, ?_⟩
    rw [Nat.zero_add]
    exact serverLoop_of_turn hround
  | later hround hmore hparse hrest ih =>
    have hle := turn_offset hround
    obtain ⟨r₃, hnext⟩ := hrest.turns
    have hready := (turn_goes hnext).2.1
    have hless := parseHeader_ready hparse hready
    obtain ⟨fuel, rfl⟩ := Nat.exists_eq_add_of_lt (show 0 < fuel by omega)
    rw [Nat.zero_add] at hfuel ⊢
    obtain ⟨fuel', hle', hloop⟩ := @ih fuel (by simp only; omega) hoffset
    refine ⟨fuel', hle', ?_⟩
    rw [serverLoop_of_turn hround, afterTurn, if_neg (not_le.mpr hmore), hparse, Option.bind_some,
      if_pos hready, hloop]

/-- A round of an idle connection only looks for a header section. -/
lemma serverLoop_afterTurn {held : List UInt8} (hidle : Idle r.conn.server held) (hheld : held ≠ [])
    (hret : r.ret ≠ -1) : serverLoop recvlen (fuel + 1) r = afterTurn recvlen fuel r := by
  have hpos := List.length_pos_of_ne_nil hheld
  have hoffset : ¬r.conn.server.offset ≤ 0 := by
    rw [hidle.offset]
    omega
  rw [serverLoop_idle hidle hheld hret, afterTurn, if_neg hoffset]
  rfl

/-- The loop ends when the buffer is empty, a header section is waited for or the connection is closed. -/
lemma serverLoop_ends (h : serverLoop recvlen fuel r = some r') :
    r'.conn.server.offset ≤ 0 ∨ r'.conn.server.isReady = false ∨ r'.ret = -1 := by
  induction fuel generalizing r with
  | zero => cases h
  | succ fuel ih =>
    rw [serverLoop_succ] at h
    split at h
    · obtain ⟨r₁, -, hafter⟩ := Option.bind_eq_some_iff.mp h
      rcases afterTurn_cases hafter with ⟨hempty, rfl⟩ | ⟨-, conn, -, hrest⟩
      · exact Or.inl hempty
      · rcases hrest with ⟨hwaits, rfl⟩ | ⟨-, hloop⟩
        · exact Or.inr (Or.inl hwaits)
        · exact ih hloop
    · rename_i hstop
      obtain rfl := Option.some.inj h
      by_contra hgo
      rw [not_or, not_or] at hgo
      exact hstop ⟨not_le.mp hgo.1, by simpa using hgo.2.1, hgo.2.2⟩

/-! ## Calls -/

/-- What holds at the start of a call, and what a round and a parse preserve, holds of its result. -/
lemma handlerServer_induct {P : ServerResult → Prop} {config : Config} {data : List UInt8}
    (hturn : ∀ r r₁, P r → turn r = some r₁ → P r₁)
    (hparse : ∀ buf r₁ conn', receive conn.server.buf conn.server.offset data = some buf →
      Passes data.length (startCall config conn buf (conn.server.offset + data.length)) r₁ → P r₁ →
      0 < r₁.conn.server.offset → parseHeader r₁.conn data.length = some conn' → P { r₁ with conn := conn' })
    (hstart : ∀ buf, receive conn.server.buf conn.server.offset data = some buf →
      P (startCall config conn buf (conn.server.offset + data.length)))
    (h : handlerServer config conn data = some r) : P r := by
  obtain ⟨buf, hrecv, hloop⟩ := handlerServer_eq_some h
  apply serverLoop_induct hturn _ (hstart buf hrecv) hloop
  intro r₁ conn' hpass
  exact hparse buf r₁ conn' hrecv hpass

lemma handlerServer_settled {config : Config} {data : List UInt8} (hsettled : Settled conn)
    (h : handlerServer config conn data = some r) : Settled r.conn := by
  apply handlerServer_induct (P := fun r => Settled r.conn) _ _ _ h
  · intro r r₁ hr hround
    exact (turn_settled hr hround).1
  · intro buf r₁ conn₁ _ _ hr₁ _ hparse
    exact parseHeader_settled hr₁ hparse
  · exact fun buf _ => ⟨hsettled.nonneg, hsettled.toSend, hsettled.state⟩

lemma handlerBrowser_hasHandler {config : Config} {data : List UInt8} {r : BrowserResult} (hstate : conn.state ≠ .uk)
    (h : handlerBrowser config conn data = some r) : r.conn.state ≠ .uk := by
  obtain ⟨buf, request, -, -, ⟨-, rfl⟩ | ⟨-, -, rfl⟩ | ⟨-, -, forward, -, rfl⟩⟩ := handlerBrowser_cases h
  · exact hstate
  · exact hstate
  · change requestState (checkType request) ≠ .uk
    cases checkType request <;> simp [requestState]

/-! ## Calls in between -/

/-- The calls of `handler_browser` between two calls of `handler_server`. -/
inductive Between : ProxyConn → ProxyConn → Prop
  | refl (conn : ProxyConn) : Between conn conn
  | call {conn conn' : ProxyConn} {config : Config} {data : List UInt8} {r : BrowserResult} (h : Between conn conn')
      (hcall : handlerBrowser config conn' data = some r) : Between conn r.conn

lemma Between.transport (h : Between conn conn') : conn'.server.transport = conn.server.transport := by
  induction h with
  | refl => rfl
  | call _ hcall ih => exact (handlerBrowser_frame hcall).2.1.trans ih

lemma Settled.of_transport (hsettled : Settled conn) (htransport : conn'.server.transport = conn.server.transport)
    (hstate : conn'.state ≠ .uk) : Settled conn' := by
  have hrequest : conn'.server.request = conn.server.request := congrArg Transport.request htransport
  have htoSend : conn'.server.toSendLength = conn.server.toSendLength := congrArg Transport.toSendLength htransport
  refine ⟨?_, fun hnone => ?_, hstate⟩
  · rw [htoSend]
    exact hsettled.nonneg
  · rw [htoSend]
    rw [hrequest] at hnone
    exact hsettled.toSend hnone

lemma Between.settled (hsettled : Settled conn) (h : Between conn conn') : Settled conn' := by
  induction h with
  | refl => exact hsettled
  | call _ hcall ih => exact ih.of_transport (handlerBrowser_frame hcall).2.1 (handlerBrowser_hasHandler ih.state hcall)

end Loop

/-- What happens in front of the calls of `handler_server` for one connection: calls of `handler_browser`, and
changes of the configuration by other connections. -/
structure Interleaving where
  before : Nat → ProxyConn → Config × ProxyConn
  between : ∀ n conn, Between conn (before n conn).2

/-- The call for the result of a `recv`. -/
def Interleaving.call (env : Interleaving) (n : Nat) (conn : ProxyConn) (data : List UInt8) : Option ServerResult :=
  handlerServer (env.before n conn).1 (env.before n conn).2 data

/-- The connection after the calls for successive results, where none of them closes it. -/
def Interleaving.after (env : Interleaving) : Nat → ProxyConn → List (List UInt8) → Option ProxyConn
  | _, conn, [] => some conn
  | n, conn, data :: chunks => do
    let r ← env.call n conn data
    if r.ret < 0 then none else env.after (n + 1) r.conn chunks

/-- What holds of a new connection, and what the calls that keep a connection preserve, holds of all connections
in every state. -/
lemma Reachable.induct_conns {P : ProxyConn → Prop}
    (hnew : ∀ config ip serverFd, P (proxyConnCreate config ip serverFd))
    (hbrowser : ∀ config conn data r, P conn → handlerBrowser config conn data = some r → P r.conn)
    (hserver : ∀ config conn data r, P conn → handlerServer config conn data = some r → ¬r.ret < 0 → P r.conn)
    {config : Config} {w : ProxyState} (h : Reachable config w) : ∀ conn ∈ w.conns, P conn := by
  induction h with
  | start => exact fun conn hconn => absurd hconn List.not_mem_nil
  | step e _ hstep ih =>
    intro c hc
    cases e with
    | accept ip serverFd =>
      obtain rfl := Option.some.inj hstep
      rcases List.mem_cons.mp hc with rfl | hc
      · exact hnew _ ip serverFd
      · exact ih c hc
    | browser i data =>
      obtain ⟨conn, r, hconn, hcall, rfl⟩ := proxyStep_browser hstep
      rcases mem_afterCall hc with hc | ⟨rfl, -⟩
      · exact ih c hc
      · exact hbrowser _ conn data r (ih conn (List.mem_of_getElem? hconn)) hcall
    | server i data =>
      obtain ⟨conn, r, hconn, hcall, rfl⟩ := proxyStep_server hstep
      rcases mem_afterCall hc with hc | ⟨rfl, hopen⟩
      · exact ih c hc
      · exact hserver _ conn data r (ih conn (List.mem_of_getElem? hconn)) hcall hopen
    | hangup i =>
      obtain rfl := Option.some.inj hstep
      exact ih c (List.mem_of_mem_eraseIdx hc)

lemma Reachable.settled {config : Config} {w : ProxyState} (h : Reachable config w) :
    ∀ conn ∈ w.conns, Settled conn := by
  apply h.induct_conns (P := Settled)
  · exact fun config ip serverFd => ⟨le_rfl, fun _ => rfl, by simp [proxyConnCreate]⟩
  · exact fun config conn data r hconn hcall => Between.settled hconn (.call (.refl conn) hcall)
  · exact fun config conn data r hconn hcall _ => handlerServer_settled hconn hcall

end VideoCDN.Proxy
