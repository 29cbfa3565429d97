import VideoCDN.Nameserver.Serve

/-!
# Resolving the server's name

`resolve` of `mydns.c`, and what `proxy_connect_server` does with its result. The decoder finds an address
in some of the datagrams that may arrive in answer to the query; the value it returns is not looked at.
-/

namespace VideoCDN.Proxy

open CString Buffer Inet Dns Nameserver

/-- What `resolve` returns, the query it sends, and the address in `*res`. -/
structure Resolved where
  ret : Int
  query : List UInt8
  addr : InAddr

/-- The address in `*res` is at first what the allocated memory holds. `sendto` may fail, and `recvfrom`
may; otherwise a datagram arrives. -/
def resolve (node : List UInt8) (dnsId : UInt16) (junk : InAddr) (sendto : Bool) (recvfrom : Option (List UInt8)) :
    Option Resolved := do
  let (size, packet) ← dnsGenerateRequest node dnsId (zeroPacket dnsMsgMaxLen)
  let query := packet.take size.toNat
  if sendto then
    match recvfrom with
    | none => return ⟨-1, query, junk⟩
    | some datagram =>
      let (_, addr) ← dnsParseResponse (receive datagram) (min datagram.length dnsMsgMaxLen : Nat)
      return ⟨0, query, addr.getD junk⟩
  else return ⟨-1, query, junk⟩

/-- The address that `proxy_connect_server` then calls `connect` with. -/
def Resolved.connectAddr (r : Resolved) : Option InAddr := if 0 ≤ r.ret then some r.addr else none

/-! ## The datagrams with an answer -/

/-- The header is one of a response without an error, with one answer. -/
def AcceptedHeader (header : DnsHeader) : Prop := dnsIsinvalid header false = false ∧ header.flags &&& flagRCODE = 0

/-- A response with a question and an answer of four bytes. The types, the classes and the TTL can be anything. -/
structure AnswerMessage where
  header : DnsHeader
  question : WireName
  questionFixed : List UInt8
  owner : WireName
  fixed : List UInt8
  addr : InAddr
  accepted : AcceptedHeader header
  questionFixed_length : questionFixed.length = 4
  fixed_length : fixed.length = 8

/-- The names are written out, and the length of the address is in front of it. -/
def AnswerMessage.toBytes (m : AnswerMessage) : List UInt8 :=
  m.header.toBytes ++ m.question.toBytes ++ m.questionFixed ++ m.owner.toBytes ++ m.fixed ++ [0, 4] ++ m.addr.toList

/-- What is received of the datagram starts with a response that has the address for an answer. -/
def HasAnswer (datagram : List UInt8) (a : InAddr) : Prop :=
  ∃ m : AnswerMessage, m.addr = a ∧ m.toBytes <+: datagram.take dnsMsgMaxLen

lemma AnswerMessage.length_toBytes (m : AnswerMessage) :
    m.toBytes.length = m.question.text.length + m.owner.text.length + 34 := by
  simp only [toBytes, List.length_append, DnsHeader.length_toBytes, WireName.length_toBytes, m.questionFixed_length,
    m.fixed_length, InAddr.toList, List.length_cons, List.length_nil, sizeofHeader]
  omega

/-- The decoder finds the answer, and stores its address. The size does not have to reach behind the names. -/
lemma dnsParseResponse_message (m : AnswerMessage) (tail : List UInt8) (size : Int)
    (hsize : m.question.text.length + m.owner.text.length + 20 ≤ size) (hint : size < 2 ^ 31) :
    dnsParseResponse (m.toBytes ++ tail) size =
      some (((m.question.text.length + m.owner.text.length + 30 : Nat) : Int), some m.addr) := by
  obtain ⟨hvalid, hrcode⟩ := m.accepted
  have hquestion := dnsParseResponse_wire m.question hvalid hrcode m.questionFixed
    (m.owner.toBytes ++ (m.fixed ++ [0, 4] ++ m.addr.toList ++ tail)) m.questionFixed_length size (by omega) hint
  have howner := parseResource_wire m.owner m.addr (m.header.toBytes ++ m.question.toBytes ++ m.questionFixed) m.fixed
    tail m.fixed_length (size - (m.question.text.length + 18 : Nat)) (by push_cast; omega) (by push_cast; omega)
  have hpre : (m.header.toBytes ++ m.question.toBytes ++ m.questionFixed).length = m.question.text.length + 18 := by
    simp only [List.length_append, DnsHeader.length_toBytes, WireName.length_toBytes, m.questionFixed_length,
      sizeofHeader]
    omega
  have hbuf : m.header.toBytes ++ m.question.toBytes ++
      (m.questionFixed ++ (m.owner.toBytes ++ (m.fixed ++ [0, 4] ++ m.addr.toList ++ tail))) = m.toBytes ++ tail := by
    simp [AnswerMessage.toBytes]
  have hbuf' : m.header.toBytes ++ m.question.toBytes ++ m.questionFixed ++ m.owner.toBytes ++
      (m.fixed ++ [0, 4] ++ m.addr.toList ++ tail) = m.toBytes ++ tail := by
    simp [AnswerMessage.toBytes]
  rw [hbuf] at hquestion
  rw [hpre, hbuf'] at howner
  have hsum : ((m.owner.text.length + 12 : Nat) : Int) + ((m.question.text.length + 18 : Nat) : Int) =
      ((m.question.text.length + m.owner.text.length + 30 : Nat) : Int) := by
    push_cast
    omega
  rw [hquestion, howner, Option.map_some, hsum]

/-- The array the datagram was received in starts with what was received; the decoder gets to the end of the
message. -/
lemma AnswerMessage.parsed {m : AnswerMessage} {datagram : List UInt8} (h : m.toBytes <+: datagram.take dnsMsgMaxLen) :
    ∃ ret : Nat, ret + 4 ≤ datagram.length ∧
      dnsParseResponse (receive datagram) (min datagram.length dnsMsgMaxLen : Nat) =
        some ((ret : Int), some m.addr) := by
  obtain ⟨rest, hrest⟩ := h
  have hlen := congrArg List.length hrest
  rw [List.length_append, List.length_take, m.length_toBytes] at hlen
  have hparsed := dnsParseResponse_message m (rest ++ zeroPacket (dnsMsgMaxLen - datagram.length))
    (min datagram.length dnsMsgMaxLen : Nat) (by omega) (by rw [dnsMsgMaxLen]; omega)
  rw [← List.append_assoc, hrest] at hparsed
  exact ⟨_, by omega, hparsed⟩

lemma HasAnswer.parsed {datagram : List UInt8} {a : InAddr} (h : HasAnswer datagram a) :
    ∃ ret, 0 ≤ ret ∧
      dnsParseResponse (receive datagram) (min datagram.length dnsMsgMaxLen : Nat) = some (ret, some a) := by
  obtain ⟨m, rfl, hprefix⟩ := h
  obtain ⟨ret, -, hparsed⟩ := AnswerMessage.parsed hprefix
  exact ⟨ret, Int.natCast_nonneg _, hparsed⟩

lemma HasAnswer.header {datagram : List UInt8} {a : InAddr} (h : HasAnswer datagram a) :
    ∃ header, loadHeader (receive datagram) = some header ∧ AcceptedHeader header := by
  obtain ⟨m, rfl, rest, hrest⟩ := h
  refine ⟨m.header, ?_, m.accepted⟩
  rw [receive, ← hrest, AnswerMessage.toBytes]
  simp only [List.append_assoc]
  exact loadHeader_toBytes _ _

lemma HasAnswer.unique {datagram : List UInt8} {a b : InAddr} (ha : HasAnswer datagram a) (hb : HasAnswer datagram b) :
    a = b := by
  obtain ⟨ret, -, hparsed⟩ := ha.parsed
  obtain ⟨ret', -, hparsed'⟩ := hb.parsed
  rw [hparsed] at hparsed'
  exact Option.some.inj (congrArg Prod.snd (Option.some.inj hparsed'))

/-! ## The result -/

/-- The result of the decoder is not looked at. -/
lemma resolve_of_datagram (node : HostName) (dnsId : UInt16) (junk : InAddr) (datagram : List UInt8) :
    resolve node.text dnsId junk true (some datagram) =
      (dnsParseResponse (receive datagram) (min datagram.length dnsMsgMaxLen : Nat)).map fun r =>
        ⟨0, requestBytes node dnsId, r.2.getD junk⟩ := by
  have hlen := node.length_text_le
  have hpacket := dnsGenerateRequest_text node dnsId (zeroPacket dnsMsgMaxLen)
    (by simp only [zeroPacket, List.length_replicate, dnsMsgMaxLen]; omega)
  have hquery : (requestBytes node dnsId ++ (zeroPacket dnsMsgMaxLen).drop (node.text.length + 18)).take
      (node.text.length + 18) = requestBytes node dnsId :=
    List.take_left' (length_header_question node (requestHeader dnsId))
  rw [← requestBytes] at hpacket
  unfold resolve
  rw [hpacket]
  simp only [Option.bind_eq_bind, Option.bind_some, if_true, Option.map_eq_bind, Int.toNat_natCast, hquery]
  rfl

lemma acceptedHeader_response (id : UInt16) : AcceptedHeader (responseHeader id) := by
  change dnsIsinvalid (responseHeader 0) false = false ∧ (0 ||| (flagQR ||| flagAA)) &&& flagRCODE = 0
  decide

/-- The nameserver's response to a query has an answer. -/
theorem hasAnswer_response (name : HostName) (dnsId : UInt16) (a : InAddr) :
    HasAnswer ((responseHeader dnsId).toBytes ++ questionBytes name.labels ++ answerBytes name.labels a) a := by
  have htext := name.length_text_le
  have hlen : ((responseHeader dnsId).toBytes ++ questionBytes name.labels ++ answerBytes name.labels a).length =
      2 * name.text.length + 34 := by
    rw [List.length_append, length_header_question]
    simp [answerBytes, InAddr.toList, name.length_wireName]
    omega
  refine ⟨⟨responseHeader dnsId, name.toWire, [0, 1, 0, 1], name.toWire, [0, 1, 0, 1, 0, 0, 0, 0], a,
    acceptedHeader_response dnsId, rfl, rfl⟩, rfl, ?_⟩
  rw [List.take_of_length_le (by rw [hlen, dnsMsgMaxLen]; omega)]
  simp [AnswerMessage.toBytes, HostName.toWire, WireName.toBytes, questionBytes, answerBytes]

/-- The nameserver's response without the address at its end. -/
def cutResponse (name : HostName) (dnsId : UInt16) : List UInt8 :=
  (responseHeader dnsId).toBytes ++ questionBytes name.labels ++ wireName name.labels ++ [0, 1, 0, 1, 0, 0, 0, 0, 0, 4]

/-- The zeros behind a response that is cut are taken for the address. -/
theorem cut_response_resolves (name node : HostName) (dnsId : UInt16) (junk : InAddr) :
    (¬∃ a, HasAnswer (cutResponse name dnsId) a) ∧
      ∃ r, resolve node.text dnsId junk true (some (cutResponse name dnsId)) = some r ∧ r.ret = 0 ∧
        r.addr = ⟨0, 0, 0, 0⟩ := by
  have htext := name.length_text_le
  have hlen : (cutResponse name dnsId).length = 2 * name.text.length + 30 := by
    rw [cutResponse, List.length_append, List.length_append, length_header_question, name.length_wireName]
    simp
    omega
  obtain ⟨m, hm⟩ : ∃ m : AnswerMessage, m = ⟨responseHeader dnsId, name.toWire, [0, 1, 0, 1], name.toWire,
    [0, 1, 0, 1, 0, 0, 0, 0], ⟨0, 0, 0, 0⟩, acceptedHeader_response dnsId, rfl, rfl⟩ := ⟨_, rfl⟩
  have hquestion : m.question.text.length = name.text.length := by rw [hm]; rfl
  have howner : m.owner.text.length = name.text.length := by rw [hm]; rfl
  have hreceive : receive (cutResponse name dnsId) =
      m.toBytes ++ zeroPacket (dnsMsgMaxLen - (2 * name.text.length + 34)) := by
    have hzeros : zeroPacket (dnsMsgMaxLen - (2 * name.text.length + 30)) =
        [0, 0, 0, 0] ++ zeroPacket (dnsMsgMaxLen - (2 * name.text.length + 34)) := by
      have hcount : dnsMsgMaxLen - (2 * name.text.length + 30) = 4 + (dnsMsgMaxLen - (2 * name.text.length + 34)) := by
        rw [dnsMsgMaxLen]
        omega
      rw [hcount, zeroPacket, ← List.replicate_append_replicate]
      rfl
    rw [receive, hlen, List.take_of_length_le (by rw [hlen, dnsMsgMaxLen]; omega), hzeros, hm]
    simp [cutResponse, AnswerMessage.toBytes, HostName.toWire, WireName.toBytes, questionBytes, InAddr.toList]
  have hparsed := dnsParseResponse_message m (zeroPacket (dnsMsgMaxLen - (2 * name.text.length + 34)))
    (min (cutResponse name dnsId).length dnsMsgMaxLen : Nat) (by rw [hlen, dnsMsgMaxLen]; omega)
    (by rw [hlen, dnsMsgMaxLen]; omega)
  rw [← hreceive] at hparsed
  constructor
  · -- the decoder would have to end at the end of the datagram
    rintro ⟨a, m', -, hprefix⟩
    obtain ⟨ret, hret, hparsed'⟩ := AnswerMessage.parsed hprefix
    have heq : ((m.question.text.length + m.owner.text.length + 30 : Nat) : Int) = ret :=
      congrArg Prod.fst (Option.some.inj (hparsed.symm.trans hparsed'))
    omega
  · rw [resolve_of_datagram, hparsed]
    refine ⟨_, rfl, rfl, ?_⟩
    rw [hm]
    rfl

section Example

end Example

end VideoCDN.Proxy
