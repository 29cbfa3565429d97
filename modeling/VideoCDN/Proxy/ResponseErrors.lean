import VideoCDN.Proxy.Resolve

/-!
# Errors in responses

What `dns_parse_response` returns. An answer whose length is not that of an address is refused by
`parse_resource`, but the offset is added to its -1 and the sum is not negative. The header that
`dns_gen_response` writes for an error has its flag outside the RCODE field.
-/

namespace VideoCDN.Proxy

open CString Buffer Inet Dns Nameserver

/-! ## The returned value -/

section Response

variable {packet : List UInt8} {size ret : Int} {addr : Option InAddr}

end Response

section Refused

variable (name : HostName) {rdlength : UInt16} (hrdlength : htons rdlength ≠ 4)

end Refused

section Example

end Example

/-! ## Responses with an error -/

/-- The RCODE field of a message, in network order. -/
def wireRcode (message : List UInt8) : Option Nat := message[3]?.map fun b => b.toNat % 16

/-- The Z field. -/
def wireZ (message : List UInt8) : Option Nat := message[3]?.map fun b => b.toNat / 16 % 8

/-- What the decoder makes of a message that was written and sent. -/
def readBack (size : Int) (packet : List UInt8) : Option (Int × Option InAddr) :=
  dnsParseResponse (receive (packet.take size.toNat)) (min (packet.take size.toNat).length dnsMsgMaxLen : Nat)

/-- The response written for an error says so, and is taken for the error of a server. -/
def ErrorRecognised (query : List UInt8) (ip : Option (List UInt8)) (dnsId : UInt16) (rcode : Int)
    (result : List UInt8) : Prop :=
  ∃ size packet, dnsGenResponse query ip dnsId rcode result = some (size, packet) ∧
    (∃ code, wireRcode packet = some code ∧ code ≠ 0) ∧ wireZ packet = some 0 ∧
    ∃ addr, readBack size packet = some (-2, addr)

/-- The header written for an error: the flag is in the Z field. -/
def rcodeHeader (id : UInt16) : DnsHeader :=
  { dnsHeaderInit id with flags := (dnsHeaderInit id).flags ||| ((1 : UInt16) <<< 12) ||| (flagQR ||| flagAA) }

lemma rcodeHeader_bytes (id : UInt16) :
    (rcodeHeader id).toBytes = bytesOf16 (htons id) ++ [132, 16, 0, 0, 0, 0, 0, 0, 0, 0] := by
  simp only [rcodeHeader, dnsHeaderInit, DnsHeader.toBytes, List.append_assoc]
  congr 1

lemma dnsGenResponse_error {query : List UInt8} {ip : Option (List UInt8)} {dnsId : UInt16} {rcode : Int}
    (hrcode : rcode ≠ 0) {result packet : List UInt8} {size : Int}
    (h : dnsGenResponse query ip dnsId rcode result = some (size, packet)) :
    size = 12 ∧ ∃ rest, packet = (rcodeHeader dnsId).toBytes ++ rest := by
  rw [dnsGenResponse, if_pos hrcode] at h
  obtain ⟨written, hblit, hr⟩ := Option.bind_eq_some_iff.mp h
  obtain ⟨rfl, rfl⟩ : (sizeofHeader : Int) = size ∧ written = packet := by simpa using hr
  unfold blit at hblit
  split at hblit
  · exact ⟨rfl, _, (Option.some.inj hblit).symm⟩
  · cases hblit

/-- The header written for an error has a zero RCODE and a Z field, and is taken for an invalid one. -/
lemma dnsGenResponse_error_fields {query : List UInt8} {ip : Option (List UInt8)} {dnsId : UInt16} {rcode : Int}
    (hrcode : rcode ≠ 0) {result packet : List UInt8} {size : Int}
    (h : dnsGenResponse query ip dnsId rcode result = some (size, packet)) :
    wireRcode packet = some 0 ∧ wireZ packet = some 1 ∧ readBack size packet = some (-1, none) := by
  obtain ⟨rfl, rest, rfl⟩ := dnsGenResponse_error hrcode h
  have hsent : ((rcodeHeader dnsId).toBytes ++ rest).take (12 : Int).toNat = (rcodeHeader dnsId).toBytes :=
    List.take_left' (rcodeHeader dnsId).length_toBytes
  have hinvalid : dnsIsinvalid (rcodeHeader dnsId) false = true := by
    change dnsIsinvalid (rcodeHeader 0) false = true
    decide
  refine ⟨by rw [rcodeHeader_bytes]; rfl, by rw [rcodeHeader_bytes]; rfl, ?_⟩
  rw [readBack, hsent, receive,
    List.take_of_length_le (by rw [DnsHeader.length_toBytes, dnsMsgMaxLen, sizeofHeader]; omega)]
  simp only [dnsParseResponse, loadHeader_toBytes, hinvalid, Option.bind_eq_bind, Option.bind_some, if_true,
    Option.pure_def]

/-- No error is recognised, by its fields or by the decoder. -/
theorem error_not_recognised (query : List UInt8) (ip : Option (List UInt8)) (dnsId : UInt16) (rcode : Int)
    (hrcode : rcode ≠ 0) (result : List UInt8) :
    ¬ErrorRecognised query ip dnsId rcode result ∧
      ∀ size packet, dnsGenResponse query ip dnsId rcode result = some (size, packet) →
        wireRcode packet = some 0 ∧ wireZ packet = some 1 ∧ readBack size packet = some (-1, none) := by
  refine ⟨?_, fun size packet h => dnsGenResponse_error_fields hrcode h⟩
  rintro ⟨size, packet, hgen, ⟨code, hcode, hne⟩, -, -⟩
  obtain ⟨hzero, -, -⟩ := dnsGenResponse_error_fields hrcode hgen
  exact hne (Option.some.inj (hcode.symm.trans hzero))

theorem error_not_recognised_video : ¬ErrorRecognised videoName.text none 5 3 (zeroPacket 12) :=
  (error_not_recognised videoName.text none 5 3 (by decide) (zeroPacket 12)).1

/-- The array has room for the header. -/
theorem errors_not_recognised :
    ¬∀ (query : List UInt8) (ip : Option (List UInt8)) (dnsId : UInt16) (rcode : Int), rcode ≠ 0 →
      ∀ result : List UInt8, sizeofHeader ≤ result.length → ErrorRecognised query ip dnsId rcode result := by
  intro h
  obtain ⟨size, packet, hgen, -, hz, -⟩ := h videoName.text none 5 3 (by decide) (zeroPacket 12) (by decide)
  obtain ⟨-, hone, -⟩ := dnsGenResponse_error_fields (by decide) hgen
  rw [hone] at hz
  cases hz

end VideoCDN.Proxy
