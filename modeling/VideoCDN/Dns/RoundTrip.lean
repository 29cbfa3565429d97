import VideoCDN.Dns.HostName

/-!
# The resolver and the nameserver understand each other

The bytes of a request and of a response are computed for every host name. The offset
`parse_name` returns is one byte short of what it went over; the callers make up for it, and
both decoders end up at the right place.
-/

namespace VideoCDN.Dns

open CString Inet Buffer

/-- `DNS_MSG_MAX_LEN`. -/
def dnsMsgMaxLen : Nat := 65535

/-- A packet array as it is declared, filled with zeros. -/
def zeroPacket (n : Nat) : List UInt8 := List.replicate n 0

lemma load16_bytesOf16 (x : UInt16) (pre tail : List UInt8) :
    load16 (pre ++ (bytesOf16 x ++ tail)) pre.length = some x := by
  have hor : x.toUInt8.toUInt16 ||| ((x >>> 8).toUInt8.toUInt16 <<< 8) = x := by
    apply UInt16.toNat_inj.mp
    have h := x.toNat_lt
    have hlo : x.toUInt8.toUInt16.toNat = x.toNat % 2 ^ 8 := by simp
    have hhi : ((x >>> 8).toUInt8.toUInt16 <<< 8).toNat = 2 ^ 8 * (x.toNat / 2 ^ 8) := by
      simp [Nat.shiftRight_eq_div_pow, Nat.shiftLeft_eq]
      omega
    rw [UInt16.toNat_or, hlo, hhi, Nat.or_comm,
      ← Nat.two_pow_add_eq_or_of_lt (Nat.mod_lt _ (by decide)), Nat.div_add_mod]
  have h0 : (pre ++ (bytesOf16 x ++ tail))[pre.length]? = some x.toUInt8 := by simp [bytesOf16]
  have h1 : (pre ++ (bytesOf16 x ++ tail))[pre.length + 1]? = some (x >>> 8).toUInt8 := by
    rw [List.getElem?_append_right (by omega), Nat.add_sub_cancel_left]
    rfl
  rw [load16, h0, h1]
  exact congrArg some hor

@[simp] lemma length_bytesOf16 (x : UInt16) : (bytesOf16 x).length = 2 := rfl

@[simp] lemma DnsHeader.length_toBytes (h : DnsHeader) : h.toBytes.length = sizeofHeader := rfl

/-- A header is read back from memory. -/
theorem loadHeader_toBytes (h : DnsHeader) (tail : List UInt8) : loadHeader (h.toBytes ++ tail) = some h := by
  have hid := load16_bytesOf16 h.id [] (bytesOf16 h.flags ++ bytesOf16 h.qdcount ++ bytesOf16 h.ancount ++
    bytesOf16 h.nscount ++ bytesOf16 h.arcount ++ tail)
  have hflags := load16_bytesOf16 h.flags (bytesOf16 h.id) (bytesOf16 h.qdcount ++ bytesOf16 h.ancount ++
    bytesOf16 h.nscount ++ bytesOf16 h.arcount ++ tail)
  have hqd := load16_bytesOf16 h.qdcount (bytesOf16 h.id ++ bytesOf16 h.flags)
    (bytesOf16 h.ancount ++ bytesOf16 h.nscount ++ bytesOf16 h.arcount ++ tail)
  have han := load16_bytesOf16 h.ancount (bytesOf16 h.id ++ bytesOf16 h.flags ++ bytesOf16 h.qdcount)
    (bytesOf16 h.nscount ++ bytesOf16 h.arcount ++ tail)
  have hns := load16_bytesOf16 h.nscount
    (bytesOf16 h.id ++ bytesOf16 h.flags ++ bytesOf16 h.qdcount ++ bytesOf16 h.ancount)
    (bytesOf16 h.arcount ++ tail)
  have har := load16_bytesOf16 h.arcount (bytesOf16 h.id ++ bytesOf16 h.flags ++ bytesOf16 h.qdcount ++
    bytesOf16 h.ancount ++ bytesOf16 h.nscount) tail
  simp only [List.nil_append, List.append_assoc, List.length_append, length_bytesOf16, List.length_nil]
    at hid hflags hqd han hns har
  simp only [loadHeader, DnsHeader.toBytes, List.append_assoc, hid, hflags, hqd, han, hns, har,
    Option.bind_eq_bind, Option.bind_some]
  rfl

lemma length_wireName_of_ne_nil {ls : List (List UInt8)} (hne : ls ≠ []) :
    (wireName ls).length = (joinDots ls).length + 2 := by
  obtain ⟨l, ls, rfl⟩ := List.exists_cons_of_ne_nil hne
  exact length_wireName l ls

/-- The question section of a name. -/
def questionBytes (ls : List (List UInt8)) : List UInt8 := wireName ls ++ [0, 1, 0, 1]

/-- The answer section of a name and an address. -/
def answerBytes (ls : List (List UInt8)) (a : InAddr) : List UInt8 :=
  wireName ls ++ [0, 1, 0, 1, 0, 0, 0, 0, 0, 4] ++ a.toList

/-- The coder writes the question of a name over whatever the array held there. -/
lemma generateQuestion_joinDots (ls : List (List UInt8)) (hne : ls ≠ []) (hls : ∀ l ∈ ls, ∀ b ∈ l, b ≠ 46)
    (pre old tail : List UInt8) (hold : old.length = (joinDots ls).length + 6) :
    generateQuestion pre.length (joinDots ls) (pre ++ old ++ tail) =
      some ((joinDots ls).length + 6, pre ++ questionBytes ls ++ tail) := by
  have hsplit : pre ++ old ++ tail = pre ++ old.take ((joinDots ls).length + 2) ++
      (old.drop ((joinDots ls).length + 2) ++ tail) := by
    rw [List.append_assoc, List.append_assoc, ← List.append_assoc (old.take _), List.take_append_drop]
  have hname := translateName_joinDots ls hne hls pre (old.take ((joinDots ls).length + 2))
    (old.drop ((joinDots ls).length + 2) ++ tail) (by rw [List.length_take]; omega)
  have hblit : blit (pre ++ wireName ls ++ (old.drop ((joinDots ls).length + 2) ++ tail))
      (pre.length + ((joinDots ls).length + 2)) [0, 1, 0, 1] =
      some ((pre ++ wireName ls) ++ [0, 1, 0, 1] ++ tail) := by
    apply blit_at _ _ (old.drop ((joinDots ls).length + 2)) tail
    · simp
    · rw [List.length_append, length_wireName_of_ne_nil hne]
    · rw [List.length_drop]
      simp
      omega
  rw [hsplit, generateQuestion, hname]
  simp only [Option.bind_eq_bind, Option.bind_some]
  change (blit _ _ [0, 1, 0, 1]).bind _ = _
  rw [hblit]
  simp [questionBytes, sizeofQuestion]

section WireNames

variable (name : WireName)

lemma WireName.length_toBytes : name.toBytes.length = name.text.length + 2 :=
  length_wireName_of_ne_nil name.labels_ne_nil

lemma parseName_wire (pre rest : List UInt8) (size : Int) (hsize : name.text.length + 2 ≤ size)
    (hint : size < 2 ^ 31) :
    parseName 512 (pre ++ name.toBytes ++ rest) pre.length size = some (name.text.length + 1, name.text) := by
  have hlen : name.text.length ≤ 253 := name.length_le
  apply parseName_wireName 512 name.labels name.labels_ne_nil name.isLabel pre rest size _ hint
  · change name.text.length + 1 < 512
    omega
  · change (name.toBytes.length : Int) ≤ size
    rw [name.length_toBytes]
    exact_mod_cast hsize

/-- The type and the class of the question do not matter. -/
lemma parseQuestion_wire (pre rest : List UInt8) (size : Int) (hrest : rest ≠ [])
    (hsize : name.text.length + 2 ≤ size) (hint : size < 2 ^ 31) :
    parseQuestion 512 (pre ++ name.toBytes ++ rest) pre.length size = some (name.text.length + 5, name.text) := by
  have hlen := name.length_toBytes
  have hpos := List.length_pos_of_ne_nil hrest
  -- the type is read from the last byte of the name on
  have hqtype : ∃ q, load16 (pre ++ name.toBytes ++ rest) (pre.length + (name.text.length + 1)) = some q := by
    unfold load16
    rw [List.getElem?_eq_getElem (by simp [hlen]; omega), List.getElem?_eq_getElem (by simp [hlen]; omega)]
    exact ⟨_, rfl⟩
  obtain ⟨q, hq⟩ := hqtype
  rw [parseQuestion, parseName_wire name pre _ size hsize hint]
  simp only [Option.bind_eq_bind, Option.bind_some, hq]
  rfl

/-- An address of four bytes is stored, whatever the type, the class and the TTL of the answer are. -/
lemma parseResource_wire (a : InAddr) (pre fixed rest : List UInt8) (hfixed : fixed.length = 8) (size : Int)
    (hsize : name.text.length + 2 ≤ size) (hint : size < 2 ^ 31) :
    parseResource (pre ++ name.toBytes ++ (fixed ++ [0, 4] ++ a.toList ++ rest)) pre.length size =
      some (((name.text.length + 12 : Nat) : Int), some a) := by
  have hlen := name.length_toBytes
  have hrd : load16 (pre ++ name.toBytes ++ (fixed ++ [0, 4] ++ a.toList ++ rest))
      (pre.length + (name.text.length + 1 + 1) + 8) = some (htons 4) := by
    have h := load16_bytesOf16 (htons 4) (pre ++ name.toBytes ++ fixed) (a.toList ++ rest)
    simp only [List.length_append, hlen, hfixed] at h
    rw [← h]
    have hbytes : bytesOf16 (htons 4) = [0, 4] := by decide
    rw [hbytes]
    simp [Nat.add_assoc]
  have hget : ∀ i (hi : i < 4), (pre ++ name.toBytes ++ (fixed ++ [0, 4] ++ a.toList ++ rest))[pre.length +
        (name.text.length + 1 + 1 + sizeofResource - 2) + i]? = a.toList[i]? := by
    intro i hi
    have hidx : pre.length + (name.text.length + 1 + 1 + sizeofResource - 2) + i =
        (pre ++ name.toBytes ++ (fixed ++ [0, 4])).length + i := by
      simp only [List.length_append, hlen, hfixed, sizeofResource, List.length_cons, List.length_nil]
      omega
    rw [hidx, List.append_assoc (fixed ++ [0, 4]), ← List.append_assoc _ (fixed ++ [0, 4]),
      List.getElem?_append_right (by omega), Nat.add_sub_cancel_left,
      List.getElem?_append_left (by simpa [InAddr.toList] using hi)]
  have h0 := hget 0 (by decide)
  have h1 := hget 1 (by decide)
  have h2 := hget 2 (by decide)
  have h3 := hget 3 (by decide)
  rw [parseResource, parseName_wire name pre _ size hsize hint]
  simp only [Option.bind_eq_bind, Option.bind_some, hrd]
  rw [if_neg (by decide)]
  rw [Nat.add_zero] at h0
  simp only [h0, h1, h2, h3]
  simp [InAddr.toList, sizeofResource]

end WireNames

section Names

variable (name : HostName)

lemma HostName.length_wireName : (wireName name.labels).length = name.text.length + 2 :=
  length_wireName_of_ne_nil name.labels_ne_nil

lemma HostName.labels_no_dot : ∀ l ∈ name.labels, ∀ b ∈ l, b ≠ 46 :=
  fun l hl b hb => ((name.isLabel l hl).2.2 b hb).2

lemma HostName.length_text_le : name.text.length ≤ 253 := name.length_le

lemma translateName_text (pre old tail : List UInt8) (hold : old.length = name.text.length + 2) :
    translateName pre.length name.text (pre ++ old ++ tail) =
      some (name.text.length + 2, pre ++ wireName name.labels ++ tail) :=
  translateName_joinDots name.labels name.labels_ne_nil name.labels_no_dot pre old tail hold

lemma generateQuestion_text (pre old tail : List UInt8) (hold : old.length = name.text.length + 6) :
    generateQuestion pre.length name.text (pre ++ old ++ tail) =
      some (name.text.length + 6, pre ++ questionBytes name.labels ++ tail) :=
  generateQuestion_joinDots name.labels name.labels_ne_nil name.labels_no_dot pre old tail hold

lemma parseQuestion_name (pre rest : List UInt8) (size : Int) (hrest : rest ≠ [])
    (hsize : name.text.length + 2 ≤ size) (hint : size < 2 ^ 31) :
    parseQuestion 512 (pre ++ wireName name.labels ++ rest) pre.length size =
      some (name.text.length + 5, name.text) :=
  parseQuestion_wire name.toWire pre rest size hrest hsize hint

lemma generateResource_text {ip : List UInt8} {a : InAddr} (hip : inetAton ip = some a)
    (pre old tail : List UInt8) (hold : old.length = name.text.length + 16) :
    generateResource pre.length name.text ip (pre ++ old ++ tail) =
      some (name.text.length + 16, pre ++ answerBytes name.labels a ++ tail) := by
  have hname := translateName_text name pre (old.take (name.text.length + 2))
    (old.drop (name.text.length + 2) ++ tail) (by rw [List.length_take]; omega)
  have hsplit : pre ++ old ++ tail = pre ++ old.take (name.text.length + 2) ++
      (old.drop (name.text.length + 2) ++ tail) := by
    rw [List.append_assoc, List.append_assoc, ← List.append_assoc (old.take _), List.take_append_drop]
  obtain ⟨rest, hrest⟩ : ∃ rest, old.drop (name.text.length + 2) = rest := ⟨_, rfl⟩
  have hrestlen : rest.length = 14 := by
    rw [← hrest, List.length_drop]
    omega
  have hstruct : blit (pre ++ wireName name.labels ++ (rest ++ tail)) (pre.length + (name.text.length + 2))
      [0, 1, 0, 1, 0, 0, 0, 0, 0, 4, 0, 0] =
      some ((pre ++ wireName name.labels) ++ [0, 1, 0, 1, 0, 0, 0, 0, 0, 4, 0, 0] ++ (rest.drop 12 ++ tail)) := by
    apply blit_at _ _ (rest.take 12)
    · rw [List.append_assoc _ (rest.take 12), ← List.append_assoc (rest.take 12), List.take_append_drop]
    · rw [List.length_append, name.length_wireName]
    · rw [List.length_take]
      simp
      omega
  have haddr : blit ((pre ++ wireName name.labels) ++ [0, 1, 0, 1, 0, 0, 0, 0, 0, 4, 0, 0] ++
      (rest.drop 12 ++ tail)) (pre.length + (name.text.length + 2 + sizeofResource) - 2) a.toList =
      some ((pre ++ wireName name.labels ++ [0, 1, 0, 1, 0, 0, 0, 0, 0, 4]) ++ a.toList ++ tail) := by
    apply blit_at _ _ ([0, 0] ++ rest.drop 12)
    · simp
    · simp only [List.length_append, name.length_wireName, sizeofResource, List.length_cons, List.length_nil]
      omega
    · simp [InAddr.toList]
      omega
  rw [hsplit, generateResource, hname, hrest]
  simp only [Option.bind_eq_bind, Option.bind_some]
  change (blit _ _ [0, 1, 0, 1, 0, 0, 0, 0, 0, 4, 0, 0]).bind _ = _
  rw [hstruct]
  simp only [Option.bind_some, hip, haddr]
  simp [answerBytes, sizeofResource]

lemma parseResource_text (a : InAddr) (pre rest : List UInt8) (size : Int)
    (hsize : name.text.length + 2 ≤ size) (hint : size < 2 ^ 31) :
    parseResource (pre ++ answerBytes name.labels a ++ rest) pre.length size =
      some (((name.text.length + 12 : Nat) : Int), some a) := by
  have h := parseResource_wire name.toWire a pre [0, 1, 0, 1, 0, 0, 0, 0] rest rfl size hsize hint
  have hbuf : pre ++ answerBytes name.labels a ++ rest =
      pre ++ name.toWire.toBytes ++ ([0, 1, 0, 1, 0, 0, 0, 0] ++ [0, 4] ++ a.toList ++ rest) := by
    simp [answerBytes, HostName.toWire, WireName.toBytes]
  rw [hbuf]
  exact h

/-- A header followed by a question and by the rest of an array it was written into. -/
lemma write_header_question (header : DnsHeader) (result : List UInt8)
    (hlen : name.text.length + 18 ≤ result.length) :
    blit result 0 header.toBytes = some (header.toBytes ++ result.drop sizeofHeader) ∧
      generateQuestion sizeofHeader name.text (header.toBytes ++ result.drop sizeofHeader) =
        some (name.text.length + 6,
          header.toBytes ++ questionBytes name.labels ++ result.drop (name.text.length + 18)) := by
  constructor
  · have h := blit_at result [] (result.take sizeofHeader) (result.drop sizeofHeader) header.toBytes 0
      (by simp) rfl (by rw [header.length_toBytes, List.length_take, sizeofHeader]; omega)
    simpa using h
  · have hq := generateQuestion_text name header.toBytes
      ((result.drop sizeofHeader).take (name.text.length + 6)) (result.drop (name.text.length + 18))
      (by simp [sizeofHeader]; omega)
    have hdrop : result.drop (name.text.length + 18) =
        (result.drop sizeofHeader).drop (name.text.length + 6) := by
      rw [List.drop_drop, sizeofHeader]
      congr 1
      omega
    rw [hdrop, List.append_assoc, List.take_append_drop, header.length_toBytes, ← hdrop] at hq
    exact hq

lemma length_header_question (header : DnsHeader) :
    (header.toBytes ++ questionBytes name.labels).length = name.text.length + 18 := by
  rw [List.length_append, DnsHeader.length_toBytes, questionBytes, List.length_append, name.length_wireName]
  simp [sizeofHeader]
  omega

/-- The header `dns_generate_request` writes. -/
def requestHeader (id : UInt16) : DnsHeader := { dnsHeaderInit id with qdcount := htons 1, ancount := htons 0 }

/-- The header `dns_gen_response` writes on success. -/
def responseHeader (id : UInt16) : DnsHeader :=
  { dnsHeaderInit id with
    flags := (dnsHeaderInit id).flags ||| (flagQR ||| flagAA), qdcount := htons 1, ancount := htons 1 }

theorem dnsGenerateRequest_text (id : UInt16) (result : List UInt8)
    (hlen : name.text.length + 18 ≤ result.length) :
    dnsGenerateRequest name.text id result = some (((name.text.length + 18 : Nat) : Int),
      (requestHeader id).toBytes ++ questionBytes name.labels ++ result.drop (name.text.length + 18)) := by
  obtain ⟨hblit, hq⟩ := write_header_question name (requestHeader id) result hlen
  unfold dnsGenerateRequest
  change (blit result 0 (requestHeader id).toBytes).bind _ = _
  rw [hblit, Option.bind_some, hq]
  rfl

theorem dnsGenResponse_text {ip : List UInt8} {a : InAddr} (hip : inetAton ip = some a) (id : UInt16)
    (result : List UInt8) (hlen : 2 * name.text.length + 34 ≤ result.length) :
    dnsGenResponse name.text (some ip) id 0 result =
      some (((2 * name.text.length + 34 : Nat) : Int),
        (responseHeader id).toBytes ++ questionBytes name.labels ++ answerBytes name.labels a ++
          result.drop (2 * name.text.length + 34)) := by
  obtain ⟨hblit, hq⟩ := write_header_question name (responseHeader id) result (by omega)
  have hpre : ((responseHeader id).toBytes ++ questionBytes name.labels).length =
      sizeofHeader + (name.text.length + 6) := by
    rw [List.length_append, DnsHeader.length_toBytes, questionBytes, List.length_append, name.length_wireName]
    rfl
  have ha := generateResource_text name hip ((responseHeader id).toBytes ++ questionBytes name.labels)
    ((result.drop (name.text.length + 18)).take (name.text.length + 16))
    (result.drop (2 * name.text.length + 34)) (by rw [List.length_take, List.length_drop]; omega)
  have hdrop : result.drop (2 * name.text.length + 34) =
      (result.drop (name.text.length + 18)).drop (name.text.length + 16) := by
    rw [List.drop_drop]
    congr 1
    omega
  rw [hdrop, List.append_assoc _ (List.take _ _), List.take_append_drop, hpre, ← hdrop] at ha
  unfold dnsGenResponse
  rw [if_neg (by simp)]
  change (blit result 0 (responseHeader id).toBytes).bind _ = _
  rw [hblit, Option.bind_some, hq]
  simp only [Option.bind_eq_bind, Option.bind_some, ha]
  simp [sizeofHeader]
  omega

/-- A name under any header that passes for one of a request, whatever follows it. -/
theorem dnsParseRequest_name (header : DnsHeader) (hvalid : dnsIsinvalid header true = false)
    (rest : List UInt8) (size : Int) (hrest : rest ≠ []) (hsize : name.text.length + 14 ≤ size)
    (hint : size < 2 ^ 31) :
    dnsParseRequest (header.toBytes ++ wireName name.labels ++ rest) size =
      some (((name.text.length + 5 : Nat) : Int), name.text) := by
  have hq := parseQuestion_name name header.toBytes rest (size - sizeofHeader) hrest
    (by simp [sizeofHeader]; omega) (by simp [sizeofHeader]; omega)
  have hcount : ¬htons header.qdcount ≠ 1 := by
    intro hne
    simp [dnsIsinvalid, hne] at hvalid
  rw [DnsHeader.length_toBytes] at hq
  unfold dnsParseRequest
  rw [List.append_assoc, loadHeader_toBytes, ← List.append_assoc]
  simp only [Option.bind_eq_bind, Option.bind_some, hvalid]
  rw [if_neg (by simp), if_neg hcount, hq]
  rfl

/-- A question under any header that passes for one of a request. -/
theorem dnsParseRequest_question (header : DnsHeader) (hvalid : dnsIsinvalid header true = false)
    (tail : List UInt8) (size : Int) (hsize : name.text.length + 18 ≤ size) (hint : size < 2 ^ 31) :
    dnsParseRequest (header.toBytes ++ questionBytes name.labels ++ tail) size =
      some (((name.text.length + 5 : Nat) : Int), name.text) := by
  have hbuf : header.toBytes ++ questionBytes name.labels ++ tail =
      header.toBytes ++ wireName name.labels ++ ([0, 1, 0, 1] ++ tail) := by simp [questionBytes]
  rw [hbuf]
  exact dnsParseRequest_name name header hvalid _ size (by simp) (by omega) hint

/-- A header that does not pass for one of a request is refused. -/
theorem dnsParseRequest_invalid (header : DnsHeader) (hinvalid : dnsIsinvalid header true = true)
    (tail : List UInt8) (size : Int) : dnsParseRequest (header.toBytes ++ tail) size = some (-1, []) := by
  unfold dnsParseRequest
  rw [loadHeader_toBytes]
  simp [hinvalid]

theorem dnsParseRequest_text (id : UInt16) (tail : List UInt8) :
    dnsParseRequest ((requestHeader id).toBytes ++ questionBytes name.labels ++ tail)
      ((name.text.length + 18 : Nat) : Int) = some (((name.text.length + 5 : Nat) : Int), name.text) := by
  have hvalid : dnsIsinvalid (requestHeader id) true = false := by
    change dnsIsinvalid (requestHeader 0) true = false
    decide
  have hlen := name.length_text_le
  exact dnsParseRequest_question name (requestHeader id) hvalid tail _ (by push_cast; omega) (by omega)

lemma dnsIsinvalid_ancount {header : DnsHeader} (h : dnsIsinvalid header false = false) :
    htons header.ancount = 1 := by
  simp only [dnsIsinvalid, Bool.or_eq_false_iff, Bool.false_eq_true, if_false] at h
  simpa using h.1.1.1.1.2

/-- Behind a header that is accepted and a question, the decoder reads the answer. -/
lemma dnsParseResponse_wire (name : WireName) {header : DnsHeader} (hvalid : dnsIsinvalid header false = false)
    (hrcode : header.flags &&& flagRCODE = 0) (fixed rest : List UInt8) (hfixed : fixed.length = 4) (size : Int)
    (hsize : name.text.length + 14 ≤ size) (hint : size < 2 ^ 31) :
    dnsParseResponse (header.toBytes ++ name.toBytes ++ (fixed ++ rest)) size =
      (parseResource (header.toBytes ++ name.toBytes ++ (fixed ++ rest)) (name.text.length + 18)
        (size - (name.text.length + 18 : Nat))).map fun r => (r.1 + ((name.text.length + 18 : Nat) : Int), r.2) := by
  have hrest : fixed ++ rest ≠ [] := by
    intro hnil
    rw [(List.append_eq_nil_iff.mp hnil).1] at hfixed
    cases hfixed
  have hq := parseQuestion_wire name header.toBytes (fixed ++ rest) (size - sizeofHeader) hrest
    (by simp [sizeofHeader]; omega) (by simp [sizeofHeader]; omega)
  have hcount := dnsIsinvalid_ancount hvalid
  have hoffset : sizeofHeader + (name.text.length + 5) + 1 = name.text.length + 18 := by
    rw [sizeofHeader]
    omega
  have hheader : loadHeader (header.toBytes ++ name.toBytes ++ (fixed ++ rest)) = some header := by
    rw [List.append_assoc]
    exact loadHeader_toBytes _ _
  rw [DnsHeader.length_toBytes] at hq
  unfold dnsParseResponse
  rw [hheader]
  simp only [Option.bind_eq_bind, Option.bind_some, hvalid]
  rw [if_neg (by simp), if_neg (not_not.mpr hrcode), if_neg (not_not.mpr hcount), hq]
  simp only [Option.bind_some, hoffset]
  cases parseResource (header.toBytes ++ name.toBytes ++ (fixed ++ rest)) (name.text.length + 18)
    (size - (name.text.length + 18 : Nat)) <;> rfl

lemma dnsParseResponse_resource (id : UInt16) (rest : List UInt8) (size : Int)
    (hsize : name.text.length + 14 ≤ size) (hint : size < 2 ^ 31) :
    dnsParseResponse ((responseHeader id).toBytes ++ questionBytes name.labels ++ rest) size =
      (parseResource ((responseHeader id).toBytes ++ questionBytes name.labels ++ rest) (name.text.length + 18)
        (size - (name.text.length + 18 : Nat))).map fun r => (r.1 + ((name.text.length + 18 : Nat) : Int), r.2) := by
  have hvalid : dnsIsinvalid (responseHeader id) false = false := by
    change dnsIsinvalid (responseHeader 0) false = false
    decide
  have hrcode : (responseHeader id).flags &&& flagRCODE = 0 := by
    change (0 ||| (flagQR ||| flagAA)) &&& flagRCODE = 0
    decide
  have h := dnsParseResponse_wire name.toWire hvalid hrcode [0, 1, 0, 1] rest rfl size hsize hint
  have hbuf : (responseHeader id).toBytes ++ questionBytes name.labels ++ rest =
      (responseHeader id).toBytes ++ name.toWire.toBytes ++ ([0, 1, 0, 1] ++ rest) := by
    simp [questionBytes, HostName.toWire, WireName.toBytes]
  rw [hbuf]
  exact h

theorem dnsParseResponse_text (a : InAddr) (id : UInt16) (tail : List UInt8) :
    dnsParseResponse ((responseHeader id).toBytes ++ questionBytes name.labels ++
        answerBytes name.labels a ++ tail) ((2 * name.text.length + 34 : Nat) : Int) =
      some (((2 * name.text.length + 30 : Nat) : Int), some a) := by
  have hlen := name.length_text_le
  have ha := parseResource_text name a ((responseHeader id).toBytes ++ questionBytes name.labels) tail
    (((2 * name.text.length + 34 : Nat) : Int) - (name.text.length + 18 : Nat)) (by omega) (by omega)
  rw [length_header_question, List.append_assoc] at ha
  rw [List.append_assoc, dnsParseResponse_resource name id _ _ (by omega) (by omega), ha, Option.map_some]
  congr 2
  omega

/-! ## The header of a response -/

lemma translateNameLoop_take {base n total labelLen : Nat} {addr result : List UInt8} {r : Nat × Nat × List UInt8}
    (hn : n ≤ base) (h : translateNameLoop base addr total labelLen result = some r) :
    r.2.2.take n = result.take n := by
  induction addr generalizing total labelLen result with
  | nil =>
    obtain rfl := Option.some.inj h
    rfl
  | cons c addr ih =>
    rw [translateNameLoop] at h
    split at h
    · obtain ⟨buf, hstore, h⟩ := Option.bind_eq_some_iff.mp h
      rw [ih h, store_take hstore (by omega)]
    · obtain ⟨buf, hstore, h⟩ := Option.bind_eq_some_iff.mp h
      rw [ih h, store_take hstore (by omega)]

lemma translateName_take {base n : Nat} {addr result : List UInt8} {r : Nat × List UInt8} (hn : n ≤ base)
    (h : translateName base addr result = some r) : r.2.take n = result.take n := by
  simp only [translateName, Option.bind_eq_bind, Option.bind_eq_some_iff] at h
  obtain ⟨loop, hloop, buf₁, hlen, buf₂, hend, h⟩ := h
  obtain rfl := Option.some.inj h
  rw [store_take hend (by omega), store_take hlen (by omega), translateNameLoop_take hn hloop]

lemma dnsGenResponse_header {query ip result : List UInt8} {id : UInt16} {r : Int × List UInt8}
    (h : dnsGenResponse query (some ip) id 0 result = some r) :
    loadHeader (r.2.take r.1.toNat) = some (responseHeader id) := by
  unfold dnsGenResponse at h
  rw [if_neg (by simp)] at h
  change (blit result 0 (responseHeader id).toBytes).bind _ = some r at h
  obtain ⟨buf₁, hheader, h⟩ := Option.bind_eq_some_iff.mp h
  obtain ⟨question, hquestion, h⟩ := Option.bind_eq_some_iff.mp h
  obtain ⟨address, haddress, h⟩ := Option.bind_eq_some_iff.mp h
  obtain rfl := Option.some.inj haddress
  obtain ⟨answer, hanswer, h⟩ := Option.bind_eq_some_iff.mp h
  obtain rfl := Option.some.inj h
  simp only [generateQuestion, Option.bind_eq_bind, Option.bind_eq_some_iff] at hquestion
  obtain ⟨qname, hqname, buf₂, hqtype, hquestion⟩ := hquestion
  obtain rfl := Option.some.inj hquestion
  simp only [generateResource, Option.bind_eq_bind, Option.bind_eq_some_iff] at hanswer
  obtain ⟨owner, howner, buf₃, hresource, addr, -, buf₄, haddr, hanswer⟩ := hanswer
  obtain rfl := Option.some.inj hanswer
  -- the first bytes stay those of the header
  have hfirst : buf₁.take sizeofHeader = (responseHeader id).toBytes := by
    unfold blit at hheader
    split at hheader
    · obtain rfl := Option.some.inj hheader
      exact List.take_left' rfl
    · cases hheader
  have htake : buf₄.take sizeofHeader = (responseHeader id).toBytes := by
    rw [blit_take haddr (by simp only [sizeofResource]; omega), blit_take hresource (by omega),
      translateName_take (by omega) howner, blit_take hqtype (by omega), translateName_take le_rfl hqname, hfirst]
  have hsplit : buf₄ = (responseHeader id).toBytes ++ buf₄.drop sizeofHeader := by
    rw [← htake, List.take_append_drop]
  rw [hsplit]
  simp only
  rw [List.take_append, List.take_of_length_le, loadHeader_toBytes]
  rw [DnsHeader.length_toBytes]
  omega

lemma dnsGenResponse_message {ip : List UInt8} {a : InAddr} (hip : inetAton ip = some a) (id : UInt16) :
    ∃ packet, dnsGenResponse name.text (some ip) id 0 (zeroPacket (dnsMsgMaxLen + 1)) =
        some (((2 * name.text.length + 34 : Nat) : Int), packet) ∧
      packet.take (2 * name.text.length + 34) =
        (responseHeader id).toBytes ++ questionBytes name.labels ++ answerBytes name.labels a := by
  have hlen := name.length_text_le
  refine ⟨_, dnsGenResponse_text name hip id _ ?_, ?_⟩
  · simp only [zeroPacket, List.length_replicate, dnsMsgMaxLen]
    omega
  · apply List.take_left'
    rw [List.length_append, length_header_question]
    simp [answerBytes, InAddr.toList, name.length_wireName]
    omega

/-- For every host name, id and address: the nameserver reads the name out of the resolver's
request, and the resolver reads the address out of the nameserver's response, whatever
follows the message in the receiving array. -/
theorem dns_conversation_round_trip (id : UInt16) (a : InAddr) :
    (∃ (size : Nat) (packet : List UInt8),
      dnsGenerateRequest name.text id (zeroPacket dnsMsgMaxLen) = some ((size : Int), packet) ∧
      ∀ tail, ∃ ret : Int, 0 ≤ ret ∧ dnsParseRequest (packet.take size ++ tail) size = some (ret, name.text)) ∧
    ∃ (size : Nat) (packet : List UInt8),
      dnsGenResponse name.text (some (inetNtoa a)) id 0 (zeroPacket (dnsMsgMaxLen + 1)) = some ((size : Int), packet) ∧
      ∀ tail, ∃ ret : Int, 0 ≤ ret ∧ dnsParseResponse (packet.take size ++ tail) size = some (ret, some a) := by
  have hlen := name.length_text_le
  constructor
  · refine ⟨_, _, dnsGenerateRequest_text name id _ ?_,
      fun tail => ⟨((name.text.length + 5 : Nat) : Int), Int.natCast_nonneg _, ?_⟩⟩
    · simp only [zeroPacket, List.length_replicate, dnsMsgMaxLen]
      omega
    · rw [List.take_left' (length_header_question name (requestHeader id))]
      exact dnsParseRequest_text name id tail
  · obtain ⟨packet, hgen, htake⟩ := dnsGenResponse_message name (inetAton_inetNtoa a) id
    refine ⟨_, packet, hgen, fun tail => ⟨((2 * name.text.length + 30 : Nat) : Int), Int.natCast_nonneg _, ?_⟩⟩
    rw [htake]
    exact dnsParseResponse_text name a id tail

end Names

end VideoCDN.Dns
