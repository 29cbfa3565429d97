import VideoCDN.Dns.RoundTrip
import VideoCDN.Reference.DnsCommon

/-!
# The reference implementation and the C programs on the wire

The messages of `dns_common.py` are byte for byte a C header, question and answer, but for the
owner of the answer.
-/

namespace VideoCDN.Reference

open CString Inet Buffer Dns

/-! ## Numbers -/

lemma toNat_htons (x : UInt16) : (htons x).toNat = x.toNat % 256 * 256 + x.toNat / 256 := by
  have h := x.toNat_lt
  have hhi : (x <<< 8).toNat = 2 ^ 8 * (x.toNat % 256) := by
    simp [Nat.shiftLeft_eq]
    omega
  have hlo : (x >>> 8).toNat = x.toNat / 256 := by
    simp [Nat.shiftRight_eq_div_pow]
  rw [htons, UInt16.toNat_or, hhi, hlo, ← Nat.two_pow_add_eq_or_of_lt (by omega)]
  omega

/-- The bytes of a number in network order, as both programs write them. -/
lemma bytesOf16_htons (x : UInt16) : bytesOf16 (htons x) = [(x.toNat / 256).toUInt8, (x.toNat % 256).toUInt8] := by
  have h := x.toNat_lt
  have hswap := toNat_htons x
  have hlo : (htons x).toUInt8 = (x.toNat / 256).toUInt8 := by
    apply UInt8.toNat_inj.mp
    simp [hswap]
  have hdiv : (x.toNat % 256 * 256 + x.toNat / 256) / 256 = x.toNat % 256 := by
    have hlt : x.toNat / 256 < 256 := by omega
    rw [Nat.mul_comm, Nat.mul_add_div (by decide), Nat.div_eq_of_lt hlt, Nat.add_zero]
  have hhi : (htons x >>> 8).toUInt8 = (x.toNat % 256).toUInt8 := by
    apply UInt8.toNat_inj.mp
    simp [hswap, Nat.shiftRight_eq_div_pow, hdiv]
  rw [bytesOf16, hlo, hhi]

lemma packS_toNat (x : UInt16) : packS x.toNat = some (bytesOf16 (htons x)) := by
  rw [packS, if_pos x.toNat_lt, bytesOf16_htons]

/-! ## Names -/

lemma labelLens_label (l rest : Str) (k : Nat) (hl : ∀ c ∈ l, c ≠ 46) :
    labelLens (l ++ rest) k = labelLens rest (k + l.length) := by
  induction l generalizing k with
  | nil => rfl
  | cons c l ih =>
    rw [List.cons_append, labelLens, if_neg (hl c List.mem_cons_self),
      ih (k + 1) (fun d hd => hl d (List.mem_cons_of_mem c hd)),
      List.length_cons]
    congr 1
    omega

lemma labelLens_joinDots (l : Str) (ls : List Str) (hls : ∀ m ∈ l :: ls, ∀ c ∈ m, c ≠ 46) :
    labelLens (joinDots (l :: ls)) 0 = ((l :: ls).map List.length).dropLast := by
  induction ls generalizing l with
  | nil =>
    have h := labelLens_label l [] 0 (hls l List.mem_cons_self)
    rw [List.append_nil] at h
    exact h
  | cons m ls ih =>
    have hrest := ih m (fun n hn => hls n (List.mem_cons_of_mem l hn))
    rw [joinDots, labelLens_label l _ 0 (hls l List.mem_cons_self), labelLens, if_pos rfl, hrest]
    simp

lemma length_joinDots (l : Str) (ls : List Str) :
    (joinDots (l :: ls)).length = ((l :: ls).map List.length).sum + ls.length := by
  induction ls generalizing l with
  | nil => simp [joinDots]
  | cons m ls ih =>
    rw [joinDots, List.length_append, List.length_cons, ih m]
    simp
    omega

lemma lensOf_joinDots (l : Str) (ls : List Str) (hls : ∀ m ∈ l :: ls, ∀ c ∈ m, c ≠ 46) :
    lensOf (joinDots (l :: ls)) = (l :: ls).map List.length := by
  have hne : (l :: ls).map List.length ≠ [] := by simp
  have hsplit := List.dropLast_append_getLast hne
  have hsum : ((l :: ls).map List.length).sum =
      ((l :: ls).map List.length).dropLast.sum + ((l :: ls).map List.length).getLast hne := by
    conv_lhs => rw [← hsplit]
    simp
  rw [lensOf, labelLens_joinDots l ls hls, length_joinDots, hsum]
  conv_rhs => rw [← hsplit]
  simp only [List.length_dropLast, List.length_map, List.length_cons, Nat.add_sub_cancel]
  congr 2
  omega

lemma insertLens_label (lens : List Nat) (l rest : Str) (k : Nat) (hl : ∀ c ∈ l, c ≠ 46) :
    insertLens lens (l ++ rest) k = (insertLens lens rest k).map fun message => l ++ message := by
  induction l with
  | nil =>
    rw [List.nil_append]
    cases insertLens lens rest k with
    | none => rfl
    | some message => rfl
  | cons c l ih =>
    rw [List.cons_append, insertLens, if_neg (hl c List.mem_cons_self),
      ih (fun d hd => hl d (List.mem_cons_of_mem c hd))]
    cases insertLens lens rest k with
    | none => rfl
    | some message => rfl

lemma insertLens_joinDots (l : Str) (ls : List Str) (pre : List Nat) (hls : ∀ m ∈ l :: ls, ∀ c ∈ m, c ≠ 46)
    (hsize : ∀ m ∈ ls, m.length < 256) :
    ∃ body, insertLens (pre ++ ls.map List.length) (joinDots (l :: ls)) pre.length = some body ∧
      body ++ [0] = l ++ wireName ls := by
  induction ls generalizing l pre with
  | nil =>
    have h := insertLens_label pre l [] pre.length (hls l List.mem_cons_self)
    rw [List.append_nil] at h
    refine ⟨l, ?_, rfl⟩
    rw [List.map_nil, List.append_nil, joinDots, h]
    simp [insertLens]
  | cons m ls ih =>
    obtain ⟨body, hbody, hwire⟩ := ih m (pre ++ [m.length]) (fun n hn => hls n (List.mem_cons_of_mem l hn))
      (fun n hn => hsize n (List.mem_cons_of_mem m hn))
    rw [List.append_assoc, List.singleton_append, List.length_append, List.length_singleton] at hbody
    have hlen : (pre ++ m.length :: ls.map List.length)[pre.length]? = some m.length := by simp
    refine ⟨l ++ m.length.toUInt8 :: body, ?_, ?_⟩
    · rw [joinDots, insertLens_label _ l _ _ (hls l List.mem_cons_self), insertLens, if_pos rfl, List.map_cons, hlen]
      simp [packB, hsize m List.mem_cons_self, hbody]
    · rw [wireName, List.append_assoc, List.cons_append, hwire]

lemma questionName_joinDots (labels : List Str) (hne : labels ≠ []) (hdots : ∀ l ∈ labels, ∀ c ∈ l, c ≠ 46)
    (hsize : ∀ l ∈ labels, l.length < 256) : questionName (joinDots labels) = some (wireName labels) := by
  obtain ⟨l, ls, rfl⟩ := List.exists_cons_of_ne_nil hne
  obtain ⟨body, hbody, hwire⟩ := insertLens_joinDots l ls [l.length] hdots
    (fun m hm => hsize m (List.mem_cons_of_mem l hm))
  have hbody' : insertLens (l.length :: ls.map List.length) (joinDots (l :: ls)) 1 = some body := hbody
  rw [questionName, lensOf_joinDots l ls hdots]
  simp only [List.map_cons, List.getElem?_cons_zero, packB, if_pos (hsize l List.mem_cons_self), hbody',
    Option.bind_eq_bind, Option.bind_some]
  rw [wireName, ← hwire]
  rfl

lemma questionName_text (name : HostName) : questionName name.text = some (wireName name.labels) := by
  apply questionName_joinDots name.labels name.labels_ne_nil name.labels_no_dot
  intro l hl
  have h := (name.isLabel l hl).2.1
  omega

/-! ## Reading a name -/

lemma readLabels_label (l data : List UInt8) (len : UInt8) (hl : l ≠ []) :
    readLabels (l ++ len :: data) l.length = (readLabels data len.toNat).map fun r => (l ++ 46 :: r.1, r.2) := by
  induction l with
  | nil => exact absurd rfl hl
  | cons c l ih =>
    cases l with
    | nil => rfl
    | cons d l =>
      rw [List.cons_append, List.length_cons, List.length_cons, readLabels, ← List.length_cons, ih (by simp),
        Option.map_map]
      rfl

lemma readLabels_wireName (ls : List Str) (rest : List UInt8) (hls : ∀ l ∈ ls, l ≠ [] ∧ l.length < 256) (l : Str)
    (hl : l ≠ []) :
    readLabels (l ++ (wireName ls ++ rest)) l.length = some (joinDots (l :: ls) ++ [46], rest) := by
  induction ls generalizing l with
  | nil =>
    have h := readLabels_label l rest 0 hl
    rw [wireName, List.singleton_append, h]
    simp [readLabels, joinDots]
  | cons m ls ih =>
    obtain ⟨hm, hsize⟩ := hls m List.mem_cons_self
    have hrest := ih (fun n hn => hls n (List.mem_cons_of_mem m hn)) m hm
    have hlen : m.length.toUInt8.toNat = m.length := by simpa using hsize
    rw [wireName, List.cons_append, readLabels_label l _ _ hl, hlen, List.append_assoc, hrest, joinDots]
    simp

lemma readName_wireName (labels : List Str) (rest : List UInt8) (hlabels : ∀ l ∈ labels, l ≠ [] ∧ l.length < 256) :
    readName (wireName labels ++ rest) = some (joinDots labels, rest) := by
  cases labels with
  | nil => simp [wireName, readName, readLabels, joinDots]
  | cons l ls =>
    have hl := hlabels l List.mem_cons_self
    have hread := readLabels_wireName ls rest (fun m hm => hlabels m (List.mem_cons_of_mem l hm)) l hl.1
    have hlen : l.length.toUInt8.toNat = l.length := by simpa using hl.2
    rw [wireName, List.cons_append, readName, hlen, List.append_assoc, hread]
    simp

lemma readName_text (name : HostName) (rest : List UInt8) :
    readName (wireName name.labels ++ rest) = some (name.text, rest) := by
  apply readName_wireName
  intro l hl
  obtain ⟨hpos, hsize, -⟩ := name.isLabel l hl
  exact ⟨List.ne_nil_of_length_pos hpos, by omega⟩

lemma responseHeader_bytes (id : UInt16) :
    (responseHeader id).toBytes = bytesOf16 (htons id) ++ [132, 0, 0, 1, 0, 1, 0, 0, 0, 0] := by
  simp only [responseHeader, dnsHeaderInit, DnsHeader.toBytes, List.append_assoc]
  congr 1

/-! ## The client -/

/-- The header of a question of the reference client; it sets the flag of an authority. -/
def clientHeader (id : UInt16) : DnsHeader := { requestHeader id with flags := flagAA }

lemma genMessage_query_joinDots (order : DictOrder) (labels : List Str) (hne : labels ≠ [])
    (hdots : ∀ l ∈ labels, ∀ c ∈ l, c ≠ 46) (hsize : ∀ l ∈ labels, l.length < 256) (choice : Choice) (id : UInt16) :
    genMessage order (joinDots labels) true choice (Globals.start id.toNat) =
      some ((clientHeader id).toBytes ++ questionBytes labels, [],
        { Globals.start id.toNat with flags := 1024 }) := by
  have hone : packS 1 = some [0, 1] := by decide
  have hzero : packS 0 = some [0, 0] := by decide
  have hflags : packS 1024 = some [4, 0] := by decide
  have hgen : genFlags true (Globals.start id.toNat) = { Globals.start id.toNat with flags := 1024 } := by
    simp [genFlags, Globals.start, flagsOpcode, flagsAA, flagsTC, flagsRD, flagsRA, flagsRCode]
  have hheader : (clientHeader id).toBytes = bytesOf16 (htons id) ++ [4, 0, 0, 1, 0, 0, 0, 0, 0, 0] := by
    simp only [clientHeader, requestHeader, dnsHeaderInit, DnsHeader.toBytes, List.append_assoc]
    congr 1
  have hsetup : setup true choice (Globals.start id.toNat) = Globals.start id.toNat := if_neg (by simp)
  rw [genMessage, hsetup, hgen, hheader]
  simp [packS_toNat, hone, hzero, hflags, numQuestions, numAuthority, numAdditional, qType, qClass, Globals.start,
    questionName_joinDots labels hne hdots hsize, questionBytes]

lemma genMessage_query (order : DictOrder) (name : HostName) (choice : Choice) (id : UInt16) :
    genMessage order name.text true choice (Globals.start id.toNat) =
      some ((clientHeader id).toBytes ++ questionBytes name.labels, [],
        { Globals.start id.toNat with flags := 1024 }) := by
  apply genMessage_query_joinDots order name.labels name.labels_ne_nil name.labels_no_dot
  intro l hl
  have h := (name.isLabel l hl).2.1
  omega

/-- A name does not start with the bytes of a pointer. -/
lemma us_take_wireName (labels : List Str) (x : UInt8) (rest : List UInt8)
    (hlabels : ∀ l ∈ labels, l ≠ [] ∧ l.length ≤ 63) :
    ∃ n, us ((wireName labels ++ x :: rest).take 2) = some n ∧ n ≠ 49164 := by
  cases labels with
  | nil =>
    have hx := x.toNat_lt
    exact ⟨256 * 0 + x.toNat, rfl, by omega⟩
  | cons l ls =>
    obtain ⟨hne, hsize⟩ := hlabels l List.mem_cons_self
    obtain ⟨c, l', rfl⟩ := List.exists_cons_of_ne_nil hne
    have hlen : (c :: l').length.toUInt8.toNat = (c :: l').length := by
      rw [Nat.toUInt8, UInt8.toNat_ofNat']
      omega
    have hc := c.toNat_lt
    refine ⟨256 * (c :: l').length + c.toNat, ?_, by omega⟩
    have htake : us ((wireName ((c :: l') :: ls) ++ x :: rest).take 2) =
        some (256 * (c :: l').length.toUInt8.toNat + c.toNat) := rfl
    rw [htake, hlen]

lemma parseAnswer_text (name : HostName) (a : InAddr) :
    parseAnswer (answerBytes name.labels a) = some ⟨.text name.text, 1, 1, 0, 4, inetNtoa a⟩ := by
  have hlabels : ∀ l ∈ name.labels, l ≠ [] ∧ l.length ≤ 63 := by
    intro l hl
    obtain ⟨hpos, hsize, -⟩ := name.isLabel l hl
    exact ⟨List.ne_nil_of_length_pos hpos, by omega⟩
  obtain ⟨n, hn, hpointer⟩ := us_take_wireName name.labels 0 ([1, 0, 1, 0, 0, 0, 0, 0, 4] ++ a.toList) hlabels
  rw [← List.cons_append] at hn
  rw [parseAnswer, answerBytes, List.append_assoc, hn, Option.bind_eq_bind, Option.bind_some, if_neg hpointer,
    readName_text]
  simp [us, ub, InAddr.toList, inetNtoa, List.intercalate]

lemma parseMessage_response (name : HostName) (a : InAddr) (id : UInt16) (g : Globals) :
    parseMessage ((responseHeader id).toBytes ++ questionBytes name.labels ++ answerBytes name.labels a) false g =
      some (name.text, inetNtoa a, some {
        sentTransId := g.transId, recvTransId := id.toNat, qr := 1, opcode := 0, aa := 1, tc := 0, rd := 0,
        ra := 0, z := 0, rcode := 0, numQuestions := 1, numAnswers := 1, numAuthority := 0, numAdditional := 0,
        qtype := 1, qclass := 1, rrName := .text name.text, rrQtype := 1, rrQclass := 1, rrTtl := 0, rrDl := 4 },
        g) := by
  have hid := id.toNat_lt
  rw [responseHeader_bytes, bytesOf16_htons, questionBytes]
  simp [parseMessage, us, readName_text, parseAnswer_text]
  omega

/-- For every host name, id and address: the nameserver reads the name out of the question of a
reference client that has just started, and the client reads name, address and flags out of the
nameserver's response. -/
theorem reference_client_round_trip (order : DictOrder) (choice : Choice) (name : HostName) (id : UInt16)
    (a : InAddr) :
    ∃ message g, genMessage order name.text true choice (Globals.start id.toNat) = some (message, [], g) ∧
      (∀ tail, ∃ ret : Int, 0 ≤ ret ∧
        dnsParseRequest (message ++ tail) message.length = some (ret, name.text)) ∧
      ∃ (size : Nat) (packet : List UInt8),
        dnsGenResponse name.text (some (inetNtoa a)) id 0 (zeroPacket (dnsMsgMaxLen + 1)) =
          some ((size : Int), packet) ∧
        parseMessage (packet.take size) false g = some (name.text, inetNtoa a, some {
          sentTransId := id.toNat, recvTransId := id.toNat, qr := 1, opcode := 0, aa := 1, tc := 0, rd := 0,
          ra := 0, z := 0, rcode := 0, numQuestions := 1, numAnswers := 1, numAuthority := 0, numAdditional := 0,
          qtype := 1, qclass := 1, rrName := .text name.text, rrQtype := 1, rrQclass := 1, rrTtl := 0,
          rrDl := 4 }, g) := by
  have hlen := name.length_text_le
  have hmessage := length_header_question name (clientHeader id)
  have hvalid : dnsIsinvalid (clientHeader id) true = false := by
    change dnsIsinvalid (clientHeader 0) true = false
    decide
  refine ⟨_, _, genMessage_query order name choice id, ?_, ?_⟩
  · intro tail
    refine ⟨((name.text.length + 5 : Nat) : Int), Int.natCast_nonneg _, ?_⟩
    rw [hmessage]
    exact dnsParseRequest_question name (clientHeader id) hvalid tail _ (by push_cast; omega) (by omega)
  · obtain ⟨packet, hgen, htake⟩ := dnsGenResponse_message name (inetAton_inetNtoa a) id
    refine ⟨_, packet, hgen, ?_⟩
    rw [htake]
    exact parseMessage_response name a id _

/-! ## The nameserver -/

lemma intFloat_decimal (n : Nat) : intFloat (decimal n) = some n := by
  have hdigits : (decimal n).all isdigit := List.all_eq_true.mpr (isdigit_of_mem_decimal n)
  rw [intFloat, if_pos ⟨decimal_ne_nil n, hdigits⟩, digitsVal_decimal]

lemma splitOn_inetNtoa (a : InAddr) : (inetNtoa a).splitOn 46 =
    [decimal a.a.toNat, decimal a.b.toNat, decimal a.c.toNat, decimal a.d.toNat] := by
  have hdot : ∀ n, (46 : UInt8) ∉ decimal n := by
    intro n h
    exact absurd (isdigit_of_mem_decimal n 46 h) (by decide)
  rw [inetNtoa, List.splitOn_append_cons_self_of_not_mem (hdot _), List.splitOn_append_cons_self_of_not_mem (hdot _),
    List.splitOn_append_cons_self_of_not_mem (hdot _), List.splitOn_eq_singleton (hdot _)]

/-- The answer of the reference nameserver: a pointer to the name of the question, and the address. -/
def pointerBytes (a : InAddr) : List UInt8 := [192, 12, 0, 1, 0, 1, 0, 0, 0, 0, 0, 4] ++ a.toList

lemma genAnswer_toList (a : InAddr) : genAnswer (a.toList.map UInt8.toNat) = some (pointerBytes a) := by
  have hone : packS 1 = some [0, 1] := by decide
  have hpointer : packS 49164 = some [192, 12] := by decide
  have hfour : packS 4 = some [0, 4] := by decide
  have httl : packI 0 = some [0, 0, 0, 0] := by decide
  have hbyte : ∀ x : UInt8, packB x.toNat = some [x] := by
    intro x
    rw [packB, if_pos x.toNat_lt, Nat.toUInt8_eq, UInt8.ofNat_toNat]
  simp [genAnswer, hone, hpointer, hfour, httl, hbyte, InAddr.toList, pointerBytes]

/-- The length of a pointer is taken for more than four billion, and the name leaves the array. -/
lemma parseName_pointer (pre rest : List UInt8) (size : Int) (hsize : 0 < size) (hint : size < 2 ^ 31 - 64)
    (hlen : (pre ++ 192 :: 12 :: 0 :: rest).length ≤ dnsMsgMaxLen) :
    parseName 512 (pre ++ 192 :: 12 :: 0 :: rest) pre.length size = none := by
  have hfirst : (pre ++ 192 :: 12 :: 0 :: rest)[pre.length]? = some 192 := by simp
  have hcat : strncat 512 [] (pre ++ 192 :: 12 :: 0 :: rest) (pre.length + 1) (lableSize 192) = some [12] := by
    have hdrop : (pre ++ 192 :: 12 :: 0 :: rest).drop (pre.length + 1) = 12 :: 0 :: rest := by
      rw [List.append_cons]
      exact List.drop_left' (by simp)
    have hsrc : (12 :: 0 :: rest).take (lableSize 192) = 12 :: 0 :: rest := by
      apply List.take_of_length_le
      have hlable : lableSize 192 = 2 ^ 32 - 64 := by decide
      simp only [List.length_append, List.length_cons, dnsMsgMaxLen] at hlen
      rw [hlable, List.length_cons, List.length_cons]
      omega
    have hcstr : cstr (12 :: 0 :: rest) = [12] := by simp [cstr]
    rw [strncat, hdrop, hsrc, if_neg (by simp), hcstr]
    rfl
  have hdot : strncat 512 [12] [46] 0 1 = some [12, 46] := by decide
  have hwrap : 0 < wrapInt (size - lableSize 192) := by
    have hlable : lableSize 192 = 2 ^ 32 - 64 := by decide
    rw [hlable, wrapInt]
    omega
  have hout : (pre ++ 192 :: 12 :: 0 :: rest)[pre.length + 1 + lableSize 192]? = none := by
    have hlable : lableSize 192 = 2 ^ 32 - 64 := by decide
    rw [List.getElem?_eq_none_iff, hlable]
    exact hlen.trans (by rw [dnsMsgMaxLen]; omega)
  have hfuel : (pre ++ 192 :: 12 :: 0 :: rest).length = (pre ++ 12 :: 0 :: rest).length + 1 := by
    simp only [List.length_append, List.length_cons]
    omega
  have hloop : parseNameLoop 512 (pre ++ 192 :: 12 :: 0 :: rest) ((pre ++ 192 :: 12 :: 0 :: rest).length + 1)
      pre.length size [] = none := by
    have hne : lableSize 192 ≠ 0 := by decide
    rw [hfuel, parseNameLoop, if_neg (by omega), hfirst, Option.bind_eq_bind, Option.bind_some, if_neg hne, hcat]
    simp only [Option.bind_eq_bind, Option.bind_some, hdot]
    rw [parseNameLoop, if_neg (by omega), hout]
    rfl
  rw [parseName, hloop]
  rfl

lemma genMessage_response (order : DictOrder) (choice : Choice) (g g' : Globals) (name : HostName)
    (id : UInt16) (a : InAddr) (hid : g.transId = id.toNat)
    (hchoice : chooseAddr order choice (genFlags false (setup false choice g)) = some (inetNtoa a, g')) :
    genMessage order name.text false choice g = some ((responseHeader id).toBytes ++ questionBytes name.labels ++
      pointerBytes a, a.toList.map UInt8.toNat, g') := by
  have hone : packS 1 = some [0, 1] := by decide
  have hzero : packS 0 = some [0, 0] := by decide
  have hflags : packS 33792 = some [132, 0] := by decide
  have hsetup : (setup false choice g).transId = id.toNat := by
    unfold setup
    split
    · exact hid
    · exact hid
  have hgen : ∀ g : Globals, genFlags false g = { g with flagsQR := 1, numAnswers := 1, flags := 33792 } := by
    intro g
    simp [genFlags, flagsOpcode, flagsAA, flagsTC, flagsRD, flagsRA, flagsRCode]
  have haddr : ((inetNtoa a).splitOn 46).mapM intFloat = some (a.toList.map UInt8.toNat) := by
    rw [splitOn_inetNtoa]
    simp [intFloat_decimal, InAddr.toList]
  rw [hgen, hsetup] at hchoice
  rw [genMessage, hgen, responseHeader_bytes]
  simp only [hsetup, packS_toNat, hone, hzero, hflags, numQuestions, numAuthority, numAdditional, qType, qClass,
    questionName_text, Option.bind_eq_bind, Option.bind_some]
  simp [questionBytes, hchoice, haddr, genAnswer_toList]

/-- Whatever array it arrives in, the response of the reference nameserver is not read: the resolver
leaves the array at the owner of the answer. -/
theorem reference_response_not_read (order : DictOrder) (choice : Choice) (g g' : Globals) (name : HostName)
    (id : UInt16) (a : InAddr) (hid : g.transId = id.toNat)
    (hchoice : chooseAddr order choice (genFlags false (setup false choice g)) = some (inetNtoa a, g')) :
    ∃ message, genMessage order name.text false choice g = some (message, a.toList.map UInt8.toNat, g') ∧
      ∀ tail, (message ++ tail).length ≤ dnsMsgMaxLen → dnsParseResponse (message ++ tail) message.length = none := by
  have hlen := name.length_text_le
  have hpre := length_header_question name (responseHeader id)
  have hmessage : ((responseHeader id).toBytes ++ questionBytes name.labels ++ pointerBytes a).length =
      name.text.length + 34 := by
    rw [List.length_append, hpre]
    rfl
  refine ⟨_, genMessage_response order choice g g' name id a hid hchoice, ?_⟩
  intro tail htail
  have howner := parseName_pointer ((responseHeader id).toBytes ++ questionBytes name.labels)
    ([1, 0, 1, 0, 0, 0, 0, 0, 4] ++ a.toList ++ tail) 16 (by decide) (by decide) (by simpa [pointerBytes] using htail)
  have hbuf : (responseHeader id).toBytes ++ questionBytes name.labels ++
      192 :: 12 :: 0 :: ([1, 0, 1, 0, 0, 0, 0, 0, 4] ++ a.toList ++ tail) =
      (responseHeader id).toBytes ++ questionBytes name.labels ++ pointerBytes a ++ tail := by
    simp [pointerBytes]
  have hsize : ((name.text.length + 34 : Nat) : Int) - ((name.text.length + 18 : Nat) : Int) = 16 := by
    push_cast
    omega
  rw [hbuf, hpre] at howner
  rw [List.append_assoc] at howner
  rw [hmessage, List.append_assoc, dnsParseResponse_resource name id _ _ (by omega) (by omega), hsize,
    parseResource, howner]
  rfl

section Example

/-- A name of one label. -/
def shortName : HostName := ⟨[bytes "a"], by decide, by decide, by decide⟩

/-- The nameserver answers in turn, and has one server. -/
def inTurn : Choice := ⟨true, [], [], bytes "5.0.0.1"⟩

def oneServer : Globals := { Globals.start 7 with servers := [inetNtoa ⟨3, 0, 0, 1⟩] }

lemma chooseAddr_oneServer : chooseAddr insertionOrder inTurn (genFlags false (setup false inTurn oneServer)) =
    some (inetNtoa ⟨3, 0, 0, 1⟩, genFlags false (setup false inTurn oneServer)) := rfl

theorem reference_response_not_read_one : ∃ message,
    genMessage insertionOrder shortName.text false inTurn oneServer =
      some (message, (InAddr.mk 3 0 0 1).toList.map UInt8.toNat, genFlags false (setup false inTurn oneServer)) ∧
    ∀ tail, (message ++ tail).length ≤ dnsMsgMaxLen → dnsParseResponse (message ++ tail) message.length = none :=
  reference_response_not_read insertionOrder inTurn oneServer _ shortName 7 ⟨3, 0, 0, 1⟩ rfl chooseAddr_oneServer

/-- The resolver does not get the address out of the response for one name. -/
theorem reference_response_lost :
    ¬∀ (order : DictOrder) (choice : Choice) (g g' : Globals) (name : HostName) (id : UInt16) (a : InAddr),
      g.transId = id.toNat →
      chooseAddr order choice (genFlags false (setup false choice g)) = some (inetNtoa a, g') →
      ∃ message, genMessage order name.text false choice g = some (message, a.toList.map UInt8.toNat, g') ∧
        ∃ ret : Int, 0 ≤ ret ∧ dnsParseResponse message message.length = some (ret, some a) := by
  intro h
  obtain ⟨message, hgen, ret, -, hparse⟩ := h insertionOrder inTurn oneServer _ shortName 7 ⟨3, 0, 0, 1⟩ rfl
    chooseAddr_oneServer
  have hnone : dnsParseResponse message message.length = none := by
    have hmessage := genMessage_response insertionOrder inTurn oneServer _ shortName 7 ⟨3, 0, 0, 1⟩ rfl
      chooseAddr_oneServer
    obtain rfl := congrArg Prod.fst (Option.some.inj (hmessage.symm.trans hgen))
    decide
  rw [hnone] at hparse
  exact absurd hparse (Option.some_ne_none _).symm

end Example

end VideoCDN.Reference
