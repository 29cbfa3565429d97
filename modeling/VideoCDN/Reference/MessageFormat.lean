import VideoCDN.Reference.Interop

/-!
# The message decoder and the message format

`parseMessage` on the messages of the format with one question and at most one answer of type A.
The upper half of the TTL is shifted by 8 bits instead of 16, and the dictionary of a response
needs the variables of an answer.
-/

namespace VideoCDN.Reference

open CString Inet Dns

/-! ## The format -/

/-- The second word of a header, field by field. -/
structure FlagBits where
  qr : Fin 2
  opcode : Fin 16
  aa : Fin 2
  tc : Fin 2
  rd : Fin 2
  ra : Fin 2
  z : Fin 8
  rcode : Fin 16

/-- A name of the format; the root has no label. -/
structure WireName where
  labels : List Str
  label_length : ∀ l ∈ labels, 1 ≤ l.length ∧ l.length ≤ 63

/-- An answer of type A; without a name of its own its owner is a pointer to the question. -/
structure WireAnswer where
  owner : Option WireName
  type : UInt16
  qclass : UInt16
  ttl : UInt32
  addr : InAddr

/-- A message with one question. -/
structure WireMessage where
  id : UInt16
  flags : FlagBits
  qdcount : UInt16
  ancount : UInt16
  nscount : UInt16
  arcount : UInt16
  name : WireName
  qtype : UInt16
  qclass : UInt16
  answer : Option WireAnswer

/-- A number in network order. -/
def wordBytes (n : Nat) : List UInt8 := [(n / 256).toUInt8, (n % 256).toUInt8]

def FlagBits.byte1 (f : FlagBits) : Nat := f.qr * 128 + f.opcode * 8 + f.aa * 4 + f.tc * 2 + f.rd

def FlagBits.byte2 (f : FlagBits) : Nat := f.ra * 128 + f.z * 16 + f.rcode

def WireAnswer.ownerBytes (a : WireAnswer) : List UInt8 :=
  match a.owner with
  | none => [192, 12]
  | some name => wireName name.labels

def WireAnswer.encode (a : WireAnswer) : List UInt8 :=
  a.ownerBytes ++ wordBytes a.type.toNat ++ wordBytes a.qclass.toNat ++ wordBytes (a.ttl.toNat / 65536) ++
    wordBytes (a.ttl.toNat % 65536) ++ wordBytes 4 ++ a.addr.toList

def WireMessage.header (msg : WireMessage) : List UInt8 :=
  wordBytes msg.id.toNat ++ [msg.flags.byte1.toUInt8, msg.flags.byte2.toUInt8] ++ wordBytes msg.qdcount.toNat ++
    wordBytes msg.ancount.toNat ++ wordBytes msg.nscount.toNat ++ wordBytes msg.arcount.toNat

def WireMessage.answerBytes (msg : WireMessage) : List UInt8 := (msg.answer.map WireAnswer.encode).getD []

def WireMessage.encode (msg : WireMessage) : List UInt8 :=
  msg.header ++ wireName msg.name.labels ++ wordBytes msg.qtype.toNat ++ wordBytes msg.qclass.toNat ++ msg.answerBytes

/-! ## What is to be reported -/

def WireAnswer.rrName (a : WireAnswer) : RrName :=
  match a.owner with
  | none => .pointer 49164
  | some name => .text (joinDots name.labels)

/-- The address, which is empty without an answer. -/
def WireMessage.addrText (msg : WireMessage) : Str := (msg.answer.map fun a => inetNtoa a.addr).getD []

/-- The dictionary has the fields of the answer. -/
structure WireAnswer.Reported (a : WireAnswer) (flags : Flags) : Prop where
  rrName : flags.rrName = a.rrName
  rrQtype : flags.rrQtype = a.type.toNat
  rrQclass : flags.rrQclass = a.qclass.toNat
  rrTtl : flags.rrTtl = a.ttl.toNat
  rrDl : flags.rrDl = 4

/-- The dictionary has the fields of the message. -/
structure WireMessage.Reported (msg : WireMessage) (flags : Flags) : Prop where
  recvTransId : flags.recvTransId = msg.id.toNat
  qr : flags.qr = msg.flags.qr
  opcode : flags.opcode = msg.flags.opcode
  aa : flags.aa = msg.flags.aa
  tc : flags.tc = msg.flags.tc
  rd : flags.rd = msg.flags.rd
  ra : flags.ra = msg.flags.ra
  z : flags.z = msg.flags.z
  rcode : flags.rcode = msg.flags.rcode
  numQuestions : flags.numQuestions = msg.qdcount.toNat
  numAnswers : flags.numAnswers = msg.ancount.toNat
  numAuthority : flags.numAuthority = msg.nscount.toNat
  numAdditional : flags.numAdditional = msg.arcount.toNat
  qtype : flags.qtype = msg.qtype.toNat
  qclass : flags.qclass = msg.qclass.toNat
  answer : ∀ a, msg.answer = some a → a.Reported flags

/-- The message followed by `rest` is parsed, and what is reported is what it encodes. -/
def WireMessage.Decodes (msg : WireMessage) (rest : List UInt8) (g : Globals) : Prop :=
  ∃ flags, parseMessage (msg.encode ++ rest) false g = some (joinDots msg.name.labels, msg.addrText, some flags, g) ∧
    flags.sentTransId = g.transId ∧ msg.Reported flags

/-! ## Numbers and bits -/

lemma toNat_toUInt8 {n : Nat} (hn : n < 256) : n.toUInt8.toNat = n := UInt8.toNat_ofNat_of_lt' hn

lemma us_wordBytes {n : Nat} (hn : n < 65536) : us (wordBytes n) = some n := by
  have hhi : n / 256 < 256 := by omega
  have hlo : n % 256 < 256 := by omega
  rw [wordBytes, us, toNat_toUInt8 hhi, toNat_toUInt8 hlo]
  congr 1
  omega

lemma FlagBits.byte1_lt (f : FlagBits) : f.byte1 < 256 := by
  unfold FlagBits.byte1
  omega

lemma FlagBits.byte2_lt (f : FlagBits) : f.byte2 < 256 := by
  unfold FlagBits.byte2
  omega

/-- A mask in front of a shift is a mask behind it. -/
lemma and_shiftLeft_shiftRight (n mask k : Nat) : (n &&& mask <<< k) >>> k = (n / 2 ^ k) &&& mask := by
  rw [Nat.shiftRight_and_distrib, Nat.shiftLeft_shiftRight, Nat.shiftRight_eq_div_pow]

/-- The field of `width` bits that starts at bit `k`. -/
lemma field_eq (n k width : Nat) : (n &&& (2 ^ width - 1) <<< k) >>> k = n / 2 ^ k % 2 ^ width := by
  rw [and_shiftLeft_shiftRight, Nat.and_two_pow_sub_one_eq_mod]

lemma FlagBits.fields1 (f : FlagBits) :
    (f.byte1 &&& 128) >>> 7 = f.qr ∧ (f.byte1 &&& 120) >>> 3 = f.opcode ∧ (f.byte1 &&& 4) >>> 2 = f.aa ∧
      (f.byte1 &&& 2) >>> 1 = f.tc ∧ f.byte1 % 2 = f.rd := by
  have hqr : (f.byte1 &&& 128) >>> 7 = f.byte1 / 128 % 2 := field_eq f.byte1 7 1
  have hopcode : (f.byte1 &&& 120) >>> 3 = f.byte1 / 8 % 16 := field_eq f.byte1 3 4
  have haa : (f.byte1 &&& 4) >>> 2 = f.byte1 / 4 % 2 := field_eq f.byte1 2 1
  have htc : (f.byte1 &&& 2) >>> 1 = f.byte1 / 2 % 2 := field_eq f.byte1 1 1
  rw [hqr, hopcode, haa, htc, FlagBits.byte1]
  omega

lemma FlagBits.fields2 (f : FlagBits) :
    (f.byte2 &&& 128) >>> 7 = f.ra ∧ (f.byte2 &&& 112) >>> 4 = f.z ∧ f.byte2 &&& 15 = f.rcode := by
  have hra : (f.byte2 &&& 128) >>> 7 = f.byte2 / 128 % 2 := field_eq f.byte2 7 1
  have hz : (f.byte2 &&& 112) >>> 4 = f.byte2 / 16 % 8 := field_eq f.byte2 4 3
  have hrcode : f.byte2 &&& 15 = f.byte2 % 16 := Nat.and_two_pow_sub_one_eq_mod f.byte2 4
  rw [hra, hz, hrcode, FlagBits.byte2]
  omega

/-- The two bytes make the word, and are taken out of it again. -/
lemma FlagBits.us_bytes (f : FlagBits) :
    us [f.byte1.toUInt8, f.byte2.toUInt8] = some (256 * f.byte1 + f.byte2) ∧
      (256 * f.byte1 + f.byte2) >>> 8 = f.byte1 ∧ (256 * f.byte1 + f.byte2) &&& 255 = f.byte2 := by
  have h1 := f.byte1_lt
  have h2 := f.byte2_lt
  have hmod : (256 * f.byte1 + f.byte2) &&& 255 = (256 * f.byte1 + f.byte2) % 256 :=
    Nat.and_two_pow_sub_one_eq_mod _ 8
  refine ⟨?_, ?_, ?_⟩
  · rw [us, toNat_toUInt8 h1, toNat_toUInt8 h2]
  · rw [Nat.shiftRight_eq_div_pow]
    omega
  · rw [hmod]
    omega

/-! ## What the decoder reads -/

@[simp] lemma take_wordBytes (n : Nat) (rest : List UInt8) : (wordBytes n ++ rest).take 2 = wordBytes n := rfl

@[simp] lemma drop_wordBytes (n k : Nat) (rest : List UInt8) :
    (wordBytes n ++ rest).drop (k + 2) = rest.drop k := rfl

lemma WireName.sizes (name : WireName) : ∀ l ∈ name.labels, l ≠ [] ∧ l.length ≤ 63 := by
  intro l hl
  obtain ⟨hpos, hsize⟩ := name.label_length l hl
  exact ⟨List.ne_nil_of_length_pos hpos, hsize⟩

lemma readName_wire (name : WireName) (rest : List UInt8) :
    readName (wireName name.labels ++ rest) = some (joinDots name.labels, rest) := by
  apply readName_wireName
  intro l hl
  obtain ⟨hne, hsize⟩ := name.sizes l hl
  exact ⟨hne, by omega⟩

/-- The fields of an answer are read, the TTL but for its shift. -/
lemma parseAnswer_encode (a : WireAnswer) (rest : List UInt8) :
    parseAnswer (a.encode ++ rest) = some ⟨a.rrName, a.type.toNat, a.qclass.toNat,
      (a.ttl.toNat / 65536) <<< 8 + a.ttl.toNat % 65536, 4, inetNtoa a.addr⟩ := by
  obtain ⟨owner, type, qclass, ttl, addr⟩ := a
  have httl := ttl.toNat_lt
  have htype := us_wordBytes type.toNat_lt
  have hqclass := us_wordBytes qclass.toNat_lt
  have hhi : us (wordBytes (ttl.toNat / 65536)) = some (ttl.toNat / 65536) := us_wordBytes (by omega)
  have hlo : us (wordBytes (ttl.toNat % 65536)) = some (ttl.toNat % 65536) := us_wordBytes (by omega)
  have hdl : us (wordBytes 4) = some 4 := us_wordBytes (by decide)
  cases owner with
  | none =>
    have hpointer : us ([192, 12] : List UInt8) = some 49164 := by decide
    simp [parseAnswer, WireAnswer.encode, WireAnswer.ownerBytes, WireAnswer.rrName, htype, hqclass, hhi, hlo, hdl,
      hpointer, ub, InAddr.toList, inetNtoa, List.intercalate]
  | some name =>
    have hencode : WireAnswer.encode ⟨some name, type, qclass, ttl, addr⟩ ++ rest =
        wireName name.labels ++ (wordBytes type.toNat ++ (wordBytes qclass.toNat ++
          (wordBytes (ttl.toNat / 65536) ++ (wordBytes (ttl.toNat % 65536) ++
            (wordBytes 4 ++ (addr.toList ++ rest)))))) := by
      simp [WireAnswer.encode, WireAnswer.ownerBytes]
    obtain ⟨n, hn, hpointer⟩ : ∃ n, us ((wireName name.labels ++ (wordBytes type.toNat ++ (wordBytes qclass.toNat ++
        (wordBytes (ttl.toNat / 65536) ++ (wordBytes (ttl.toNat % 65536) ++
          (wordBytes 4 ++ (addr.toList ++ rest))))))).take 2) = some n ∧ n ≠ 49164 :=
      us_take_wireName name.labels (type.toNat / 256).toUInt8 _ name.sizes
    rw [parseAnswer, hencode, hn, Option.bind_eq_bind, Option.bind_some, if_neg hpointer, readName_wire]
    simp [WireAnswer.rrName, htype, hqclass, hhi, hlo, hdl, ub, InAddr.toList, inetNtoa, List.intercalate]

lemma parseAnswer_addr_ne_nil {data : List UInt8} {rr : Resource} (h : parseAnswer data = some rr) :
    rr.rrAddr ≠ [] := by
  have hdotted : ∀ a b c d : Str, List.intercalate [46] [a, b, c, d] ≠ [] := by
    intro a b c d
    simp [List.intercalate]
  obtain ⟨pointer, -, h⟩ := Option.bind_eq_some_iff.mp h
  simp only at h
  split at h
  all_goals
    simp only [Option.bind_eq_bind, Option.bind_eq_some_iff, Option.pure_def, Option.some.injEq] at h
    obtain ⟨r, -, rrType, -, rrClass, -, ttlHi, -, ttlLo, -, rrDl, -, a, -, b, -, c, -, d, -, rfl⟩ := h
    exact hdotted _ _ _ _

/-- What is reported of a message and the answer that was read. -/
def WireMessage.report (msg : WireMessage) (g : Globals) (rr : Resource) : Flags where
  sentTransId := g.transId
  recvTransId := msg.id.toNat
  qr := msg.flags.qr
  opcode := msg.flags.opcode
  aa := msg.flags.aa
  tc := msg.flags.tc
  rd := msg.flags.rd
  ra := msg.flags.ra
  z := msg.flags.z
  rcode := msg.flags.rcode
  numQuestions := msg.qdcount.toNat
  numAnswers := msg.ancount.toNat
  numAuthority := msg.nscount.toNat
  numAdditional := msg.arcount.toNat
  qtype := msg.qtype.toNat
  qclass := msg.qclass.toNat
  rrName := rr.rrName
  rrQtype := rr.rrType
  rrQclass := rr.rrClass
  rrTtl := rr.rrTtl
  rrDl := rr.rrDl

/-- Header and question are read as they are; the rest depends on the answer. -/
lemma parseMessage_encode (msg : WireMessage) (rest : List UInt8) (g : Globals) :
    parseMessage (msg.encode ++ rest) false g =
      if msg.ancount.toNat ≠ 0 then
        (parseAnswer (msg.answerBytes ++ rest)).map fun rr =>
          (joinDots msg.name.labels, rr.rrAddr, some (msg.report g rr), g)
      else none := by
  obtain ⟨id, flags, qdcount, ancount, nscount, arcount, name, qtype, qclass, answer⟩ := msg
  have hid := us_wordBytes id.toNat_lt
  have hqdcount := us_wordBytes qdcount.toNat_lt
  have hancount := us_wordBytes ancount.toNat_lt
  have hnscount := us_wordBytes nscount.toNat_lt
  have harcount := us_wordBytes arcount.toNat_lt
  have hqtype := us_wordBytes qtype.toNat_lt
  have hqclass := us_wordBytes qclass.toNat_lt
  obtain ⟨hflags, hbyte1, hbyte2⟩ := flags.us_bytes
  obtain ⟨hqr, hopcode, haa, htc, hrd⟩ := flags.fields1
  obtain ⟨hra, hz, hrcode⟩ := flags.fields2
  simp [parseMessage, WireMessage.encode, WireMessage.header, hid, hflags, hqdcount, hancount, hnscount, harcount,
    readName_wire, hqtype, hqclass, hbyte1, hbyte2, hqr, hopcode, haa, htc, hrd, hra, hz, hrcode]
  split
  · rfl
  · cases parseAnswer _ <;> rfl

/-! ## What the decoder reports -/

/-- Header, question and answer of every message are reported as they are encoded, exactly when it
has an answer that its header counts and whose TTL is below `2 ^ 16`. -/
theorem parseMessage_decodes_iff (msg : WireMessage) (rest : List UInt8) (g : Globals) :
    msg.Decodes rest g ↔ msg.ancount ≠ 0 ∧ ∃ a, msg.answer = some a ∧ a.ttl.toNat < 65536 := by
  have hcount : msg.ancount ≠ 0 ↔ msg.ancount.toNat ≠ 0 := not_congr UInt16.toNat_inj.symm
  have hparse := parseMessage_encode msg rest g
  rw [WireMessage.Decodes, hparse, hcount]
  constructor
  · rintro ⟨flags, hflags, -, hreport⟩
    rw [Option.ite_none_right_eq_some, Option.map_eq_some_iff] at hflags
    obtain ⟨hne, rr, hrr, heq⟩ := hflags
    simp only [Prod.mk.injEq, Option.some.injEq, true_and, and_true] at heq
    obtain ⟨haddr, rfl⟩ := heq
    refine ⟨hne, ?_⟩
    cases hanswer : msg.answer with
    | none =>
      -- an address is read where the message has none
      rw [WireMessage.addrText, hanswer] at haddr
      exact absurd haddr (parseAnswer_addr_ne_nil hrr)
    | some a =>
      have httl := (hreport.answer a hanswer).rrTtl
      rw [WireMessage.answerBytes, hanswer, Option.map_some, Option.getD_some, parseAnswer_encode] at hrr
      obtain rfl := Option.some.inj hrr
      have hshift : (a.ttl.toNat / 65536) <<< 8 + a.ttl.toNat % 65536 = a.ttl.toNat := httl
      rw [Nat.shiftLeft_eq] at hshift
      exact ⟨a, rfl, by omega⟩
  · rintro ⟨hne, a, hanswer, httl⟩
    have hshift : (a.ttl.toNat / 65536) <<< 8 + a.ttl.toNat % 65536 = a.ttl.toNat := by
      rw [Nat.shiftLeft_eq]
      omega
    rw [if_pos hne, WireMessage.answerBytes, hanswer, Option.map_some, Option.getD_some, parseAnswer_encode,
      Option.map_some, hshift, WireMessage.addrText, hanswer]
    refine ⟨_, rfl, rfl, ?_⟩
    constructor <;> try rfl
    intro b hb
    obtain rfl := Option.some.inj (hanswer.symm.trans hb)
    exact ⟨rfl, rfl, rfl, rfl, rfl⟩

section Example

/-- A response for `a` with the address 3.0.0.1 and a TTL of 65536 seconds. -/
def longTtl : WireMessage where
  id := 7
  flags := ⟨1, 0, 1, 0, 0, 0, 0, 0⟩
  qdcount := 1
  ancount := 1
  nscount := 0
  arcount := 0
  name := ⟨[bytes "a"], by decide⟩
  qtype := 1
  qclass := 1
  answer := some ⟨none, 1, 1, 65536, ⟨3, 0, 0, 1⟩⟩

/-- The TTL of the response is reported as 256. -/
theorem parseMessage_longTtl : ¬∀ (msg : WireMessage) (g : Globals), msg.Decodes [] g := by
  intro h
  obtain ⟨flags, hflags, -, hreport⟩ := h longTtl (Globals.start 7)
  have hparse : ((parseMessage (longTtl.encode ++ []) false (Globals.start 7)).bind fun r =>
      r.2.2.1.map Flags.rrTtl) = some 256 := by
    decide
  rw [hflags] at hparse
  have httl := (hreport.answer _ rfl).rrTtl
  rw [Option.some.inj hparse] at httl
  exact absurd httl (by decide)

end Example

end VideoCDN.Reference
