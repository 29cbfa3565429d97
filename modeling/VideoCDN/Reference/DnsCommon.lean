import VideoCDN.Reference.BestServer

/-!
# Messages of the reference implementation

The coder and decoder of `dns/dns_common.py`, with the globals they keep. An exception has no
result.
-/

namespace VideoCDN.Reference

open CString

/-- `s(i)`, two bytes in network order. -/
def packS (i : Nat) : Option (List UInt8) :=
  if i < 65536 then some [(i / 256).toUInt8, (i % 256).toUInt8] else none

/-- `b(i)`, one byte. -/
def packB (i : Nat) : Option (List UInt8) := if i < 256 then some [i.toUInt8] else none

/-- `struct.pack('>I', i)` -/
def packI (i : Nat) : Option (List UInt8) := do
  let hi ← packS (i / 65536)
  let lo ← packS (i % 65536)
  return hi ++ lo

/-- `us(i)` of two bytes. -/
def us : List UInt8 → Option Nat
  | [hi, lo] => some (256 * hi.toNat + lo.toNat)
  | _ => none

/-- `ub(i)` of one byte. -/
def ub : List UInt8 → Option Nat
  | [byte] => some byte.toNat
  | _ => none

/-- The globals that change. -/
structure Globals where
  servers : List Str
  servCurr : Nat
  transId : Nat
  flagsQR : Nat
  numAnswers : Nat
  flags : Nat

/-- The globals of a process that has just started; the id is random. -/
def Globals.start (transId : Nat) : Globals := ⟨[], 0, transId, 0, 0, 0⟩

def flagsOpcode : Nat := 0
def flagsAA : Nat := 1
def flagsTC : Nat := 0
def flagsRD : Nat := 0
def flagsRA : Nat := 0
def flagsRCode : Nat := 0
def numQuestions : Nat := 1
def numAuthority : Nat := 0
def numAdditional : Nat := 0
def qType : Nat := 1
def qClass : Nat := 1

def genFlags (query : Bool) (g : Globals) : Globals :=
  let g := if query then g else { g with flagsQR := 1, numAnswers := 1 }
  let flagsB1 := g.flagsQR <<< 7 ||| flagsOpcode <<< 3 ||| flagsAA <<< 2 ||| flagsTC <<< 1 ||| flagsRD
  let flagsB2 := flagsRA <<< 7 ||| flagsRCode
  { g with flags := flagsB1 <<< 8 ||| flagsB2 }

/-- The lengths of the labels that a dot ends; `k` characters of a label were seen. -/
def labelLens : Str → Nat → List Nat
  | [], _ => []
  | c :: queryStr, k => if c = 46 then k :: labelLens queryStr 0 else labelLens queryStr (k + 1)

/-- The list `lens`, with the length of the last label. -/
def lensOf (queryStr : Str) : List Nat :=
  let lens := labelLens queryStr 0
  lens ++ [queryStr.length - (lens.sum + lens.length)]

/-- The loop that replaces the dots by the lengths `lens[l]`. -/
def insertLens (lens : List Nat) : Str → Nat → Option (List UInt8)
  | [], _ => some []
  | c :: queryStr, l =>
    if c = 46 then do
      let len ← lens[l]?
      let byte ← packB len
      let message ← insertLens lens queryStr (l + 1)
      return byte ++ message
    else do
      let message ← insertLens lens queryStr l
      return c :: message

/-- The name of the question. -/
def questionName (queryStr : Str) : Option (List UInt8) := do
  let first ← (lensOf queryStr)[0]?
  let byte ← packB first
  let message ← insertLens (lensOf queryStr) queryStr 1
  return byte ++ message ++ [0]

/-- `int(float(a))` of a numeral; the other texts that `float` takes are left out. -/
def intFloat (a : Str) : Option Nat := if a ≠ [] ∧ a.all isdigit then some (digitsVal a) else none

/-- What `genMessage` is told about the choice of an address; `addr` is the client. -/
structure Choice where
  roundRobin : Bool
  serversFile : List UInt8
  lsaFile : List UInt8
  addr : Str

/-- `RR_ADDR`, before it is split at the dots. -/
def chooseAddr (order : DictOrder) (choice : Choice) (g : Globals) : Option (Str × Globals) :=
  if choice.roundRobin then do
    let rrAddr ← g.servers[g.servCurr]?
    return (rrAddr, { g with servCurr := (g.servCurr + 1) % g.servers.length })
  else do
    let best ← getBestServer order choice.addr g.servers choice.lsaFile
    let rrAddr ← best
    return (rrAddr, g)

/-- The answer section: its owner is the pointer to the name of the question. -/
def genAnswer (rrAddr : List Nat) : Option (List UInt8) := do
  let rrName ← packS 49164
  let rrQtype ← packS 1
  let rrQclass ← packS 1
  let rrTtl ← packI 0
  let rrDatalength ← packS 4
  let rrData ← rrAddr.mapM packB
  return rrName ++ rrQtype ++ rrQclass ++ rrTtl ++ rrDatalength ++ rrData.flatten

/-- The servers are read once, for the first response. -/
def setup (query : Bool) (choice : Choice) (g : Globals) : Globals :=
  if ¬query ∧ g.servers.length = 0 then { g with servers := serverSetup choice.serversFile } else g

/-- The message, the numbers of its address, and the globals. -/
def genMessage (order : DictOrder) (queryStr : Str) (query : Bool) (choice : Choice) (g : Globals) :
    Option (List UInt8 × List Nat × Globals) := do
  let g := genFlags query (setup query choice g)
  let transId ← packS g.transId
  let flags ← packS g.flags
  let questions ← packS numQuestions
  let answers ← packS g.numAnswers
  let authority ← packS numAuthority
  let additional ← packS numAdditional
  let name ← questionName queryStr
  let qtype ← packS qType
  let qclass ← packS qClass
  let message := transId ++ flags ++ questions ++ answers ++ authority ++ additional ++ name ++ qtype ++ qclass
  if query then return (message, [], g)
  else do
    let r ← chooseAddr order choice g
    let rrAddr ← (r.1.splitOn 46).mapM intFloat
    let answer ← genAnswer rrAddr
    return (message ++ answer, rrAddr, r.2)

/-- `rr_name`: the pointer as a number, or a text. -/
inductive RrName
  | pointer (name : Nat)
  | text (name : Str)
  deriving DecidableEq

structure Flags where
  sentTransId : Nat
  recvTransId : Nat
  qr : Nat
  opcode : Nat
  aa : Nat
  tc : Nat
  rd : Nat
  ra : Nat
  z : Nat
  rcode : Nat
  numQuestions : Nat
  numAnswers : Nat
  numAuthority : Nat
  numAdditional : Nat
  qtype : Nat
  qclass : Nat
  rrName : RrName
  rrQtype : Nat
  rrQclass : Nat
  rrTtl : Nat
  rrDl : Nat
  deriving DecidableEq

/-- The loop over the labels of a name: `l` characters of one are still to come, and `data[i:]` is
given. The characters with a dot after each label, and what follows the name. -/
def readLabels : List UInt8 → Nat → Option (Str × List UInt8)
  | data, 0 => some ([], data)
  | [], _ + 1 => none
  | [_], 1 => none
  | c :: len :: data, 1 => (readLabels data len.toNat).map fun r => (c :: 46 :: r.1, r.2)
  | c :: data, l + 2 => (readLabels data (l + 1)).map fun r => (c :: r.1, r.2)

/-- A name with its first length, and what follows it. -/
def readName : List UInt8 → Option (Str × List UInt8)
  | [] => none
  | len :: data => (readLabels data len.toNat).map fun r => (r.1.dropLast, r.2)

structure Resource where
  rrName : RrName
  rrType : Nat
  rrClass : Nat
  rrTtl : Nat
  rrDl : Nat
  rrAddr : Str

/-- The answer at the start of `data`. -/
def parseAnswer (data : List UInt8) : Option Resource := do
  let pointer ← us (data.take 2)
  let r ← if pointer = 49164 then some (RrName.pointer pointer, data.drop 2)
    else (readName data).map fun r => (RrName.text r.1, r.2)
  let data := r.2
  let rrType ← us (data.take 2)
  let rrClass ← us ((data.drop 2).take 2)
  let ttlHi ← us ((data.drop 4).take 2)
  let ttlLo ← us ((data.drop 6).take 2)
  let rrDl ← us ((data.drop 8).take 2)
  let a ← ub ((data.drop 10).take 1)
  let b ← ub ((data.drop 11).take 1)
  let c ← ub ((data.drop 12).take 1)
  let d ← ub ((data.drop 13).take 1)
  let rrAddr := List.intercalate [46] [decimal a, decimal b, decimal c, decimal d]
  return ⟨r.1, rrType, rrClass, ttlHi <<< 8 + ttlLo, rrDl, rrAddr⟩

/-- The name, the address, the dictionary of a response, and the globals. Without an answer the
variables of its dictionary are not bound. -/
def parseMessage (data : List UInt8) (query : Bool) (g : Globals) :
    Option (Str × Str × Option Flags × Globals) := do
  let recvTransId ← us (data.take 2)
  let g := if query then { g with transId := recvTransId } else g
  let flags ← us ((data.drop 2).take 2)
  let flagsB1 := flags >>> 8
  let flagsB2 := flags &&& 255
  let questions ← us ((data.drop 4).take 2)
  let answers ← us ((data.drop 6).take 2)
  let authority ← us ((data.drop 8).take 2)
  let additional ← us ((data.drop 10).take 2)
  let input ← readName (data.drop 12)
  let qtype ← us (input.2.take 2)
  let qclass ← us ((input.2.drop 2).take 2)
  let resource ← if answers ≠ 0 then (parseAnswer (input.2.drop 4)).map some else some none
  let rrAddr := (resource.map Resource.rrAddr).getD []
  if query then return (input.1, rrAddr, none, g)
  else do
    let rr ← resource
    return (input.1, rrAddr, some {
      sentTransId := g.transId
      recvTransId := recvTransId
      qr := (flagsB1 &&& 128) >>> 7
      opcode := (flagsB1 &&& 15 <<< 3) >>> 3
      aa := (flagsB1 &&& 4) >>> 2
      tc := (flagsB1 &&& 2) >>> 1
      rd := flagsB1 &&& 1
      ra := (flagsB2 &&& 128) >>> 7
      z := (flagsB2 &&& 7 <<< 4) >>> 4
      rcode := flagsB2 &&& 15
      numQuestions := questions
      numAnswers := answers
      numAuthority := authority
      numAdditional := additional
      qtype := qtype
      qclass := qclass
      rrName := rr.rrName
      rrQtype := rr.rrType
      rrQclass := rr.rrClass
      rrTtl := rr.rrTtl
      rrDl := rr.rrDl }, g)

end VideoCDN.Reference
