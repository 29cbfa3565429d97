import VideoCDN.Lib.Buffer
import VideoCDN.Lib.Inet

/-!
# DNS messages

The coder and decoder of `dns_record.c` on a little-endian host. Messages are built in and
read from byte arrays by position; `none` is an access outside an array or another step C
leaves undefined. Structures are copied with their memory layout, so `dns_resource_t`
takes 12 bytes, the last two of them padding.
-/

namespace VideoCDN.Dns

open CString Inet Buffer

/-- `htons` and `ntohs` of a little-endian host. -/
def htons (x : UInt16) : UInt16 := (x <<< 8) ||| (x >>> 8)

/-- The two bytes of a `uint16_t` in memory. -/
def bytesOf16 (x : UInt16) : List UInt8 := [x.toUInt8, (x >>> 8).toUInt8]

/-- The `uint16_t` stored at a position. -/
def load16 (buf : List UInt8) (i : Nat) : Option UInt16 := do
  let lo ← buf[i]?
  let hi ← buf[i + 1]?
  return lo.toUInt16 ||| (hi.toUInt16 <<< 8)

structure DnsHeader where
  id : UInt16
  flags : UInt16
  qdcount : UInt16
  ancount : UInt16
  nscount : UInt16
  arcount : UInt16
  deriving DecidableEq, Repr

def sizeofHeader : Nat := 12
def sizeofQuestion : Nat := 4
def sizeofResource : Nat := 12

def flagQR : UInt16 := (1 : UInt16) <<< 7
def flagAA : UInt16 := (1 : UInt16) <<< 2
def flagRD : UInt16 := (1 : UInt16) <<< 0
def flagRA : UInt16 := (1 : UInt16) <<< 15
def flagRCODE : UInt16 := (0xF : UInt16) <<< 8
def dnsTypeA : UInt16 := 1
def dnsClassIP : UInt16 := 1

def DnsHeader.toBytes (h : DnsHeader) : List UInt8 :=
  bytesOf16 h.id ++ bytesOf16 h.flags ++ bytesOf16 h.qdcount ++ bytesOf16 h.ancount ++
    bytesOf16 h.nscount ++ bytesOf16 h.arcount

def loadHeader (buf : List UInt8) : Option DnsHeader := do
  let id ← load16 buf 0
  let flags ← load16 buf 2
  let qdcount ← load16 buf 4
  let ancount ← load16 buf 6
  let nscount ← load16 buf 8
  let arcount ← load16 buf 10
  return ⟨id, flags, qdcount, ancount, nscount, arcount⟩

def dnsHeaderInit (id : UInt16) : DnsHeader := ⟨htons id, 0, 0, 0, 0, 0⟩

/-- The result of assigning an unsigned difference to an `int`. -/
def wrapInt (x : Int) : Int := (x + 2 ^ 31) % 2 ^ 32 - 2 ^ 31

/-- `(unsigned) (*pt)` for a signed `char`. -/
def lableSize (b : UInt8) : Nat := if b < 128 then b.toNat else 2 ^ 32 - 256 + b.toNat

/-- Appends at most `n` characters found at `pt` to the string in a buffer of `cap` bytes. -/
def strncat (cap : Nat) (result buf : List UInt8) (pt n : Nat) : Option (List UInt8) :=
  let src := (buf.drop pt).take n
  if src.length < n ∧ 0 ∉ src then none
  else if cap ≤ (result ++ cstr src).length then none
  else some (result ++ cstr src)

def parseNameLoop (cap : Nat) (buf : List UInt8) : Nat → Nat → Int → List UInt8 → Option (List UInt8)
  | 0, _, _, _ => none
  | fuel + 1, pt, size, result =>
    if size ≤ 0 then some result
    else do
      let b ← buf[pt]?
      let pt := pt + 1
      let lable := lableSize b
      if lable = 0 then return result
      let result ← strncat cap result buf pt lable
      let result ← strncat cap result [46] 0 1
      parseNameLoop cap buf fuel (pt + lable) (wrapInt (size - lable)) result

/-- Reads a name at `question` into a buffer of `cap` bytes: the returned length and the name.
The loop moves forward through `buf` in every round. -/
def parseName (cap : Nat) (buf : List UInt8) (question : Nat) (size : Int) : Option (Nat × List UInt8) := do
  let result ← parseNameLoop cap buf (buf.length + 1) question size []
  if result = [] then none
  else return (result.length, result.dropLast)

def translateNameLoop (base : Nat) :
    List UInt8 → Nat → Nat → List UInt8 → Option (Nat × Nat × List UInt8)
  | [], total, labelLen, result => some (total, labelLen, result)
  | currChar :: addr, total, labelLen, result =>
    if currChar ≠ 46 then do
      let result ← store result (base + total + labelLen + 1) currChar
      translateNameLoop base addr total (labelLen + 1) result
    else do
      let result ← store result (base + total) labelLen.toUInt8
      translateNameLoop base addr (total + labelLen + 1) 0 result

/-- Writes the encoded name `addr` at `base`: the bytes written and the array. -/
def translateName (base : Nat) (addr result : List UInt8) : Option (Nat × List UInt8) := do
  let (total, labelLen, result) ← translateNameLoop base addr 0 0 result
  let result ← store result (base + total) labelLen.toUInt8
  let total := total + labelLen
  let result ← store result (base + total + 1) 0
  return (total + 2, result)

/-- Reads a question at `base`: the returned offset and the name. The type and class are read,
at the offset after the name, and not acted on. -/
def parseQuestion (cap : Nat) (buf : List UInt8) (base : Nat) (size : Int) :
    Option (Nat × List UInt8) := do
  let (offset, name) ← parseName cap buf base size
  let _qtype ← load16 buf (base + offset)
  return (offset + sizeofQuestion, name)

/-- Reads an answer at `base`: the returned value and the address stored in `*result`. -/
def parseResource (buf : List UInt8) (base : Nat) (size : Int) : Option (Int × Option InAddr) := do
  let (len, _qname) ← parseName 512 buf base size
  let offset := len + 1
  let rdlen ← load16 buf (base + offset + 8)
  if htons rdlen ≠ 4 then return (-1, none)
  let offset := offset + sizeofResource - 2
  let a ← buf[base + offset]?
  let b ← buf[base + offset + 1]?
  let c ← buf[base + offset + 2]?
  let d ← buf[base + offset + 3]?
  return (offset, some ⟨a, b, c, d⟩)

def generateQuestion (base : Nat) (query result : List UInt8) : Option (Nat × List UInt8) := do
  let (ret, result) ← translateName base query result
  let result ← blit result (base + ret) (bytesOf16 (htons dnsTypeA) ++ bytesOf16 (htons dnsClassIP))
  return (ret + sizeofQuestion, result)

/-- The padding of the copied structure is overwritten by the address. -/
def generateResource (base : Nat) (query ip result : List UInt8) : Option (Nat × List UInt8) := do
  let (ret, result) ← translateName base query result
  let resource := bytesOf16 (htons dnsTypeA) ++ bytesOf16 (htons dnsClassIP) ++ [0, 0, 0, 0] ++
    bytesOf16 (htons 4) ++ [0, 0]
  let result ← blit result (base + ret) resource
  let offset := ret + sizeofResource
  let addr ← inetAton ip
  let result ← blit result (base + offset - 2) addr.toList
  return (offset + 4 - 2, result)

def dnsIsinvalid (header : DnsHeader) (isRequest : Bool) : Bool :=
  (if isRequest then
      header.flags &&& flagQR ≠ 0 || htons header.qdcount ≠ 1
    else
      header.flags &&& flagQR = 0 || header.flags &&& flagAA = 0 || htons header.ancount ≠ 1) ||
    header.flags &&& flagRD ≠ 0 || header.flags &&& flagRA ≠ 0 ||
    header.nscount ≠ 0 || header.arcount ≠ 0

/-- The returned value and the name written to the 512-byte `result`. -/
def dnsParseRequest (buf : List UInt8) (size : Int) : Option (Int × List UInt8) := do
  let header ← loadHeader buf
  if dnsIsinvalid header true then return (-1, [])
  if htons header.qdcount ≠ 1 then return (-1, [])
  let (ret, name) ← parseQuestion 512 buf sizeofHeader (size - sizeofHeader)
  return (ret, name)

/-- Builds a response in the zeroed array `result`: the size and the array. -/
def dnsGenResponse (query : List UInt8) (ipAddr : Option (List UInt8)) (dnsId : UInt16) (rcode : Int)
    (result : List UInt8) : Option (Int × List UInt8) := do
  let header := dnsHeaderInit dnsId
  let flags := flagQR ||| flagAA
  if rcode ≠ 0 then
    let header := { header with flags := header.flags ||| ((1 : UInt16) <<< 12) }
    let header := { header with flags := header.flags ||| flags }
    let result ← blit result 0 header.toBytes
    return (sizeofHeader, result)
  let header := { header with flags := header.flags ||| flags, qdcount := htons 1, ancount := htons 1 }
  let result ← blit result 0 header.toBytes
  let (ret, result) ← generateQuestion sizeofHeader query result
  let offset := sizeofHeader + ret
  let ip ← ipAddr
  let (ret, result) ← generateResource offset query ip result
  return (ret + offset, result)

/-- The returned value and the address stored in `*result`, if one was. -/
def dnsParseResponse (response : List UInt8) (size : Int) : Option (Int × Option InAddr) := do
  let header ← loadHeader response
  if dnsIsinvalid header false then return (-1, none)
  if header.flags &&& flagRCODE ≠ 0 then return (-2, none)
  if htons header.ancount ≠ 1 then return (-1, none)
  let (ret, _qname) ← parseQuestion 512 response sizeofHeader (size - sizeofHeader)
  let offset := sizeofHeader + ret + 1
  let (ret, addr) ← parseResource response offset (size - offset)
  return (ret + offset, addr)

def dnsGenerateRequest (query : List UInt8) (dnsId : UInt16) (result : List UInt8) :
    Option (Int × List UInt8) := do
  let header := { dnsHeaderInit dnsId with qdcount := htons 1, ancount := htons 0 }
  let result ← blit result 0 header.toBytes
  let (ret, result) ← generateQuestion sizeofHeader query result
  return (ret + sizeofHeader, result)

end VideoCDN.Dns
