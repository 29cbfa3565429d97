import VideoCDN.Http.Grammar
import VideoCDN.Lib.Buffer

/-!
# Requests and responses

`parse.c` and the construction of a request in `helper.c`. Buffers start out zero and are
listed up to the last byte written; the accesses of the source outside a buffer, and its uses
of a null pointer, have no result.
-/

namespace VideoCDN.Http

open CString Buffer

def maxReqSize : Nat := 8192
def success : Int := 0
def needmore : Int := -1

/-- The states of the search for the end of the header section. -/
inductive ScanState
  | start
  | cr
  | crlf
  | crlfcr
  | crlfcrlf
  deriving DecidableEq, Repr

/-- The transition for a byte; a byte that is not the expected one goes back to the start. -/
def ScanState.next : ScanState → UInt8 → ScanState
  | .start, ch => if ch = 13 then .cr else .start
  | .cr, ch => if ch = 10 then .crlf else .start
  | .crlf, ch => if ch = 13 then .crlfcr else .start
  | .crlfcr, ch => if ch = 10 then .crlfcrlf else .start
  | .crlfcrlf, _ => .start

/-- The state after the first `i` bytes and those given, and the number of bytes read. -/
def scanHeader : ScanState → List UInt8 → Nat → ScanState × Nat
  | .crlfcrlf, _, i => (.crlfcrlf, i)
  | state, [], i => (state, i)
  | state, ch :: bytes, i => scanHeader (state.next ch) bytes (i + 1)

/-- A request before its fields are filled. -/
def newRequest (position : Nat) : Request := ⟨[], [], none, [], 0, 0, success, position⟩

/-- Parses the request at the front of the first `size` bytes of the buffer. -/
def parse (buffer : List UInt8) (size : Nat) : Option Request :=
  let (state, i) := scanHeader .start (buffer.take size) 0
  if state = .crlfcrlf then do
    let (ret, request) ← yyparse (lex (buffer.take i)) (newRequest i)
    return if ret = success then request else { request with status := 400 }
  else some { newRequest i with status := needmore }

/-- The number after the first `content-length: ` of the string in the buffer. -/
def contentLength (buffer : List UInt8) : Option Int := do
  let s := cstr buffer
  let i ← strcasestr (bytes "content-length: ") s
  let clStart := s.drop (i + 16)
  let n ← strstr (bytes "\r\n") clStart
  if 50 ≤ n then none else atoi (clStart.take n)

/-- Looks for the end of the header section in the first `size` bytes of the buffer. -/
def parseReponse (buffer : List UInt8) (size : Nat) : Option Request :=
  let (state, i) := scanHeader .start (buffer.take size) 0
  if state = .crlfcrlf then do
    let n ← contentLength buffer
    return { newRequest i with contentLength := n }
  else some { newRequest i with status := needmore }

inductive ReqUri
  | html
  | f4m
  | chunk
  | uk
  deriving DecidableEq, Repr

def checkType (request : Request) : ReqUri :=
  if (strcasestr (bytes ".f4m") request.httpUri).isSome then .f4m
  else if (strcasestr (bytes ".html") request.httpUri).isSome then .html
  else if (strcasestr (bytes "-Frag") request.httpUri).isSome then .chunk
  else .uk

/-- Changes the string in the buffer to the request for the nolist manifest; the first component
is 1 where it did. -/
def replaceF4mToNolist (f4mRequest : List UInt8) : Option (Int × List UInt8) :=
  let s := cstr f4mRequest
  if maxReqSize ≤ s.length then none
  else
    match strstr (bytes ".f4m ") s with
    | none => some (0, f4mRequest)
    | some pt =>
      let length := s.length - pt
      if maxReqSize < pt + 12 + length then none
      else
        let moved := put f4mRequest (pt + 12) (fetch f4mRequest (pt + 5) length)
        some (1, put moved pt (bytes "_nolist.f4m "))

/-- The index of the last slash of `s`, when it has one. -/
def lastSlash (s : List UInt8) : Option Nat :=
  (s.reverse.findIdx? (· = 47)).map fun i => s.length - 1 - i

/-- Changes the digits before the first `Seg` of the string in a buffer of `size` bytes; the first
component is 1 where it did. -/
def replaceUriBitrate (size : Nat) (request : List UInt8) (bitrate : Int) : Option (Int × List UInt8) :=
  let s := cstr request
  match strstr (bytes "Seg") s with
  | none => some (0, request)
  | some left =>
    match lastSlash (s.take left) with
    | none => none
    | some pt =>
      let cut := put request pt [0]
      let newRequest := (s.take pt ++ 47 :: (decimalInt bitrate ++ s.drop left)).take (maxReqSize - 1)
      if size ≤ newRequest.length then none else some (1, put cut 0 (newRequest ++ [0]))

/-- The text of a request with the given fields. -/
def requestText (method uri version : List UInt8) (headers : List (List UInt8 × List UInt8)) : List UInt8 :=
  method ++ 32 :: (uri ++ 32 :: (version ++ bytes "\r\n")) ++
    (headers.flatMap (fun h => h.1 ++ 58 :: (h.2 ++ bytes "\r\n")) ++ bytes "\r\n")

/-- The text of the request, for a buffer that also has to hold its terminator. -/
def constructHttpReq (req : Request) : Option (List UInt8) :=
  match req.httpVersion with
  | none => none
  | some version =>
    let buf := requestText req.httpMethod req.httpUri version req.headers
    if maxReqSize ≤ buf.length then none else some buf

/-- A request has a text where it has a version and the text and its terminator fit. -/
lemma constructHttpReq_eq_some_iff {req : Request} {text : List UInt8} :
    constructHttpReq req = some text ↔ ∃ version, req.httpVersion = some version ∧
      text = requestText req.httpMethod req.httpUri version req.headers ∧ text.length < maxReqSize := by
  unfold constructHttpReq
  cases hversion : req.httpVersion with
  | none => simp
  | some version =>
    dsimp only
    split
    · rename_i hlong
      simp only [reduceCtorEq, false_iff]
      rintro ⟨v, hv, rfl, hfits⟩
      obtain rfl := Option.some.inj hv
      omega
    · rename_i hshort
      constructor
      · intro h
        obtain rfl := Option.some.inj h
        exact ⟨version, rfl, rfl, not_le.mp hshort⟩
      · rintro ⟨v, hv, rfl, -⟩
        obtain rfl := Option.some.inj hv
        rfl

end VideoCDN.Http
