import VideoCDN.Http.Lexer

/-!
# The grammar of a request

`parser.y`, with its conflicts resolved as bison resolves them: the text before a single space
ends there, and an input that does not start with a blank starts with a request line. The
actions fill the request as their rules are reduced, also where a syntax error follows. Text
that does not fit its field has no result.
-/

namespace VideoCDN.Http

open CString

/-- A `Request`. The headers are listed from the pointer on, and `httpVersion` is `none` until
it is written. -/
structure Request where
  httpMethod : List UInt8
  httpUri : List UInt8
  httpVersion : Option (List UInt8)
  headers : List (List UInt8 × List UInt8)
  headerCount : Nat
  contentLength : Int
  status : Int
  position : Nat
  deriving DecidableEq, Repr

def allowedCharForToken : Token → Option UInt8
  | .tokenChar c => some c
  | .digit i => some (48 + i)
  | .dot => some 46
  | _ => none

def allowedCharForText : Token → Option UInt8
  | .separators c => some c
  | .colon => some 58
  | .backslash c => some c
  | t => allowedCharForToken t

/-- The text of a blank token. -/
def blankText : Token → Option (List UInt8)
  | .sp c => some [c]
  | .ws s => some s
  | _ => none

/-- The same, where a single space ends the text. -/
def blankText' : Token → Option (List UInt8)
  | .ws s => some s
  | _ => none

/-- Optional white space. -/
def ows : List Token → List Token
  | [] => []
  | t :: ts => if (blankText t).isSome then ts else t :: ts

/-- The rest of a token whose first characters are `acc`. -/
def tokenRest (acc : List UInt8) : List Token → List UInt8 × List Token
  | [] => (acc, [])
  | t :: ts =>
    match allowedCharForToken t with
    | some c => tokenRest (acc ++ [c]) ts
    | none => (acc, t :: ts)

def token : List Token → Option (List UInt8 × List Token)
  | [] => none
  | t :: ts => (allowedCharForToken t).map fun c => tokenRest [c] ts

/-- The rest of a text whose first characters are `acc`. A blank belongs to the text only when
another character follows it. -/
def textRest (blank : Token → Option (List UInt8)) (acc : List UInt8) : List Token → List UInt8 × List Token
  | [] => (acc, [])
  | t :: ts =>
    match allowedCharForText t with
    | some c => textRest blank (acc ++ [c]) ts
    | none =>
      match blank t, ts with
      | some s, t' :: ts' =>
        match allowedCharForText t' with
        | some c => textRest blank (acc ++ s ++ [c]) ts'
        | none => (acc, t :: t' :: ts')
      | _, _ => (acc, t :: ts)

def text (blank : Token → Option (List UInt8)) : List Token → Option (List UInt8 × List Token)
  | [] => none
  | t :: ts => (allowedCharForText t).map fun c => textRest blank [c] ts

/-- The next token, when it is a single space. -/
def expectSp : List Token → Option (List Token)
  | .sp _ :: ts => some ts
  | _ => none

def expectColon : List Token → Option (List Token)
  | .colon :: ts => some ts
  | _ => none

def expectCrlf : List Token → Option (List Token)
  | .crlf :: ts => some ts
  | _ => none

/-- Method, URI and version, or nothing on a syntax error. -/
def requestLine (ts : List Token) : Option ((List UInt8 × List UInt8 × List UInt8) × List Token) := do
  let (method, ts) ← token ts
  let ts ← expectSp ts
  let (uri, ts) ← text blankText' ts
  let ts ← expectSp ts
  let (version, ts) ← text blankText ts
  let ts ← expectCrlf ts
  return ((method, uri, version), ts)

/-- Name and value, or nothing on a syntax error. -/
def requestHeader (ts : List Token) : Option ((List UInt8 × List UInt8) × List Token) := do
  let (name, ts) ← token ts
  let ts ← expectColon (ows ts)
  let (value, ts) ← text blankText (ows ts)
  let ts ← expectCrlf (ows ts)
  return ((name, value), ts)

/-- The action of the request line. -/
def setRequestLine (r : Request) (method uri version : List UInt8) : Option Request :=
  if method.length < 50 ∧ uri.length < 4096 ∧ version.length < 50 then
    some { r with httpMethod := method, httpUri := uri, httpVersion := some version }
  else none

/-- `strcasecmp(s, t) == 0` -/
def strcaseeq (s t : List UInt8) : Bool := s.map tolower = t.map tolower

/-- The content length after a header. -/
def headerLength (r : Request) (name value : List UInt8) : Option Int :=
  if strcaseeq name (bytes "Content-Length") then atoi value else some r.contentLength

/-- The action of a header, which becomes the first one. -/
def addHeader (r : Request) (name value : List UInt8) : Option Request :=
  if 4096 ≤ name.length ∨ 4096 ≤ value.length then none
  else do
    let contentLength ← headerLength r name value
    return { r with
      contentLength := contentLength
      headers := (name, value) :: r.headers
      headerCount := r.headerCount + 1 }

/-- The headers and the empty line. -/
def requestHeaders : Nat → List Token → Request → Option (Int × Request)
  | 0, _, r => some (1, r)
  | fuel + 1, ts, r =>
    match requestHeader ts with
    | none => some (1, r)
    | some ((name, value), ts) => do
      let r ← addHeader r name value
      match ts with
      | .crlf :: _ => some (0, r)
      | _ => requestHeaders fuel ts r

/-- The value `yyparse` returns, and the request as the actions left it. -/
def yyparse (ts : List Token) (r : Request) : Option (Int × Request) :=
  if (ts.head?.bind allowedCharForToken).isSome then
    match requestLine ts with
    | none => some (1, r)
    | some ((method, uri, version), ts) => do
      let r ← setRequestLine r method uri version
      requestHeaders ts.length ts r
  else requestHeaders ts.length (ows ts) r

end VideoCDN.Http
