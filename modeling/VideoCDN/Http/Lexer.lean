import VideoCDN.Lib.CString

/-!
# The tokens of a request

`lexer.l`: the longest match wins, and of two rules with one match the first. A byte that no
rule matches is echoed by the default rule and gives no token.
-/

namespace VideoCDN.Http

open CString

/-- The tokens, with the values they pass to the grammar. -/
inductive Token
  | crlf
  | backslash (c : UInt8)
  | digit (i : UInt8)
  | dot
  | tokenChar (c : UInt8)
  | lws
  | colon
  | separators (c : UInt8)
  | sp (c : UInt8)
  | ws (s : List UInt8)
  deriving DecidableEq, Repr

/-- A space or a tab. -/
def isBlank (b : UInt8) : Bool := b = 32 || b = 9

def separators : List UInt8 := bytes "()<>@,;:\\\"/[]?=\x7b\x7d \t"

/-- Any character but controls and separators. -/
def isTokenChar (b : UInt8) : Bool := 32 ≤ b && b < 127 && b ∉ separators

/-- The match at the front of the input: its token, if any, and the rest. -/
def lexOne (b : UInt8) (bs : List UInt8) : Option Token × List UInt8 :=
  if b = 13 ∧ bs.head? = some 10 then
    let rest := bs.tail
    if rest.takeWhile isBlank = [] then (some .crlf, rest) else (some .lws, rest.dropWhile isBlank)
  else if isBlank b then
    let blanks := b :: bs.takeWhile isBlank
    (some (if blanks = [32] then .sp 32 else .ws blanks), bs.dropWhile isBlank)
  else if b = 47 then (some (.backslash b), bs)
  else if isdigit b then (some (.digit (b - 48)), bs)
  else if b = 46 then (some .dot, bs)
  else if b = 58 then (some .colon, bs)
  else if b ∈ separators then (some (.separators b), bs)
  else if isTokenChar b then (some (.tokenChar b), bs)
  else (none, bs)

/-- The tokens of the input. Every match consumes a byte, so its length is enough fuel. -/
def lexFuel : Nat → List UInt8 → List Token
  | 0, _ => []
  | _ + 1, [] => []
  | fuel + 1, b :: bs => (lexOne b bs).1.toList ++ lexFuel fuel (lexOne b bs).2

def lex (input : List UInt8) : List Token := lexFuel input.length input

end VideoCDN.Http
