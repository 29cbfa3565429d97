import VideoCDN.Lib.CString

/-!
# Internet addresses

`inetNtoa` prints the four bytes of an IPv4 address as a dotted quad and `inetAton` reads
the numbers-and-dots notation: one to four parts, each decimal, octal or hexadecimal.
-/

namespace Inet

open CString

/-- An IPv4 address, its bytes in network order. -/
structure InAddr where
  a : UInt8
  b : UInt8
  c : UInt8
  d : UInt8
  deriving DecidableEq, Repr

def InAddr.toList (x : InAddr) : List UInt8 := [x.a, x.b, x.c, x.d]

def inetNtoa (x : InAddr) : List UInt8 :=
  decimal x.a.toNat ++ 46 :: (decimal x.b.toNat ++ 46 :: (decimal x.c.toNat ++ 46 :: decimal x.d.toNat))

def isodigit (b : UInt8) : Bool := 48 ≤ b && b ≤ 55

def isxdigit (b : UInt8) : Bool := isdigit b || (97 ≤ tolower b && tolower b ≤ 102)

def xdigitVal (b : UInt8) : Nat := if isdigit b then b.toNat - 48 else (tolower b).toNat - 87

/-- One number in the notation of C, and the text after it. -/
def numberPart (s : List UInt8) : Option (Nat × List UInt8) :=
  match s with
  | [] => none
  | c :: cs =>
    if !isdigit c then none
    else if c = 48 then
      match cs with
      | x :: h :: _ =>
        if tolower x = 120 ∧ isxdigit h then
          some ((cs.tail.takeWhile isxdigit).foldl (fun v d => 16 * v + xdigitVal d) 0,
            cs.tail.dropWhile isxdigit)
        else
          some ((s.takeWhile isodigit).foldl (fun v d => 8 * v + (d.toNat - 48)) 0, s.dropWhile isodigit)
      | _ =>
        some ((s.takeWhile isodigit).foldl (fun v d => 8 * v + (d.toNat - 48)) 0, s.dropWhile isodigit)
    else some (digitsVal (s.takeWhile isdigit), s.dropWhile isdigit)

/-- The address made of the leading one-byte parts and the last, wider part. -/
def assemble (parts : List Nat) (last : Nat) : Option InAddr :=
  if 256 ^ (4 - parts.length) ≤ last then none
  else
    match parts ++ ((List.range (4 - parts.length)).reverse.map fun i => last / 256 ^ i % 256) with
    | [a, b, c, d] => some ⟨a.toUInt8, b.toUInt8, c.toUInt8, d.toUInt8⟩
    | _ => none

/-- Reads up to `k` parts after those already read. -/
def inetAtonLoop : Nat → List Nat → List UInt8 → Option InAddr
  | 0, _, _ => none
  | k + 1, parts, s =>
    match numberPart s with
    | none => none
    | some (val, rest) =>
      match rest with
      | [] => assemble parts val
      | c :: cs =>
        if c = 46 then
          if k = 0 ∨ 255 < val then none else inetAtonLoop k (parts ++ [val]) cs
        else if isspace c then assemble parts val
        else none

def inetAton (s : List UInt8) : Option InAddr := inetAtonLoop 4 [] s


/-- The text after a number does not continue it. -/
def Ends (rest : List UInt8) : Prop := ∀ c cs, rest = c :: cs → c = 46

lemma takeWhile_digits_append (p : UInt8 → Bool) (s rest : List UInt8) (hs : ∀ b ∈ s, p b = true)
    (hp : p 46 = false) (hrest : Ends rest) :
    (s ++ rest).takeWhile p = s ∧ (s ++ rest).dropWhile p = rest := by
  rw [List.takeWhile_append_of_pos hs, List.dropWhile_append_of_pos hs]
  cases rest with
  | nil => simp
  | cons c cs =>
    obtain rfl := hrest c cs rfl
    simp [hp]

lemma numberPart_decimal (n : Nat) (rest : List UInt8) (hrest : Ends rest) :
    numberPart (decimal n ++ rest) = some (n, rest) := by
  have hdig := isdigit_of_mem_decimal n
  by_cases h0 : n = 0
  · subst h0
    have hoct : ((48 :: rest).takeWhile isodigit) = [48] ∧ (48 :: rest).dropWhile isodigit = rest :=
      takeWhile_digits_append isodigit [48] rest (List.forall_mem_singleton.mpr rfl) rfl hrest
    change numberPart (48 :: rest) = _
    rcases rest with _ | ⟨x, _ | ⟨h, cs⟩⟩
    · decide
    · obtain rfl := hrest x [] rfl
      decide
    · obtain rfl := hrest x (h :: cs) rfl
      have hx : ¬(tolower 46 = 120 ∧ isxdigit h = true) := by
        rintro ⟨hx, -⟩
        exact absurd hx (by decide)
      simp only [numberPart, hx, if_false, hoct.1, hoct.2]
      rfl
  · have hhead := decimal_head_ne_zero n h0
    have hsplit := takeWhile_digits_append isdigit (decimal n) rest hdig (by decide) hrest
    obtain ⟨c, cs, hc⟩ := List.exists_cons_of_ne_nil (decimal_ne_nil n)
    have hcd : isdigit c = true := hdig c (by rw [hc]; simp)
    have hc48 : c ≠ 48 := by
      rintro rfl
      exact hhead (by rw [hc]; rfl)
    have hval : digitsVal (c :: cs) = n := by rw [← hc, digitsVal_decimal]
    rw [hc] at hsplit ⊢
    simp only [List.cons_append] at hsplit ⊢
    simp [numberPart, hcd, hc48, hsplit.1, hsplit.2, hval]

/-- A printed address is read back. -/
@[simp] theorem inetAton_inetNtoa (x : InAddr) : inetAton (inetNtoa x) = some x := by
  have hdot : ∀ s : List UInt8, Ends (46 :: s) := by
    rintro s c cs ⟨⟩
    rfl
  have hnil : Ends [] := by
    rintro c cs ⟨⟩
  obtain ⟨a, b, c, d⟩ := x
  have ha := a.toNat_lt
  have hb := b.toNat_lt
  have hc := c.toNat_lt
  have hd := d.toNat_lt
  have hlast := numberPart_decimal d.toNat [] hnil
  rw [List.append_nil] at hlast
  unfold inetAton inetNtoa
  rw [inetAtonLoop, numberPart_decimal _ _ (hdot _)]
  simp only [if_true]
  rw [if_neg (by omega), inetAtonLoop, numberPart_decimal _ _ (hdot _)]
  simp only [if_true]
  rw [if_neg (by omega), inetAtonLoop, numberPart_decimal _ _ (hdot _)]
  simp only [if_true]
  rw [if_neg (by omega), inetAtonLoop, hlast]
  simp [assemble, Nat.mod_eq_of_lt, hd]

end Inet
