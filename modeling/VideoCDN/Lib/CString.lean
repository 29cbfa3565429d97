import Mathlib.Data.List.Infix
import Mathlib.Data.List.TakeWhile
import Mathlib.Tactic.IntervalCases

/-!
# C strings

Strings are lists of bytes without their terminator; `cstr` reads the string held by a
buffer. Searching is by first occurrence, as `strstr` and `strcasestr` do it, and decimal
numbers are printed and read as `%d` and `atoi` do.
-/

namespace CString

/-- The bytes of a literal. -/
def bytes (s : String) : List UInt8 := s.toList.map Char.toUInt8

/-- A string without NUL. -/
def IsString (s : List UInt8) : Prop := ∀ b ∈ s, b ≠ 0

-- the bytes of the list are tested, not all bytes there are
instance (s : List UInt8) : Decidable (IsString s) := List.decidableBAll _ s

/-- The string a buffer holds: its bytes up to the first NUL. -/
def cstr (buf : List UInt8) : List UInt8 := buf.takeWhile (· ≠ 0)

@[simp] lemma cstr_nil : cstr [] = [] := rfl

/-- The string is at the front of its buffer. -/
lemma cstr_prefix_self (buf : List UInt8) : cstr buf <+: buf := List.takeWhile_prefix _

/-- A NUL ends the string, whatever is in front of it. -/
lemma cstr_append_nul (s tail : List UInt8) : cstr (s ++ 0 :: tail) = cstr s := by
  unfold cstr
  rw [List.takeWhile_append]
  split
  · rename_i hall
    rw [List.takeWhile_cons_of_neg (by simp), List.append_nil]
    exact ((cstr_prefix_self s).eq_of_length hall).symm
  · rfl

lemma cstr_eq_self (s : List UInt8) (h : IsString s) : cstr s = s := by
  unfold cstr
  exact List.takeWhile_eq_self_iff.mpr (by simpa [IsString] using h)

lemma cstr_append_zero (s tail : List UInt8) (h : IsString s) : cstr (s ++ 0 :: tail) = s := by
  rw [cstr_append_nul, cstr_eq_self s h]

lemma length_cstr_lt {s : List UInt8} (h : 0 ∈ s) : (cstr s).length < s.length := by
  obtain ⟨pre, post, rfl⟩ := List.append_of_mem h
  have hle := (cstr_prefix_self pre).length_le
  rw [cstr_append_nul, List.length_append, List.length_cons]
  omega

/-- Without a terminator the string is the whole buffer. -/
lemma zero_notMem_iff (s : List UInt8) : 0 ∉ s ↔ (cstr s).length = s.length := by
  constructor
  · intro h
    rw [cstr_eq_self s fun b hb => by rintro rfl; exact h hb]
  · intro h hmem
    exact absurd (length_cstr_lt hmem) (by omega)

lemma exists_cstr_append {buf : List UInt8} (h : 0 ∈ buf) : ∃ after, buf = cstr buf ++ 0 :: after := by
  induction buf with
  | nil => cases h
  | cons b buf ih =>
    by_cases hb : b = 0
    · subst hb
      exact ⟨buf, rfl⟩
    · obtain ⟨after, hafter⟩ := ih ((List.mem_cons.mp h).resolve_left (Ne.symm hb))
      refine ⟨after, ?_⟩
      rw [cstr, List.takeWhile_cons_of_pos (by simpa using hb), List.cons_append, ← cstr, ← hafter]

lemma cstr_append_zeros (s : List UInt8) (n : Nat) : cstr (s ++ List.replicate n 0) = cstr s := by
  cases n with
  | zero => rw [List.replicate_zero, List.append_nil]
  | succ n => rw [List.replicate_succ, cstr_append_nul]

lemma cstr_append_of_mem {s : List UInt8} (h : 0 ∈ s) (tail : List UInt8) : cstr (s ++ tail) = cstr s := by
  obtain ⟨pre, post, rfl⟩ := List.append_of_mem h
  rw [List.append_assoc, List.cons_append, cstr_append_nul, cstr_append_nul]

/-- The string of a buffer goes on behind its first bytes only where these contain no NUL. -/
lemma cstr_append_cases (header rest : List UInt8) :
    cstr (header ++ rest) = cstr header ∨ cstr header = header := by
  by_cases h : 0 ∈ header
  · exact Or.inl (cstr_append_of_mem h rest)
  · right
    apply cstr_eq_self
    rintro b hb rfl
    exact h hb

lemma cstr_append (s tail : List UInt8) (h : IsString s) : cstr (s ++ tail) = s ++ cstr tail := by
  unfold cstr
  exact List.takeWhile_append_of_pos (by simpa [IsString] using h)

lemma IsString.append {s t : List UInt8} (hs : IsString s) (ht : IsString t) : IsString (s ++ t) := by
  intro b hb
  rcases List.mem_append.mp hb with hb | hb
  · exact hs b hb
  · exact ht b hb

lemma isString_cstr (buf : List UInt8) : IsString (cstr buf) :=
  fun _ hb => by simpa using List.mem_takeWhile_imp hb

section Search

variable {α : Type*} [DecidableEq α]

/-- Index of the first occurrence of `needle`, as `strstr` finds it. -/
def strstr (needle : List α) : List α → Option Nat
  | [] => if needle = [] then some 0 else none
  | c :: cs => if needle <+: c :: cs then some 0 else (strstr needle cs).map (· + 1)

theorem strstr_eq_none_iff (needle hay : List α) : strstr needle hay = none ↔ ¬needle <:+: hay := by
  induction hay with
  | nil => simp [strstr]
  | cons c cs ih =>
    rw [strstr, List.infix_cons_iff]
    by_cases h : needle <+: c :: cs
    · simp [h]
    · simp [h, ih]

lemma strstr_isSome_iff (needle hay : List α) : (strstr needle hay).isSome ↔ needle <:+: hay := by
  rw [← not_iff_not, ← strstr_eq_none_iff]
  simp

/-- A found index is an occurrence and the first one. -/
theorem strstr_eq_some_iff (needle hay : List α) (i : Nat) :
    strstr needle hay = some i ↔
      i ≤ hay.length ∧ needle <+: hay.drop i ∧ ∀ j < i, ¬needle <+: hay.drop j := by
  induction hay generalizing i with
  | nil =>
    cases i with
    | zero => simp [strstr]
    | succ i => simp [strstr]
  | cons c cs ih =>
    rw [strstr]
    by_cases h : needle <+: c :: cs
    · rw [if_pos h]
      constructor
      · rintro ⟨⟩
        simpa using h
      · rintro ⟨-, -, hfirst⟩
        cases i with
        | zero => rfl
        | succ i => exact absurd h (by simpa using hfirst 0 (by omega))
    · rw [if_neg h]
      cases i with
      | zero => simp [h]
      | succ i =>
        simp only [Option.map_eq_some_iff, Nat.add_right_cancel_iff, exists_eq_right, ih,
          List.length_cons, Nat.add_le_add_iff_right, List.drop_succ_cons]
        refine and_congr_right fun _ => and_congr_right fun _ => ⟨fun hf j hj => ?_, fun hf j hj => ?_⟩
        · cases j with
          | zero => simpa using h
          | succ j => simpa using hf j (by omega)
        · simpa using hf (j + 1) (by omega)

/-- The first occurrence of `needle` is found when no earlier position starts one. -/
theorem strstr_append (pre needle post : List α)
    (h : ∀ j < pre.length, ¬needle <+: (pre ++ needle ++ post).drop j) :
    strstr needle (pre ++ needle ++ post) = some pre.length := by
  rw [strstr_eq_some_iff]
  refine ⟨by simp, ?_, h⟩
  simp

lemma exists_first_occurrence {needle s : List α} (h : needle <:+: s) :
    ∃ pre post, s = pre ++ needle ++ post ∧ ∀ j < pre.length, ¬needle <+: s.drop j := by
  obtain ⟨i, hi⟩ := Option.isSome_iff_exists.mp ((strstr_isSome_iff needle s).mpr h)
  obtain ⟨hle, ⟨post, hpost⟩, hfirst⟩ := (strstr_eq_some_iff needle s i).mp hi
  have hlen : (s.take i).length = i := List.length_take_of_le hle
  refine ⟨s.take i, post, ?_, fun j hj => hfirst j (hlen ▸ hj)⟩
  rw [List.append_assoc, hpost, List.take_append_drop]

/-- There is one first occurrence. -/
lemma first_occurrence_unique {needle pre post pre' post' : List α}
    (h : ∀ j < pre.length, ¬needle <+: (pre ++ needle ++ post).drop j)
    (h' : ∀ j < pre'.length, ¬needle <+: (pre ++ needle ++ post).drop j)
    (heq : pre ++ needle ++ post = pre' ++ needle ++ post') : pre = pre' ∧ post = post' := by
  have hfound := strstr_append pre needle post h
  have hfound' := strstr_append pre' needle post' (heq ▸ h')
  rw [heq, hfound'] at hfound
  have hlength := Option.some.inj hfound
  obtain ⟨hfront, hpost⟩ := List.append_inj heq (by simp [hlength])
  exact ⟨(List.append_inj hfront hlength.symm).1, hpost⟩

/-- `s` with the first occurrence of `needle` replaced. -/
def replaceFirst (needle new s : List α) : List α :=
  match strstr needle s with
  | none => s
  | some i => s.take i ++ new ++ s.drop (i + needle.length)

lemma replaceFirst_eq {pre needle post : List α} (new : List α)
    (h : ∀ j < pre.length, ¬needle <+: (pre ++ needle ++ post).drop j) :
    replaceFirst needle new (pre ++ needle ++ post) = pre ++ new ++ post := by
  rw [replaceFirst, strstr_append pre needle post h]
  simp only [← List.length_append, List.drop_left]
  rw [List.append_assoc pre needle, List.take_left]

/-- What follows an occurrence does not change it. -/
lemma strstr_append_of_eq_some {needle pre : List α} {i : Nat} (h : strstr needle pre = some i) (post : List α) :
    strstr needle (pre ++ post) = some i ∧ i + needle.length ≤ pre.length := by
  obtain ⟨hi, hhere, hfirst⟩ := (strstr_eq_some_iff needle pre i).mp h
  have hlen : needle.length ≤ (pre.drop i).length := hhere.length_le
  rw [List.length_drop] at hlen
  refine ⟨(strstr_eq_some_iff needle (pre ++ post) i).mpr ⟨by simp; omega, ?_, fun j hj hocc => ?_⟩, by omega⟩
  · rw [List.drop_append_of_le_length hi]
    exact hhere.trans (List.prefix_append _ _)
  · rw [List.drop_append_of_le_length (by omega)] at hocc
    exact hfirst j hj (List.prefix_of_prefix_length_le hocc (List.prefix_append _ _) (by simp; omega))

lemma replaceFirst_append {needle pre : List α} (new : List α) (h : needle <:+: pre) (post : List α) :
    replaceFirst needle new (pre ++ post) = replaceFirst needle new pre ++ post := by
  obtain ⟨i, hi⟩ := Option.isSome_iff_exists.mp ((strstr_isSome_iff needle pre).mpr h)
  obtain ⟨hfound, hle⟩ := strstr_append_of_eq_some hi post
  simp only [replaceFirst, hi, hfound]
  rw [List.take_append_of_le_length (by omega), List.drop_append_of_le_length hle, List.append_assoc,
    List.append_assoc, List.append_assoc]

/-- An occurrence inside the text in front is found there. -/
lemma strstr_of_append {needle pre post : List α} {i : Nat} (h : strstr needle (pre ++ post) = some i)
    (hle : i + needle.length ≤ pre.length) : strstr needle pre = some i := by
  obtain ⟨-, hhere, hfirst⟩ := (strstr_eq_some_iff needle (pre ++ post) i).mp h
  rw [List.drop_append_of_le_length (by omega)] at hhere
  rw [strstr_eq_some_iff]
  refine ⟨by omega, ?_, fun j hj hocc => hfirst j hj ?_⟩
  · apply List.prefix_of_prefix_length_le hhere (List.prefix_append _ _)
    rw [List.length_drop]
    omega
  · rw [List.drop_append_of_le_length (by omega)]
    exact hocc.trans (List.prefix_append _ _)

omit [DecidableEq α] in
/-- An occurrence of `needle` cannot start inside text that avoids its first element. -/
lemma not_prefix_drop_of_head_notMem (a : α) (as pre post : List α) (h : a ∉ pre) (j : Nat)
    (hj : j < pre.length) : ¬a :: as <+: (pre ++ post).drop j := by
  rw [List.drop_append_of_le_length (by omega), List.drop_eq_getElem_cons hj, List.cons_append,
    List.cons_prefix_cons]
  rintro ⟨rfl, -⟩
  exact h (List.getElem_mem hj)

omit [DecidableEq α] in
/-- An occurrence of `needle` does not reach over an element that is not in it. -/
lemma prefix_of_prefix_append_cons {needle pre post : List α} {c : α} (hc : c ∉ needle)
    (h : needle <+: pre ++ c :: post) : needle <+: pre := by
  rcases le_or_gt needle.length pre.length with hle | hlt
  · exact List.prefix_of_prefix_length_le h ⟨c :: post, rfl⟩ hle
  · refine absurd ?_ hc
    have hpre : pre ++ [c] <+: needle := by
      refine List.prefix_of_prefix_length_le ⟨post, by simp⟩ h ?_
      rw [List.length_append]
      exact hlt
    exact hpre.subset (by simp)

omit [DecidableEq α] in
lemma not_prefix_drop_of_not_infix {needle pre post : List α} {c : α} (hc : c ∉ needle)
    (hpre : ¬needle <:+: pre) {j : Nat} (hj : j ≤ pre.length) : ¬needle <+: (pre ++ c :: post).drop j := by
  rw [List.drop_append_of_le_length hj]
  intro h
  exact hpre ((prefix_of_prefix_append_cons hc h).isInfix.trans (List.drop_suffix j pre).isInfix)

omit [DecidableEq α] in
lemma infix_append_cons_iff {needle pre post : List α} {c : α} (hc : c ∉ needle) :
    needle <:+: pre ++ c :: post ↔ needle <:+: pre ∨ needle <:+: post := by
  constructor
  · intro h
    by_contra hno
    obtain ⟨hpre, hpost⟩ := not_or.mp hno
    obtain ⟨s, t, h⟩ := h
    have hdrop : needle <+: (pre ++ c :: post).drop s.length := by
      rw [← h, List.append_assoc, List.drop_left]
      exact List.prefix_append needle t
    by_cases hs : s.length ≤ pre.length
    · exact not_prefix_drop_of_not_infix hc hpre hs hdrop
    · obtain ⟨k, hk⟩ := Nat.exists_eq_add_of_lt (not_le.mp hs)
      rw [hk, Nat.add_assoc, List.drop_append, List.drop_eq_nil_of_le (by omega), Nat.add_sub_cancel_left,
        List.drop_succ_cons] at hdrop
      exact hpost (hdrop.isInfix.trans (List.drop_suffix k post).isInfix)
  · rintro (h | h)
    · exact h.trans (List.prefix_append pre _).isInfix
    · exact h.trans ((List.suffix_cons c post).trans (List.suffix_append pre _)).isInfix

/-- The search goes on behind text without an occurrence that ends with an element `needle` avoids. -/
lemma strstr_skip {needle pre : List α} {c : α} (hc : c ∉ needle) (hpre : ¬needle <:+: pre) (post : List α) :
    strstr needle (pre ++ c :: post) = (strstr needle post).map (· + (pre.length + 1)) := by
  induction pre with
  | nil =>
    have hhere : ¬needle <+: c :: post := by
      intro h
      have hstart : needle <+: [] := prefix_of_prefix_append_cons hc h
      exact hpre hstart.isInfix
    rw [List.nil_append, strstr, if_neg hhere]
    rfl
  | cons a pre ih =>
    have hhere : ¬needle <+: a :: (pre ++ c :: post) := by
      intro h
      have hstart : needle <+: a :: pre := prefix_of_prefix_append_cons hc h
      exact hpre hstart.isInfix
    have hrest := ih fun h => hpre (h.trans (List.suffix_cons a pre).isInfix)
    rw [List.cons_append, strstr, if_neg hhere, hrest, Option.map_map]
    rfl

/-- Behind text that avoids its first element an occurrence is the first one. -/
lemma strstr_append_of_head_notMem {a : α} (as : List α) {pre : List α} (h : a ∉ pre) (post : List α) :
    strstr (a :: as) (pre ++ (a :: as ++ post)) = some pre.length := by
  rw [← List.append_assoc]
  apply strstr_append
  intro j hj
  rw [List.append_assoc]
  exact not_prefix_drop_of_head_notMem a as pre _ h j hj

omit [DecidableEq α] in
/-- An occurrence that starts before an element it ends with ends there at the latest. -/
lemma prefix_drop_append_cons {w pre post : List α} {c : α} (hc : c ∉ w) {j : Nat} (hj : j ≤ pre.length)
    (h : w ++ [c] <+: (pre ++ c :: post).drop j) : w ++ [c] <+: (pre ++ [c]).drop j := by
  rw [List.drop_append_of_le_length hj] at h ⊢
  have hpre : pre.drop j ++ [c] <+: pre.drop j ++ c :: post := ⟨post, by simp⟩
  rcases le_or_gt (w ++ [c]).length (pre.drop j ++ [c]).length with hle | hlt
  · exact List.prefix_of_prefix_length_le h hpre hle
  · refine absurd ?_ hc
    have hw : pre.drop j ++ [c] <+: w := by
      apply List.prefix_of_prefix_length_le hpre ((List.prefix_append w [c]).trans h)
      simp only [List.length_append, List.length_singleton] at hlt ⊢
      omega
    exact hw.subset (by simp)

lemma strstr_append_cons {w pre : List α} {c : α} (hc : c ∉ w) (hpre : ¬w ++ [c] <:+: pre ++ [c]) (post : List α) :
    strstr (w ++ [c]) (pre ++ c :: post) = (strstr (w ++ [c]) post).map (· + (pre.length + 1)) := by
  induction pre with
  | nil =>
    have hhere : ¬w ++ [c] <+: c :: post := by
      intro h
      have hstart : w ++ [c] <+: ([] ++ [c]).drop 0 := prefix_drop_append_cons hc le_rfl h
      exact hpre hstart.isInfix
    rw [List.nil_append, strstr, if_neg hhere]
    rfl
  | cons a pre ih =>
    have hhere : ¬w ++ [c] <+: a :: (pre ++ c :: post) := by
      intro h
      have hstart : w ++ [c] <+: (a :: pre ++ [c]).drop 0 := prefix_drop_append_cons hc (Nat.zero_le _) h
      exact hpre hstart.isInfix
    have hrest := ih fun h => hpre (h.trans (List.suffix_cons a _).isInfix)
    rw [List.cons_append, strstr, if_neg hhere, hrest, Option.map_map]
    rfl

lemma replaceFirst_append_cons {w pre : List α} {c : α} (new : List α) (hc : c ∉ w)
    (hpre : ¬w ++ [c] <:+: pre ++ [c]) (post : List α) :
    replaceFirst (w ++ [c]) new (pre ++ c :: post) = pre ++ c :: replaceFirst (w ++ [c]) new post := by
  have hfind := strstr_append_cons hc hpre post
  unfold replaceFirst
  cases hpost : strstr (w ++ [c]) post with
  | none =>
    rw [hpost, Option.map_none] at hfind
    simp only [hfind]
  | some i =>
    rw [hpost, Option.map_some] at hfind
    have hsplit : pre ++ c :: post = (pre ++ [c]) ++ post := by simp
    have hfront : i + (pre.length + 1) = (pre ++ [c]).length + i := by
      rw [List.length_append, List.length_singleton]
      omega
    simp only [hfind]
    rw [hsplit, hfront, List.take_length_add_append, Nat.add_assoc, List.drop_length_add_append]
    simp only [List.append_assoc, List.cons_append, List.nil_append]

end Search

/-- ASCII lower case, the only case folding of the C locale. -/
def tolower (b : UInt8) : UInt8 := if 65 ≤ b ∧ b ≤ 90 then b + 32 else b

/-- Index of the first occurrence of `needle` in any letter case. -/
def strcasestr (needle hay : List UInt8) : Option Nat :=
  strstr (needle.map tolower) (hay.map tolower)

/-- White space of the C locale. -/
def isspace (b : UInt8) : Bool := b = 32 || (9 ≤ b && b ≤ 13)

def isdigit (b : UInt8) : Bool := 48 ≤ b && b ≤ 57

lemma ne_of_isdigit {b c : UInt8} (hb : isdigit b = true) (hc : isdigit c = false) : b ≠ c := by
  rintro rfl
  rw [hb] at hc
  cases hc

lemma not_isspace_of_isdigit {b : UInt8} (h : isdigit b = true) : isspace b = false := by
  have hb : b ≠ 32 := ne_of_isdigit h (by decide)
  simp only [isdigit, Bool.and_eq_true, decide_eq_true_eq] at h
  simp only [isspace, Bool.or_eq_false_iff, decide_eq_false_iff_not, Bool.and_eq_false_iff]
  refine ⟨hb, Or.inr fun hle => ?_⟩
  have hlo := UInt8.le_iff_toNat_le.mp h.1
  have hhi := UInt8.le_iff_toNat_le.mp hle
  exact absurd (hlo.trans hhi) (by decide)

/-- The value of a run of decimal digits. -/
def digitsVal (s : List UInt8) : Nat := s.foldl (fun v d => 10 * v + (d.toNat - 48)) 0

/-- The number at the front of a string, 0 without one; there is no result where it does not fit
an `int`. -/
def atoi (s : List UInt8) : Option Int :=
  let s := s.dropWhile isspace
  let negative := s.head? = some 45
  let s := if negative ∨ s.head? = some 43 then s.tail else s
  let digits := digitsVal (s.takeWhile isdigit)
  let value : Int := if negative then -digits else digits
  if value < -2 ^ 31 ∨ 2 ^ 31 ≤ value then none else some value

/-- The decimal digits of a number, as `%d` prints them. -/
def decimal (n : Nat) : List UInt8 := (Nat.toDigits 10 n).map Char.toUInt8

/-- The text `%d` prints for an `int`. -/
def decimalInt : Int → List UInt8
  | .ofNat n => decimal n
  | .negSucc n => 45 :: decimal (n + 1)

lemma decimal_ne_nil (n : Nat) : decimal n ≠ [] := by
  unfold decimal
  simp

lemma isDigit_toUInt8 (c : Char) (h : c.isDigit) :
    isdigit c.toUInt8 = true ∧ c.toUInt8.toNat = c.toNat := by
  have hc : 48 ≤ c.toNat ∧ c.toNat ≤ 57 := by
    rw [Char.isDigit, Bool.and_eq_true, decide_eq_true_eq, decide_eq_true_eq] at h
    exact ⟨UInt32.le_iff_toNat_le.mp h.1, UInt32.le_iff_toNat_le.mp h.2⟩
  have hn : c.toUInt8.toNat = c.toNat := by
    change c.val.toUInt8.toNat = c.val.toNat
    rw [UInt32.toNat_toUInt8]
    exact Nat.mod_eq_of_lt (by simp only [Char.toNat] at hc; omega)
  have hlo : (48 : UInt8) ≤ c.toUInt8 := UInt8.le_iff_toNat_le.mpr (by rw [hn]; exact hc.1)
  have hhi : c.toUInt8 ≤ 57 := UInt8.le_iff_toNat_le.mpr (by rw [hn]; exact hc.2)
  exact ⟨by simp [isdigit, hlo, hhi], hn⟩

lemma isdigit_of_mem_decimal (n : Nat) : ∀ b ∈ decimal n, isdigit b = true := by
  intro b hb
  obtain ⟨c, hc, rfl⟩ := List.mem_map.mp hb
  exact (isDigit_toUInt8 c (Nat.isDigit_of_mem_toDigits (by decide) (by decide) hc)).1

lemma mem_decimalInt {n : Int} {b : UInt8} (hb : b ∈ decimalInt n) : b = 45 ∨ isdigit b = true := by
  cases n with
  | ofNat n => exact Or.inr (isdigit_of_mem_decimal n b hb)
  | negSucc n =>
    rcases List.mem_cons.mp hb with rfl | hb
    · exact Or.inl rfl
    · exact Or.inr (isdigit_of_mem_decimal (n + 1) b hb)

lemma notMem_decimalInt (n : Int) {c : UInt8} (hc : isdigit c = false) (hminus : c ≠ 45) : c ∉ decimalInt n := by
  intro h
  rcases mem_decimalInt h with rfl | h
  · exact hminus rfl
  · exact ne_of_isdigit h hc rfl

lemma isString_decimalInt (n : Int) : IsString (decimalInt n) := by
  rintro b hb rfl
  exact notMem_decimalInt n (by decide) (by decide) hb

lemma decimal_head_ne_zero (n : Nat) (hn : n ≠ 0) : (decimal n).head? ≠ some 48 := by
  induction n using Nat.strong_induction_on with
  | _ n ih =>
    unfold decimal
    rw [Nat.toDigits_eq_if (by decide)]
    by_cases h : n < 10
    · rw [if_pos h]
      interval_cases n <;> simp_all <;> decide
    · have hlt : n / 10 < n := by omega
      have hrec := ih (n / 10) hlt (by omega)
      obtain ⟨c, cs, hc⟩ := List.exists_cons_of_ne_nil (decimal_ne_nil (n / 10))
      rw [if_neg h, List.map_append]
      change (decimal (n / 10) ++ _).head? ≠ _
      rw [hc] at hrec ⊢
      simpa using hrec

/-- Reading back a printed number. -/
@[simp] theorem digitsVal_decimal (n : Nat) : digitsVal (decimal n) = n := by
  have hall : ∀ c ∈ Nat.toDigits 10 n, c.isDigit := fun c hc =>
    Nat.isDigit_of_mem_toDigits (by decide) (by decide) hc
  have hfold : ∀ (cs : List Char) (v : Nat), (∀ c ∈ cs, c.isDigit) →
      (cs.map Char.toUInt8).foldl (fun v d => 10 * v + (d.toNat - 48)) v = Nat.ofDigitChars 10 cs v := by
    intro cs
    induction cs with
    | nil => intro v _; simp
    | cons c cs ih =>
      intro v hcs
      have hc := (isDigit_toUInt8 c (hcs c (by simp))).2
      rw [List.map_cons, List.foldl_cons, hc, ih _ (fun d hd => hcs d (by simp [hd])),
        Nat.ofDigitChars_cons]
      rfl
  unfold digitsVal decimal
  rw [hfold _ 0 hall, Nat.ofDigitChars_ten_toDigits]

/-- Different numbers are printed differently. -/
lemma decimalInt_inj {m n : Int} : decimalInt m = decimalInt n ↔ m = n := by
  have hminus : ∀ (k : Nat) (t : List UInt8), decimal k ≠ 45 :: t := by
    intro k t h
    have hmem : 45 ∈ decimal k := by
      rw [h]
      exact List.mem_cons_self
    exact ne_of_isdigit (isdigit_of_mem_decimal k 45 hmem) (by decide) rfl
  refine ⟨fun h => ?_, fun h => by rw [h]⟩
  cases m with
  | ofNat m =>
    cases n with
    | ofNat n =>
      have hvalue := congrArg digitsVal h
      simp only [decimalInt, digitsVal_decimal] at hvalue
      rw [hvalue]
    | negSucc n => exact absurd h (hminus m _)
  | negSucc m =>
    cases n with
    | ofNat n => exact absurd h.symm (hminus n _)
    | negSucc n =>
      have hvalue := congrArg digitsVal (List.cons.inj h).2
      simp only [digitsVal_decimal] at hvalue
      rw [Nat.succ.inj hvalue]

end CString
