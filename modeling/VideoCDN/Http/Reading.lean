import VideoCDN.Http.Lexer
import Mathlib.Data.List.DropRight

/-!
# What a request says

The lines of a request are read without the lexer: the request line at its first two spaces, a
header at its first colon.
-/

namespace VideoCDN.Http

/-! ## Reading the lines -/

/-- The lines before the first empty one, after the bytes `cur` of the current line. -/
def headLines (cur : List UInt8) : List UInt8 → List (List UInt8)
  | [] => if cur = [] then [] else [cur]
  | 13 :: 10 :: bs => if cur = [] then [] else cur :: headLines [] bs
  | b :: bs => headLines (cur ++ [b]) bs

/-- Method, URI and version: the parts before, between and after the first two spaces. -/
def readRequestLine (line : List UInt8) : List UInt8 × List UInt8 × List UInt8 :=
  let rest := (line.dropWhile (· ≠ 32)).tail
  (line.takeWhile (· ≠ 32), rest.takeWhile (· ≠ 32), (rest.dropWhile (· ≠ 32)).tail)

/-- The text without the blanks around it. -/
def trim (s : List UInt8) : List UInt8 := (s.dropWhile isBlank).rdropWhile isBlank

/-- Name and value: the parts before and after the first colon. -/
def readField (line : List UInt8) : List UInt8 × List UInt8 :=
  (trim (line.takeWhile (· ≠ 58)), trim (line.dropWhile (· ≠ 58)).tail)

/-- What a request says. -/
structure Reading where
  requestLine : List UInt8 × List UInt8 × List UInt8
  fields : List (List UInt8 × List UInt8)
  deriving DecidableEq

def readRequest (x : List UInt8) : Reading :=
  ⟨readRequestLine ((headLines [] x).headD []), (headLines [] x).tail.map readField⟩

/-- A byte the lexer knows in a line: a tab or a printable character. -/
def isPrintable (b : UInt8) : Bool := b = 9 || (32 ≤ b && b ≤ 126)

/-- Only such bytes are in the lines before the first empty one. -/
def IsPrintable (x : List UInt8) : Prop := ∀ l ∈ headLines [] x, ∀ b ∈ l, isPrintable b = true

instance (x : List UInt8) : Decidable (IsPrintable x) :=
  decidable_of_iff ((headLines [] x).all (·.all isPrintable) = true) (by simp [IsPrintable])

/-! ## The lines of a text -/

lemma headLines_cons (cur : List UInt8) {b : UInt8} {bs : List UInt8} (h : ¬(b = 13 ∧ bs.head? = some 10)) :
    headLines cur (b :: bs) = headLines (cur ++ [b]) bs := by
  rw [headLines.eq_def]
  split
  · rename_i heq
    cases heq
  · rename_i rest heq
    obtain ⟨rfl, rfl⟩ := List.cons.inj heq
    exact absurd ⟨rfl, rfl⟩ h
  · rename_i c cs _ heq
    obtain ⟨rfl, rfl⟩ := List.cons.inj heq
    rfl

lemma headLines_crlf (cur bs : List UInt8) :
    headLines cur (13 :: 10 :: bs) = if cur = [] then [] else cur :: headLines [] bs := by
  rw [headLines]

/-- There is no line break in `l`. -/
def NoBreak (l : List UInt8) : Prop := ¬[13, 10] <:+: l

lemma NoBreak.tail {b : UInt8} {l : List UInt8} (h : NoBreak (b :: l)) : NoBreak l :=
  fun hbreak => h (hbreak.trans (List.suffix_cons b l).isInfix)

lemma NoBreak.head {b : UInt8} {l : List UInt8} (h : NoBreak (b :: l)) : ¬(b = 13 ∧ l.head? = some 10) := by
  rintro ⟨rfl, hhead⟩
  obtain ⟨bs, rfl⟩ : ∃ bs, l = 10 :: bs := by
    cases l with
    | nil => cases hhead
    | cons c bs =>
      obtain rfl := Option.some.inj hhead
      exact ⟨bs, rfl⟩
  exact h ⟨[], bs, rfl⟩

lemma noBreak_of_notMem {l : List UInt8} (h : 13 ∉ l) : NoBreak l :=
  fun hbreak => h (hbreak.subset (by simp))

lemma headLines_noBreak {l : List UInt8} (hl : NoBreak l) (cur : List UInt8) :
    headLines cur l = if cur ++ l = [] then [] else [cur ++ l] := by
  induction l generalizing cur with
  | nil => rw [headLines, List.append_nil]
  | cons b l ih =>
    rw [headLines_cons cur hl.head, ih hl.tail]
    simp

lemma headLines_line {l : List UInt8} (hl : NoBreak l) (cur bs : List UInt8) :
    headLines cur (l ++ 13 :: 10 :: bs) = if cur ++ l = [] then [] else (cur ++ l) :: headLines [] bs := by
  induction l generalizing cur with
  | nil => rw [List.nil_append, headLines_crlf, List.append_nil]
  | cons b l ih =>
    have hhead : ¬(b = 13 ∧ (l ++ 13 :: 10 :: bs).head? = some 10) := by
      cases l with
      | nil =>
        rintro ⟨-, h⟩
        exact absurd (Option.some.inj h) (by decide)
      | cons c l => exact hl.head
    rw [List.cons_append, headLines_cons cur hhead, ih hl.tail]
    simp

lemma headLines_of_ne_nil {l : List UInt8} (hl : NoBreak l) (hne : l ≠ []) (bs : List UInt8) :
    headLines [] (l ++ 13 :: 10 :: bs) = l :: headLines [] bs := by
  rw [headLines_line hl, List.nil_append, if_neg hne]

/-- A text has a first line with a line break after it, or no line break at all. -/
lemma line_cases (x : List UInt8) : NoBreak x ∨ ∃ l bs, NoBreak l ∧ x = l ++ 13 :: 10 :: bs := by
  induction x with
  | nil => exact Or.inl (noBreak_of_notMem List.not_mem_nil)
  | cons b x ih =>
    by_cases hbreak : b = 13 ∧ x.head? = some 10
    · obtain ⟨rfl, hhead⟩ := hbreak
      cases x with
      | nil => cases hhead
      | cons c bs =>
        obtain rfl := Option.some.inj hhead
        exact Or.inr ⟨[], bs, noBreak_of_notMem List.not_mem_nil, rfl⟩
    · have hcons : ∀ l, l <+: x → NoBreak l → NoBreak (b :: l) := by
        intro l hpre hl hin
        rcases List.infix_cons_iff.mp hin with hhere | hlater
        · obtain ⟨rest, hrest⟩ := hhere
          obtain ⟨rfl, rfl⟩ := List.cons.inj hrest
          obtain ⟨more, rfl⟩ := hpre
          exact hbreak ⟨rfl, rfl⟩
        · exact hl hlater
      rcases ih with hx | ⟨l, bs, hl, rfl⟩
      · exact Or.inl (hcons x List.prefix_rfl hx)
      · exact Or.inr ⟨b :: l, bs, hcons l (List.prefix_append _ _) hl, rfl⟩

lemma headLines_prefix {x line : List UInt8} {lines : List (List UInt8)} (h : headLines [] x = line :: lines) :
    line <+: x := by
  rcases line_cases x with hx | ⟨l, bs, hl, rfl⟩
  · rw [headLines_noBreak hx, List.nil_append] at h
    split at h
    · cases h
    · exact (List.cons.inj h).1 ▸ List.prefix_rfl
  · rw [headLines_line hl, List.nil_append] at h
    split at h
    · cases h
    · exact (List.cons.inj h).1 ▸ List.prefix_append _ _

/-- What follows an empty line is not read. -/
lemma headLines_append (x tail : List UInt8) (cur : List UInt8) :
    headLines cur (x ++ [13, 10, 13, 10] ++ tail) = headLines cur (x ++ [13, 10, 13, 10]) := by
  obtain ⟨n, hn⟩ : ∃ n, x.length = n := ⟨_, rfl⟩
  induction n using Nat.strong_induction_on generalizing x cur with
  | _ n ih =>
    rcases line_cases x with hx | ⟨l, bs, hl, rfl⟩
    · have hleft := headLines_line hx cur (13 :: 10 :: tail)
      have hright := headLines_line hx cur [13, 10]
      rw [List.append_assoc]
      change headLines cur (x ++ 13 :: 10 :: 13 :: 10 :: tail) = headLines cur (x ++ 13 :: 10 :: [13, 10])
      rw [hleft, hright, headLines_crlf, headLines_crlf, if_pos rfl, if_pos rfl]
    · have hrest := ih bs.length (by rw [← hn]; simp; omega) bs [] rfl
      have hassoc : ∀ t, l ++ 13 :: 10 :: bs ++ [13, 10, 13, 10] ++ t =
          l ++ 13 :: 10 :: (bs ++ [13, 10, 13, 10] ++ t) := by
        intro t
        simp
      have hnil := hassoc []
      rw [List.append_nil, List.append_nil] at hnil
      rw [hassoc, hnil, headLines_line hl, headLines_line hl, hrest]

/-! ## The bytes of a line -/

lemma mem_split {c b : UInt8} {l : List UInt8} (hb : b ∈ l) :
    b ∈ l.takeWhile (· ≠ c) ∨ b = c ∨ b ∈ (l.dropWhile (· ≠ c)).tail := by
  induction l with
  | nil => cases hb
  | cons d l ih =>
    by_cases hd : d = c
    · subst hd
      rcases List.mem_cons.mp hb with rfl | hb
      · exact Or.inr (Or.inl rfl)
      · exact Or.inr (Or.inr (by simpa using hb))
    · have hd' : decide (d ≠ c) = true := decide_eq_true hd
      rw [List.takeWhile_cons, List.dropWhile_cons, if_pos hd', if_pos hd', List.mem_cons]
      rcases List.mem_cons.mp hb with rfl | hb
      · exact Or.inl (Or.inl rfl)
      · exact (ih hb).imp_left Or.inr

lemma mem_dropWhile_blank {b : UInt8} {s : List UInt8} (hb : b ∈ s) : isBlank b = true ∨ b ∈ s.dropWhile isBlank := by
  rw [← List.takeWhile_append_dropWhile (p := isBlank) (l := s), List.mem_append] at hb
  exact hb.imp_left List.mem_takeWhile_imp

lemma mem_trim {b : UInt8} {s : List UInt8} (hb : b ∈ s) : isBlank b = true ∨ b ∈ trim s := by
  rcases mem_dropWhile_blank hb with hb | hb
  · exact Or.inl hb
  · rcases mem_dropWhile_blank (List.mem_reverse.mpr hb) with hb | hb
    · exact Or.inl hb
    · exact Or.inr (List.mem_reverse.mpr hb)

/-- No byte of a request line is lost in its parts. -/
lemma mem_requestLine {b : UInt8} {line : List UInt8} :
    b ∈ line → b = 32 ∨ b ∈ (readRequestLine line).1 ∨ b ∈ (readRequestLine line).2.1 ∨
      b ∈ (readRequestLine line).2.2 := by
  intro hb
  rcases mem_split (c := 32) hb with hb | hb | hb
  · exact Or.inr (Or.inl hb)
  · exact Or.inl hb
  · rcases mem_split (c := 32) hb with hb | hb | hb
    · exact Or.inr (Or.inr (Or.inl hb))
    · exact Or.inl hb
    · exact Or.inr (Or.inr (Or.inr hb))

lemma mem_of_readRequestLine {b : UInt8} {line : List UInt8}
    (h : b ∈ (readRequestLine line).1 ∨ b ∈ (readRequestLine line).2.1 ∨ b ∈ (readRequestLine line).2.2) :
    b ∈ line := by
  have hrest : ∀ {l : List UInt8}, b ∈ (l.dropWhile (· ≠ 32)).tail → b ∈ l := fun hb =>
    (List.dropWhile_suffix _).subset (List.mem_of_mem_tail hb)
  rcases h with hb | hb | hb
  · exact (List.takeWhile_prefix _).subset hb
  · exact hrest ((List.takeWhile_prefix _).subset hb)
  · exact hrest (hrest hb)

/-- No byte of a field is lost but blanks and its colon. -/
lemma mem_field {b : UInt8} {line : List UInt8} (hb : b ∈ line) :
    b = 58 ∨ isBlank b = true ∨ b ∈ (readField line).1 ∨ b ∈ (readField line).2 := by
  rcases mem_split (c := 58) hb with hb | hb | hb
  · exact Or.inr ((mem_trim hb).imp_right Or.inl)
  · exact Or.inl hb
  · exact Or.inr ((mem_trim hb).imp_right Or.inr)

end VideoCDN.Http
