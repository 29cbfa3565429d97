import VideoCDN.Http.HeaderSection

/-!
# Responses of any size

The lines of a header section may contain anything but CR and NUL, and the body may be empty. Where the
field with the length is the first text of its form, the length is read from it.
-/

namespace VideoCDN.Http

open CString

/-- A response with a field for the length of its body. -/
structure SizedResponse where
  lines : List (List UInt8)
  body : List UInt8
  isLine : ∀ l ∈ lines, IsTextLine l
  lengthLine : ∃ name, name.map tolower = bytes "content-length: " ∧ name ++ decimal body.length ∈ lines

namespace SizedResponse

variable (x : SizedResponse)

def header : List UInt8 := headerText x.lines

/-- The bytes of the response. -/
def text : List UInt8 := x.header ++ x.body

/-- The field is the first `content-length: ` of the header section. -/
def FieldFirst : Prop :=
  ∃ before name after, x.lines = before ++ (name ++ decimal x.body.length) :: after ∧
    name.map tolower = bytes "content-length: " ∧ ∀ l ∈ before, ¬bytes "content-length: " <:+: l.map tolower

lemma isResponseHeader : IsResponseHeader x.header := by
  obtain ⟨name, hname, hline⟩ := x.lengthLine
  apply isResponseHeader_headerText x.isLine hline
  rw [List.map_append, hname]
  exact (List.prefix_append _ _).isInfix

end SizedResponse

/-! ## Reading the length -/

lemma length_decimal_le {n k : Nat} (hk : 0 < k) (hn : n < 10 ^ k) : (decimal n).length ≤ k := by
  unfold decimal
  rw [List.length_map]
  exact (Nat.length_toDigits_le_iff (by decide) hk).mpr hn

lemma notMem_decimal {c : UInt8} (n : Nat) (hc : isdigit c = false) : c ∉ decimal n := fun h =>
  ne_of_isdigit (isdigit_of_mem_decimal n c h) hc rfl

/-- A printed number is read back where it fits. -/
lemma atoi_decimal {n : Nat} (hn : n < 2 ^ 31) : atoi (decimal n) = some n := by
  obtain ⟨d, ds, hds⟩ := List.exists_cons_of_ne_nil (decimal_ne_nil n)
  have hd : isdigit d = true := isdigit_of_mem_decimal n d (by rw [hds]; exact List.mem_cons_self)
  have hspace : (decimal n).dropWhile isspace = decimal n := by
    rw [hds, List.dropWhile_cons_of_neg]
    simp [not_isspace_of_isdigit hd]
  have hminus : (decimal n).head? ≠ some 45 := by
    rw [hds]
    simpa using ne_of_isdigit hd (by decide)
  have hplus : (decimal n).head? ≠ some 43 := by
    rw [hds]
    simpa using ne_of_isdigit hd (by decide)
  have hall : (decimal n).takeWhile isdigit = decimal n := List.takeWhile_eq_self_iff.mpr (isdigit_of_mem_decimal n)
  have hfits : ¬((n : Int) < -2 ^ 31 ∨ 2 ^ 31 ≤ (n : Int)) := by omega
  unfold atoi
  simp only [hspace, hminus, hplus, or_self, if_false, hall, digitsVal_decimal, if_neg hfits]
  rfl

/-- No occurrence starts in lines that do not contain the text. -/
lemma not_prefix_drop_lines {needle : List UInt8} (hcr : 13 ∉ needle) (hlf : 10 ∉ needle)
    {lines : List (List UInt8)} (hlines : ∀ l ∈ lines, ¬needle <:+: l) (post : List UInt8) :
    ∀ j < (lines.flatMap fun l => l ++ crlf).length,
      ¬needle <+: ((lines.flatMap fun l => l ++ crlf) ++ post).drop j := by
  induction lines with
  | nil => exact fun j hj => absurd hj (Nat.not_lt_zero j)
  | cons l lines ih =>
    obtain ⟨hl, hrest⟩ := List.forall_mem_cons.mp hlines
    have hline : ¬needle <:+: l ++ [13] := by
      rw [infix_append_cons_iff hcr]
      rintro (h | h)
      · exact hl h
      · exact hl (List.infix_nil.mp h ▸ List.nil_infix)
    intro j hj
    have hsplit : ((l :: lines).flatMap fun l => l ++ crlf) ++ post =
        (l ++ [13]) ++ 10 :: ((lines.flatMap fun l => l ++ crlf) ++ post) := by
      simp [crlf]
    rw [hsplit]
    by_cases hhere : j ≤ (l ++ [13]).length
    · exact not_prefix_drop_of_not_infix hlf hline hhere
    · -- the search goes on behind the line
      obtain ⟨k, hk⟩ := Nat.exists_eq_add_of_lt (not_le.mp hhere)
      rw [hk, Nat.add_assoc, List.drop_append, List.drop_eq_nil_of_le (by omega), Nat.add_sub_cancel_left,
        List.drop_succ_cons, List.nil_append]
      apply ih hrest
      rw [List.flatMap_cons, List.length_append] at hj
      simp only [List.length_append, List.length_cons, List.length_nil, crlf] at hj hk ⊢
      omega

/-- The length is read from its field when that is the first text of its form. -/
theorem SizedResponse.FieldFirst.statesLength {x : SizedResponse} (hfirst : x.FieldFirst)
    (hint : x.body.length < 2 ^ 31) : StatesLength x.header x.body.length := by
  obtain ⟨before, name, after, hlines, hname, hbefore⟩ := hfirst
  have hdigits : (decimal x.body.length).length ≤ 10 := length_decimal_le (by decide) (by omega)
  have hnamelen : name.length = 16 := by
    rw [← List.length_map tolower, hname]
    decide
  obtain ⟨pre, hpre⟩ : ∃ pre, pre = before.flatMap fun l => l ++ crlf := ⟨_, rfl⟩
  obtain ⟨post, hpost⟩ : ∃ post, post = (after.flatMap fun l => l ++ crlf) ++ crlf := ⟨_, rfl⟩
  have hheader : x.header = pre ++ (name ++ (decimal x.body.length ++ crlf ++ post)) := by
    rw [SizedResponse.header, headerText, hlines, hpre, hpost]
    simp
  have hfind : strcasestr (bytes "content-length: ") x.header = some pre.length := by
    have hneedle : (bytes "content-length: ").map tolower = bytes "content-length: " := by decide
    have hcase : ∀ l : List UInt8, (l ++ crlf).map tolower = l.map tolower ++ crlf := by
      intro l
      rw [List.map_append]
      rfl
    have hlower : pre.map tolower = (before.map fun l => l.map tolower).flatMap fun l => l ++ crlf := by
      rw [hpre, List.map_flatMap, List.flatMap_map]
      simp only [hcase]
    rw [strcasestr, hneedle, hheader, List.map_append, List.map_append, hname, ← List.append_assoc,
      strstr_append, List.length_map]
    rw [hlower, List.append_assoc]
    apply not_prefix_drop_lines (by decide) (by decide)
    intro l hl
    obtain ⟨l', hl', rfl⟩ := List.mem_map.mp hl
    exact hbefore l' hl'
  have hdrop : x.header.drop (pre.length + 16) = decimal x.body.length ++ crlf ++ post := by
    rw [hheader, ← List.append_assoc, ← hnamelen, ← List.length_append, List.drop_left]
  refine ⟨pre.length, (decimal x.body.length).length, hfind, ?_, by omega, ?_⟩
  · rw [hdrop]
    apply strstr_append
    intro j hj
    rw [List.append_assoc]
    exact not_prefix_drop_of_head_notMem 13 [10] _ _ (notMem_decimal _ (by decide)) j hj
  · rw [hdrop, List.append_assoc, List.take_left]
    exact atoi_decimal hint

end VideoCDN.Http
