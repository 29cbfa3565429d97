import VideoCDN.Nameserver.LsaRefinement

/-!
# LSA files

The text of an LSA file, and how `fgets` and `sscanf` take it apart. A line that does not fit
the line buffer is cut, and what is left of it is no complete line, so the parser stops.
-/

namespace VideoCDN.Nameserver

open CString LinkState

/-- A field of a line: no blank, comma or NUL. -/
def IsField (s : List UInt8) : Prop := s ≠ [] ∧ ∀ b ∈ s, b ≠ 0 ∧ b ≠ 44 ∧ isspace b = false

instance (s : List UInt8) : Decidable (IsField s) :=
  have := List.decidableBAll (fun b : UInt8 => b ≠ 0 ∧ b ≠ 44 ∧ isspace b = false) s
  inferInstanceAs (Decidable (s ≠ [] ∧ ∀ b ∈ s, b ≠ 0 ∧ b ≠ 44 ∧ isspace b = false))

/-- A line `<sender> <seq> <n1,...,nk>`. -/
structure LsaLine where
  sender : List UInt8
  seq : Nat
  neighbors : List (List UInt8)
  sender_field : IsField sender
  neighbors_ne : neighbors ≠ []
  neighbors_field : ∀ n ∈ neighbors, IsField n

def LsaLine.csv (l : LsaLine) : List UInt8 := [44].intercalate l.neighbors

def LsaLine.text (l : LsaLine) : List UInt8 := l.sender ++ 32 :: (decimal l.seq ++ 32 :: l.csv)

/-- The announcement of a line. -/
def LsaLine.lsa (l : LsaLine) : Lsa (List UInt8) := ⟨l.sender, l.seq, l.neighbors⟩

/-- The lines, the last one with or without a newline. -/
def IsLsaFile (lines : List LsaLine) (file : List UInt8) : Prop :=
  file = lines.flatMap (fun l => l.text ++ [10]) ∨ file ++ [10] = lines.flatMap fun l => l.text ++ [10]

/-- A text without blanks and NULs. -/
def IsWord (s : List UInt8) : Prop := ∀ b ∈ s, b ≠ 0 ∧ isspace b = false

lemma IsField.isWord {s : List UInt8} (h : IsField s) : IsWord s := fun b hb => ⟨(h.2 b hb).1, (h.2 b hb).2.2⟩

lemma isWord_decimal (n : Nat) : IsWord (decimal n) := fun b hb =>
  have hdigit := isdigit_of_mem_decimal n b hb
  ⟨ne_of_isdigit hdigit (by decide), not_isspace_of_isdigit hdigit⟩

lemma mem_intercalate {sep b : UInt8} {ls : List (List UInt8)} (h : b ∈ [sep].intercalate ls) :
    b = sep ∨ ∃ l ∈ ls, b ∈ l := by
  induction ls with
  | nil => simp at h
  | cons l ls ih =>
    cases ls with
    | nil => exact Or.inr ⟨l, by simp, by simpa using h⟩
    | cons l' ls =>
      rw [List.intercalate_cons_cons, List.append_assoc, List.mem_append, List.mem_append] at h
      rcases h with h | h | h
      · exact Or.inr ⟨l, by simp, h⟩
      · exact Or.inl (List.mem_singleton.mp h)
      · rcases ih h with rfl | ⟨k, hk, hb⟩
        · exact Or.inl rfl
        · exact Or.inr ⟨k, by simp [hk], hb⟩

variable (l : LsaLine)

lemma LsaLine.isWord_csv : IsWord l.csv := by
  intro b hb
  rcases mem_intercalate hb with rfl | ⟨n, hn, hb⟩
  · decide
  · exact (l.neighbors_field n hn).isWord b hb

lemma LsaLine.csv_ne_nil : l.csv ≠ [] := by
  obtain ⟨n, ns, h⟩ := List.exists_cons_of_ne_nil l.neighbors_ne
  have hn := (l.neighbors_field n (by simp [h])).1
  rw [LsaLine.csv, h]
  cases ns with
  | nil => simpa using hn
  | cons n' ns => simp [List.intercalate_cons_cons]

lemma LsaLine.strtok_csv : strtok l.csv = l.neighbors := by
  have hcomma : ∀ n ∈ l.neighbors, (44 : UInt8) ∉ n := fun n hn hmem =>
    ((l.neighbors_field n hn).2 44 hmem).2.1 rfl
  rw [strtok, LsaLine.csv, List.splitOn_intercalate 44 hcomma l.neighbors_ne, List.filter_eq_self]
  intro n hn
  simpa using (l.neighbors_field n hn).1

lemma count_intercalate {sep : UInt8} {ls : List (List UInt8)} (h : ∀ l ∈ ls, sep ∉ l) (hne : ls ≠ []) :
    ([sep].intercalate ls).count sep + 1 = ls.length := by
  induction ls with
  | nil => exact absurd rfl hne
  | cons l ls ih =>
    have hl : l.count sep = 0 := List.count_eq_zero.mpr (h l (by simp))
    cases ls with
    | nil => simp [hl]
    | cons l' ls =>
      have ih := ih (fun k hk => h k (by simp [hk])) (by simp)
      rw [List.intercalate_cons_cons, List.append_assoc, List.count_append, List.count_append, hl]
      simp only [List.count_singleton_self, List.length_cons] at ih ⊢
      omega

lemma LsaLine.count_csv : countCharNum l.csv 44 + 1 = l.neighbors.length :=
  count_intercalate (fun n hn hmem => ((l.neighbors_field n hn).2 44 hmem).2.1 rfl) l.neighbors_ne

/-! ## Conversions -/

lemma scanString_word {w tail : List UInt8} (hw : IsWord w) (hne : w ≠ [])
    (htail : ∀ b ∈ tail.head?, isspace b = true) : scanString (w ++ tail) = (w, tail) := by
  have hdrop : (w ++ tail).dropWhile isspace = w ++ tail := by
    obtain ⟨b, w, rfl⟩ := List.exists_cons_of_ne_nil hne
    rw [List.cons_append, List.dropWhile_cons_of_neg (by simp [(hw b (by simp)).2])]
  have hword : ∀ b ∈ w, (!isspace b) = true := fun b hb => by simp [(hw b hb).2]
  unfold scanString
  simp only [hdrop, List.takeWhile_append_of_pos hword, List.dropWhile_append_of_pos hword]
  cases tail with
  | nil => simp
  | cons b tail =>
    have hb := htail b (by simp)
    simp [hb]

lemma scanString_blank (s : List UInt8) : scanString (32 :: s) = scanString s := by
  have h : isspace 32 = true := by decide
  simp [scanString, h]

lemma scanInt_blank (s : List UInt8) : scanInt (32 :: s) = scanInt s := by
  have h : isspace 32 = true := by decide
  simp [scanInt, h]

/-- A number is read up to the first character that is no digit. -/
lemma scanInt_digits {ds tail : List UInt8} (hds : ∀ b ∈ ds, isdigit b = true) (hne : ds ≠ [])
    (htail : ∀ b ∈ tail.head?, isdigit b = false) :
    scanInt (ds ++ tail) = if 2 ^ 31 ≤ digitsVal ds then none else some (some ((digitsVal ds : Int), tail)) := by
  obtain ⟨b, ds, rfl⟩ := List.exists_cons_of_ne_nil hne
  have hb := hds b (by simp)
  have hminus : b ≠ 45 := ne_of_isdigit hb (by decide)
  have hplus : b ≠ 43 := ne_of_isdigit hb (by decide)
  have hspace := not_isspace_of_isdigit hb
  have hdrop : (b :: ds ++ tail).dropWhile isspace = b :: ds ++ tail := by
    rw [List.cons_append, List.dropWhile_cons_of_neg (by simp [hspace])]
  have htake : (b :: ds ++ tail).takeWhile isdigit = b :: ds := by
    rw [List.takeWhile_append_of_pos hds]
    cases tail with
    | nil => simp
    | cons c tail => simp [htail c (by simp)]
  have hrest : (b :: ds ++ tail).dropWhile isdigit = tail := by
    rw [List.dropWhile_append_of_pos hds]
    cases tail with
    | nil => simp
    | cons c tail => simp [htail c (by simp)]
  have hsign : (b :: ds ++ tail).head? = some b := rfl
  unfold scanInt
  simp only [hdrop, hsign, Option.some.injEq, hminus, hplus, or_self, if_false, htake, hrest,
    reduceCtorEq]
  by_cases hbig : 2 ^ 31 ≤ digitsVal (b :: ds)
  · rw [if_pos hbig, if_pos (Or.inr (by exact_mod_cast hbig))]
  · rw [if_neg hbig, if_neg]
    push Not at hbig ⊢
    exact ⟨by omega, by exact_mod_cast hbig⟩

lemma pow_le_digitsVal {d : UInt8} {ds : List UInt8} (hd : d ≠ 48) (hall : ∀ b ∈ d :: ds, isdigit b = true) :
    10 ^ ds.length ≤ digitsVal (d :: ds) := by
  have hpos : 1 ≤ d.toNat - 48 := by
    have h := hall d (by simp)
    simp only [isdigit, Bool.and_eq_true, decide_eq_true_eq] at h
    have hlo : 48 ≤ d.toNat := UInt8.le_iff_toNat_le.mp h.1
    have hne : d.toNat ≠ 48 := fun heq => hd (UInt8.toNat_inj.mp heq)
    omega
  have hfold : ∀ (ds : List UInt8) (v : Nat),
      10 ^ ds.length * v ≤ ds.foldl (fun v d => 10 * v + (d.toNat - 48)) v := by
    intro ds
    induction ds with
    | nil => simp
    | cons e ds ih =>
      intro v
      have hstep := ih (10 * v + (e.toNat - 48))
      have hle : 10 ^ ds.length * (10 * v) ≤ 10 ^ ds.length * (10 * v + (e.toNat - 48)) :=
        Nat.mul_le_mul_left _ (Nat.le_add_right _ _)
      rw [List.length_cons, Nat.pow_succ, Nat.mul_assoc, List.foldl_cons]
      exact hle.trans hstep
  have h := hfold ds (10 * 0 + (d.toNat - 48))
  unfold digitsVal
  rw [List.foldl_cons]
  calc 10 ^ ds.length = 10 ^ ds.length * 1 := (Nat.mul_one _).symm
    _ ≤ 10 ^ ds.length * (10 * 0 + (d.toNat - 48)) := Nat.mul_le_mul_left _ (by omega)
    _ ≤ _ := h

/-- The end of a line, as `fgets` reads it. -/
def IsLineEnd (tail : List UInt8) : Prop := tail = [] ∨ tail = [10]

lemma IsLineEnd.head {tail : List UInt8} (h : IsLineEnd tail) : ∀ b ∈ tail.head?, isspace b = true := by
  rcases h with rfl | rfl
  · simp
  · simp [isspace]

lemma IsLineEnd.cstr {tail : List UInt8} (h : IsLineEnd tail) : cstr tail = tail := by
  rcases h with rfl | rfl <;> rfl

lemma cstr_word {w : List UInt8} (hw : IsWord w) (s : List UInt8) : cstr (w ++ s) = w ++ cstr s :=
  cstr_append w s fun b hb => (hw b hb).1

lemma cstr_blank (s : List UInt8) : cstr (32 :: s) = 32 :: cstr s := cstr_append [32] s (by decide)

/-- A cut in front of a blank or behind it. -/
lemma head_take_blank {s : List UInt8} {n : Nat} {b : UInt8} (h : b ∈ (cstr ((32 :: s).take n)).head?) : b = 32 := by
  cases n with
  | zero => cases h
  | succ n =>
    rw [List.take_succ_cons, cstr_blank] at h
    exact (Option.some.inj h).symm

/-- Three fields are read when the first and the last fit their buffers and the number is an
`int`. -/
lemma sscanfLine_fields {ip ds w tail : List UInt8} (hip : IsWord ip) (hipne : ip ≠ [])
    (hds : ∀ b ∈ ds, isdigit b = true) (hdsne : ds ≠ []) (hw : IsWord w) (hwne : w ≠ [])
    (htail : IsLineEnd tail) :
    sscanfLine (ip ++ 32 :: (ds ++ 32 :: (w ++ tail))) =
      if maxIpLen ≤ ip.length ∨ 2 ^ 31 ≤ digitsVal ds ∨ maxLineLen ≤ w.length then none
      else some (some (ip, (digitsVal ds : Int), w)) := by
  have hdsword : IsWord ds := fun b hb =>
    ⟨ne_of_isdigit (hds b hb) (by decide), not_isspace_of_isdigit (hds b hb)⟩
  have hcstr : cstr (ip ++ 32 :: (ds ++ 32 :: (w ++ tail))) = ip ++ 32 :: (ds ++ 32 :: (w ++ tail)) := by
    rw [cstr_word hip, cstr_blank, cstr_word hdsword, cstr_blank, cstr_word hw, htail.cstr]
  have hblank : ∀ (s : List UInt8), ∀ b ∈ (32 :: s : List UInt8).head?, isspace b = true := by
    simp [isspace]
  have hnodigit : ∀ (s : List UInt8), ∀ b ∈ (32 :: s : List UInt8).head?, isdigit b = false := by
    simp [isdigit]
  unfold sscanfLine
  simp only [hcstr, scanString_word hip hipne (hblank _), if_neg hipne, scanInt_blank,
    scanInt_digits hds hdsne (hnodigit _)]
  by_cases h1 : maxIpLen ≤ ip.length
  · simp [h1]
  · by_cases h2 : 2 ^ 31 ≤ digitsVal ds
    · rw [if_pos h2, if_pos (Or.inr (Or.inl h2))]
      simp [h1]
    · have hword := scanString_word hw hwne htail.head
      rw [if_neg h2]
      by_cases h3 : maxLineLen ≤ w.length
      · rw [if_pos (Or.inr (Or.inr h3))]
        simp [h1, h3, scanString_blank, hword, hwne]
      · rw [if_neg (not_or.mpr ⟨h1, not_or.mpr ⟨h2, h3⟩⟩)]
        simp [h1, h3, scanString_blank, hword, hwne]

lemma sscanfLine_long {ip s : List UInt8} (hip : IsWord ip) (hlen : maxIpLen ≤ ip.length)
    (hs : ∀ b ∈ (cstr s).head?, isspace b = true) : sscanfLine (ip ++ s) = none := by
  have hne : ip ≠ [] := by
    rintro rfl
    simp [maxIpLen] at hlen
  unfold sscanfLine
  simp only [cstr_word hip, scanString_word hip hne hs]
  rw [if_neg hne, if_pos hlen]
  rfl

lemma sscanfLine_overflow {ip ds s : List UInt8} (hip : IsWord ip) (hipne : ip ≠ [])
    (hds : ∀ b ∈ ds, isdigit b = true) (hbig : 2 ^ 31 ≤ digitsVal ds)
    (hs : ∀ b ∈ (cstr s).head?, isdigit b = false) : sscanfLine (ip ++ 32 :: (ds ++ s)) = none := by
  have hdsne : ds ≠ [] := by
    rintro rfl
    simp [digitsVal] at hbig
  have hdsword : IsWord ds := fun b hb =>
    ⟨ne_of_isdigit (hds b hb) (by decide), not_isspace_of_isdigit (hds b hb)⟩
  have hblank : ∀ b ∈ (32 :: (ds ++ cstr s) : List UInt8).head?, isspace b = true := by
    simp [isspace]
  unfold sscanfLine
  simp only [cstr_word hip, cstr_blank, cstr_word hdsword, scanString_word hip hipne hblank, if_neg hipne,
    scanInt_blank, scanInt_digits hds hdsne hs]
  rw [if_pos hbig]
  by_cases h : maxIpLen ≤ ip.length <;> simp [h]

/-- What is left of a cut line is at most one field. -/
lemma sscanfLine_word {w tail : List UInt8} (hw : IsWord w) (htail : IsLineEnd tail) :
    sscanfLine (w ++ tail) = none ∨ sscanfLine (w ++ tail) = some none := by
  unfold sscanfLine
  simp only [cstr_word hw, htail.cstr]
  by_cases hne : w = []
  · right
    subst hne
    rcases htail with rfl | rfl <;> rfl
  · rw [scanString_word hw hne htail.head]
    by_cases hlen : maxIpLen ≤ w.length
    · left
      simp [hne, hlen]
    · right
      rcases htail with rfl | rfl <;> simp [hne, hlen] <;> rfl

/-! ## Lines -/

lemma fgetsLines_short {w : List UInt8} (hw : (10 : UInt8) ∉ w) (cur : List UInt8)
    (hlen : cur.length + w.length + 1 < maxLineLen) (rest : List UInt8) :
    fgetsLines cur (w ++ 10 :: rest) = (cur ++ w ++ [10]) :: fgetsLines [] rest := by
  induction w generalizing cur with
  | nil => simp [fgetsLines]
  | cons b w ih =>
    have hb : b ≠ 10 := fun h => hw (by simp [h])
    have hcut : ¬(b = 10 ∨ cur.length + 2 = maxLineLen) := by
      rintro (h | h)
      · exact hb h
      · simp only [List.length_cons] at hlen
        omega
    rw [List.cons_append, fgetsLines, if_neg hcut, ih (fun h => hw (by simp [h])) (cur ++ [b])]
    · simp
    · simp only [List.length_append, List.length_cons, List.length_nil] at hlen ⊢
      omega

lemma fgetsLines_last {w : List UInt8} (hw : (10 : UInt8) ∉ w) (cur : List UInt8) (hne : cur ++ w ≠ [])
    (hlen : cur.length + w.length < maxLineLen) : fgetsLines cur w = [cur ++ w] := by
  induction w generalizing cur with
  | nil =>
    rw [List.append_nil] at hne
    simp [fgetsLines, hne]
  | cons b w ih =>
    have hb : b ≠ 10 := fun h => hw (by simp [h])
    simp only [List.length_cons] at hlen
    rw [fgetsLines]
    by_cases hfull : cur.length + 2 = maxLineLen
    · obtain rfl : w = [] := List.length_eq_zero_iff.mp (by omega)
      rw [if_pos (Or.inr hfull)]
      simp [fgetsLines]
    · rw [if_neg (not_or.mpr ⟨hb, hfull⟩), ih (fun h => hw (by simp [h])) (cur ++ [b]) (by simp)]
      · simp
      · simp only [List.length_append, List.length_cons, List.length_nil]
        omega

lemma fgetsLines_cut {w : List UInt8} (hw : (10 : UInt8) ∉ w) (cur : List UInt8)
    (hlen : cur.length + w.length + 1 = maxLineLen) (hne : w ≠ []) (rest : List UInt8) :
    fgetsLines cur (w ++ rest) = (cur ++ w) :: fgetsLines [] rest := by
  induction w generalizing cur with
  | nil => exact absurd rfl hne
  | cons b w ih =>
    have hb : b ≠ 10 := fun h => hw (by simp [h])
    rw [List.cons_append, fgetsLines]
    by_cases hnil : w = []
    · subst hnil
      rw [if_pos (Or.inr (by simpa using hlen))]
      simp
    · have hcut : ¬(b = 10 ∨ cur.length + 2 = maxLineLen) := by
        rintro (h | h)
        · exact hb h
        · have := List.length_pos_of_ne_nil hnil
          simp only [List.length_cons] at hlen
          omega
      rw [if_neg hcut, ih (fun h => hw (by simp [h])) (cur ++ [b]) _ hnil]
      · simp
      · simp only [List.length_append, List.length_cons, List.length_nil] at hlen ⊢
        omega

lemma IsWord.newline_notMem {w : List UInt8} (hw : IsWord w) : (10 : UInt8) ∉ w := fun h =>
  absurd (hw 10 h).2 (by decide)

/-- What follows a line in a file. -/
def IsRest (x : List UInt8) : Prop := x = [] ∨ ∃ rest, x = 10 :: rest

/-- The first piece of a line is cut from it, with or without its newline. -/
lemma fgetsLines_first {w x : List UInt8} (hw : (10 : UInt8) ∉ w) (hx : IsRest x) (hne : w ++ x ≠ []) :
    ∃ k tail more, fgetsLines [] (w ++ x) = (w.take k ++ tail) :: more ∧ IsLineEnd tail := by
  by_cases hlen : w.length + 1 < maxLineLen
  · rcases hx with rfl | ⟨rest, rfl⟩
    · rw [List.append_nil] at hne ⊢
      have hlast := fgetsLines_last hw [] (by simpa using hne) (by simp; omega)
      exact ⟨w.length, [], [], by rw [hlast]; simp, Or.inl rfl⟩
    · have hshort := fgetsLines_short hw [] (by simpa using hlen) rest
      exact ⟨w.length, [10], fgetsLines [] rest, by rw [hshort]; simp, Or.inr rfl⟩
  · have hsplit : w ++ x = w.take (maxLineLen - 1) ++ (w.drop (maxLineLen - 1) ++ x) := by
      rw [← List.append_assoc, List.take_append_drop]
    have htake : (w.take (maxLineLen - 1)).length = maxLineLen - 1 := by
      rw [List.length_take]
      omega
    have hcut := fgetsLines_cut (fun h => hw (List.mem_of_mem_take h)) []
      (by rw [htake]; rfl) (List.ne_nil_of_length_pos (by rw [htake]; decide)) (w.drop (maxLineLen - 1) ++ x)
    exact ⟨maxLineLen - 1, [], fgetsLines [] (w.drop (maxLineLen - 1) ++ x), by rw [hsplit, hcut]; simp,
      Or.inl rfl⟩

variable (junk : Junk)

/-- A leftover of a line is rejected, or overflows. -/
lemma parseLsaLines_leftover {w x : List UInt8} (hw : IsWord w) (hx : IsRest x) (hne : w ++ x ≠ []) (t t' : Topo) :
    parseLsaLines junk (fgetsLines [] (w ++ x)) t ≠ some (0, t') := by
  obtain ⟨k, tail, more, hfirst, htail⟩ := fgetsLines_first hw.newline_notMem hx hne
  have hword : IsWord (w.take k) := fun b hb => hw b (List.mem_of_mem_take hb)
  rw [hfirst, parseLsaLines]
  rcases sscanfLine_word hword htail with h | h <;> simp [h]

lemma LsaLine.sscanf_text {tail : List UInt8} (htail : IsLineEnd tail) :
    sscanfLine (l.text ++ tail) =
      if maxIpLen ≤ l.sender.length ∨ 2 ^ 31 ≤ l.seq ∨ maxLineLen ≤ l.csv.length then none
      else some (some (l.sender, (l.seq : Int), l.csv)) := by
  have h := sscanfLine_fields l.sender_field.isWord l.sender_field.1 (isdigit_of_mem_decimal l.seq)
    (decimal_ne_nil l.seq) l.isWord_csv l.csv_ne_nil htail
  rw [digitsVal_decimal] at h
  rw [← h]
  simp [LsaLine.text]

lemma LsaLine.newline_notMem_text : (10 : UInt8) ∉ l.text := by
  have h1 := l.sender_field.isWord.newline_notMem
  have h2 := (isWord_decimal l.seq).newline_notMem
  have h3 := l.isWord_csv.newline_notMem
  simp [LsaLine.text, h1, h2, h3]

lemma two_pow_le_digitsVal_take {n m : Nat} (hlen : 11 ≤ (decimal n).length) (hm : 11 ≤ m) :
    2 ^ 31 ≤ digitsVal ((decimal n).take m) := by
  have hn : n ≠ 0 := by
    rintro rfl
    exact absurd hlen (by decide)
  have hhead := decimal_head_ne_zero n hn
  obtain ⟨d, ds, hds⟩ := List.exists_cons_of_ne_nil (decimal_ne_nil n)
  obtain ⟨m, rfl⟩ : ∃ k, m = k + 1 := ⟨m - 1, by omega⟩
  rw [hds] at hhead hlen ⊢
  rw [List.take_succ_cons]
  have hd : d ≠ 48 := by simpa using hhead
  have hall : ∀ b ∈ d :: ds.take m, isdigit b = true := by
    intro b hb
    refine isdigit_of_mem_decimal n b ?_
    rw [hds]
    rcases List.mem_cons.mp hb with rfl | hb
    · simp
    · exact List.mem_cons_of_mem _ (List.mem_of_mem_take hb)
  have hpow := pow_le_digitsVal hd hall
  have hten : 10 ^ 10 ≤ 10 ^ (ds.take m).length := by
    apply Nat.pow_le_pow_right (by decide)
    simp only [List.length_take, List.length_cons] at hlen ⊢
    omega
  exact (show 2 ^ 31 ≤ 10 ^ 10 by decide).trans (hten.trans hpow)

/-- A cut of a line is rejected, overflows, or reads fields of which the last is cut. -/
lemma LsaLine.sscanf_cut :
    sscanfLine (l.text.take (maxLineLen - 1)) = none ∨
      ∃ k, l.text.drop (maxLineLen - 1) = l.csv.drop k := by
  have hword := l.sender_field.isWord
  by_cases hsender : maxIpLen ≤ l.sender.length
  · left
    rw [LsaLine.text, List.take_append]
    refine sscanfLine_long (fun b hb => hword b (List.mem_of_mem_take hb)) ?_ ?_
    · rw [List.length_take]
      exact le_min (by decide) hsender
    · intro b hb
      obtain rfl := head_take_blank hb
      decide
  · obtain ⟨m, hm⟩ : ∃ m, maxLineLen - 1 - l.sender.length = m + 1 ∧ 4059 ≤ m :=
      ⟨maxLineLen - 2 - l.sender.length, by simp [maxLineLen, maxIpLen] at hsender ⊢; omega,
        by simp [maxLineLen, maxIpLen] at hsender ⊢; omega⟩
    have htake : l.text.take (maxLineLen - 1) =
        l.sender ++ 32 :: ((decimal l.seq).take m ++ (32 :: l.csv).take (m - (decimal l.seq).length)) := by
      rw [LsaLine.text, List.take_append, List.take_of_length_le (by simp [maxLineLen, maxIpLen] at hsender ⊢; omega),
        hm.1, List.take_succ_cons, List.take_append]
    by_cases hdigits : 11 ≤ (decimal l.seq).length
    · left
      rw [htake]
      refine sscanfLine_overflow hword l.sender_field.1
        (fun b hb => isdigit_of_mem_decimal l.seq b (List.mem_of_mem_take hb))
        (two_pow_le_digitsVal_take hdigits (by omega)) ?_
      intro b hb
      obtain rfl := head_take_blank hb
      decide
    · right
      refine ⟨maxLineLen - 1 - (l.sender.length + 1 + (decimal l.seq).length + 1), ?_⟩
      have hpre : l.text = (l.sender ++ 32 :: (decimal l.seq ++ [32])) ++ l.csv := by simp [LsaLine.text]
      have hprelen : (l.sender ++ 32 :: (decimal l.seq ++ [32])).length =
          l.sender.length + 1 + (decimal l.seq).length + 1 := by simp; omega
      rw [hpre, List.drop_append, List.drop_of_length_le (by
        rw [hprelen]
        simp [maxLineLen, maxIpLen] at hsender ⊢
        omega), hprelen, List.nil_append]

lemma isLsaFile_cons {lines : List LsaLine} {file : List UInt8} (h : IsLsaFile (l :: lines) file) :
    (∃ rest, file = l.text ++ 10 :: rest ∧ IsLsaFile lines rest) ∨ (lines = [] ∧ file = l.text) := by
  rcases h with h | h
  · left
    refine ⟨lines.flatMap fun l => l.text ++ [10], ?_, Or.inl rfl⟩
    rw [h, List.flatMap_cons]
    simp
  · rw [List.flatMap_cons] at h
    by_cases hlines : lines = []
    · right
      subst hlines
      exact ⟨rfl, by simpa using h⟩
    · left
      obtain ⟨init, last, hinit⟩ : ∃ init last, lines = init ++ [last] :=
        ⟨_, _, (List.dropLast_append_getLast hlines).symm⟩
      refine ⟨init.flatMap (fun l => l.text ++ [10]) ++ last.text, ?_, Or.inr ?_⟩
      · rw [hinit, List.flatMap_append] at h
        simp only [List.flatMap_cons, List.flatMap_nil, List.append_nil, ← List.append_assoc,
          List.append_left_inj] at h
        rw [h]
        simp
      · rw [hinit, List.flatMap_append]
        simp

lemma IsLsaFile.nil_eq {file : List UInt8} (h : IsLsaFile [] file) : file = [] := by
  rcases h with h | h
  · simpa using h
  · simp at h

lemma parseLsaLines_fields {line ip neighbors : List UInt8} {seqNum : Int}
    (h : sscanfLine line = some (some (ip, seqNum, neighbors))) (lines : List (List UInt8)) (t : Topo) :
    parseLsaLines junk (line :: lines) t =
      (updateNode junk ip seqNum neighbors t).bind (parseLsaLines junk lines) := by
  rw [parseLsaLines, h]
  rfl

/-- The first line of a file is short enough to be read in one piece, and `rest` follows it. -/
def ReadWhole (file rest : List UInt8) : Prop :=
  file = l.text ++ 10 :: rest ∧ l.text.length + 1 < maxLineLen ∨
    file = l.text ∧ rest = [] ∧ l.text.length < maxLineLen

variable {l} in
lemma ReadWhole.pieces {file rest : List UInt8} (h : ReadWhole l file rest) :
    ∃ tail, IsLineEnd tail ∧ fgetsLines [] file = (l.text ++ tail) :: fgetsLines [] rest := by
  rcases h with ⟨rfl, hlen⟩ | ⟨rfl, rfl, hlen⟩
  · have hpieces := fgetsLines_short l.newline_notMem_text [] (by simpa using hlen) rest
    exact ⟨[10], Or.inr rfl, by simpa using hpieces⟩
  · have hne : l.text ≠ [] := by simp [LsaLine.text]
    have hpieces := fgetsLines_last l.newline_notMem_text [] (by simpa using hne) (by simpa using hlen)
    exact ⟨[], Or.inl rfl, by simpa [fgetsLines] using hpieces⟩

variable {l} in
lemma ReadWhole.csv {file rest : List UInt8} (h : ReadWhole l file rest) : l.csv.length < maxLineLen := by
  have hlen : l.text.length < maxLineLen := by
    rcases h with ⟨-, hlen⟩ | ⟨-, -, hlen⟩
    · exact (Nat.lt_succ_self _).trans hlen
    · exact hlen
  simp only [LsaLine.text, List.length_append, List.length_cons] at hlen
  omega

/-- In a file whose lines all are parsed, the first piece is the first line, and what follows is a file of the
others. -/
lemma parseLsaLines_first {lines : List LsaLine} {file : List UInt8} (hfile : IsLsaFile (l :: lines) file)
    {t t' : Topo} (h : parseLsaLines junk (fgetsLines [] file) t = some (0, t')) :
    ∃ piece rest, fgetsLines [] file = piece :: fgetsLines [] rest ∧ IsLsaFile lines rest ∧
      sscanfLine piece = some (some (l.sender, (l.seq : Int), l.csv)) ∧ ReadWhole l file rest ∧
      l.sender.length < maxIpLen ∧ l.seq < 2 ^ 31 := by
  -- a piece that is the whole line
  have hwhole : ∀ {rest}, IsLsaFile lines rest → ReadWhole l file rest → ∃ piece rest,
      fgetsLines [] file = piece :: fgetsLines [] rest ∧ IsLsaFile lines rest ∧
      sscanfLine piece = some (some (l.sender, (l.seq : Int), l.csv)) ∧ ReadWhole l file rest ∧
      l.sender.length < maxIpLen ∧ l.seq < 2 ^ 31 := by
    intro rest hrest hread
    obtain ⟨tail, htail, hpieces⟩ := hread.pieces
    rw [hpieces, parseLsaLines, l.sscanf_text htail] at h
    have hscan := l.sscanf_text htail
    split at h
    · simp at h
    · rename_i hfits
      rw [if_neg hfits] at hscan
      obtain ⟨hsender, hfits⟩ := not_or.mp hfits
      exact ⟨_, rest, hpieces, hrest, hscan, hread, Nat.not_le.mp hsender, Nat.not_le.mp (not_or.mp hfits).1⟩
  have hnewline := l.newline_notMem_text
  -- a line that is cut leaves a piece that is no line
  have hcut : ∀ x, IsRest x → l.text.drop (maxLineLen - 1) ++ x ≠ [] → maxLineLen ≤ l.text.length + 1 →
      parseLsaLines junk (fgetsLines [] (l.text ++ x)) t ≠ some (0, t') := by
    intro x hx hleft hlen h
    have htake : (l.text.take (maxLineLen - 1)).length = maxLineLen - 1 := by
      rw [List.length_take]
      omega
    have hpieces := fgetsLines_cut (fun h => hnewline (List.mem_of_mem_take h)) []
      (by rw [htake]; rfl) (List.ne_nil_of_length_pos (by rw [htake]; decide))
      (l.text.drop (maxLineLen - 1) ++ x)
    rw [← List.append_assoc, List.take_append_drop, List.nil_append] at hpieces
    rw [hpieces, parseLsaLines] at h
    rcases l.sscanf_cut with hnone | ⟨k, hk⟩
    · simp [hnone] at h
    · simp only [Option.bind_eq_bind, Option.bind_eq_some_iff] at h
      obtain ⟨fields, -, h⟩ := h
      cases fields with
      | none => simp at h
      | some fields =>
        obtain ⟨t₁, -, h⟩ := Option.bind_eq_some_iff.mp h
        have hword : IsWord (l.text.drop (maxLineLen - 1)) := by
          rw [hk]
          exact fun b hb => l.isWord_csv b (List.mem_of_mem_drop hb)
        exact parseLsaLines_leftover junk hword hx hleft t₁ t' h
  rcases isLsaFile_cons l hfile with ⟨rest, hcons, hrest⟩ | ⟨rfl, hlast⟩
  · by_cases hlen : l.text.length + 1 < maxLineLen
    · exact hwhole hrest (Or.inl ⟨hcons, hlen⟩)
    · rw [hcons] at h
      exact absurd h (hcut _ (Or.inr ⟨rest, rfl⟩) (by simp) (by omega))
  · by_cases hlen : l.text.length < maxLineLen
    · exact hwhole (Or.inl rfl) (Or.inr ⟨hlast, rfl, hlen⟩)
    · have hleft : l.text.drop (maxLineLen - 1) ≠ [] := by
        rw [Ne, List.drop_eq_nil_iff]
        have : 0 < maxLineLen := by decide
        omega
      rw [hlast] at h
      refine absurd ?_ (hcut [] (Or.inl rfl) (by simpa using hleft) (by omega))
      simpa using h

/-- A file whose lines all are parsed was read line by line. -/
lemma parseLsaLines_cons {lines : List LsaLine} {file : List UInt8} (hfile : IsLsaFile (l :: lines) file)
    {t t' : Topo} (h : parseLsaLines junk (fgetsLines [] file) t = some (0, t')) :
    ∃ rest t₁, IsLsaFile lines rest ∧ updateNode junk l.sender l.seq l.csv t = some t₁ ∧
      parseLsaLines junk (fgetsLines [] rest) t₁ = some (0, t') := by
  obtain ⟨piece, rest, hpieces, hrest, hsscanf, -⟩ := parseLsaLines_first l junk hfile h
  rw [hpieces, parseLsaLines_fields junk hsscanf] at h
  obtain ⟨t₁, hupdate, h⟩ := Option.bind_eq_some_iff.mp h
  exact ⟨rest, t₁, hrest, hupdate, h⟩

/-- A parsed file takes the represented link state through its announcements. -/
theorem parseLsaLines_refines (hjunk : ∀ a, junk.neighborNum a = 0) {lines : List LsaLine} {file : List UInt8}
    (hfile : IsLsaFile lines file) {t t' : Topo} {s : LinkState.State (List UInt8)} (R : Refines t s)
    (h : parseLsaLines junk (fgetsLines [] file) t = some (0, t')) :
    Refines t' ((lines.map LsaLine.lsa).foldl State.install s) := by
  induction lines generalizing file t s with
  | nil =>
    rw [hfile.nil_eq] at h
    simp only [fgetsLines, if_true, parseLsaLines, Option.some.injEq, Prod.mk.injEq, true_and] at h
    rw [← h]
    exact R
  | cons l lines ih =>
    obtain ⟨rest, t₁, hrest, hupdate, h⟩ := parseLsaLines_cons l junk hfile h
    have R₁ : Refines t₁ (s.install l.lsa) :=
      updateNode_refines junk hjunk R l.strtok_csv l.count_csv hupdate
    exact ih hrest R₁ h

end VideoCDN.Nameserver
