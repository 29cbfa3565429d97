import VideoCDN.Http.Fields
import VideoCDN.Http.Reading

/-!
# The tokens of a line

A printable line is the text of its tokens, and what the grammar reads of a line, with the blanks it
skips, is the text of the tokens it took.
-/

namespace VideoCDN.Http

open CString

/-! ## The lexer on a line -/

lemma lexOne_length_le (b : UInt8) (bs : List UInt8) : (lexOne b bs).2.length ≤ bs.length := by
  have hdrop : ∀ s : List UInt8, (s.dropWhile isBlank).length ≤ s.length := fun s =>
    (List.dropWhile_suffix isBlank).length_le
  have htail : bs.tail.length ≤ bs.length := by
    rw [List.length_tail]
    omega
  unfold lexOne
  dsimp only
  split_ifs
  · exact htail
  · exact (hdrop _).trans htail
  · exact hdrop bs
  · exact hdrop bs
  all_goals exact le_rfl

lemma lexFuel_eq {fuel : Nat} {input : List UInt8} (h : input.length ≤ fuel) : lexFuel fuel input = lex input := by
  have hany : ∀ (n m : Nat) (input : List UInt8), input.length ≤ n → input.length ≤ m →
      lexFuel n input = lexFuel m input := by
    intro n
    induction n with
    | zero =>
      intro m input hn hm
      obtain rfl := List.eq_nil_of_length_eq_zero (Nat.le_zero.mp hn)
      cases m <;> rfl
    | succ n ih =>
      intro m input hn hm
      cases input with
      | nil => cases m <;> rfl
      | cons b bs =>
        cases m with
        | zero => simp at hm
        | succ m =>
          have hlen := lexOne_length_le b bs
          rw [List.length_cons] at hn hm
          rw [lexFuel, lexFuel, ih m _ (by omega) (by omega)]
  exact hany _ _ input h le_rfl

lemma lex_cons (b : UInt8) (bs : List UInt8) : lex (b :: bs) = (lexOne b bs).1.toList ++ lex (lexOne b bs).2 := by
  have hlen := lexOne_length_le b bs
  rw [lex, List.length_cons, lexFuel, lexFuel_eq hlen]

/-- The bytes a token stands for; those of a continued line are not kept. -/
def Token.text : Token → List UInt8
  | .crlf => [13, 10]
  | .backslash c => [c]
  | .digit i => [48 + i]
  | .dot => [46]
  | .tokenChar c => [c]
  | .lws => [13, 10]
  | .colon => [58]
  | .separators c => [c]
  | .sp c => [c]
  | .ws s => s

/-- A token inside a line. -/
def Token.InLine (t : Token) : Prop := t ≠ .crlf ∧ t ≠ .lws

/-- No blank follows. -/
def NoBlank (tail : List UInt8) : Prop := ∀ b ∈ tail.head?, isBlank b = false

lemma noBlank_nil : NoBlank [] := fun b hb => by cases hb

lemma takeWhile_noBlank (bs : List UInt8) {tail : List UInt8} (h : NoBlank tail) :
    (bs ++ tail).takeWhile isBlank = bs.takeWhile isBlank ∧
      (bs ++ tail).dropWhile isBlank = bs.dropWhile isBlank ++ tail := by
  induction bs with
  | nil =>
    cases tail with
    | nil => exact ⟨rfl, rfl⟩
    | cons b tail =>
      have hb : isBlank b = false := h b rfl
      simp [hb]
  | cons b bs ih =>
    by_cases hb : isBlank b = true
    · simp [hb, ih.1, ih.2]
    · simp [hb]

/-- A printable byte starts a token inside the line. -/
lemma lexOne_printable {b : UInt8} (hb : isPrintable b = true) (bs : List UInt8) {tail : List UInt8}
    (htail : NoBlank tail) :
    ∃ t, t.InLine ∧ (lexOne b bs).1 = some t ∧ t.text ++ (lexOne b bs).2 = b :: bs ∧
      lexOne b (bs ++ tail) = (some t, (lexOne b bs).2 ++ tail) := by
  have h13 : b ≠ 13 := by
    rintro rfl
    exact absurd hb (by decide)
  obtain ⟨htake, hdrop⟩ := takeWhile_noBlank bs htail
  have hno : ∀ s : List UInt8, ¬(b = 13 ∧ s.head? = some 10) := fun s h => h13 h.1
  unfold lexOne
  dsimp only
  rw [if_neg (hno _), if_neg (hno _), htake, hdrop]
  by_cases hblank : isBlank b = true
  · rw [if_pos hblank, if_pos hblank]
    by_cases hsp : b :: bs.takeWhile isBlank = [32]
    · rw [if_pos hsp]
      obtain ⟨rfl, hnil⟩ := List.cons.inj hsp
      refine ⟨.sp 32, ⟨by simp, by simp⟩, rfl, ?_, rfl⟩
      have hsplit := List.takeWhile_append_dropWhile (p := isBlank) (l := bs)
      rw [hnil, List.nil_append] at hsplit
      change 32 :: bs.dropWhile isBlank = 32 :: bs
      rw [hsplit]
    · rw [if_neg hsp]
      refine ⟨.ws (b :: bs.takeWhile isBlank), ⟨by simp, by simp⟩, rfl, ?_, rfl⟩
      rw [Token.text, List.cons_append, List.takeWhile_append_dropWhile]
  · rw [if_neg hblank, if_neg hblank]
    split_ifs with hslash hdigit hdot hcolon hsep htoken
    · exact ⟨.backslash b, ⟨by simp, by simp⟩, rfl, rfl, rfl⟩
    · have hback : 48 + (b - 48) = b := by rw [UInt8.add_comm, UInt8.sub_add_cancel]
      refine ⟨.digit (b - 48), ⟨by simp, by simp⟩, rfl, ?_, rfl⟩
      rw [Token.text, hback, List.singleton_append]
    · subst hdot
      exact ⟨.dot, ⟨by simp, by simp⟩, rfl, rfl, rfl⟩
    · subst hcolon
      exact ⟨.colon, ⟨by simp, by simp⟩, rfl, rfl, rfl⟩
    · exact ⟨.separators b, ⟨by simp, by simp⟩, rfl, rfl, rfl⟩
    · exact ⟨.tokenChar b, ⟨by simp, by simp⟩, rfl, rfl, rfl⟩
    · refine absurd ?_ htoken
      have h9 : b ≠ 9 := by
        rintro rfl
        exact hblank (by decide)
      simp only [isPrintable, h9, decide_false, Bool.false_or, Bool.and_eq_true, decide_eq_true_eq] at hb
      simp only [isTokenChar, Bool.and_eq_true, decide_eq_true_eq]
      exact ⟨⟨hb.1, UInt8.lt_of_le_of_lt hb.2 (by decide)⟩, hsep⟩

/-- The tokens of a printable line, before anything that does not start with a blank. -/
lemma lex_printable {l : List UInt8} (hl : ∀ b ∈ l, isPrintable b = true) :
    (∀ t ∈ lex l, t.InLine) ∧ (lex l).flatMap Token.text = l ∧
      ∀ tail, NoBlank tail → lex (l ++ tail) = lex l ++ lex tail := by
  obtain ⟨n, hn⟩ : ∃ n, l.length = n := ⟨_, rfl⟩
  induction n using Nat.strong_induction_on generalizing l with
  | _ n ih =>
    cases l with
    | nil => exact ⟨fun t ht => absurd ht List.not_mem_nil, rfl, fun tail _ => rfl⟩
    | cons b bs =>
      have hb := hl b List.mem_cons_self
      obtain ⟨t, hline, htoken, htext, -⟩ := lexOne_printable hb bs noBlank_nil
      have hlen := lexOne_length_le b bs
      have hrest : ∀ c ∈ (lexOne b bs).2, isPrintable c = true := by
        intro c hc
        apply hl c
        rw [← htext]
        exact List.mem_append_right _ hc
      obtain ⟨hin, hflat, happend⟩ := ih (lexOne b bs).2.length (by rw [← hn, List.length_cons]; omega) hrest rfl
      refine ⟨?_, ?_, fun tail htail => ?_⟩
      · rw [lex_cons, htoken]
        intro u hu
        rcases List.mem_append.mp hu with hu | hu
        · obtain rfl : u = t := by simpa using hu
          exact hline
        · exact hin u hu
      · rw [lex_cons, htoken, List.flatMap_append, hflat]
        simpa using htext
      · obtain ⟨t', -, htoken', -, hlex⟩ := lexOne_printable hb bs htail
        obtain rfl := Option.some.inj (htoken.symm.trans htoken')
        rw [List.cons_append, lex_cons, hlex, happend tail htail, lex_cons, htoken]
        simp

lemma lex_break (bs : List UInt8) :
    lex (13 :: 10 :: bs) = if bs.takeWhile isBlank = [] then .crlf :: lex bs
      else .lws :: lex (bs.dropWhile isBlank) := by
  rw [lex_cons]
  by_cases h : bs.takeWhile isBlank = [] <;> simp [lexOne, h]

/-! ## What the tokens stand for -/

lemma isPrintable_of_isBlank {b : UInt8} (h : isBlank b = true) : isPrintable b = true := by
  simp only [isBlank, Bool.or_eq_true, decide_eq_true_eq] at h
  rcases h with rfl | rfl <;> decide

lemma isPrintable_of_isTokenChar {b : UInt8} (h : isTokenChar b = true) : isPrintable b = true := by
  simp only [isTokenChar, Bool.and_eq_true, decide_eq_true_eq] at h
  simp only [isPrintable, Bool.or_eq_true, Bool.and_eq_true, decide_eq_true_eq]
  have hlt : b.toNat < 127 := UInt8.lt_iff_toNat_lt.mp h.1.2
  exact Or.inr ⟨h.1.1, UInt8.le_iff_toNat_le.mpr (Nat.le_of_lt_succ hlt)⟩

lemma isPrintable_of_isdigit {b : UInt8} (h : isdigit b = true) : isPrintable b = true := by
  simp only [isdigit, Bool.and_eq_true, decide_eq_true_eq] at h
  simp only [isPrintable, Bool.or_eq_true, Bool.and_eq_true, decide_eq_true_eq]
  exact Or.inr ⟨UInt8.le_trans (by decide) h.1, UInt8.le_trans h.2 (by decide)⟩

/-- A byte of a name. -/
def IsNameByte (b : UInt8) : Prop := isPrintable b = true ∧ isBlank b = false ∧ b ≠ 58

/-- A byte of a class without blanks is no blank. -/
lemma isBlank_eq_false_of_class {p : UInt8 → Bool} (hspace : p 32 = false) (htab : p 9 = false) {b : UInt8}
    (h : p b = true) : isBlank b = false := by
  rw [Bool.eq_false_iff]
  intro hblank
  simp only [isBlank, Bool.or_eq_true, decide_eq_true_eq] at hblank
  rcases hblank with rfl | rfl
  · rw [hspace] at h
    cases h
  · rw [htab] at h
    cases h

lemma isNameByte_of_isTokenChar {b : UInt8} (h : isTokenChar b = true) : IsNameByte b := by
  refine ⟨isPrintable_of_isTokenChar h, isBlank_eq_false_of_class (by decide) (by decide) h, ?_⟩
  rintro rfl
  exact absurd h (by decide)

lemma isNameByte_of_isdigit {b : UInt8} (h : isdigit b = true) : IsNameByte b :=
  ⟨isPrintable_of_isdigit h, isBlank_eq_false_of_class (by decide) (by decide) h, ne_of_isdigit h (by decide)⟩

/-- A token of the lexer: no separator is a blank. -/
def Token.Lexed (t : Token) : Prop := t.IsValid ∧ ∀ c, t = .separators c → isBlank c = false

lemma lexOne_separators (b : UInt8) (bs : List UInt8) {c : UInt8}
    (h : (lexOne b bs).1 = some (.separators c)) : isBlank c = false := by
  unfold lexOne at h
  dsimp only at h
  split_ifs at h with hcrlf hrun hblank hsp hslash hdigit hdot hcolon hsep htoken
  all_goals cases h
  simpa using hblank

lemma lex_lexed (input : List UInt8) : ∀ t ∈ lex input, t.Lexed := by
  apply lex_all
  intro b bs t ht
  refine ⟨lexOne_valid b bs t ht, ?_⟩
  rintro c rfl
  exact lexOne_separators b bs ht

lemma Token.Lexed.token {t : Token} (ht : t.Lexed) {c : UInt8} (h : allowedCharForToken t = some c) :
    IsNameByte c ∧ t.InLine ∧ t.text = [c] := by
  obtain ⟨ht, -⟩ := ht
  cases t with
  | tokenChar c' =>
    cases h
    exact ⟨isNameByte_of_isTokenChar ht, ⟨by simp, by simp⟩, rfl⟩
  | digit i =>
    cases h
    exact ⟨isNameByte_of_isdigit ht, ⟨by simp, by simp⟩, rfl⟩
  | dot =>
    cases h
    exact ⟨isNameByte_of_isTokenChar (by decide), ⟨by simp, by simp⟩, rfl⟩
  | _ => cases h

lemma Token.Lexed.text {t : Token} (ht : t.Lexed) {c : UInt8} (h : allowedCharForText t = some c) :
    (isPrintable c = true ∧ isBlank c = false) ∧ t.InLine ∧ t.text = [c] := by
  have htoken : allowedCharForToken t = some c →
      (isPrintable c = true ∧ isBlank c = false) ∧ t.InLine ∧ t.text = [c] := by
    intro h
    obtain ⟨hc, hline, htext⟩ := ht.token h
    exact ⟨⟨hc.1, hc.2.1⟩, hline, htext⟩
  cases t with
  | separators c' =>
    cases h
    have hall : Http.separators.all isPrintable = true := by decide
    exact ⟨⟨List.all_eq_true.mp hall c ht.1, ht.2 c rfl⟩, ⟨by simp, by simp⟩, rfl⟩
  | colon =>
    cases h
    exact ⟨by decide, ⟨by simp, by simp⟩, rfl⟩
  | backslash c' =>
    cases h
    obtain rfl : c = 47 := ht.1
    exact ⟨by decide, ⟨by simp, by simp⟩, rfl⟩
  | tokenChar c' => exact htoken h
  | digit i => exact htoken h
  | dot => exact htoken h
  | _ => cases h

lemma Token.Lexed.blank {t : Token} (ht : t.Lexed) {s : List UInt8} (h : blankText t = some s) :
    (∀ b ∈ s, isBlank b = true) ∧ t.InLine ∧ t.text = s := by
  obtain ⟨ht, -⟩ := ht
  cases t with
  | sp c =>
    cases h
    obtain rfl : c = 32 := ht
    refine ⟨fun b hb => ?_, ⟨by simp, by simp⟩, rfl⟩
    rw [List.mem_singleton.mp hb]
    decide
  | ws s' =>
    cases h
    exact ⟨ht, ⟨by simp, by simp⟩, rfl⟩
  | _ => cases h

/-- The tokens `ts` make up the text `s` of a line. -/
def Spells (ts : List Token) (s : List UInt8) : Prop := (∀ t ∈ ts, t.InLine) ∧ ts.flatMap Token.text = s

lemma spells_nil : Spells [] [] := ⟨fun _ ht => absurd ht List.not_mem_nil, rfl⟩

lemma Spells.cons {t : Token} {ts : List Token} {s s' : List UInt8} (hline : t.InLine) (htext : t.text = s)
    (h : Spells ts s') : Spells (t :: ts) (s ++ s') := by
  refine ⟨fun u hu => ?_, by rw [List.flatMap_cons, htext, h.2]⟩
  rcases List.mem_cons.mp hu with rfl | hu
  · exact hline
  · exact h.1 u hu

lemma Spells.append {ts ts' : List Token} {s s' : List UInt8} (h : Spells ts s) (h' : Spells ts' s') :
    Spells (ts ++ ts') (s ++ s') := by
  refine ⟨fun t ht => ?_, by rw [List.flatMap_append, h.2, h'.2]⟩
  rcases List.mem_append.mp ht with ht | ht
  · exact h.1 t ht
  · exact h'.1 t ht

/-- All tokens come from the lexer. -/
def AllLexed (ts : List Token) : Prop := ∀ t ∈ ts, t.Lexed

lemma AllLexed.head {t : Token} {ts : List Token} (h : AllLexed (t :: ts)) : t.Lexed := h t List.mem_cons_self

lemma AllLexed.tail {t : Token} {ts : List Token} (h : AllLexed (t :: ts)) : AllLexed ts :=
  fun t' ht' => h t' (List.mem_cons_of_mem t ht')

lemma AllLexed.right {ts ts' : List Token} (h : AllLexed (ts ++ ts')) : AllLexed ts' :=
  fun t ht => h t (List.mem_append_right ts ht)

/-- A name: at least one byte, none a blank or a colon. -/
def IsName (s : List UInt8) : Prop := s ≠ [] ∧ ∀ b ∈ s, IsNameByte b

/-- A value: at least one byte, and no blank at its ends. -/
structure IsValue (s : List UInt8) : Prop where
  ne_nil : s ≠ []
  printable : ∀ b ∈ s, isPrintable b = true
  head : ∀ b ∈ s.head?, isBlank b = false
  last : ∀ b ∈ s.getLast?, isBlank b = false

lemma tokenRest_spec (acc : List UInt8) {ts : List Token} (hts : AllLexed ts) :
    ∃ A s, ts = A ++ (tokenRest acc ts).2 ∧ (tokenRest acc ts).1 = acc ++ s ∧ Spells A s ∧
      ∀ b ∈ s, IsNameByte b := by
  induction ts generalizing acc with
  | nil => exact ⟨[], [], rfl, (List.append_nil acc).symm, spells_nil, fun b hb => absurd hb List.not_mem_nil⟩
  | cons t ts ih =>
    rw [tokenRest]
    cases hc : allowedCharForToken t with
    | none => exact ⟨[], [], rfl, (List.append_nil acc).symm, spells_nil, fun b hb => absurd hb List.not_mem_nil⟩
    | some c =>
      obtain ⟨hbyte, hline, htext⟩ := hts.head.token hc
      obtain ⟨A, s, hts', hs, hspells, hbytes⟩ := ih (acc ++ [c]) hts.tail
      refine ⟨t :: A, c :: s, congrArg (t :: ·) hts', ?_, hspells.cons hline htext, fun b hb => ?_⟩
      · dsimp only
        rw [hs, List.append_assoc, List.singleton_append]
      · rcases List.mem_cons.mp hb with rfl | hb
        · exact hbyte
        · exact hbytes b hb

lemma token_spec {ts ts' : List Token} {s : List UInt8} (hts : AllLexed ts) (h : token ts = some (s, ts')) :
    ∃ A, ts = A ++ ts' ∧ Spells A s ∧ IsName s := by
  cases ts with
  | nil => cases h
  | cons t ts =>
    obtain ⟨c, hc, h⟩ := Option.map_eq_some_iff.mp h
    obtain ⟨hbyte, hline, htext⟩ := hts.head.token hc
    obtain ⟨A, s', hts', hs, hspells, hbytes⟩ := tokenRest_spec [c] hts.tail
    rw [h] at hts' hs
    dsimp only at hts' hs
    subst hs
    refine ⟨t :: A, congrArg (t :: ·) hts', hspells.cons hline htext, by simp, fun b hb => ?_⟩
    rcases List.mem_cons.mp hb with rfl | hb
    · exact hbyte
    · exact hbytes b hb

/-- A blank of a text. -/
def IsBlankText (blank : Token → Option (List UInt8)) : Prop := ∀ t s, blank t = some s → blankText t = some s

lemma isBlankText_blankText' : IsBlankText blankText' := by
  intro t s h
  cases t with
  | ws s' => exact h
  | _ => cases h

lemma textRest_spec {blank : Token → Option (List UInt8)} (hblank : IsBlankText blank) (acc : List UInt8)
    {ts : List Token} (hts : AllLexed ts) :
    ∃ A s, ts = A ++ (textRest blank acc ts).2 ∧ (textRest blank acc ts).1 = acc ++ s ∧ Spells A s ∧
      (∀ b ∈ s, isPrintable b = true) ∧ ∀ b ∈ s.getLast?, isBlank b = false := by
  have hend : ∀ (acc : List UInt8) (ts : List Token), ∃ A s, ts = A ++ ts ∧ acc = acc ++ s ∧ Spells A s ∧
      (∀ b ∈ s, isPrintable b = true) ∧ ∀ b ∈ s.getLast?, isBlank b = false := fun acc ts =>
    ⟨[], [], rfl, (List.append_nil acc).symm, spells_nil, fun b hb => absurd hb List.not_mem_nil,
      fun b hb => by cases hb⟩
  -- a last character that is not a blank, before what the rest of the text adds
  have hlast : ∀ {c : UInt8} {s : List UInt8}, isBlank c = false → (∀ b ∈ s.getLast?, isBlank b = false) →
      ∀ b ∈ (c :: s).getLast?, isBlank b = false := by
    intro c s hc hs b hb
    rw [List.getLast?_cons] at hb
    cases hl : s.getLast? with
    | none =>
      rw [hl] at hb
      obtain rfl := Option.some.inj hb
      exact hc
    | some d =>
      rw [hl] at hb
      obtain rfl := Option.some.inj hb
      exact hs _ hl
  induction acc, ts using textRest.induct blank with
  | case1 acc => exact hend acc []
  | case2 acc t ts c hc ih =>
    obtain ⟨hbyte, hline, htext⟩ := hts.head.text hc
    obtain ⟨A, s, hts', hs, hspells, hbytes, hs'⟩ := ih hts.tail
    rw [textRest.eq_def]
    simp only [hc]
    refine ⟨t :: A, c :: s, congrArg (t :: ·) hts', ?_, hspells.cons hline htext, fun b hb => ?_,
      hlast hbyte.2 hs'⟩
    · rw [hs, List.append_assoc, List.singleton_append]
    · rcases List.mem_cons.mp hb with rfl | hb
      · exact hbyte.1
      · exact hbytes b hb
  | case3 acc t hc u t' ts' hu c hc' ih =>
    obtain ⟨hbyte, hline', htext'⟩ := hts.tail.head.text hc'
    obtain ⟨hblanks, hline, htext⟩ := hts.head.blank (hblank _ _ hu)
    obtain ⟨A, s, hts', hs, hspells, hbytes, hs'⟩ := ih hts.tail.tail
    rw [textRest.eq_def]
    simp only [hc, hu, hc']
    refine ⟨t :: t' :: A, u ++ c :: s, congrArg (t :: t' :: ·) hts', ?_,
      (hspells.cons hline' htext').cons hline htext, fun b hb => ?_, ?_⟩
    · rw [hs]
      simp
    · rcases List.mem_append.mp hb with hb | hb
      · exact isPrintable_of_isBlank (hblanks b hb)
      · rcases List.mem_cons.mp hb with rfl | hb
        · exact hbyte.1
        · exact hbytes b hb
    · rw [List.getLast?_append_of_ne_nil _ (List.cons_ne_nil c s)]
      exact hlast hbyte.2 hs'
  | case4 acc t hc u t' ts' hu hc' =>
    rw [textRest.eq_def]
    simp only [hc, hu, hc']
    exact hend acc _
  | case5 acc t ts hc hno =>
    rw [textRest.eq_def]
    simp only [hc]
    exact hend acc _

lemma text_spec {blank : Token → Option (List UInt8)} (hblank : IsBlankText blank) {ts ts' : List Token}
    {s : List UInt8} (hts : AllLexed ts) (h : text blank ts = some (s, ts')) :
    ∃ A, ts = A ++ ts' ∧ Spells A s ∧ IsValue s := by
  cases ts with
  | nil => cases h
  | cons t ts =>
    obtain ⟨c, hc, h⟩ := Option.map_eq_some_iff.mp h
    obtain ⟨hbyte, hline, htext⟩ := hts.head.text hc
    obtain ⟨A, s', hts', hs, hspells, hbytes, hlast⟩ := textRest_spec hblank [c] hts.tail
    rw [h] at hts' hs
    dsimp only at hts' hs
    subst hs
    refine ⟨t :: A, congrArg (t :: ·) hts', hspells.cons hline htext, by simp, fun b hb => ?_, fun b hb => ?_,
      fun b hb => ?_⟩
    · rcases List.mem_cons.mp hb with rfl | hb
      · exact hbyte.1
      · exact hbytes b hb
    · obtain rfl := Option.some.inj hb
      exact hbyte.2
    · cases hl : s'.getLast? with
      | none =>
        obtain rfl := List.getLast?_eq_none_iff.mp hl
        obtain rfl := Option.some.inj hb
        exact hbyte.2
      | some d =>
        rw [List.getLast?_append, hl] at hb
        obtain rfl := Option.some.inj hb
        exact hlast _ hl

lemma ows_spec {ts : List Token} (hts : AllLexed ts) :
    ∃ A s, ts = A ++ ows ts ∧ Spells A s ∧ ∀ b ∈ s, isBlank b = true := by
  cases ts with
  | nil => exact ⟨[], [], rfl, spells_nil, fun b hb => absurd hb List.not_mem_nil⟩
  | cons t ts =>
    rw [ows]
    cases hs : blankText t with
    | none => exact ⟨[], [], rfl, spells_nil, fun b hb => absurd hb List.not_mem_nil⟩
    | some s =>
      obtain ⟨hblanks, hline, htext⟩ := hts.head.blank hs
      refine ⟨[t], s, rfl, ?_, hblanks⟩
      have h := spells_nil.cons hline htext
      rwa [List.append_nil] at h

lemma expectSp_spec {ts ts' : List Token} (hts : AllLexed ts) (h : expectSp ts = some ts') :
    ∃ A, ts = A ++ ts' ∧ Spells A [32] := by
  unfold expectSp at h
  split at h
  · rename_i c rest
    obtain rfl := Option.some.inj h
    obtain rfl : c = 32 := hts.head.1
    exact ⟨[.sp 32], rfl, spells_nil.cons ⟨by simp, by simp⟩ rfl⟩
  · cases h

lemma expectColon_spec {ts ts' : List Token} (h : expectColon ts = some ts') :
    ∃ A, ts = A ++ ts' ∧ Spells A [58] := by
  unfold expectColon at h
  split at h
  · obtain rfl := Option.some.inj h
    exact ⟨[.colon], rfl, spells_nil.cons ⟨by simp, by simp⟩ rfl⟩
  · cases h

lemma expectCrlf_spec {ts ts' : List Token} (h : expectCrlf ts = some ts') : ts = .crlf :: ts' := by
  unfold expectCrlf at h
  split at h
  · rw [Option.some.inj h]
  · cases h

lemma requestLine_spec {ts ts' : List Token} (hts : AllLexed ts) {method uri version : List UInt8}
    (h : requestLine ts = some ((method, uri, version), ts')) :
    (∃ A, ts = A ++ .crlf :: ts' ∧ Spells A (method ++ 32 :: (uri ++ 32 :: version))) ∧
      IsName method ∧ IsValue uri ∧ IsValue version := by
  simp only [requestLine, Option.bind_eq_bind, Option.bind_eq_some_iff, Option.pure_def, Option.some.injEq,
    Prod.mk.injEq] at h
  obtain ⟨⟨m, ts₁⟩, hm, ts₂, h₂, ⟨u, ts₃⟩, hu, ts₄, h₄, ⟨v, ts₅⟩, hv, ts₆, h₆, ⟨rfl, rfl, rfl⟩, rfl⟩ := h
  obtain ⟨A₁, rfl, hA₁, hmethod⟩ := token_spec hts hm
  obtain ⟨A₂, rfl, hA₂⟩ := expectSp_spec hts.right h₂
  obtain ⟨A₃, rfl, hA₃, huri⟩ := text_spec isBlankText_blankText' hts.right.right hu
  obtain ⟨A₄, rfl, hA₄⟩ := expectSp_spec hts.right.right.right h₄
  obtain ⟨A₅, rfl, hA₅, hversion⟩ := text_spec (fun t s h => h) hts.right.right.right.right hv
  obtain rfl := expectCrlf_spec h₆
  refine ⟨⟨A₁ ++ (A₂ ++ (A₃ ++ (A₄ ++ A₅))), by simp, ?_⟩, hmethod, huri, hversion⟩
  exact hA₁.append (hA₂.append (hA₃.append (hA₄.append hA₅)))

/-- The line of a field: blanks may stand around its colon and at its end. -/
def IsFieldLine (line name value : List UInt8) : Prop :=
  ∃ b₁ b₂ b₃, (∀ b ∈ b₁ ++ (b₂ ++ b₃), isBlank b = true) ∧ line = name ++ (b₁ ++ 58 :: (b₂ ++ (value ++ b₃)))

lemma requestHeader_spec {ts ts' : List Token} (hts : AllLexed ts) {name value : List UInt8}
    (h : requestHeader ts = some ((name, value), ts')) :
    (∃ A line, ts = A ++ .crlf :: ts' ∧ Spells A line ∧ IsFieldLine line name value) ∧
      IsName name ∧ IsValue value := by
  simp only [requestHeader, Option.bind_eq_bind, Option.bind_eq_some_iff, Option.pure_def, Option.some.injEq,
    Prod.mk.injEq] at h
  obtain ⟨⟨n, ts₁⟩, hn, ts₂, h₂, ⟨v, ts₃⟩, hv, ts₄, h₄, ⟨rfl, rfl⟩, rfl⟩ := h
  obtain ⟨A₁, rfl, hA₁, hname⟩ := token_spec hts hn
  have hts₁ := hts.right
  obtain ⟨B₁, b₁, hts₁', hB₁, hb₁⟩ := ows_spec hts₁
  rw [hts₁'] at hts₁
  obtain ⟨A₂, hts₂', hA₂⟩ := expectColon_spec h₂
  rw [hts₂'] at hts₁
  have hts₂ := hts₁.right.right
  obtain ⟨B₂, b₂, hts₂'', hB₂, hb₂⟩ := ows_spec hts₂
  rw [hts₂''] at hts₂
  obtain ⟨A₃, hts₃', hA₃, hvalue⟩ := text_spec (fun t s h => h) hts₂.right hv
  rw [hts₃'] at hts₂
  obtain ⟨B₃, b₃, hts₃'', hB₃, hb₃⟩ := ows_spec hts₂.right.right
  rw [expectCrlf_spec h₄] at hts₃''
  refine ⟨⟨A₁ ++ (B₁ ++ (A₂ ++ (B₂ ++ (A₃ ++ B₃)))), n ++ (b₁ ++ 58 :: (b₂ ++ (v ++ b₃))), ?_, ?_,
    b₁, b₂, b₃, ?_, rfl⟩, hname, hvalue⟩
  · rw [hts₁', hts₂', hts₂'', hts₃', hts₃'']
    simp
  · exact hA₁.append (hB₁.append (hA₂.append (hB₂.append (hA₃.append hB₃))))
  · intro b hb
    rcases List.mem_append.mp hb with hb | hb
    · exact hb₁ b hb
    · rcases List.mem_append.mp hb with hb | hb
      · exact hb₂ b hb
      · exact hb₃ b hb

/-! ## A line and its tokens -/

/-- A line ends at the first token that is not inside one. -/
lemma line_unique {A B : List Token} {c d : Token} {X Y : List Token} (hA : ∀ t ∈ A, t.InLine)
    (hB : ∀ t ∈ B, t.InLine) (hc : ¬c.InLine) (hd : ¬d.InLine) (h : A ++ c :: X = B ++ d :: Y) :
    A = B ∧ c = d ∧ X = Y := by
  induction A generalizing B with
  | nil =>
    cases B with
    | nil =>
      obtain ⟨hcd, hXY⟩ := List.cons.inj h
      exact ⟨rfl, hcd, hXY⟩
    | cons b B =>
      obtain ⟨rfl, -⟩ := List.cons.inj h
      exact absurd (hB c List.mem_cons_self) hc
  | cons a A ih =>
    cases B with
    | nil =>
      obtain ⟨rfl, -⟩ := List.cons.inj h
      exact absurd (hA a List.mem_cons_self) hd
    | cons b B =>
      obtain ⟨rfl, htail⟩ := List.cons.inj h
      obtain ⟨rfl, hcd⟩ := ih (fun t ht => hA t (List.mem_cons_of_mem a ht))
        (fun t ht => hB t (List.mem_cons_of_mem a ht)) htail
      exact ⟨rfl, hcd⟩

lemma not_inLine_crlf : ¬Token.crlf.InLine := fun h => h.1 rfl

lemma lex_line {l : List UInt8} (hl : ∀ b ∈ l, isPrintable b = true) (bs : List UInt8) :
    ∃ c ts, ¬c.InLine ∧ lex (l ++ 13 :: 10 :: bs) = lex l ++ c :: ts ∧ (c = .crlf → ts = lex bs) := by
  have happend := (lex_printable hl).2.2 (13 :: 10 :: bs) fun b hb => by
    obtain rfl := Option.some.inj hb
    decide
  rw [happend, lex_break]
  split_ifs
  · exact ⟨.crlf, lex bs, not_inLine_crlf, rfl, fun _ => rfl⟩
  · exact ⟨.lws, lex (bs.dropWhile isBlank), fun h => h.2 rfl, rfl, fun h => by cases h⟩

/-- Tokens up to a line break spell the first line. -/
lemma first_line {x : List UInt8} (hx : IsPrintable x) {A ts : List Token} {line : List UInt8}
    (h : lex x = A ++ .crlf :: ts) (hA : Spells A line) :
    (line = [] → headLines [] x = []) ∧
      (line ≠ [] → ∃ bs, ts = lex bs ∧ headLines [] x = line :: headLines [] bs) := by
  rcases line_cases x with hbreak | ⟨l, bs, hbreak, rfl⟩
  · -- a text without a line break gives no such token
    have hprintable : ∀ b ∈ x, isPrintable b = true := by
      intro b hb
      apply hx x _ b hb
      rw [headLines_noBreak hbreak, List.nil_append, if_neg (List.ne_nil_of_mem hb)]
      exact List.mem_singleton_self x
    refine absurd ((lex_printable hprintable).1 .crlf ?_) not_inLine_crlf
    rw [h]
    exact List.mem_append_right _ List.mem_cons_self
  · have hprintable : ∀ b ∈ l, isPrintable b = true := by
      intro b hb
      apply hx l _ b hb
      rw [headLines_of_ne_nil hbreak (List.ne_nil_of_mem hb)]
      exact List.mem_cons_self
    obtain ⟨c, ts', hc, hlex, hts⟩ := lex_line hprintable bs
    obtain ⟨hin, hflat, -⟩ := lex_printable hprintable
    obtain ⟨rfl, rfl, rfl⟩ := line_unique hA.1 hin not_inLine_crlf hc (h.symm.trans hlex)
    obtain rfl : line = l := hA.2.symm.trans hflat
    refine ⟨?_, fun hne => ⟨bs, hts rfl, headLines_of_ne_nil hbreak hne bs⟩⟩
    rintro rfl
    rw [headLines_line hbreak, List.nil_append, if_pos rfl]

end VideoCDN.Http
