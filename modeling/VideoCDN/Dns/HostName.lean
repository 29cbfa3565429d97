import VideoCDN.Dns.Record

/-!
# Host names

A host name is its list of labels. The dotted text is what the resolver is given and the
wire form what a message carries; the coder writes the wire form of the text it is given
and the decoder reads the text back.
-/

namespace VideoCDN.Dns

open CString Inet Buffer

/-- The dotted text of a list of labels. -/
def joinDots : List (List UInt8) → List UInt8
  | [] => []
  | [l] => l
  | l :: m :: ls => l ++ 46 :: joinDots (m :: ls)

/-- Each label after its length, then the empty label. -/
def wireName : List (List UInt8) → List UInt8
  | [] => [0]
  | l :: ls => l.length.toUInt8 :: (l ++ wireName ls)

/-- A label of 1 to 63 bytes, none of them a NUL or a dot. -/
def IsLabel (l : List UInt8) : Prop := 1 ≤ l.length ∧ l.length ≤ 63 ∧ ∀ b ∈ l, b ≠ 0 ∧ b ≠ 46

instance (l : List UInt8) : Decidable (IsLabel l) :=
  have := List.decidableBAll (fun b : UInt8 => b ≠ 0 ∧ b ≠ 46) l
  inferInstanceAs (Decidable (1 ≤ l.length ∧ l.length ≤ 63 ∧ ∀ b ∈ l, b ≠ 0 ∧ b ≠ 46))

structure HostName where
  labels : List (List UInt8)
  labels_ne_nil : labels ≠ []
  isLabel : ∀ l ∈ labels, IsLabel l
  length_le : (joinDots labels).length ≤ 253

/-- The dotted text. -/
def HostName.text (name : HostName) : List UInt8 := joinDots name.labels

/-- A label of 1 to 63 bytes that is a string. A dot in it is a byte like any other. -/
def IsWireLabel (l : List UInt8) : Prop := 1 ≤ l.length ∧ l.length ≤ 63 ∧ IsString l

lemma IsLabel.isWireLabel {l : List UInt8} (h : IsLabel l) : IsWireLabel l :=
  ⟨h.1, h.2.1, fun b hb => (h.2.2 b hb).1⟩

/-- A name that a message carries. -/
structure WireName where
  labels : List (List UInt8)
  labels_ne_nil : labels ≠ []
  isLabel : ∀ l ∈ labels, IsWireLabel l
  length_le : (joinDots labels).length ≤ 253

def WireName.text (name : WireName) : List UInt8 := joinDots name.labels

def WireName.toBytes (name : WireName) : List UInt8 := wireName name.labels

def HostName.toWire (name : HostName) : WireName :=
  ⟨name.labels, name.labels_ne_nil, fun l hl => (name.isLabel l hl).isWireLabel, name.length_le⟩

lemma length_wireName (l : List UInt8) (ls : List (List UInt8)) :
    (wireName (l :: ls)).length = (joinDots (l :: ls)).length + 2 := by
  induction ls generalizing l with
  | nil => simp [wireName, joinDots]
  | cons m ls ih =>
    have h := ih m
    rw [wireName, joinDots]
    simp only [List.length_cons, List.length_append, h]
    omega

/-! ## The coder -/

/-- Inside a label the coder copies the characters one place to the right of the byte kept
free for the length. -/
lemma translateNameLoop_label (base total : Nat) (l addr pre p old tail : List UInt8) (slot : UInt8)
    (hl : ∀ b ∈ l, b ≠ 46) (hpre : pre.length = base + total) (hold : old.length = l.length) :
    translateNameLoop base (l ++ addr) total p.length (pre ++ slot :: (p ++ old ++ tail)) =
      translateNameLoop base addr total (p ++ l).length (pre ++ slot :: (p ++ l ++ tail)) := by
  induction l generalizing p old with
  | nil => simp [List.length_eq_zero_iff.mp hold]
  | cons c l ih =>
    cases old with
    | nil => simp at hold
    | cons o old =>
      have hc : c ≠ 46 := hl c (by simp)
      have hstore : store (pre ++ slot :: (p ++ (o :: old) ++ tail)) (base + total + p.length + 1) c =
          some ((pre ++ slot :: p) ++ c :: (old ++ tail)) := by
        apply store_at _ (pre ++ slot :: p) (old ++ tail) o c
        · simp
        · simp [hpre]
          omega
      have hnext := ih (p ++ [c]) old (fun b hb => hl b (by simp [hb])) (by simpa using hold)
      rw [List.cons_append, translateNameLoop, if_pos hc, hstore]
      simp only [Option.bind_eq_bind, Option.bind_some]
      simpa using hnext

/-- The loop of `translate_name` with what follows it, from a running total. -/
def translateNameFrom (base : Nat) (addr : List UInt8) (total : Nat) (result : List UInt8) :
    Option (Nat × List UInt8) := do
  let (total, labelLen, result) ← translateNameLoop base addr total 0 result
  let result ← store result (base + total) labelLen.toUInt8
  let total := total + labelLen
  let result ← store result (base + total + 1) 0
  return (total + 2, result)

lemma translateNameFrom_labels (base total : Nat) (ls : List (List UInt8)) (hne : ls ≠ [])
    (hls : ∀ l ∈ ls, ∀ b ∈ l, b ≠ 46) (pre old tail : List UInt8) (hpre : pre.length = base + total)
    (hold : old.length = (joinDots ls).length + 2) :
    translateNameFrom base (joinDots ls) total (pre ++ old ++ tail) =
      some (total + (joinDots ls).length + 2, pre ++ wireName ls ++ tail) := by
  induction ls generalizing total pre old with
  | nil => exact absurd rfl hne
  | cons l ls ih =>
    have hl : ∀ b ∈ l, b ≠ 46 := hls l (by simp)
    obtain ⟨slot, old, rfl⟩ := List.exists_cons_of_length_pos (l := old) (by omega)
    cases ls with
    | nil =>
      simp only [joinDots, List.length_cons] at hold
      -- what is left of the old contents: room for the label and the final zero
      have hone : (old.drop l.length).length = 1 := by
        rw [List.length_drop]
        omega
      obtain ⟨last, hlast⟩ := List.length_eq_one_iff.mp hone
      have hsplit : old = old.take l.length ++ [last] := by rw [← hlast, List.take_append_drop]
      have hlab := translateNameLoop_label base total l [] pre [] (old.take l.length) ([last] ++ tail)
        slot hl hpre (by rw [List.length_take]; omega)
      have hbuf : pre ++ slot :: old ++ tail =
          pre ++ slot :: ([] ++ old.take l.length ++ ([last] ++ tail)) := by
        rw [List.nil_append, ← List.append_assoc (old.take _), ← hsplit]
        simp
      simp only [List.append_nil, List.nil_append, List.length_nil] at hlab hbuf
      have hslot : store (pre ++ slot :: (l ++ ([last] ++ tail))) (base + total) l.length.toUInt8 =
          some (pre ++ l.length.toUInt8 :: (l ++ ([last] ++ tail))) :=
        store_at _ pre _ slot _ _ rfl hpre.symm
      have hend : store (pre ++ l.length.toUInt8 :: (l ++ ([last] ++ tail)))
          (base + (total + l.length) + 1) 0 =
          some ((pre ++ l.length.toUInt8 :: l) ++ 0 :: tail) := by
        apply store_at _ (pre ++ l.length.toUInt8 :: l) tail last 0
        · simp
        · simp [hpre]
          omega
      simp only [joinDots, wireName]
      rw [hbuf, translateNameFrom, hlab]
      simp only [translateNameLoop, Option.bind_eq_bind, Option.bind_some, hslot, hend]
      simp
    | cons m ls =>
      have hlen : l.length + ((joinDots (m :: ls)).length + 2) = old.length := by
        simp only [joinDots, List.length_cons, List.length_append] at hold
        omega
      have hlab := translateNameLoop_label base total l (46 :: joinDots (m :: ls)) pre []
        (old.take l.length) (old.drop l.length ++ tail) slot hl hpre (by rw [List.length_take]; omega)
      have hbuf : pre ++ slot :: old ++ tail =
          pre ++ slot :: ([] ++ old.take l.length ++ (old.drop l.length ++ tail)) := by
        rw [List.nil_append, ← List.append_assoc (old.take _), List.take_append_drop]
        simp
      simp only [List.nil_append, List.length_nil] at hlab hbuf
      have hslot : store (pre ++ slot :: (l ++ (old.drop l.length ++ tail))) (base + total)
          l.length.toUInt8 = some (pre ++ l.length.toUInt8 :: (l ++ (old.drop l.length ++ tail))) :=
        store_at _ pre _ slot _ _ rfl hpre.symm
      have hrec := ih (total + l.length + 1) (by simp) (fun k hk => hls k (by simp [hk]))
        (pre ++ l.length.toUInt8 :: l) (old.drop l.length) (by simp [hpre]; omega)
        (by rw [List.length_drop]; omega)
      have hpart : pre ++ l.length.toUInt8 :: (l ++ (old.drop l.length ++ tail)) =
          pre ++ l.length.toUInt8 :: l ++ old.drop l.length ++ tail := by simp
      have hjoin : joinDots (l :: m :: ls) = l ++ 46 :: joinDots (m :: ls) := rfl
      have hloop : translateNameFrom base (joinDots (l :: m :: ls)) total (pre ++ slot :: old ++ tail) =
          translateNameFrom base (joinDots (m :: ls)) (total + l.length + 1)
            (pre ++ l.length.toUInt8 :: l ++ old.drop l.length ++ tail) := by
        rw [translateNameFrom, hjoin, hbuf, hlab, translateNameLoop, if_neg (by simp), hslot, hpart]
        rfl
      rw [hloop, hrec, hjoin]
      simp only [wireName, List.length_append, List.length_cons, Option.some.injEq, Prod.mk.injEq]
      refine ⟨by omega, by simp⟩

/-- The coder writes the wire form of a name over whatever the array held there. -/
theorem translateName_joinDots (ls : List (List UInt8)) (hne : ls ≠ [])
    (hls : ∀ l ∈ ls, ∀ b ∈ l, b ≠ 46) (pre old tail : List UInt8)
    (hold : old.length = (joinDots ls).length + 2) :
    translateName pre.length (joinDots ls) (pre ++ old ++ tail) =
      some ((joinDots ls).length + 2, pre ++ wireName ls ++ tail) := by
  have h := translateNameFrom_labels pre.length 0 ls hne hls pre old tail rfl hold
  rw [Nat.zero_add] at h
  exact h

/-! ## The decoder -/

/-- The decoder collects every label with a dot after it. -/
def dotted (ls : List (List UInt8)) : List UInt8 := ls.flatMap (· ++ [46])

lemma dotted_eq_joinDots (l : List UInt8) (ls : List (List UInt8)) :
    dotted (l :: ls) = joinDots (l :: ls) ++ [46] := by
  induction ls generalizing l with
  | nil => simp [dotted, joinDots]
  | cons m ls ih =>
    have h := ih m
    unfold dotted at h ⊢
    rw [List.flatMap_cons, h, joinDots]
    simp

lemma lableSize_length (l : List UInt8) (h : l.length ≤ 63) :
    lableSize l.length.toUInt8 = l.length := by
  have hn : l.length.toUInt8.toNat = l.length := by
    rw [UInt8.toNat_ofNat']
    omega
  have hlt : l.length.toUInt8 < 128 := by
    rw [UInt8.lt_iff_toNat_lt, hn]
    change l.length < 128
    omega
  rw [lableSize, if_pos hlt, hn]

lemma strncat_label (cap : Nat) (result pre l post : List UInt8) (hl : IsString l)
    (hcap : (result ++ l).length < cap) :
    strncat cap result (pre ++ l ++ post) pre.length l.length = some (result ++ l) := by
  have hsrc : ((pre ++ l ++ post).drop pre.length).take l.length = l := by
    rw [List.append_assoc, List.drop_left, List.take_left]
  unfold strncat
  simp only [hsrc, cstr_eq_self l hl]
  rw [if_neg (by omega), if_neg (by omega)]

lemma wrapInt_of_small (x : Int) (hlo : 0 ≤ x) (hhi : x < 2 ^ 31) : wrapInt x = x := by
  unfold wrapInt
  omega

lemma parseNameLoop_wireName (cap : Nat) (ls : List (List UInt8)) (hls : ∀ l ∈ ls, IsWireLabel l)
    (pre rest result : List UInt8) (size : Int) (fuel : Nat) (hsize : (wireName ls).length ≤ size)
    (hint : size < 2 ^ 31) (hfuel : ls.length < fuel) (hcap : (result ++ dotted ls).length < cap) :
    parseNameLoop cap (pre ++ wireName ls ++ rest) fuel pre.length size result =
      some (result ++ dotted ls) := by
  induction ls generalizing pre result size fuel with
  | nil =>
    obtain ⟨fuel, rfl⟩ : ∃ f, fuel = f + 1 := ⟨fuel - 1, by omega⟩
    simp only [wireName, List.length_singleton] at hsize
    have hb : (pre ++ [0] ++ rest)[pre.length]? = some 0 := by simp
    rw [parseNameLoop, if_neg (by omega), wireName, hb]
    simp [lableSize, dotted]
  | cons l ls ih =>
    obtain ⟨fuel, rfl⟩ : ∃ f, fuel = f + 1 := ⟨fuel - 1, by omega⟩
    obtain ⟨hpos, hle, hclean⟩ := hls l (by simp)
    have hdot : dotted (l :: ls) = l ++ [46] ++ dotted ls := by simp [dotted]
    rw [hdot] at hcap ⊢
    simp only [wireName, List.length_cons, List.length_append] at hsize hcap
    have hb : (pre ++ (l.length.toUInt8 :: (l ++ wireName ls)) ++ rest)[pre.length]? =
        some l.length.toUInt8 := by simp
    have hbuf : pre ++ (l.length.toUInt8 :: (l ++ wireName ls)) ++ rest =
        (pre ++ [l.length.toUInt8]) ++ l ++ (wireName ls ++ rest) := by simp
    have hcat := strncat_label cap result (pre ++ [l.length.toUInt8]) l (wireName ls ++ rest)
      hclean (by simp only [List.length_append]; omega)
    have hcatdot : strncat cap (result ++ l) [46] 0 1 = some (result ++ l ++ [46]) :=
      strncat_label cap (result ++ l) [] [46] [] (by decide) (by simp at hcap ⊢; omega)
    have hrec := ih (fun k hk => hls k (by simp [hk])) (pre ++ l.length.toUInt8 :: l)
      (result ++ l ++ [46]) (size - l.length) fuel (by omega) (by omega) (by simpa using hfuel)
      (by simp only [List.length_append, List.length_cons] at hcap ⊢; omega)
    rw [← hbuf] at hcat
    simp only [List.length_append, List.length_singleton] at hcat
    have hnext : pre ++ l.length.toUInt8 :: l ++ wireName ls ++ rest =
        pre ++ (l.length.toUInt8 :: (l ++ wireName ls)) ++ rest := by simp
    rw [hnext] at hrec
    simp only [List.length_append, List.length_cons] at hrec
    rw [wireName, parseNameLoop, if_neg (by omega), hb]
    simp only [Option.bind_eq_bind, Option.bind_some, lableSize_length l hle]
    rw [if_neg (by omega), hcat, Option.bind_some, hcatdot, Option.bind_some,
      wrapInt_of_small _ (by omega) (by omega)]
    have hpt : pre.length + 1 + l.length = pre.length + (l.length + 1) := by omega
    rw [hpt, hrec]
    simp

/-- The decoder reads the text back and returns one less than the bytes it went over. -/
theorem parseName_wireName (cap : Nat) (ls : List (List UInt8)) (hne : ls ≠ [])
    (hls : ∀ l ∈ ls, IsWireLabel l) (pre rest : List UInt8) (size : Int)
    (hsize : (wireName ls).length ≤ size) (hint : size < 2 ^ 31)
    (hcap : (joinDots ls).length + 1 < cap) :
    parseName cap (pre ++ wireName ls ++ rest) pre.length size =
      some ((joinDots ls).length + 1, joinDots ls) := by
  obtain ⟨l, ls, rfl⟩ := List.exists_cons_of_ne_nil hne
  have hdot := dotted_eq_joinDots l ls
  have hfuel : (l :: ls).length < (pre ++ wireName (l :: ls) ++ rest).length + 1 := by
    have hwire : ∀ ks : List (List UInt8), ks.length < (wireName ks).length := by
      intro ks
      induction ks with
      | nil => simp [wireName]
      | cons k ks ih =>
        simp only [wireName, List.length_cons, List.length_append]
        omega
    have h := hwire (l :: ls)
    simp only [List.length_append] at h ⊢
    omega
  have hloop := parseNameLoop_wireName cap (l :: ls) hls pre rest [] size _ hsize hint hfuel
    (by rw [hdot]; simpa using hcap)
  rw [List.nil_append, hdot] at hloop
  unfold parseName
  rw [hloop]
  simp

end VideoCDN.Dns
