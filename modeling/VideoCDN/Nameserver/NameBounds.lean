import VideoCDN.Nameserver.Serve

/-!
# What reading a name touches

`parse_name` once more, as `dns_parse_request` calls it, with the positions it reads in the packet
and those it writes in the name. The counter of the remaining bytes leaves out the length bytes,
nothing bounds the output, and the end of the name is written one place before its start when it
is empty.
-/

namespace VideoCDN.Nameserver

open CString Inet Dns

inductive Access
  | read (i : Nat)
  | write (i : Int)
  deriving DecidableEq, Repr

/-- Reads lie in the received bytes, and writes in the name. -/
def Access.InBounds (size cap : Nat) : Access → Prop
  | .read i => i < size
  | .write i => 0 ≤ i ∧ i < cap

lemma Access.InBounds.mono {size cap cap' : Nat} {a : Access} (h : a.InBounds size cap) (hle : cap ≤ cap') :
    a.InBounds size cap' := by
  cases a with
  | read i => exact h
  | write i => exact ⟨h.1, h.2.trans_le (by exact_mod_cast hle)⟩

/-- The accesses of `strncat`: characters are read up to the end of the string or to the `n`-th, and
written, with a NUL, behind the result. -/
def strncatAccesses (result buf : List UInt8) (pt n : Nat) : Option (List UInt8 × List Access) :=
  let src := (buf.drop pt).take n
  if src.length < n ∧ 0 ∉ src then none
  else
    let reads := if 0 ∈ src then (cstr src).length + 1 else n
    some (result ++ cstr src, (List.range reads).map (fun j => Access.read (pt + j)) ++
      (List.range ((cstr src).length + 1)).map fun j => Access.write (result.length + j : Nat))

/-- The accesses of `strcat` for the dot, whose text is not in the packet. -/
def strcatAccesses (result : List UInt8) : List Access :=
  [.write result.length, .write (result.length + 1 : Nat)]

/-- The loop of `parse_name` with its accesses: the name, with a dot after each label. -/
def parseNameLoopAccesses (buf : List UInt8) :
    Nat → Nat → Int → List UInt8 → Option (List UInt8 × List Access)
  | 0, _, _, _ => none
  | fuel + 1, pt, size, result =>
    if size ≤ 0 then some (result, [])
    else do
      let b ← buf[pt]?
      if lableSize b = 0 then return (result, [.read pt])
      let (result, copied) ← strncatAccesses result buf (pt + 1) (lableSize b)
      let (name, rest) ← parseNameLoopAccesses buf fuel (pt + 1 + lableSize b) (wrapInt (size - lableSize b))
        (result ++ [46])
      return (name, .read pt :: copied ++ strcatAccesses result ++ rest)

/-- All accesses of `parse_name`: the NUL at the start, the loop, and the NUL over the last dot. -/
def parseNameAccesses (buf : List UInt8) (question : Nat) (size : Int) : Option (List UInt8 × List Access) := do
  let (name, accesses) ← parseNameLoopAccesses buf (buf.length + 1) question size []
  return (name, .write 0 :: accesses ++ [.write (name.length - 1 : Int)])

/-! ## The accesses are those of `parse_name` -/

section Parse

variable {buf result name : List UInt8} {accesses : List Access} {pt fuel : Nat} {size : Int}

lemma strncat_of_accesses {cap n : Nat} {r : List UInt8} (h : strncatAccesses result buf pt n = some (r, accesses))
    (hwrites : ∀ i, Access.write i ∈ accesses → i < cap) : strncat cap result buf pt n = some r := by
  unfold strncatAccesses at h
  dsimp only at h
  split at h
  · cases h
  · rename_i hinside
    obtain ⟨rfl, rfl⟩ : result ++ cstr ((buf.drop pt).take n) = r ∧ _ = accesses := by simpa using h
    have hend : ((result.length + (cstr ((buf.drop pt).take n)).length : Nat) : Int) < cap := by
      apply hwrites
      apply List.mem_append_right
      exact List.mem_map.mpr ⟨_, List.mem_range.mpr (Nat.lt_succ_self _), rfl⟩
    rw [strncat, if_neg hinside, if_neg]
    rw [List.length_append]
    omega

lemma strncat_dot {cap : Nat} (hwrites : ∀ i, Access.write i ∈ strcatAccesses result → i < cap) :
    strncat cap result [46] 0 1 = some (result ++ [46]) := by
  have hend : ((result.length + 1 : Nat) : Int) < cap := hwrites _ (by simp [strcatAccesses])
  have hcstr : cstr [46] = [46] := by decide
  have hlen : ¬cap ≤ (result ++ [46]).length := by
    rw [List.length_append, List.length_singleton]
    omega
  simp only [strncat, List.drop_zero, List.take_succ_cons, List.take_zero, hcstr, List.length_singleton,
    Nat.lt_irrefl, false_and, if_false, if_neg hlen]

lemma parseNameLoop_of_accesses {cap : Nat}
    (h : parseNameLoopAccesses buf fuel pt size result = some (name, accesses))
    (hwrites : ∀ i, Access.write i ∈ accesses → i < cap) :
    parseNameLoop cap buf fuel pt size result = some name := by
  induction fuel generalizing pt size result accesses with
  | zero => cases h
  | succ fuel ih =>
    rw [parseNameLoopAccesses] at h
    rw [parseNameLoop]
    split at h
    · rename_i hsize
      rw [if_pos hsize]
      obtain ⟨rfl, -⟩ : result = name ∧ [] = accesses := by simpa using h
      rfl
    · rename_i hsize
      rw [if_neg hsize]
      obtain ⟨b, hb, h⟩ := Option.bind_eq_some_iff.mp h
      simp only [hb, Option.bind_eq_bind, Option.bind_some]
      split at h
      · rename_i hzero
        rw [if_pos hzero]
        obtain ⟨rfl, -⟩ : result = name ∧ [Access.read pt] = accesses := by simpa using h
        rfl
      · rename_i hlable
        rw [if_neg hlable]
        obtain ⟨⟨r, copied⟩, hcopy, h⟩ := Option.bind_eq_some_iff.mp h
        obtain ⟨⟨name', rest⟩, hrest, h⟩ := Option.bind_eq_some_iff.mp h
        obtain ⟨rfl, rfl⟩ : name' = name ∧ _ = accesses := by simpa using h
        rw [strncat_of_accesses hcopy fun i hi => hwrites i (by simp [hi]), Option.bind_some,
          strncat_dot fun i hi => hwrites i (by simp [hi]), Option.bind_some]
        exact ih hrest fun i hi => hwrites i (by simp [hi])

/-- Where no write leaves the name, `parse_name` returns it. -/
lemma parseName_of_accesses {n cap : Nat} (h : parseNameAccesses buf pt size = some (name, accesses))
    (hbounds : ∀ a ∈ accesses, a.InBounds n cap) : parseName cap buf pt size = some (name.length, name.dropLast) := by
  obtain ⟨⟨name', loop⟩, hloop, h⟩ := Option.bind_eq_some_iff.mp h
  obtain ⟨rfl, rfl⟩ : name' = name ∧ _ = accesses := by simpa using h
  have hend : (0 : Int) ≤ name'.length - 1 := (hbounds (.write (name'.length - 1)) (by simp)).1
  have hne : name' ≠ [] := by
    rintro rfl
    exact absurd hend (by decide)
  have hwrites : ∀ i, Access.write i ∈ loop → i < cap := fun i hi => (hbounds (.write i) (by simp [hi])).2
  rw [parseName, parseNameLoop_of_accesses hloop hwrites, Option.bind_eq_bind, Option.bind_some, if_neg hne]
  rfl

end Parse

/-! ## The names that are read in bounds -/

/-- The received bytes from a label on are a name with a text that has a dot after each label; `k` labels
come before. The last label may reach beyond the received bytes if it has a NUL in them and its length
uses up the counter, which leaves out the length bytes. -/
inductive NameAt : Nat → List UInt8 → List UInt8 → Prop
  | stop (k : Nat) (rest : List UInt8) : NameAt k (0 :: rest) []
  | label {k : Nat} {l rest text : List UInt8} (hpos : l ≠ []) (hlen : l.length ≤ 127)
      (h : NameAt (k + 1) rest text) : NameAt k (l.length.toUInt8 :: (l ++ rest)) (cstr l ++ [46] ++ text)
  | beyond {k : Nat} {b : UInt8} {rest : List UInt8} (hnul : 0 ∈ rest) (hlen : b.toNat ≤ 127)
      (hsize : rest.length + 1 + k ≤ b.toNat) : NameAt k (b :: rest) (cstr rest ++ [46])

section Strncat

variable {result data pad r : List UInt8} {accesses : List Access} {pt n : Nat}

lemma take_drop_append (pad : List UInt8) (n : Nat) (hpt : pt ≤ data.length) :
    ((data ++ pad).drop pt).take n = (data.drop pt ++ pad).take n := by
  rw [List.drop_append_of_le_length hpt]

/-- A label whose characters, up to a NUL, were received is copied. -/
lemma strncatAccesses_inside (result pad : List UInt8) (hpt : pt ≤ data.length)
    (h : n ≤ (data.drop pt).length ∨ 0 ∈ data.drop pt) :
    ∃ copied, strncatAccesses result (data ++ pad) pt n = some (result ++ cstr ((data.drop pt).take n), copied) ∧
      ∀ a ∈ copied, a.InBounds data.length ((result ++ cstr ((data.drop pt).take n)).length + 1) := by
  obtain ⟨rest, hrest⟩ : ∃ rest, data.drop pt = rest := ⟨_, rfl⟩
  have hlen : rest.length = data.length - pt := by rw [← hrest, List.length_drop]
  have hsrc := take_drop_append pad n hpt
  rw [hrest] at h hsrc
  -- what is read ends inside the received bytes
  have hread : cstr ((rest ++ pad).take n) = cstr (rest.take n) ∧
      ¬(((rest ++ pad).take n).length < n ∧ 0 ∉ (rest ++ pad).take n) ∧
      (if 0 ∈ (rest ++ pad).take n then (cstr ((rest ++ pad).take n)).length + 1 else n) ≤ rest.length := by
    by_cases hfits : n ≤ rest.length
    · rw [List.take_append_of_le_length hfits]
      refine ⟨rfl, fun hout => ?_, ?_⟩
      · rw [List.length_take] at hout
        omega
      · split
        · rename_i hmem
          have hlt := length_cstr_lt hmem
          rw [List.length_take] at hlt
          omega
        · exact hfits
    · have hnul : 0 ∈ rest := h.resolve_left hfits
      have hall : rest.take n = rest := List.take_of_length_le (by omega)
      rw [List.take_append, hall, cstr_append_of_mem hnul]
      refine ⟨rfl, fun hout => hout.2 (List.mem_append_left _ hnul), ?_⟩
      rw [if_pos (List.mem_append_left _ hnul)]
      exact length_cstr_lt hnul
  obtain ⟨hcstr, hinside, hreads⟩ := hread
  unfold strncatAccesses
  rw [hsrc, hrest]
  dsimp only
  rw [if_neg hinside, hcstr]
  rw [hcstr] at hreads
  refine ⟨_, rfl, fun a ha => ?_⟩
  rcases List.mem_append.mp ha with ha | ha
  · obtain ⟨j, hj, rfl⟩ := List.mem_map.mp ha
    have hlt := List.mem_range.mp hj
    change pt + j < data.length
    omega
  · obtain ⟨j, hj, rfl⟩ := List.mem_map.mp ha
    have hlt := List.mem_range.mp hj
    rw [List.length_append]
    exact ⟨Int.natCast_nonneg _, by push_cast; omega⟩

/-- A copy that reads received bytes only has the label in them, or a NUL. -/
lemma received_of_strncatAccesses (hpt : pt ≤ data.length)
    (h : strncatAccesses result (data ++ pad) pt n = some (r, accesses))
    (hreads : ∀ i, Access.read i ∈ accesses → i < data.length) :
    n ≤ (data.drop pt).length ∨ 0 ∈ data.drop pt := by
  by_contra hout
  obtain ⟨hlong, hnul⟩ := not_or.mp hout
  obtain ⟨rest, hrest⟩ : ∃ rest, data.drop pt = rest := ⟨_, rfl⟩
  have hlen : rest.length = data.length - pt := by rw [← hrest, List.length_drop]
  rw [hrest] at hlong hnul
  unfold strncatAccesses at h
  rw [take_drop_append pad n hpt, hrest, List.take_append, List.take_of_length_le (by omega)] at h
  dsimp only at h
  split at h
  · cases h
  · obtain ⟨-, rfl⟩ := Prod.mk.injEq .. ▸ Option.some.inj h
    have hstring : IsString rest := fun b hb hzero => hnul (hzero ▸ hb)
    -- the first byte behind the received ones is read
    have hbehind : Access.read (pt + rest.length) ∈ (List.range (if 0 ∈ rest ++ pad.take (n - rest.length) then
        (cstr (rest ++ pad.take (n - rest.length))).length + 1 else n)).map (fun j => Access.read (pt + j)) := by
      apply List.mem_map.mpr
      refine ⟨rest.length, List.mem_range.mpr ?_, rfl⟩
      split
      · rw [cstr_append _ _ hstring, List.length_append]
        omega
      · omega
    have hlt := hreads _ (List.mem_append_left _ hbehind)
    omega

end Strncat

section Loop

variable {result data pad name : List UInt8} {accesses : List Access} {pt k fuel : Nat} {size : Int}

lemma lableSize_of_lt {b : UInt8} (h : b.toNat < 128) : lableSize b = b.toNat := if_pos (UInt8.lt_iff_toNat_lt.mpr h)

/-- A negative `char` is taken for more than four billion. -/
lemma lableSize_of_ge {b : UInt8} (h : 128 ≤ b.toNat) : lableSize b = 2 ^ 32 - 256 + b.toNat :=
  if_neg fun hlt => absurd (UInt8.lt_iff_toNat_lt.mp hlt : b.toNat < 128) (not_lt.mpr h)

lemma lableSize_eq_zero_iff {b : UInt8} : lableSize b = 0 ↔ b = 0 := by
  rw [← UInt8.toNat_inj]
  by_cases h : b.toNat < 128
  · rw [lableSize_of_lt h]
    rfl
  · rw [lableSize_of_ge (not_lt.mp h)]
    simp
    omega

lemma wrapInt_eq {x : Int} (hlow : -2 ^ 31 ≤ x) (hhigh : x < 2 ^ 31) : wrapInt x = x := by
  unfold wrapInt
  omega

/-- A round of the loop ends it at an empty label, or goes over a label. -/
lemma parseNameLoopAccesses_round {buf : List UInt8} (hsize : 0 < size)
    (h : parseNameLoopAccesses buf (fuel + 1) pt size result = some (name, accesses)) :
    ∃ b, buf[pt]? = some b ∧ (b = 0 ∧ name = result ∧ accesses = [.read pt] ∨ b ≠ 0 ∧ ∃ r copied rest,
      strncatAccesses result buf (pt + 1) (lableSize b) = some (r, copied) ∧
      parseNameLoopAccesses buf fuel (pt + 1 + lableSize b) (wrapInt (size - lableSize b)) (r ++ [46]) =
        some (name, rest) ∧
      accesses = .read pt :: copied ++ strcatAccesses r ++ rest) := by
  rw [parseNameLoopAccesses, if_neg (not_le.mpr hsize)] at h
  obtain ⟨b, hb, h⟩ := Option.bind_eq_some_iff.mp h
  refine ⟨b, hb, ?_⟩
  split at h
  · rename_i hzero
    obtain ⟨rfl, rfl⟩ : result = name ∧ [Access.read pt] = accesses := by simpa using h
    exact Or.inl ⟨lableSize_eq_zero_iff.mp hzero, rfl, rfl⟩
  · rename_i hlable
    obtain ⟨⟨r, copied⟩, hcopy, h⟩ := Option.bind_eq_some_iff.mp h
    obtain ⟨⟨name', rest⟩, hrest, h⟩ := Option.bind_eq_some_iff.mp h
    obtain ⟨rfl, rfl⟩ : name' = name ∧ .read pt :: copied ++ strcatAccesses r ++ rest = accesses := by
      simpa using h
    exact Or.inr ⟨fun hzero => hlable (lableSize_eq_zero_iff.mpr hzero), r, copied, rest, hcopy, hrest, rfl⟩

/-- While bytes are left by its counter, the loop reads the next one. -/
lemma read_mem_accesses {buf : List UInt8} (hsize : 0 < size)
    (h : parseNameLoopAccesses buf fuel pt size result = some (name, accesses)) :
    pt < buf.length ∧ Access.read pt ∈ accesses := by
  cases fuel with
  | zero => cases h
  | succ fuel =>
    obtain ⟨b, hb, ⟨-, -, rfl⟩ | ⟨-, r, copied, rest, -, -, rfl⟩⟩ := parseNameLoopAccesses_round hsize h
    · exact ⟨(List.getElem?_eq_some_iff.mp hb).1, List.mem_cons_self⟩
    · exact ⟨(List.getElem?_eq_some_iff.mp hb).1, by simp⟩

/-- A NUL was written behind the last dot. -/
lemma write_mem_accesses {buf : List UInt8}
    (h : parseNameLoopAccesses buf fuel pt size result = some (name, accesses)) :
    name = result ∨ Access.write name.length ∈ accesses := by
  induction fuel generalizing pt size result accesses with
  | zero => cases h
  | succ fuel ih =>
    by_cases hsize : 0 < size
    · obtain ⟨b, -, ⟨-, rfl, -⟩ | ⟨-, r, copied, rest, -, hrest, rfl⟩⟩ := parseNameLoopAccesses_round hsize h
      · exact Or.inl rfl
      · refine Or.inr ?_
        rcases ih hrest with rfl | hmem
        · simp [strcatAccesses]
        · exact List.mem_append_right _ hmem
    · rw [parseNameLoopAccesses, if_pos (not_lt.mp hsize)] at h
      obtain ⟨rfl, -⟩ : result = name ∧ [] = accesses := by simpa using h
      exact Or.inl rfl

/-- Behind a length byte that is a negative `char` the pointer leaves the packet, and the counter grows. -/
lemma toNat_lt_of_accesses {b : UInt8} (hlen : (data ++ pad).length ≤ dnsMsgMaxLen) (hpt : pt ≤ data.length)
    (hk : k ≤ pt)
    (h : parseNameLoopAccesses (data ++ pad) fuel (pt + 1 + lableSize b)
      (wrapInt ((data.length - pt + k : Nat) - lableSize b)) result = some (name, accesses)) : b.toNat < 128 := by
  rw [List.length_append, dnsMsgMaxLen] at hlen
  by_contra hsigned
  have hbound := b.toNat_lt
  rw [lableSize_of_ge (not_lt.mp hsigned)] at h
  have hcounter : wrapInt (((data.length - pt + k : Nat) : Int) - (2 ^ 32 - 256 + b.toNat : Nat)) =
      ((data.length - pt + k : Nat) : Int) + 256 - b.toNat := by
    unfold wrapInt
    omega
  rw [hcounter] at h
  have hbehind := (read_mem_accesses (by omega) h).1
  rw [List.length_append] at hbehind
  omega

/-- A loop that reads received bytes only has gone over a name. -/
lemma nameAt_of_accesses (hlen : (data ++ pad).length ≤ dnsMsgMaxLen) (hpt : pt ≤ data.length) (hk : k ≤ pt)
    (hleft : pt < data.length ∨ 0 < k)
    (h : parseNameLoopAccesses (data ++ pad) fuel pt (data.length - pt + k : Nat) result = some (name, accesses))
    (hreads : ∀ i, Access.read i ∈ accesses → i < data.length) :
    ∃ text, NameAt k (data.drop pt) text ∧ name = result ++ text := by
  induction fuel generalizing pt k result accesses with
  | zero => cases h
  | succ fuel ih =>
    have hsize : 0 < ((data.length - pt + k : Nat) : Int) := by omega
    have hread := hreads pt (read_mem_accesses hsize h).2
    have hafter : pt + 1 ≤ data.length := hread
    rw [List.drop_eq_getElem_cons hread]
    obtain ⟨b, hb, hround⟩ := parseNameLoopAccesses_round hsize h
    rw [List.getElem?_append_left hread, List.getElem?_eq_getElem hread] at hb
    rw [Option.some.inj hb]
    rcases hround with ⟨rfl, rfl, -⟩ | ⟨hne, r, copied, rest, hcopy, hrest, rfl⟩
    · exact ⟨[], .stop k _, (List.append_nil _).symm⟩
    have hnext : ∀ i, Access.read i ∈ rest → i < data.length := fun i hi => hreads i (by simp [hi])
    have hdrop : (data.drop (pt + 1)).length = data.length - (pt + 1) := List.length_drop
    have hsigned := toNat_lt_of_accesses hlen hpt hk hrest
    rw [List.length_append, dnsMsgMaxLen] at hlen
    have hpos : b.toNat ≠ 0 := fun hzero => hne (UInt8.toNat_inj.mp hzero)
    rw [lableSize_of_lt hsigned] at hcopy hrest
    rw [wrapInt_eq (by omega) (by omega)] at hrest
    have hinside := received_of_strncatAccesses hafter hcopy fun i hi => hreads i (by simp [hi])
    obtain ⟨copied', hcopy', -⟩ := strncatAccesses_inside result pad hafter hinside
    obtain ⟨rfl, -⟩ := Prod.mk.injEq .. ▸ Option.some.inj (hcopy'.symm.trans hcopy)
    by_cases hfits : b.toNat ≤ data.length - (pt + 1)
    · have hcounter : ((data.length - pt + k : Nat) : Int) - b.toNat =
          (data.length - (pt + 1 + b.toNat) + (k + 1) : Nat) := by omega
      rw [hcounter] at hrest
      obtain ⟨text, htext, rfl⟩ := ih (by omega) (by omega) (Or.inr (Nat.succ_pos k)) hrest hnext
      have htake : ((data.drop (pt + 1)).take b.toNat).length = b.toNat := by
        rw [List.length_take, hdrop]
        omega
      have hwire : data.drop (pt + 1) = (data.drop (pt + 1)).take b.toNat ++ data.drop (pt + 1 + b.toNat) :=
        (List.take_append_drop b.toNat _).symm.trans (by rw [List.drop_drop])
      have hlabel := NameAt.label (l := (data.drop (pt + 1)).take b.toNat)
        (List.ne_nil_of_length_pos (by omega)) (by omega) htext
      rw [htake, ← hwire, Nat.toUInt8_eq, UInt8.ofNat_toNat] at hlabel
      exact ⟨_, hlabel, by simp⟩
    · have hnul := hinside.resolve_left (by rw [hdrop]; exact hfits)
      rw [List.take_of_length_le (by omega)] at hrest
      by_cases hover : ((data.length - pt + k : Nat) : Int) - b.toNat ≤ 0
      · refine ⟨cstr (data.drop (pt + 1)) ++ [46], .beyond hnul (by omega) (by omega), ?_⟩
        cases fuel with
        | zero => cases hrest
        | succ fuel =>
          rw [parseNameLoopAccesses, if_pos hover] at hrest
          obtain ⟨rfl, -⟩ : _ = name ∧ [] = rest := by simpa using hrest
          simp
      · -- the counter says that a byte is left, and there is none
        have hbehind := hnext _ (read_mem_accesses (not_le.mp hover) hrest).2
        omega

lemma getElem?_of_drop (pad : List UInt8) {b : UInt8} {rest : List UInt8} (h : data.drop pt = b :: rest) :
    pt < data.length ∧ (data ++ pad)[pt]? = some b ∧ data.drop (pt + 1) = rest := by
  have hlt : pt < data.length := by
    by_contra hge
    rw [List.drop_of_length_le (not_lt.mp hge)] at h
    cases h
  rw [List.drop_eq_getElem_cons hlt] at h
  obtain ⟨hb, hrest⟩ := List.cons.inj h
  rw [List.getElem?_append_left hlt, List.getElem?_eq_getElem hlt, hb]
  exact ⟨hlt, rfl, hrest⟩

/-- A label whose characters, up to a NUL, were received is gone over in bounds if what follows is. -/
lemma parseNameLoopAccesses_label {b : UInt8} {rest : List UInt8} (hdata : data.drop pt = b :: rest)
    (hne : b ≠ 0) (hsigned : b.toNat < 128) (hreceived : b.toNat ≤ rest.length ∨ 0 ∈ rest) (hk : k ≤ pt)
    (hlen : (data ++ pad).length ≤ dnsMsgMaxLen)
    (h : parseNameLoopAccesses (data ++ pad) fuel (pt + 1 + b.toNat)
      ((data.length - pt + k : Nat) - (b.toNat : Int)) (result ++ cstr (rest.take b.toNat) ++ [46]) =
        some (name, accesses))
    (hbounds : ∀ a ∈ accesses, a.InBounds data.length (name.length + 1))
    (hname : (result ++ cstr (rest.take b.toNat) ++ [46]).length ≤ name.length) :
    ∃ accesses, parseNameLoopAccesses (data ++ pad) (fuel + 1) pt (data.length - pt + k : Nat) result =
        some (name, accesses) ∧ ∀ a ∈ accesses, a.InBounds data.length (name.length + 1) := by
  obtain ⟨hlt, hb, hrest⟩ := getElem?_of_drop pad hdata
  rw [List.length_append, dnsMsgMaxLen] at hlen
  have hsize : ¬((data.length - pt + k : Nat) : Int) ≤ 0 := by omega
  have hlable : ¬lableSize b = 0 := fun hzero => hne (lableSize_eq_zero_iff.mp hzero)
  obtain ⟨copied, hcopy, hcopied⟩ := strncatAccesses_inside result pad (Nat.succ_le_of_lt hlt)
    (by rw [hrest]; exact hreceived)
  rw [hrest] at hcopy hcopied
  rw [parseNameLoopAccesses, if_neg hsize, hb, Option.bind_eq_bind, Option.bind_some, if_neg hlable,
    lableSize_of_lt hsigned, hcopy, wrapInt_eq (by omega) (by omega)]
  simp only [Option.bind_eq_bind, Option.bind_some, h]
  rw [List.length_append, List.length_singleton] at hname
  refine ⟨_, rfl, fun a ha => ?_⟩
  rw [List.cons_append, List.cons_append, List.mem_cons, List.mem_append, List.mem_append] at ha
  rcases ha with rfl | (ha | ha) | ha
  · exact hlt
  · exact (hcopied a ha).mono (by omega)
  · rw [strcatAccesses, List.mem_cons, List.mem_singleton] at ha
    rcases ha with rfl | rfl
    · exact ⟨Int.natCast_nonneg _, by push_cast; omega⟩
    · exact ⟨Int.natCast_nonneg _, by push_cast; omega⟩
  · exact hbounds a ha

/-- The loop goes over a name in bounds. -/
lemma accesses_of_nameAt (result : List UInt8) (fuel : Nat) {rest text : List UInt8}
    (hname : NameAt k rest text) (hrest : data.drop pt = rest)
    (hlen : (data ++ pad).length ≤ dnsMsgMaxLen) (hk : k ≤ pt) (hfuel : data.length - pt < fuel) :
    ∃ accesses, parseNameLoopAccesses (data ++ pad) fuel pt (data.length - pt + k : Nat) result =
        some (result ++ text, accesses) ∧ ∀ a ∈ accesses, a.InBounds data.length ((result ++ text).length + 1) := by
  induction hname generalizing pt result fuel with
  | stop k rest =>
    obtain ⟨hlt, hb, -⟩ := getElem?_of_drop pad hrest
    obtain ⟨fuel, rfl⟩ := Nat.exists_eq_add_of_lt hfuel
    have hsize : ¬((data.length - pt + k : Nat) : Int) ≤ 0 := by omega
    rw [parseNameLoopAccesses, if_neg hsize, hb, Option.bind_eq_bind, Option.bind_some,
      if_pos (lableSize_eq_zero_iff.mpr rfl), List.append_nil]
    refine ⟨_, rfl, fun a ha => ?_⟩
    rw [List.mem_singleton.mp ha]
    exact hlt
  | @label k l rest text hpos hsigned h ih =>
    obtain ⟨hlt, hb, hafter⟩ := getElem?_of_drop pad hrest
    have hbyte : l.length.toUInt8.toNat = l.length := by
      rw [Nat.toUInt8_eq, UInt8.toNat_ofNat']
      omega
    have hlpos : 0 < l.length := List.length_pos_of_ne_nil hpos
    have htotal : l.length + rest.length = data.length - (pt + 1) := by
      rw [← List.length_drop, hafter, List.length_append]
    have hnext : data.drop (pt + 1 + l.length) = rest := by
      rw [← List.drop_drop, hafter, List.drop_left]
    obtain ⟨fuel, rfl⟩ := Nat.exists_eq_add_of_lt hfuel
    obtain ⟨accesses, hloop, hbounds⟩ := ih (result ++ cstr l ++ [46])
      (data.length - pt + fuel) hnext (by omega) (by omega)
    have hcounter : ((data.length - pt + k : Nat) : Int) - (l.length : Int) =
        (data.length - (pt + 1 + l.length) + (k + 1) : Nat) := by omega
    have htake : (l ++ rest).take l.length = l := List.take_left
    have happend : result ++ cstr l ++ [46] ++ text = result ++ (cstr l ++ [46] ++ text) := by simp
    rw [happend] at hloop hbounds
    apply parseNameLoopAccesses_label hrest _ (by omega) (Or.inl _) hk hlen _ hbounds _
    · intro hzero
      rw [hzero] at hbyte
      exact absurd hbyte.symm hlpos.ne'
    · rw [hbyte, List.length_append]
      omega
    · rw [hbyte, hcounter, htake]
      exact hloop
    · rw [hbyte, htake, ← happend]
      exact (List.sublist_append_left _ text).length_le
  | @beyond k b rest hnul hsigned hsize =>
    obtain ⟨hlt, hb, hafter⟩ := getElem?_of_drop pad hrest
    have htotal : rest.length = data.length - (pt + 1) := by rw [← List.length_drop, hafter]
    have hall : rest.take b.toNat = rest := List.take_of_length_le (by omega)
    obtain ⟨fuel, rfl⟩ : ∃ n, fuel = n + 1 + 1 := ⟨fuel - 2, by omega⟩
    have hend : ((data.length - pt + k : Nat) : Int) - (b.toNat : Int) ≤ 0 := by omega
    have happend : result ++ cstr rest ++ [46] = result ++ (cstr rest ++ [46]) := List.append_assoc _ _ _
    apply parseNameLoopAccesses_label hrest _ (by omega) (Or.inr hnul) hk hlen _ (fun a ha => (List.not_mem_nil ha).elim)
    · rw [hall, happend]
    · intro hzero
      rw [hzero] at hsize
      exact absurd hsize (by simp)
    · rw [parseNameLoopAccesses, if_pos hend, hall, happend]

end Loop

/-! ## Requests -/

/-- The bytes of a datagram that are received. -/
def received (datagram : List UInt8) : List UInt8 := datagram.take dnsMsgMaxLen

/-- A header with which `dns_parse_request` goes on to the name. -/
def RequestAccepted (packet : List UInt8) : Prop :=
  ∃ header, loadHeader packet = some header ∧ dnsIsinvalid header true = false

/-- If the name of the request is read, its loop ends, what is returned is what `parse_name` returns, and
every access lies in the received bytes or in the 512 bytes of the name. -/
def NameInBounds (datagram : List UInt8) : Prop :=
  RequestAccepted (receive datagram) → ∃ name accesses,
    parseNameAccesses (receive datagram) sizeofHeader ((received datagram).length - sizeofHeader) =
      some (name, accesses) ∧
    parseName 512 (receive datagram) sizeofHeader ((received datagram).length - sizeofHeader) =
      some (name.length, name.dropLast) ∧
    ∀ a ∈ accesses, a.InBounds (received datagram).length 512

lemma receive_eq (datagram : List UInt8) : ∃ pad, receive datagram = received datagram ++ pad ∧
    (received datagram ++ pad).length ≤ dnsMsgMaxLen := by
  refine ⟨_, rfl, ?_⟩
  simp only [received, zeroPacket, List.length_append, List.length_take, List.length_replicate]
  omega

/-- The bytes after the header of a request are a name, with a text that is not empty and leaves room
for its end. -/
def HasName (datagram : List UInt8) : Prop :=
  ∃ text, NameAt 0 ((received datagram).drop sizeofHeader) text ∧ text ≠ [] ∧ text.length < 512

lemma hasName_of_inBounds {datagram : List UInt8} (haccepted : RequestAccepted (receive datagram))
    (h : NameInBounds datagram) : HasName datagram := by
  obtain ⟨name, accesses, haccesses, -, hbounds⟩ := h haccepted
  obtain ⟨pad, hpad, hlen⟩ := receive_eq datagram
  unfold HasName
  rw [hpad] at haccesses
  obtain ⟨data, hdata⟩ : ∃ data, received datagram = data := ⟨_, rfl⟩
  rw [hdata] at haccesses hbounds hlen ⊢
  obtain ⟨⟨name', loop⟩, hloop, h⟩ := Option.bind_eq_some_iff.mp haccesses
  obtain ⟨rfl, rfl⟩ : name' = name ∧ _ = accesses := by simpa using h
  have hend : (0 : Int) ≤ name'.length - 1 := (hbounds (.write (name'.length - 1)) (by simp)).1
  have hne : name' ≠ [] := by
    rintro rfl
    exact absurd hend (by decide)
  have hlong : sizeofHeader < data.length := by
    by_contra hshort
    rw [parseNameLoopAccesses, if_pos (by omega)] at hloop
    obtain ⟨rfl, -⟩ : [] = name' ∧ [] = loop := by simpa using hloop
    exact hne rfl
  have hsize : (data.length : Int) - sizeofHeader = (data.length - sizeofHeader + 0 : Nat) := by omega
  rw [hsize] at hloop
  obtain ⟨text, htext, rfl⟩ := nameAt_of_accesses hlen hlong.le (Nat.zero_le _) (Or.inl hlong) hloop
    fun i hi => hbounds (.read i) (by simp [hi])
  have hmem := (write_mem_accesses hloop).resolve_left hne
  have hroom := (hbounds _ (List.mem_cons_of_mem _ (List.mem_append_left _ hmem))).2
  exact ⟨_, htext, hne, by exact_mod_cast hroom⟩

lemma inBounds_of_hasName {datagram : List UInt8} (h : HasName datagram) : NameInBounds datagram := by
  intro _
  obtain ⟨pad, hpad, hlen⟩ := receive_eq datagram
  obtain ⟨text, htext, hne, hroom⟩ := h
  rw [hpad]
  obtain ⟨data, hdata⟩ : ∃ data, received datagram = data := ⟨_, rfl⟩
  rw [hdata] at htext hlen ⊢
  have hpt : sizeofHeader ≤ data.length := by
    by_contra hshort
    rw [List.drop_of_length_le (not_le.mp hshort).le] at htext
    cases htext
  have hsize : (data.length : Int) - sizeofHeader = (data.length - sizeofHeader + 0 : Nat) := by omega
  obtain ⟨accesses, hloop, hbounds⟩ := accesses_of_nameAt [] ((data ++ pad).length + 1)
    htext rfl hlen (Nat.zero_le _) (by rw [List.length_append]; omega)
  rw [List.nil_append] at hloop hbounds
  have hpos := List.length_pos_of_ne_nil hne
  have hcall : parseNameAccesses (data ++ pad) sizeofHeader (data.length - sizeofHeader) =
      some (text, .write 0 :: accesses ++ [.write (text.length - 1 : Int)]) := by
    rw [parseNameAccesses, hsize, hloop]
    rfl
  have hall : ∀ a ∈ .write 0 :: accesses ++ [.write (text.length - 1 : Int)], a.InBounds data.length 512 := by
    intro a ha
    rw [List.cons_append, List.mem_cons, List.mem_append, List.mem_singleton] at ha
    rcases ha with rfl | ha | rfl
    · exact ⟨le_rfl, by decide⟩
    · exact (hbounds a ha).mono hroom
    · exact ⟨by omega, by omega⟩
  exact ⟨text, _, hcall, parseName_of_accesses hcall hall, hall⟩

/-- Reading a name stays in bounds exactly when the header is refused or there is a name that fits. -/
theorem name_in_bounds_iff (datagram : List UInt8) :
    NameInBounds datagram ↔ (RequestAccepted (receive datagram) → HasName datagram) := by
  constructor
  · exact fun h haccepted => hasName_of_inBounds haccepted h
  · exact fun h haccepted => inBounds_of_hasName (h haccepted) haccepted

section Example

/-- A request that ends with its header. -/
def emptyRequest : List UInt8 := (requestHeader 1).toBytes

/-- For a request without a name the place before the name is written. -/
theorem empty_name_out_of_bounds : ¬∀ datagram, NameInBounds datagram := by
  intro h
  have hlen : emptyRequest.length = 12 := rfl
  have haccepted : RequestAccepted (receive emptyRequest) := by
    refine ⟨requestHeader 1, ?_, by decide⟩
    rw [receive, List.take_of_length_le (by rw [hlen, dnsMsgMaxLen]; omega)]
    exact loadHeader_toBytes (requestHeader 1) _
  obtain ⟨text, htext, -, -⟩ := hasName_of_inBounds haccepted (h emptyRequest)
  have hnone : (received emptyRequest).drop sizeofHeader = [] := by
    rw [received, List.take_of_length_le (by rw [hlen, dnsMsgMaxLen]; omega)]
    rfl
  rw [hnone] at htext
  cases htext

end Example

end VideoCDN.Nameserver
