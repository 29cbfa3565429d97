import VideoCDN.Http.Forwarding

/-!
# The rewriting of a manifest request

`replace_f4m_to_nolist` moves the text behind `.f4m ` up to make room for the longer name. The number
of bytes moved is counted from the old name, so bytes behind the terminator are moved too.
-/

namespace VideoCDN.Http

open CString Buffer

/-! ## The rewriting in place -/

/-- `replace_f4m_to_nolist` on a buffer all of whose bytes are listed. -/
def replaceF4mToNolistIn (f4mRequest : List UInt8) : Option (Int × List UInt8) :=
  if 0 ∉ f4mRequest then none
  else
    let s := cstr f4mRequest
    match strstr (bytes ".f4m ") s with
    | none => some (0, f4mRequest)
    | some pt => do
      let length := s.length - pt
      let moved ← move f4mRequest (pt + 12) (pt + 5) length
      let f4mRequest ← blit moved pt (bytes "_nolist.f4m ")
      return (1, f4mRequest)

/-- The move takes the rest of the string, its terminator and four bytes more. -/
lemma move_rest (pre post : List UInt8) {after : List UInt8} (hroom : 11 ≤ after.length) :
    ∃ gap, gap.length = 12 ∧
      move (pre ++ bytes ".f4m " ++ post ++ 0 :: after) (pre.length + 12) (pre.length + 5) (5 + post.length) =
        some (pre ++ gap ++ (post ++ 0 :: (after.take 4 ++ after.drop 11))) := by
  have hneedle : (bytes ".f4m ").length = 5 := rfl
  have hsource : ((pre ++ bytes ".f4m " ++ post ++ 0 :: after).drop (pre.length + 5)).take (5 + post.length) =
      post ++ 0 :: after.take 4 := by
    have hskip : pre.length + 5 = (pre ++ bytes ".f4m ").length := by rw [List.length_append, hneedle]
    rw [List.append_assoc, hskip, List.drop_left, Nat.add_comm 5, List.take_length_add_append, List.take_succ_cons]
  have hfront : (pre ++ bytes ".f4m " ++ post ++ 0 :: after).take (pre.length + 12) =
      pre ++ (bytes ".f4m " ++ post ++ 0 :: after).take 12 := by
    rw [List.append_assoc, List.append_assoc, List.take_length_add_append, List.append_assoc]
  have hback : (pre ++ bytes ".f4m " ++ post ++ 0 :: after).drop
      (pre.length + 12 + (post ++ 0 :: after.take 4).length) = after.drop 11 := by
    have hsplit : pre ++ bytes ".f4m " ++ post ++ 0 :: after = (pre ++ bytes ".f4m " ++ post ++ [0]) ++ after := by
      simp
    have hcount : pre.length + 12 + (post ++ 0 :: after.take 4).length =
        (pre ++ bytes ".f4m " ++ post ++ [0]).length + 11 := by
      simp only [List.length_append, List.length_cons, List.length_take, List.length_nil, hneedle]
      omega
    rw [hsplit, hcount, List.drop_length_add_append]
  have hlength : (pre ++ bytes ".f4m " ++ post ++ 0 :: after).length =
      pre.length + 5 + post.length + 1 + after.length := by
    simp only [List.length_append, List.length_cons, hneedle]
    omega
  refine ⟨(bytes ".f4m " ++ post ++ 0 :: after).take 12, ?_, ?_⟩
  · simp only [List.length_take, List.length_append, List.length_cons, hneedle]
    omega
  · rw [move, if_pos (by omega), hsource, blit, if_pos, hfront, hback]
    · simp only [List.append_assoc, List.cons_append]
    · simp only [List.length_append, List.length_cons, List.length_take] at hlength ⊢
      omega

lemma replaceF4mToNolistIn_found {pre post after : List UInt8} (hs : IsString (pre ++ bytes ".f4m " ++ post))
    (hfirst : ∀ j < pre.length, ¬bytes ".f4m " <+: (pre ++ bytes ".f4m " ++ post).drop j)
    (hroom : 11 ≤ after.length) :
    replaceF4mToNolistIn (pre ++ bytes ".f4m " ++ post ++ 0 :: after) =
      some (1, pre ++ bytes "_nolist.f4m " ++ post ++ 0 :: (after.take 4 ++ after.drop 11)) := by
  obtain ⟨gap, hgap, hmove⟩ := move_rest pre post hroom
  have hlength : (pre ++ bytes ".f4m " ++ post).length - pre.length = 5 + post.length := by
    have hneedle : (bytes ".f4m ").length = 5 := rfl
    rw [List.length_append, List.length_append, hneedle]
    omega
  have hterminated : ¬0 ∉ pre ++ bytes ".f4m " ++ post ++ 0 :: after := by simp
  have hblit := blit_at _ pre gap (post ++ 0 :: (after.take 4 ++ after.drop 11)) (bytes "_nolist.f4m ") pre.length
    rfl rfl hgap.symm
  rw [replaceF4mToNolistIn, if_neg hterminated, cstr_append_zero _ _ hs]
  simp only [strstr_append _ _ _ hfirst, hlength, hmove, hblit, Option.bind_eq_bind, Option.bind_some,
    Option.pure_def]
  rw [List.append_assoc (pre ++ bytes "_nolist.f4m ")]

lemma replaceF4mToNolistIn_not_found {s : List UInt8} (after : List UInt8) (hs : IsString s)
    (hno : ¬bytes ".f4m " <:+: s) : replaceF4mToNolistIn (s ++ 0 :: after) = some (0, s ++ 0 :: after) := by
  have hterminated : ¬0 ∉ s ++ 0 :: after := by simp
  rw [replaceF4mToNolistIn, if_neg hterminated, cstr_append_zero _ _ hs]
  simp only [(strstr_eq_none_iff _ _).mpr hno]

lemma isString_nolist {pre post : List UInt8} (h : IsString (pre ++ bytes ".f4m " ++ post)) :
    IsString (pre ++ bytes "_nolist.f4m " ++ post) := by
  have hpre : IsString pre := fun b hb => h b (by simp [hb])
  have hpost : IsString post := fun b hb => h b (by simp [hb])
  exact (hpre.append (by decide)).append hpost

lemma replaceF4mToNolistIn_spec {s : List UInt8} (hs : IsString s) (after : List UInt8)
    (hfound : bytes ".f4m " <:+: s) (hroom : 11 ≤ after.length) :
    ∃ after', replaceF4mToNolistIn (s ++ 0 :: after) =
        some (1, replaceFirst (bytes ".f4m ") (bytes "_nolist.f4m ") s ++ 0 :: after') ∧
      IsString (replaceFirst (bytes ".f4m ") (bytes "_nolist.f4m ") s) ∧
      (replaceFirst (bytes ".f4m ") (bytes "_nolist.f4m ") s).length = s.length + 7 ∧
      after'.length + 7 = after.length := by
  obtain ⟨pre, post, rfl, hfirst⟩ := exists_first_occurrence hfound
  rw [replaceFirst_eq _ hfirst]
  refine ⟨after.take 4 ++ after.drop 11, replaceF4mToNolistIn_found hs hfirst hroom, isString_nolist hs, ?_, ?_⟩
  · have hold : (bytes ".f4m ").length = 5 := rfl
    have hnew : (bytes "_nolist.f4m ").length = 12 := rfl
    simp only [List.length_append, hold, hnew]
    omega
  · rw [List.length_append, List.length_take, List.length_drop]
    omega

/-- The string in the buffer is rewritten, whatever follows it. -/
theorem nolist_rewrite_in_place {s : List UInt8} (hs : IsString s) (after : List UInt8) :
    (bytes ".f4m " <:+: s → 11 ≤ after.length →
      ∃ after', replaceF4mToNolistIn (s ++ 0 :: after) =
          some (1, replaceFirst (bytes ".f4m ") (bytes "_nolist.f4m ") s ++ 0 :: after') ∧
        IsString (replaceFirst (bytes ".f4m ") (bytes "_nolist.f4m ") s) ∧
        (replaceFirst (bytes ".f4m ") (bytes "_nolist.f4m ") s).length = s.length + 7 ∧
        after'.length + 7 = after.length) ∧
      (¬bytes ".f4m " <:+: s → replaceF4mToNolistIn (s ++ 0 :: after) = some (0, s ++ 0 :: after)) :=
  ⟨replaceF4mToNolistIn_spec hs after, replaceF4mToNolistIn_not_found after hs⟩

theorem nolist_rewrite_in_place_stale :
    ∃ after', replaceF4mToNolistIn (bytes "GET /a.f4m b" ++ 0 :: bytes "stale bytes") =
        some (1, bytes "GET /a_nolist.f4m b" ++ 0 :: after') ∧ after'.length = 4 := by
  have hstring : IsString (bytes "GET /a.f4m b") := by decide
  obtain ⟨hfound, -⟩ := nolist_rewrite_in_place hstring (bytes "stale bytes")
  obtain ⟨after', hrewrite, -, -, hlength⟩ := hfound (by decide) (by decide)
  refine ⟨after', hrewrite, ?_⟩
  have hstale : (bytes "stale bytes").length = 11 := rfl
  omega

/-! ## The buffer of the connection -/

lemma cstr_fetch_of_mem {buf : List UInt8} {n : Nat} (h : 0 ∈ fetch buf 0 n) : cstr (fetch buf 0 n) = cstr buf := by
  rcases le_total buf.length n with hle | hle
  · rw [fetch_eq_append hle, cstr_append_zeros]
  · rw [fetch_eq_take_drop buf (by omega), List.drop_zero] at h ⊢
    conv_rhs => rw [← List.take_append_drop n buf]
    rw [cstr_append_of_mem h]

lemma cstr_of_fetch {buf s after : List UInt8} {n : Nat} (hs : IsString s) (h : fetch buf 0 n = s ++ 0 :: after) :
    cstr buf = s := by
  have hterminated : 0 ∈ fetch buf 0 n := by
    rw [h]
    simp
  rw [← cstr_fetch_of_mem hterminated, h, cstr_append_zero s after hs]

lemma cstr_fetch {buf : List UInt8} {n : Nat} (h : buf.length ≤ n) : cstr (fetch buf 0 n) = cstr buf := by
  rw [fetch_eq_append h, cstr_append_zeros]

lemma move_fetch (buf : List UInt8) (dst src n m : Nat) (hsrc : src ≤ dst) :
    move (fetch buf 0 m) dst src n =
      if m < dst + n then none else some (fetch (put buf dst (fetch buf src n)) 0 m) := by
  rw [move, length_fetch]
  by_cases hfits : m < dst + n
  · rw [if_pos hfits]
    split
    · rename_i hread
      rw [take_drop_fetch buf hread, blit, if_neg (by rw [length_fetch, length_fetch]; omega)]
    · rfl
  · rw [if_neg hfits, if_pos (by omega), take_drop_fetch buf (by omega), blit_fetch]
    rw [length_fetch]
    omega

/-- The rewriting is the one in place, with the zeros behind the listed bytes. -/
lemma replaceF4mToNolist_in_place {f4mRequest saved : List UInt8} {ret : Int} {n : Nat}
    (hsize : f4mRequest.length ≤ n) (hmax : maxReqSize ≤ n) (h : replaceF4mToNolist f4mRequest = some (ret, saved)) :
    replaceF4mToNolistIn (fetch f4mRequest 0 n) = some (ret, fetch saved 0 n) := by
  unfold replaceF4mToNolist at h
  dsimp only at h
  split at h
  · cases h
  rename_i hshort
  have hterminated : ¬0 ∉ fetch f4mRequest 0 n := by
    rw [zero_notMem_iff, cstr_fetch hsize, length_fetch]
    omega
  rw [replaceF4mToNolistIn, if_neg hterminated, cstr_fetch hsize]
  cases hfind : strstr (bytes ".f4m ") (cstr f4mRequest) with
  | none =>
    rw [hfind] at h
    obtain ⟨rfl, rfl⟩ := Prod.mk.inj (Option.some.inj h)
    simp only [hfind]
  | some pt =>
    simp only [hfind] at h
    split at h
    · cases h
    · rename_i hfits
      obtain ⟨rfl, rfl⟩ := Prod.mk.inj (Option.some.inj h)
      have hmoved : ¬n < pt + 12 + ((cstr f4mRequest).length - pt) := by omega
      have hname : pt + (bytes "_nolist.f4m ").length ≤ n := by
        have hnew : (bytes "_nolist.f4m ").length = 12 := rfl
        omega
      simp only [hfind, move_fetch _ _ _ _ _ (Nat.add_le_add_left (by decide : 5 ≤ 12) pt), if_neg hmoved,
        Option.bind_eq_bind, Option.bind_some, blit_fetch _ _ hname, Option.pure_def]

/-- There has to be room for seven bytes more, and for the bytes that are moved with the text. -/
lemma replaceF4mToNolist_isSome_iff {f4mRequest : List UInt8} (hfound : bytes ".f4m " <:+: cstr f4mRequest) :
    (replaceF4mToNolist f4mRequest).isSome ↔ (cstr f4mRequest).length + 12 ≤ maxReqSize := by
  obtain ⟨pt, hpt⟩ := Option.isSome_iff_exists.mp ((strstr_isSome_iff _ _).mpr hfound)
  obtain ⟨hle, -, -⟩ := (strstr_eq_some_iff _ _ _).mp hpt
  unfold replaceF4mToNolist
  simp only [hpt]
  split_ifs with hlong hroom
  · simp only [Option.isSome_none, Bool.false_eq_true, false_iff]
    omega
  · simp only [Option.isSome_none, Bool.false_eq_true, false_iff]
    omega
  · simp only [Option.isSome_some, true_iff]
    omega

/-- The string left in the buffer. -/
lemma cstr_replaceF4mToNolist {f4mRequest saved : List UInt8} {ret : Int}
    (h : replaceF4mToNolist f4mRequest = some (ret, saved)) :
    cstr saved = replaceFirst (bytes ".f4m ") (bytes "_nolist.f4m ") (cstr f4mRequest) := by
  have hsize := Nat.le_max_left f4mRequest.length maxReqSize
  have hmax := Nat.le_max_right f4mRequest.length maxReqSize
  obtain ⟨n, hn⟩ : ∃ n, max f4mRequest.length maxReqSize = n := ⟨_, rfl⟩
  rw [hn] at hsize hmax
  have hin := replaceF4mToNolist_in_place hsize hmax h
  have hmem : 0 ∈ fetch f4mRequest 0 n := by
    by_contra hno
    rw [replaceF4mToNolistIn, if_pos hno] at hin
    cases hin
  obtain ⟨after, hafter⟩ := exists_cstr_append hmem
  have hlength := congrArg List.length hafter
  rw [cstr_fetch hsize] at hafter hlength
  rw [length_fetch, List.length_append, List.length_cons] at hlength
  rw [hafter] at hin
  by_cases hfound : bytes ".f4m " <:+: cstr f4mRequest
  · have hroom := (replaceF4mToNolist_isSome_iff hfound).mp (by rw [h]; rfl)
    obtain ⟨after', hrewrite, hstring, -⟩ := replaceF4mToNolistIn_spec (isString_cstr _) after hfound (by omega)
    obtain ⟨-, hsaved⟩ := Prod.mk.inj (Option.some.inj (hin.symm.trans hrewrite))
    exact cstr_of_fetch hstring hsaved
  · have hrewrite := replaceF4mToNolistIn_not_found after (isString_cstr _) hfound
    obtain ⟨-, hsaved⟩ := Prod.mk.inj (Option.some.inj (hin.symm.trans hrewrite))
    rw [cstr_of_fetch (isString_cstr _) hsaved, replaceFirst, (strstr_eq_none_iff _ _).mpr hfound]

end VideoCDN.Http
