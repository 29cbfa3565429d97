import VideoCDN.Reference.Interop

/-!
# The two coders of a question

`generate_question` and `genMessage` write the same question for every text: the pieces between
the dots, each after its length, whether or not they are empty.
-/

namespace VideoCDN.Reference

open CString Buffer Dns

/-! ## The pieces of a text -/

lemma joinDots_eq_intercalate (ls : List Str) : joinDots ls = [46].intercalate ls := by
  induction ls with
  | nil => rfl
  | cons l ls ih =>
    cases ls with
    | nil => simp [joinDots]
    | cons m ls => simp [joinDots, ih]

lemma joinDots_splitOn (name : Str) : joinDots (name.splitOn 46) = name := by
  rw [joinDots_eq_intercalate, List.intercalate_splitOn]

lemma not_mem_of_mem_splitOn {sep : UInt8} {name : Str} : ∀ l ∈ name.splitOn sep, ∀ c ∈ l, c ≠ sep := by
  induction name with
  | nil => simp
  | cons x name ih =>
    intro l hl
    rw [List.splitOn_cons_eq_if_modifyHead] at hl
    split at hl
    · rcases List.mem_cons.mp hl with rfl | hl
      · simp
      · exact ih l hl
    · rename_i hx
      obtain ⟨m, ms, hms⟩ := List.exists_cons_of_ne_nil (List.splitOn_ne_nil sep name)
      rw [hms] at ih hl
      rcases List.mem_cons.mp hl with rfl | hl
      · intro c hc
        rcases List.mem_cons.mp hc with rfl | hc
        · simpa using hx
        · exact ih m List.mem_cons_self c hc
      · exact ih l (List.mem_cons_of_mem m hl)

lemma length_questionBytes (name : Str) : (questionBytes (name.splitOn 46)).length = name.length + 6 := by
  rw [questionBytes, List.length_append, length_wireName_of_ne_nil (List.splitOn_ne_nil 46 name), joinDots_splitOn]
  rfl

/-! ## Where the C coder writes -/

lemma translateNameLoop_length {base total labelLen : Nat} {addr result : List UInt8} {r : Nat × Nat × List UInt8}
    (h : translateNameLoop base addr total labelLen result = some r) :
    r.1 + r.2.1 = total + labelLen + addr.length ∧ r.2.2.length = result.length := by
  induction addr generalizing total labelLen result with
  | nil =>
    obtain rfl := Option.some.inj h
    exact ⟨rfl, rfl⟩
  | cons c addr ih =>
    rw [translateNameLoop] at h
    rw [List.length_cons]
    split at h
    · obtain ⟨buf, hstore, h⟩ := Option.bind_eq_some_iff.mp h
      obtain ⟨hsum, hlen⟩ := ih h
      exact ⟨by omega, hlen.trans (store_length hstore)⟩
    · obtain ⟨buf, hstore, h⟩ := Option.bind_eq_some_iff.mp h
      obtain ⟨hsum, hlen⟩ := ih h
      exact ⟨by omega, hlen.trans (store_length hstore)⟩

/-- Without room for the whole question the coder leaves the array. -/
lemma generateQuestion_room {base : Nat} {name result : List UInt8} {r : Nat × List UInt8}
    (h : generateQuestion base name result = some r) : base + (name.length + 6) ≤ result.length := by
  simp only [generateQuestion, translateName, Option.bind_eq_bind, Option.bind_eq_some_iff, Option.pure_def,
    Option.some.injEq] at h
  obtain ⟨written, ⟨⟨total, labelLen, buf⟩, hloop, buf₁, hlabel, buf₂, hend, rfl⟩, buf₃, hblit, -⟩ := h
  obtain ⟨hsum, hlen⟩ := translateNameLoop_length hloop
  dsimp only at hsum hlen hlabel hend
  have hlen' : buf₂.length = result.length := (store_length hend).trans ((store_length hlabel).trans hlen)
  unfold blit at hblit
  split at hblit
  · rename_i hfits
    rw [hlen', List.length_append, length_bytesOf16, length_bytesOf16] at hfits
    dsimp only at hfits
    omega
  · cases hblit

/-- The question of a text is copied into the array, if it has room. -/
lemma generateQuestion_splitOn (base : Nat) (name result : List UInt8) :
    generateQuestion base name result =
      (blit result base (questionBytes (name.splitOn 46))).map fun written => (name.length + 6, written) := by
  have hlen := length_questionBytes name
  by_cases hroom : base + (name.length + 6) ≤ result.length
  · have hsplit : result = result.take base ++ (result.drop base).take (name.length + 6) ++
        result.drop (base + (name.length + 6)) := by
      rw [← List.drop_drop, List.append_assoc, List.take_append_drop, List.take_append_drop]
    have hbase : (result.take base).length = base := by
      rw [List.length_take]
      omega
    have hold : ((result.drop base).take (name.length + 6)).length = name.length + 6 := by
      rw [List.length_take, List.length_drop]
      omega
    have hcoder := generateQuestion_joinDots (name.splitOn 46) (List.splitOn_ne_nil 46 name) not_mem_of_mem_splitOn
      (result.take base) ((result.drop base).take (name.length + 6)) (result.drop (base + (name.length + 6)))
      (by rw [joinDots_splitOn, hold])
    rw [joinDots_splitOn, ← hsplit, hbase] at hcoder
    rw [hcoder, blit_at result (result.take base) ((result.drop base).take (name.length + 6))
      (result.drop (base + (name.length + 6))) _ base hsplit hbase.symm (hlen.trans hold.symm), Option.map_some]
  · have hblit : blit result base (questionBytes (name.splitOn 46)) = none := by
      rw [blit, hlen, if_neg hroom]
    rw [hblit, Option.map_none]
    apply Option.eq_none_iff_forall_ne_some.mpr
    exact fun r h => hroom (generateQuestion_room h)

/-! ## Where the reference implementation writes -/

/-- A message is a header of twelve bytes, the question and, in a response, an answer. -/
lemma genMessage_question {order : DictOrder} {name : Str} {query : Bool} {choice : Choice} {g g' : Globals}
    {message wire : List UInt8} {addr : List Nat} (hname : questionName name = some wire)
    (h : genMessage order name query choice g = some (message, addr, g')) :
    ∃ header answer, header.length = 12 ∧ message = header ++ (wire ++ [0, 1, 0, 1]) ++ answer ∧
      (query = true → answer = []) := by
  have hpack : ∀ {n packed}, packS n = some packed → packed.length = 2 := by
    intro n packed hpacked
    unfold packS at hpacked
    split at hpacked
    · obtain rfl := Option.some.inj hpacked
      rfl
    · cases hpacked
  have hone : packS 1 = some [0, 1] := by decide
  obtain ⟨transId, htransId, h⟩ := Option.bind_eq_some_iff.mp h
  obtain ⟨flags, hflags, h⟩ := Option.bind_eq_some_iff.mp h
  obtain ⟨questions, hquestions, h⟩ := Option.bind_eq_some_iff.mp h
  obtain ⟨answers, hanswers, h⟩ := Option.bind_eq_some_iff.mp h
  obtain ⟨authority, hauthority, h⟩ := Option.bind_eq_some_iff.mp h
  obtain ⟨additional, hadditional, h⟩ := Option.bind_eq_some_iff.mp h
  obtain ⟨wire', hwire, h⟩ := Option.bind_eq_some_iff.mp h
  obtain ⟨qtype, hqtype, h⟩ := Option.bind_eq_some_iff.mp h
  obtain ⟨qclass, hqclass, h⟩ := Option.bind_eq_some_iff.mp h
  obtain rfl := Option.some.inj (hname.symm.trans hwire)
  obtain rfl := Option.some.inj (hone.symm.trans hqtype)
  obtain rfl := Option.some.inj (hone.symm.trans hqclass)
  have hheader : (transId ++ flags ++ questions ++ answers ++ authority ++ additional).length = 12 := by
    simp only [List.length_append, hpack htransId, hpack hflags, hpack hquestions, hpack hanswers, hpack hauthority,
      hpack hadditional]
  cases query with
  | true =>
    obtain ⟨rfl, -⟩ := Prod.mk.injEq .. ▸ Option.some.inj h
    exact ⟨_, [], hheader, by simp, fun _ => rfl⟩
  | false =>
    obtain ⟨r, -, h⟩ := Option.bind_eq_some_iff.mp h
    obtain ⟨rrAddr, -, h⟩ := Option.bind_eq_some_iff.mp h
    obtain ⟨answer, -, h⟩ := Option.bind_eq_some_iff.mp h
    obtain ⟨rfl, -⟩ := Prod.mk.injEq .. ▸ Option.some.inj h
    exact ⟨_, answer, hheader, by simp, fun hquery => absurd hquery (by decide)⟩

/-- For every text with pieces of at most 255 bytes between its dots: what `generate_question` copies
into an array, if it has room, follows the header of every message of `genMessage`, and is all of a
query; a process that has just started makes one. -/
theorem question_coders_agree (name : Str) (hlabels : ∀ l ∈ name.splitOn 46, l.length ≤ 255) :
    ∃ question : List UInt8,
      (∀ base result, generateQuestion base name result =
        (blit result base question).map fun written => (question.length, written)) ∧
      (∀ order query choice g message addr g', genMessage order name query choice g = some (message, addr, g') →
        ∃ header answer, header.length = 12 ∧ message = header ++ question ++ answer ∧
          (query = true → answer = [])) ∧
      ∀ order choice (id : UInt16), ∃ header g', header.length = 12 ∧
        genMessage order name true choice (Globals.start id.toNat) = some (header ++ question, [], g') := by
  have hne := List.splitOn_ne_nil 46 name
  have hdots : ∀ l ∈ name.splitOn 46, ∀ c ∈ l, c ≠ 46 := not_mem_of_mem_splitOn
  have hsize : ∀ l ∈ name.splitOn 46, l.length < 256 := fun l hl => Nat.lt_succ_of_le (hlabels l hl)
  refine ⟨questionBytes (name.splitOn 46), fun base result => ?_, ?_, fun order choice id => ?_⟩
  · rw [generateQuestion_splitOn, length_questionBytes]
  · intro order query choice g message addr g' h
    have hname := questionName_joinDots (name.splitOn 46) hne hdots hsize
    rw [joinDots_splitOn] at hname
    exact genMessage_question hname h
  · have h := genMessage_query_joinDots order (name.splitOn 46) hne hdots hsize choice id
    rw [joinDots_splitOn] at h
    exact ⟨_, _, DnsHeader.length_toBytes _, h⟩

section Example

/-- Leading, doubled and trailing dots. -/
def dottedName : Str := joinDots [[], bytes "a", [], bytes "b", []]

lemma splitOn_dottedName : dottedName.splitOn 46 = [[], bytes "a", [], bytes "b", []] := by
  rw [dottedName, joinDots_eq_intercalate, List.splitOn_intercalate _ (by decide) (by decide)]

theorem question_coders_agree_dotted : ∃ question : List UInt8,
    (∀ base result, generateQuestion base dottedName result =
      (blit result base question).map fun written => (question.length, written)) ∧
    (∀ order query choice g message addr g', genMessage order dottedName query choice g = some (message, addr, g') →
      ∃ header answer, header.length = 12 ∧ message = header ++ question ++ answer ∧ (query = true → answer = [])) ∧
    ∀ order choice (id : UInt16), ∃ header g', header.length = 12 ∧
      genMessage order dottedName true choice (Globals.start id.toNat) = some (header ++ question, [], g') :=
  question_coders_agree dottedName (by rw [splitOn_dottedName]; decide)

end Example

end VideoCDN.Reference
