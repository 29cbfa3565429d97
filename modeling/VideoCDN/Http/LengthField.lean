import VideoCDN.Http.HeaderEnd
import VideoCDN.Http.Reading

/-!
# The length of a response

`parse_reponse` does not look for the field of a length but for the text `content-length: `, and not
in the header section but in the whole string of the buffer.
-/

namespace VideoCDN.Http

open CString

/-- The number of a line `Content-Length: n`, in any letter case and with any blanks around it. -/
def fieldLength (line : List UInt8) : Option Nat :=
  let value := trim (line.dropWhile (· ≠ 58)).tail
  if strcaseeq (line.takeWhile (· ≠ 58)) (bytes "Content-Length") ∧ value ≠ [] ∧ value.all isdigit then
    some (digitsVal value)
  else none

/-- The number of the first such line of a header section. -/
def lengthField (header : List UInt8) : Option Nat := (headLines [] header).findSome? fieldLength

/-- The `content-length: ` that is found, and the end of its line, are in the first `size` bytes. -/
def FindsInside (buffer : List UInt8) (size : Nat) : Prop :=
  ∀ i k, strcasestr (bytes "content-length: ") (cstr buffer) = some i →
    strstr crlf ((cstr buffer).drop (i + 16)) = some k → i + 16 + k + crlf.length ≤ size

/-- The length is the expected one, and zero or an error where none is. -/
def Request.HasLength (request : Request) : Option Nat → Prop
  | some n => request.status = success ∧ request.contentLength = n
  | none => request.status ≠ success ∨ request.contentLength = 0

/-- The call returns with the length of the field, and does not read it behind the header section. -/
def SetsLength (buffer : List UInt8) (size : Nat) (header : List UInt8) : Prop :=
  ∃ request, parseReponse buffer size = some request ∧ request.HasLength (lengthField header) ∧
    (request.status = success → FindsInside buffer header.length)

lemma Request.hasLength_iff {request : Request} (h : request.status = success) (expected : Option Nat) :
    request.HasLength expected ↔ request.contentLength = (expected.getD 0 : Nat) := by
  cases expected with
  | none => simp [HasLength, h]
  | some n => simp [HasLength, h]

/-- A number read from the string of a buffer, inside its first bytes, is stated by these bytes. -/
lemma contentLength_inside_iff (header rest : List UInt8) (n : Int) :
    contentLength (header ++ rest) = some n ∧ FindsInside (header ++ rest) header.length ↔
      StatesLength (cstr header) n := by
  rw [contentLength_eq_some_iff]
  unfold FindsInside
  rcases cstr_append_cases header rest with hnul | hstring
  · rw [hnul]
    constructor
    · exact And.left
    · intro h
      have hinside := (h.append []).2
      rw [List.append_nil] at hinside
      refine ⟨h, fun i k hi hk => (hinside i k hi hk).trans ?_⟩
      exact (cstr_prefix_self header).length_le
  · have hheader : IsString header := by
      rw [← hstring]
      exact isString_cstr header
    rw [hstring, cstr_append header rest hheader]
    constructor
    · rintro ⟨h, hinside⟩
      exact h.of_append hinside
    · intro h
      exact h.append (cstr rest)

/-- The length is set as it should be exactly when the first `content-length: ` of the header section
is followed by the number of its field, or by zero where there is no field; where the end of the header
section is not found, only a missing field is dealt with. -/
theorem sets_length_iff {buffer : List UInt8} {size k : Nat}
    (hcomplete : strstr emptyLine (buffer.take size) = some k) :
    SetsLength buffer size (buffer.take (k + emptyLine.length)) ↔
      if (scanHeader .start (buffer.take size) 0).1 = .crlfcrlf then
        StatesLength (cstr (buffer.take (k + emptyLine.length)))
          ((lengthField (buffer.take (k + emptyLine.length))).getD 0 : Nat)
      else lengthField (buffer.take (k + emptyLine.length)) = none := by
  obtain ⟨header, rest, hbuffer, htake, hlen⟩ : ∃ header rest, buffer = header ++ rest ∧
      buffer.take (k + emptyLine.length) = header ∧ header.length = k + emptyLine.length := by
    refine ⟨_, _, (List.take_append_drop (k + emptyLine.length) buffer).symm, rfl, ?_⟩
    have hle := (strstr_append_of_eq_some hcomplete []).2
    rw [List.length_take] at hle
    rw [List.length_take]
    omega
  obtain ⟨s, i, hscan⟩ : ∃ s i, scanHeader .start (buffer.take size) 0 = (s, i) := ⟨_, _, rfl⟩
  rw [htake, hscan]
  unfold SetsLength parseReponse
  simp only [hscan]
  split
  · -- the end is found, here or behind a later line
    rw [← contentLength_inside_iff header rest, ← hbuffer]
    simp only [Option.bind_eq_bind, Option.bind_eq_some_iff, Option.pure_def, Option.some.injEq]
    constructor
    · rintro ⟨request, ⟨n, hn, rfl⟩, hvalue, hinside⟩
      rw [Request.hasLength_iff rfl] at hvalue
      obtain rfl : n = ((lengthField header).getD 0 : Nat) := hvalue
      exact ⟨hn, hinside rfl⟩
    · rintro ⟨hn, hinside⟩
      exact ⟨_, ⟨_, hn, rfl⟩, (Request.hasLength_iff rfl _).mpr rfl, fun _ => hinside⟩
  · have hneed : needmore ≠ success := by decide
    simp only [Option.some.injEq, exists_eq_left']
    cases lengthField header with
    | none => simp [Request.HasLength, hneed]
    | some n => simp [Request.HasLength, hneed]

section Example

theorem sets_length_iff_one :
    SetsLength (bytes "A\r\nContent-Length: 1\r\n\r\nx") 25
        ((bytes "A\r\nContent-Length: 1\r\n\r\nx").take (20 + emptyLine.length)) ↔
      if (scanHeader .start ((bytes "A\r\nContent-Length: 1\r\n\r\nx").take 25) 0).1 = .crlfcrlf then
        StatesLength (cstr ((bytes "A\r\nContent-Length: 1\r\n\r\nx").take (20 + emptyLine.length)))
          ((lengthField ((bytes "A\r\nContent-Length: 1\r\n\r\nx").take (20 + emptyLine.length))).getD 0 : Nat)
      else lengthField ((bytes "A\r\nContent-Length: 1\r\n\r\nx").take (20 + emptyLine.length)) = none :=
  sets_length_iff (by decide +kernel)

/-- A field without a blank behind its colon is not found. -/
theorem length_without_blank :
    ¬∀ (buffer : List UInt8) (size k : Nat), strstr emptyLine (buffer.take size) = some k →
      SetsLength buffer size (buffer.take (k + emptyLine.length)) := by
  intro h
  obtain ⟨request, hrequest, -⟩ := h (bytes "A\r\nContent-Length:1\r\n\r\nx") 24 19 (by decide +kernel)
  have hnone : parseReponse (bytes "A\r\nContent-Length:1\r\n\r\nx") 24 = none := by decide +kernel
  rw [hnone] at hrequest
  cases hrequest

end Example

end VideoCDN.Http
