import VideoCDN.Http.NolistRewrite
import VideoCDN.Proxy.Respond

/-!
# Which manifest requests become nolist requests

A request is taken for a manifest request when its URI contains `.f4m` in any letter case. It is
rewritten where its text first contains `.f4m` in small letters in front of a space.
-/

namespace VideoCDN.Proxy

open CString Http

/-- The bytes of an accepted request, in whose lines the lexer knows every byte. -/
structure WellFormed (x : List UInt8) (request : Request) : Prop where
  parsed : parse x x.length = some request
  accepted : request.status = success
  printable : IsPrintable x

/-- `uri'` is `uri` with `_nolist` in front of its extension. -/
def IsNolistUri (uri uri' : List UInt8) : Prop :=
  ∃ p ext q, ext.map tolower = bytes ".f4m" ∧ uri = p ++ ext ++ q ∧ uri' = p ++ bytes "_nolist" ++ ext ++ q

/-- The rewriting changes the URI to its nolist form, and nothing else. -/
def AsksNolist (x : List UInt8) (request : Request) : Prop :=
  ∃ ret saved uri' tail, replaceF4mToNolist x = some (ret, saved) ∧
    cstr x = request.httpMethod ++ 32 :: (request.httpUri ++ 32 :: tail) ∧
    cstr saved = request.httpMethod ++ 32 :: (uri' ++ 32 :: tail) ∧ IsNolistUri request.httpUri uri'

/-! ## The request line -/

lemma isString_of_printable {s : List UInt8} (hs : ∀ b ∈ s, isPrintable b = true) : IsString s := by
  rintro b hb rfl
  exact absurd (hs 0 hb) (by decide)

lemma WellFormed.line {x : List UInt8} {request : Request} (h : WellFormed x request) (huri : request.httpUri ≠ []) :
    ∃ tail, cstr x = request.httpMethod ++ 32 :: (request.httpUri ++ 32 :: tail) := by
  obtain ⟨p, i, hp, hyy⟩ := parse_success h.parsed h.accepted
  have hlines : headLines [] x = headLines [] (x.take i) := by
    have hempty := headLines_append p (x.drop i) []
    rwa [← hp, List.take_append_drop] at hempty
  have hprintable : IsPrintable (x.take i) := by
    intro l hl
    apply h.printable
    rwa [hlines]
  obtain ⟨version, hversion⟩ := Option.isSome_iff_exists.mp ((parse_isClean h.parsed).versionSet huri)
  obtain ⟨method, uri, haccepted⟩ := yyparse_accepted hyy hversion
  obtain ⟨rfl, rfl, -⟩ := haccepted.requestLine
  obtain ⟨fields, hfirst, -⟩ := haccepted.lines hprintable
  obtain ⟨rest, hrest⟩ := headLines_prefix (hlines.trans hfirst)
  have hline := printable_requestLine haccepted.isName haccepted.isValue.1 haccepted.isValue.2
  refine ⟨version ++ cstr rest, ?_⟩
  rw [← hrest, cstr_append _ _ (isString_of_printable hline)]
  simp only [List.append_assoc, List.cons_append]

/-! ## Where the rewriting changes the URI -/

lemma bytes_f4m_blank : bytes ".f4m " = bytes ".f4m" ++ [32] := by decide

/-- Where the text in front contains an occurrence, it is changed. -/
lemma not_prefix_replaceFirst {front : List UInt8} (hin : bytes ".f4m " <:+: front) (rest : List UInt8) :
    ¬front <+: replaceFirst (bytes ".f4m ") (bytes "_nolist.f4m ") (front ++ rest) := by
  obtain ⟨pre, post, rfl, hfirst⟩ := exists_first_occurrence hin
  rw [replaceFirst_append _ hin, replaceFirst_eq _ hfirst]
  simp only [List.append_assoc, List.prefix_append_right_inj]
  intro h
  have hhead : (46 : UInt8) = 95 := (List.cons_prefix_cons.mp h).1
  exact absurd hhead (by decide)

lemma ext_ne_nolist {ext : List UInt8} (hext : ext.map tolower = bytes ".f4m") (a b : List UInt8) :
    ext ++ a ≠ bytes "_nolist" ++ b := by
  cases ext with
  | nil => cases hext
  | cons c ext =>
    intro h
    have hc : c = 95 := (List.cons.inj h).1
    have hdot : tolower c = 46 := (List.cons.inj hext).1
    rw [hc] at hdot
    exact absurd hdot (by decide)

lemma append_blank (front rest : List UInt8) : front ++ 32 :: rest = (front ++ [32]) ++ rest := by simp

lemma infix_requestLine {needle uri : List UInt8} (h : needle <:+: uri ++ [32]) (method tail : List UInt8) :
    needle <:+: method ++ 32 :: (uri ++ 32 :: tail) := by
  rw [append_blank, append_blank uri, ← List.append_assoc]
  exact h.trans (List.infix_append _ _ _)

/-- A request that is rewritten in its URI has its first `.f4m ` there. -/
lemma AsksNolist.found {x : List UInt8} {request : Request} (h : AsksNolist x request) :
    bytes ".f4m " <:+: request.httpUri ++ [32] ∧ ¬bytes ".f4m " <:+: request.httpMethod ++ [32] ∧
      (cstr x).length + 12 ≤ maxReqSize := by
  obtain ⟨ret, saved, uri', tail, hreplace, hx, hsaved, p, ext, q, hext, huri, rfl⟩ := h
  have hwhole := cstr_replaceF4mToNolist hreplace
  rw [hsaved, hx] at hwhole
  have hmethod : ¬bytes ".f4m " <:+: request.httpMethod ++ [32] := by
    intro hin
    apply not_prefix_replaceFirst hin (request.httpUri ++ 32 :: tail)
    rw [← append_blank, ← hwhole]
    exact ⟨_, (append_blank _ _).symm⟩
  have hinUri : bytes ".f4m " <:+: request.httpUri ++ [32] := by
    by_contra hno
    rw [bytes_f4m_blank] at hno hmethod hwhole
    rw [replaceFirst_append_cons _ (by decide) hmethod, replaceFirst_append_cons _ (by decide) hno, huri] at hwhole
    have hafter := (List.cons.inj (List.append_cancel_left hwhole)).2
    simp only [List.append_assoc] at hafter
    exact ext_ne_nolist hext _ _ (List.append_cancel_left hafter).symm
  have hin : bytes ".f4m " <:+: cstr x := by
    rw [hx]
    exact infix_requestLine hinUri _ _
  refine ⟨hinUri, hmethod, (replaceF4mToNolist_isSome_iff hin).mp ?_⟩
  rw [hreplace]
  rfl

/-- What the rewriting makes of a URI with an occurrence. -/
lemma replaceFirst_uri {uri : List UInt8} (hin : bytes ".f4m " <:+: uri ++ [32]) :
    ∃ uri', replaceFirst (bytes ".f4m ") (bytes "_nolist.f4m ") (uri ++ [32]) = uri' ++ [32] ∧ IsNolistUri uri uri' := by
  obtain ⟨pre, post, hsplit, hfirst⟩ := exists_first_occurrence hin
  rw [hsplit] at hfirst ⊢
  rw [replaceFirst_eq _ hfirst]
  -- the last byte is the space, also when the occurrence is not the end of the URI
  obtain ⟨q, b, hq⟩ := (List.eq_nil_or_concat (32 :: post)).resolve_left (List.cons_ne_nil 32 post)
  have hblank : bytes ".f4m " ++ post = bytes ".f4m" ++ (q ++ [b]) := by
    rw [← List.concat_eq_append, ← hq]
    rfl
  have hnolist : bytes "_nolist.f4m " ++ post = bytes "_nolist" ++ (bytes ".f4m " ++ post) := rfl
  rw [List.append_assoc, hblank, ← List.append_assoc, ← List.append_assoc] at hsplit
  obtain ⟨rfl, hb⟩ := List.append_inj' hsplit rfl
  obtain rfl := (List.cons.inj hb).1
  refine ⟨pre ++ bytes "_nolist" ++ bytes ".f4m" ++ q, ?_, pre, bytes ".f4m", q, by decide, rfl, rfl⟩
  rw [List.append_assoc, hnolist, hblank]
  simp only [List.append_assoc]

lemma asksNolist_of_found {x : List UInt8} {request : Request} (hx : WellFormed x request)
    (huri : bytes ".f4m " <:+: request.httpUri ++ [32])
    (hmethod : ¬bytes ".f4m " <:+: request.httpMethod ++ [32]) (hroom : (cstr x).length + 12 ≤ maxReqSize) :
    AsksNolist x request := by
  have hne : request.httpUri ≠ [] := by
    intro hnil
    rw [hnil] at huri
    exact absurd huri (by decide)
  obtain ⟨tail, hline⟩ := hx.line hne
  have hin : bytes ".f4m " <:+: cstr x := by
    rw [hline]
    exact infix_requestLine huri _ _
  obtain ⟨⟨ret, saved⟩, hreplace⟩ := Option.isSome_iff_exists.mp ((replaceF4mToNolist_isSome_iff hin).mpr hroom)
  obtain ⟨uri', hrewrite, hnolist⟩ := replaceFirst_uri huri
  refine ⟨ret, saved, uri', tail, hreplace, hline, ?_, hnolist⟩
  rw [cstr_replaceF4mToNolist hreplace, hline, append_blank request.httpUri]
  rw [bytes_f4m_blank] at hmethod huri hrewrite ⊢
  rw [replaceFirst_append_cons _ (by decide) hmethod, replaceFirst_append _ huri, hrewrite]
  simp only [List.append_assoc, List.singleton_append]

/-- What the handler of the manifest then sends. -/
lemma handleRespF4m_asksNolist {x : List UInt8} {request : Request} (h : AsksNolist x request)
    {config config' : Config} {conn conn' : ProxyConn} {body : List UInt8} {sent : List Sent}
    (hsaved : conn.server.f4mRequest = x) (hcall : handleRespF4m config conn body = some (config', conn', sent)) :
    ∃ uri' tail, IsNolistUri request.httpUri uri' ∧
      sent = [⟨.server, request.httpMethod ++ 32 :: (uri' ++ 32 :: tail)⟩] := by
  obtain ⟨ret, saved, uri', tail, hreplace, -, hnew, hnolist⟩ := h
  obtain ⟨list, ret', saved', -, hreplace', -, -, rfl⟩ := handleRespF4m_eq_some hcall
  rw [hsaved, hreplace] at hreplace'
  obtain ⟨-, rfl⟩ := Prod.mk.inj (Option.some.inj hreplace')
  refine ⟨uri', tail, hnolist, ?_⟩
  rw [hnew, sendData, if_neg (by simp)]

/-- The URI is changed, and the server asked for the nolist manifest, exactly when the URI contains
`.f4m` in small letters in front of a space or at its end, the method does not end in it, and the
buffer has room for the bytes that are moved. -/
theorem nolist_uri_iff {x : List UInt8} {request : Request} (hx : WellFormed x request) :
    (AsksNolist x request ↔
      bytes ".f4m " <:+: request.httpUri ++ [32] ∧ ¬bytes ".f4m " <:+: request.httpMethod ++ [32] ∧
        (cstr x).length + 12 ≤ maxReqSize) ∧
      (AsksNolist x request → ∀ config conn body config' conn' sent, conn.server.f4mRequest = x →
        handleRespF4m config conn body = some (config', conn', sent) →
        ∃ uri' tail, IsNolistUri request.httpUri uri' ∧
          sent = [⟨.server, request.httpMethod ++ 32 :: (uri' ++ 32 :: tail)⟩]) := by
  refine ⟨⟨AsksNolist.found, ?_⟩, ?_⟩
  · rintro ⟨huri, hmethod, hroom⟩
    exact asksNolist_of_found hx huri hmethod hroom
  · intro h config conn body config' conn' sent hsaved hcall
    exact handleRespF4m_asksNolist h hsaved hcall

section Example

/-- A request for the manifest `/a`, with the given extension. -/
def extensionData (ext : List UInt8) : List UInt8 := bytes "GET /a" ++ ext ++ bytes " HTTP/1.1\r\nHost: b\r\n\r\n"

def extensionRequest (ext : List UInt8) : Request :=
  ⟨bytes "GET", bytes "/a" ++ ext, some (bytes "HTTP/1.1"), [(bytes "Host", bytes "b")], 1, 0, success,
    28 + ext.length⟩

lemma wellFormed_small : WellFormed (extensionData (bytes ".f4m")) (extensionRequest (bytes ".f4m")) := by
  constructor
  · decide +kernel
  · rfl
  · decide +kernel

lemma wellFormed_query : WellFormed (extensionData (bytes ".f4m?v=1")) (extensionRequest (bytes ".f4m?v=1")) := by
  constructor
  · decide +kernel
  · rfl
  · decide +kernel

theorem nolist_uri_iff_small : AsksNolist (extensionData (bytes ".f4m")) (extensionRequest (bytes ".f4m")) := by
  obtain ⟨hiff, -⟩ := nolist_uri_iff wellFormed_small
  exact hiff.mpr ⟨by decide, by decide, by decide⟩

/-- With a query string the request is left as it is. -/
theorem query_keeps_manifest_uri :
    ¬∀ (x : List UInt8) (request : Request), WellFormed x request → x.length ≤ maxReqSize →
      checkType request = .f4m → AsksNolist x request := by
  intro h
  obtain ⟨ret, saved, uri', tail, hreplace, hx, hsaved, p, ext, q, -, huri, rfl⟩ :=
    h _ _ wellFormed_query (by decide) (by decide)
  have hsame : replaceF4mToNolist (extensionData (bytes ".f4m?v=1")) =
      some (0, extensionData (bytes ".f4m?v=1")) := by decide +kernel
  obtain ⟨-, rfl⟩ := Prod.mk.inj (Option.some.inj (hreplace.symm.trans hsame))
  have hlength := congrArg List.length (hx.symm.trans hsaved)
  have hname : (bytes "_nolist").length = 7 := rfl
  simp only [huri, List.length_append, List.length_cons, hname] at hlength
  omega

end Example

end VideoCDN.Proxy
