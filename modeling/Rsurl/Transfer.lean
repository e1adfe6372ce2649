/-
# `Rsurl.Transfer` — the universal entry point on web addresses

`transfer` parses a URL, and for `http` and `https` prints it again for
`Request::get`, which parses what was printed.  The printed text has no place
for userinfo, and leaves out a default port behind whatever the host is.
-/
import Rsurl.Http.Write
import Rsurl.Url.Resolve

namespace Rsurl

/-- `Request::get`. -/
def Http.Request.get (url : Text) : Result Http.Request := Http.Request.new "GET".toList url

namespace Transfer

open Url (printAuthority splitHostport)

/-- The text `transfer_url` hands to `Request::get`. -/
def printUrl (url : Url) : Text :=
  url.scheme ++ "://".toList ++ url.host ++
    (if (url.scheme == "http".toList && url.port == 80) ||
        (url.scheme == "https".toList && url.port == 443) then []
      else ':' :: decimal url.port.toNat) ++
    url.path

section Dispatch

-- What `Request::send` gets back, and the other protocols, by scheme.
variable (send : Http.Request → Result Http.Response) (fetch : Url → Result Bytes)

/-- `Request::get(url)?.send().map(|r| r.body)`. -/
def getBody (url : Text) : Result Bytes := do
  let request ← Http.Request.get url
  let response ← send request
  .ok response.body

/-- `transfer_url`. -/
def transferUrl (url : Url) : Result Bytes :=
  if url.scheme = "http".toList ∨ url.scheme = "https".toList then getBody send (printUrl url)
  else fetch url

/-- `transfer`. -/
def transfer (url : Text) : Result Bytes := do
  let url ← Url.parse url
  transferUrl send fetch url

end Dispatch

/-- A URL of the schemes that go through `Request::get`. -/
def IsWeb (u : Url) : Prop := u.scheme = "http".toList ∨ u.scheme = "https".toList

/-- The host is read back from behind the marker: it is bracketed, or has no `:` of its own, or
the port is printed behind it. -/
def HostDelimited (u : Url) : Prop :=
  u.host.head? = some '[' ∨ ':' ∉ u.host ∨ Http.portImplied u = false

/-! ## What is printed -/

/-- The port goes without saying when it is the scheme's default. -/
theorem IsWeb.portImplied_iff {u : Url} {default : UInt16} (hweb : IsWeb u)
    (hdef : Url.defaultPort u.scheme = some default) :
    Http.portImplied u = true ↔ u.port = default := by
  rcases hweb with hscheme | hscheme
  · rw [hscheme] at hdef
    obtain rfl : (80 : UInt16) = default := Option.some.inj hdef
    simp [Http.portImplied, hscheme]
  · rw [hscheme] at hdef
    obtain rfl : (443 : UInt16) = default := Option.some.inj hdef
    simp [Http.portImplied, hscheme]

/-- The printed text is the one a redirect is resolved against. -/
theorem IsWeb.printUrl_eq {u : Url} {default : UInt16} (hweb : IsWeb u)
    (hdef : Url.defaultPort u.scheme = some default) :
    printUrl u = u.scheme ++ "://".toList ++ (printAuthority u ++ u.path) := by
  have himplied := hweb.portImplied_iff hdef
  show u.scheme ++ "://".toList ++ u.host ++
    (if Http.portImplied u = true then [] else ':' :: decimal u.port.toNat) ++ u.path = _
  rw [printAuthority, hdef, Option.getD_some]
  by_cases hport : u.port = default
  · rw [if_pos (himplied.mpr hport), if_neg (not_not.mpr hport)]
    simp only [List.append_nil, List.append_assoc]
  · rw [if_neg fun h => hport (himplied.mp h), if_pos hport]
    simp only [List.append_assoc]

section Reparsed

variable {s : Text} {u : Url} {p : Url.Pieces}

/-- The printed text is read back as the URL without its userinfo, if the host is delimited. -/
theorem parse_printUrl_iff (h : Url.Reads s u p) (hweb : IsWeb u) :
    Url.parse (printUrl u) = .ok u ↔ u.userinfo = none ∧ HostDelimited u := by
  have himplied := hweb.portImplied_iff h.default
  obtain ⟨⟨t, ht⟩, hfragment⟩ := h.path_slash
  rw [hweb.printUrl_eq h.default, ht, h.parse_composed]
  constructor
  · rintro ⟨b, hsplit, -, hinfo, -⟩
    refine ⟨hinfo, ?_⟩
    by_contra hno
    simp only [HostDelimited, not_or, not_not, Bool.not_eq_false] at hno
    obtain ⟨hopen, hcolon, hport⟩ := hno
    obtain ⟨⟨name, tail⟩, hcut⟩ : ∃ x, Text.rsplitOnce ':' u.host = some x := by
      cases hcut : Text.rsplitOnce ':' u.host with
      | none => exact absurd hcolon (Text.rsplitOnce_eq_none.mp hcut)
      | some x => exact ⟨x, rfl⟩
    obtain ⟨hhost, htail⟩ := Text.rsplitOnce_eq_some.mp hcut
    -- The tail of the host is taken for the port, so the host comes back shorter.
    rw [h.splitHostport_colon hopen (himplied.mp hport) hhost htail] at hsplit
    obtain ⟨port, -, heq⟩ := Option.map_eq_some_iff.mp hsplit
    have hname : name = u.host := (Prod.mk.inj heq).1
    have hlength := congrArg List.length (hname.trans hhost)
    simp at hlength
  · rintro ⟨hinfo, hhost⟩
    have hsafe : u.host.head? = some '[' ∨ ':' ∉ u.host ∨ u.port ≠ p.default := by
      refine hhost.imp_right (Or.imp_right fun himp hport => ?_)
      rw [himplied.mpr hport] at himp
      cases himp
    refine ⟨p.bracketed, h.splitHostport_printAuthority hsafe, rfl, hinfo, ?_, h.host_ne, h.port_ne,
      h.host_ok, h.name_ok, h.path_ok⟩
    rw [← ht]
    exact (Url.beforeFirst_eq_self hfragment).symm

end Reparsed

theorem reads_of_web {s : Text} {u : Url} (h : Url.parse s = .ok u) (hweb : IsWeb u) :
    ∃ p, Url.Reads s u p := by
  rcases Url.reads_of_parse h with hp | ⟨-, -, -, -, hf⟩
  · exact hp
  · obtain ⟨path, -, rfl⟩ := Url.parseFile_eq_ok.mp hf
    have hno : ¬("file".toList = "http".toList ∨ "file".toList = "https".toList) := by decide
    exact absurd hweb hno

/-! ## The request -/

/-- The same request: the one `Request::get` makes of `t` is the one it makes of `s`. -/
theorem get_eq_of_parse {s t : Text} (h : Url.parse t = Url.parse s) :
    Http.Request.get t = Http.Request.get s := by
  rw [Http.Request.get, Http.Request.new, h]
  rfl

theorem transfer_of_parse (send : Http.Request → Result Http.Response) (fetch : Url → Result Bytes)
    {s : Text} {u : Url} (h : Url.parse s = .ok u) (hweb : IsWeb u) :
    transfer send fetch s = getBody send (printUrl u) := by
  rw [transfer, h, Result.ok_bind, transferUrl]
  exact if_pos hweb

/-- What `transfer` does of a web address: the printed URL is the URL, and whatever a request is
answered with, `transfer` returns what the request for `s` itself is answered with. -/
structure Preserved (s : Text) (u : Url) : Prop where
  reparsed : Url.parse (printUrl u) = .ok u
  issued : ∀ send fetch, transfer send fetch s = getBody send s

/-- `transfer` preserves the request exactly for the addresses without userinfo whose host is not
followed by an elided port it could be confused with. -/
theorem preserved_iff {s : Text} {u : Url} (h : Url.parse s = .ok u) (hweb : IsWeb u) :
    Preserved s u ↔ u.userinfo = none ∧ HostDelimited u := by
  obtain ⟨p, hp⟩ := reads_of_web h hweb
  rw [← parse_printUrl_iff hp hweb]
  refine ⟨fun hpres => hpres.reparsed, fun hprint => ⟨hprint, fun send fetch => ?_⟩⟩
  have hget := get_eq_of_parse (hprint.trans h.symm)
  rw [transfer_of_parse send fetch h hweb, getBody, getBody, hget]

theorem preserved_iff_of_literal :
    Preserved "https://[::1]/a?b".toList
      ⟨"https".toList, none, "[::1]".toList, 443, "/a?b".toList⟩ :=
  (preserved_iff (by decide) (.inr rfl)).mpr ⟨rfl, .inl rfl⟩

/-- `http://u:p@h/` is printed as `http://h/`, and the request goes out without its
`Authorization`. -/
theorem credentials_dropped :
    let u : Url := ⟨"http".toList, some "u:p".toList, "h".toList, 80, "/".toList⟩
    Url.parse "http://u:p@h/".toList = .ok u ∧ Url.parse (printUrl u) ≠ .ok u ∧
      (Http.Request.get "http://u:p@h/".toList).map Http.effectiveBasicAuth =
        .ok (some "dTpw".toList) ∧
      (Http.Request.get (printUrl u)).map Http.effectiveBasicAuth = .ok none := by
  refine ⟨by decide, by decide, by decide +kernel, by decide⟩

end Transfer
end Rsurl
