/-
# `Rsurl.Base.Uri` — the authority component of RFC 3986

What the generic syntax says about a URI's scheme and authority: where the two
components begin and end (Appendix B), and which triples of userinfo, host and
port an authority can be read as (§3.2).
-/
import Mathlib.Data.List.TakeWhile
import Rsurl.Base.Cut

namespace Rsurl.Base.Uri

/-! ## Components -/

/-- The characters that end the authority component. -/
def endsAuthority (c : Char) : Bool := c == '/' || c == '?' || c == '#'

/-- The authority at the head of what follows `//`. -/
def authorityOf (rest : List Char) : List Char :=
  rest.takeWhile fun c => !endsAuthority c

/-- A character a scheme is made of. -/
def isSchemeChar (c : Char) : Bool :=
  c.isAlphanum || c == '+' || c == '-' || c == '.'

/-- `scheme = ALPHA *( ALPHA / DIGIT / "+" / "-" / "." )`. -/
def isScheme : List Char → Bool
  | [] => false
  | c :: l => c.isAlpha && l.all isSchemeChar

/-- The scheme of a reference, when it has one. -/
def scheme? (s : List Char) : Option (List Char) :=
  match cut (· == ':') s with
  | some (a, _, _) => if isScheme a then some a else none
  | none => none

/-- The authority of a URI `scheme://authority…`. -/
def authority? (s : List Char) : Option (List Char) :=
  match cut (fun c => c == ':' || endsAuthority c) s with
  | some (_ :: _, ':', '/' :: '/' :: rest) => some (authorityOf rest)
  | _ => none

theorem authority?_eq {scheme rest : List Char} (hne : scheme ≠ [])
    (hs : ∀ c ∈ scheme, c ≠ ':' ∧ endsAuthority c = false) :
    authority? (scheme ++ ':' :: '/' :: '/' :: rest) = some (authorityOf rest) := by
  have hcut : cut (fun c => c == ':' || endsAuthority c)
      (scheme ++ ':' :: '/' :: '/' :: rest) = some (scheme, ':', '/' :: '/' :: rest) :=
    cut_append (fun c hc => by simp [hs c hc]) (by simp)
  cases scheme with
  | nil => exact absurd rfl hne
  | cons c l =>
      rw [authority?, hcut]
      rfl

/-- An authority stops short of every delimiter that ends it. -/
theorem not_mem_authorityOf {rest : List Char} {c : Char}
    (hc : c ∈ authorityOf rest) : endsAuthority c = false := by
  have h := List.mem_takeWhile_imp hc
  simpa using h

/-- The authority is the text before the first `/` when neither `?` nor `#`
occurs in that text. -/
theorem authorityOf_append {a b : List Char} (ha : ∀ c ∈ a, endsAuthority c = false)
    (hb : ∀ c ∈ b.head?, endsAuthority c = true) : authorityOf (a ++ b) = a := by
  have hall : ∀ c ∈ a, (!endsAuthority c) = true := fun c hc => by simp [ha c hc]
  rw [authorityOf, List.takeWhile_append_of_pos hall]
  cases b with
  | nil => simp
  | cons c b => simp [hb c (by simp)]

/-! ## Readings of an authority -/

/-- `[ userinfo "@" ]`. -/
def userinfoPrefix : Option (List Char) → List Char
  | none => []
  | some info => info ++ ['@']

/-- `[ ":" port ]`. -/
def portSuffix : Option (List Char) → List Char
  | none => []
  | some p => ':' :: p

/-- `authority = [ userinfo "@" ] host [ ":" port ]`. -/
def renderAuthority (userinfo : Option (List Char)) (host : List Char)
    (port : Option (List Char)) : List Char :=
  userinfoPrefix userinfo ++ (host ++ portSuffix port)

/-- The delimiters that may not occur bare in any part of an authority. -/
def isDelimiter (c : Char) : Bool :=
  endsAuthority c || c == '@' || c == '[' || c == ']'

/-- `unreserved`. -/
def isUnreserved (c : Char) : Bool :=
  c.isAlphanum || c == '-' || c == '.' || c == '_' || c == '~'

/-- `sub-delims`. -/
def isSubDelim (c : Char) : Bool := "!$&'()*+,;=".toList.contains c

/-- `HEXDIG`. -/
def isHexDigit (c : Char) : Bool :=
  c.isDigit || ('a' ≤ c && c ≤ 'f') || ('A' ≤ c && c ≤ 'F')

/-- `*( unreserved / pct-encoded / sub-delims )`, and further characters. -/
def isEncoded (further : Char → Bool) : List Char → Bool
  | [] => true
  | '%' :: a :: b :: t => isHexDigit a && isHexDigit b && isEncoded further t
  | c :: t => (isUnreserved c || isSubDelim c || further c) && isEncoded further t

/-- `userinfo`. -/
def isUserinfo (t : List Char) : Bool := isEncoded (· == ':') t

/-- `reg-name`; every `IPv4address` is one. -/
def isRegName (t : List Char) : Bool := isEncoded (fun _ => false) t

/-- `h16 = 1*4HEXDIG`. -/
def isGroup (g : List Char) : Bool := !g.isEmpty && decide (g.length ≤ 4) && g.all isHexDigit

/-- `dec-octet`. -/
def IsOctet (t : List Char) : Prop := ∃ n < 256, t = Nat.toDigits 10 n

/-- `ls32 = ( h16 ":" h16 ) / IPv4address`. -/
inductive IsLast32 : List Char → Prop where
  | groups {g g' : List Char} (h : isGroup g = true) (h' : isGroup g' = true) :
      IsLast32 (g ++ ':' :: g')
  | dotted {a b c d : List Char} (ha : IsOctet a) (hb : IsOctet b) (hc : IsOctet c)
      (hd : IsOctet d) : IsLast32 (a ++ '.' :: (b ++ '.' :: (c ++ '.' :: d)))

/-- Groups, each with a colon behind it. -/
def colonGroups (gs : List (List Char)) : List Char := gs.flatMap (· ++ [':'])

/-- `IPv6address`: eight groups, or fewer around `::`. -/
inductive IsIpv6 : List Char → Prop where
  | full {gs : List (List Char)} {last : List Char} (h : ∀ g ∈ gs, isGroup g = true)
      (hsix : gs.length = 6) (hlast : IsLast32 last) : IsIpv6 (colonGroups gs ++ last)
  | elided {front back : List (List Char)} {last : List Char}
      (h : ∀ g ∈ front, isGroup g = true) (h' : ∀ g ∈ back, isGroup g = true)
      (hfive : front.length + back.length ≤ 5) (hlast : IsLast32 last) :
      IsIpv6 ([':'].intercalate front ++ ':' :: ':' :: (colonGroups back ++ last))
  | elidedLast {front : List (List Char)} {last : List Char}
      (h : ∀ g ∈ front, isGroup g = true) (hsix : front.length ≤ 6) (hlast : isGroup last = true) :
      IsIpv6 ([':'].intercalate front ++ ':' :: ':' :: last)
  | elidedAll {front : List (List Char)} (h : ∀ g ∈ front, isGroup g = true)
      (hseven : front.length ≤ 7) : IsIpv6 ([':'].intercalate front ++ [':', ':'])

/-- `IPvFuture = "v" 1*HEXDIG "." 1*( unreserved / sub-delims / ":" )`. -/
inductive IsIpFuture : List Char → Prop where
  | mk {v : Char} {version rest : List Char} (hv : v = 'v' ∨ v = 'V') (hversion : version ≠ [])
      (hdigits : ∀ c ∈ version, isHexDigit c = true) (hrest : rest ≠ [])
      (hchars : ∀ c ∈ rest, (isUnreserved c || isSubDelim c || c == ':') = true) :
      IsIpFuture (v :: (version ++ '.' :: rest))

/-- `host = IP-literal / IPv4address / reg-name`. -/
inductive IsHost : List Char → Prop where
  | literal {inner : List Char} (h : IsIpv6 inner ∨ IsIpFuture inner) :
      IsHost ('[' :: (inner ++ [']']))
  | name {name : List Char} (h : isRegName name = true) : IsHost name

/-- The authority `a` can be read as this userinfo, host and port. -/
structure IsAuthority (a : List Char) (userinfo : Option (List Char))
    (host : List Char) (port : Option (List Char)) : Prop where
  render : a = renderAuthority userinfo host port
  userinfo_ok : ∀ info ∈ userinfo, isUserinfo info = true
  host_ok : IsHost host
  port_ok : ∀ p ∈ port, ∀ c ∈ p, c.isDigit = true

/-! ## No part holds a delimiter -/

/-- A kind of character that none of the six delimiters is of. -/
theorem isDelimiter_of {p : Char → Bool} {c : Char}
    (h : ['/', '?', '#', '@', '[', ']'].any p = false) (hc : p c = true) :
    isDelimiter c = false := by
  rw [Bool.eq_false_iff]
  intro hd
  rw [List.any_eq_false] at h
  simp only [isDelimiter, endsAuthority, Bool.or_eq_true, beq_iff_eq] at hd
  refine h c ?_ hc
  rcases hd with ((((rfl | rfl) | rfl) | rfl) | rfl) | rfl
  all_goals decide

/-- A character of an encoded text. -/
def isEncodedChar (further : Char → Bool) (c : Char) : Bool :=
  isUnreserved c || isSubDelim c || further c || c == '%' || isHexDigit c

theorem isEncoded_chars {further : Char → Bool} {t : List Char} (h : isEncoded further t = true) :
    ∀ c ∈ t, isEncodedChar further c = true := by
  fun_induction isEncoded further t with
  | case1 => exact fun c hc => absurd hc List.not_mem_nil
  | case2 a b t ih =>
      simp only [Bool.and_eq_true] at h
      intro c hc
      simp only [List.mem_cons] at hc
      rcases hc with rfl | rfl | rfl | hc
      · simp [isEncodedChar]
      · simp [isEncodedChar, h.1.1]
      · simp [isEncodedChar, h.1.2]
      · exact ih h.2 c hc
  | case3 d t _ ih =>
      rw [Bool.and_eq_true] at h
      intro c hc
      rcases List.mem_cons.mp hc with rfl | hc
      · rw [isEncodedChar, h.1]
        rfl
      · exact ih h.2 c hc

theorem isRegName_plain {t : List Char} (h : isRegName t = true) :
    ∀ c ∈ t, isDelimiter c = false :=
  fun c hc => isDelimiter_of (by decide) (isEncoded_chars h c hc)

theorem isRegName_no_colon {t : List Char} (h : isRegName t = true) : ':' ∉ t :=
  fun hc => absurd (isEncoded_chars h ':' hc) (by decide)

/-- A character of an address. -/
def isAddressChar (c : Char) : Bool := isHexDigit c || c == ':' || c == '.'

theorem isGroup_chars {g : List Char} (h : isGroup g = true) : ∀ c ∈ g, isAddressChar c = true := by
  intro c hc
  have hhex := List.all_eq_true.mp ((Bool.and_eq_true _ _).mp h).2 c hc
  rw [isAddressChar, hhex]
  rfl

theorem IsOctet.chars {t : List Char} (h : IsOctet t) : ∀ c ∈ t, isAddressChar c = true := by
  obtain ⟨n, -, rfl⟩ := h
  intro c hc
  have hdigit : c.isDigit = true := Nat.isDigit_of_mem_toDigits (by decide) (by decide) hc
  rw [isAddressChar, isHexDigit, hdigit]
  rfl

theorem IsLast32.chars {t : List Char} (h : IsLast32 t) : ∀ c ∈ t, isAddressChar c = true := by
  cases h with
  | groups h h' =>
      refine List.forall_mem_append.mpr ⟨isGroup_chars h, ?_⟩
      exact List.forall_mem_cons.mpr ⟨by decide, isGroup_chars h'⟩
  | dotted ha hb hc hd =>
      refine List.forall_mem_append.mpr ⟨ha.chars, List.forall_mem_cons.mpr ⟨by decide, ?_⟩⟩
      refine List.forall_mem_append.mpr ⟨hb.chars, List.forall_mem_cons.mpr ⟨by decide, ?_⟩⟩
      exact List.forall_mem_append.mpr ⟨hc.chars, List.forall_mem_cons.mpr ⟨by decide, hd.chars⟩⟩

theorem colonGroups_chars {gs : List (List Char)} (h : ∀ g ∈ gs, isGroup g = true) :
    ∀ c ∈ colonGroups gs, isAddressChar c = true := by
  intro c hc
  obtain ⟨g, hg, hc⟩ := List.mem_flatMap.mp hc
  rcases List.mem_append.mp hc with hc | hc
  · exact isGroup_chars (h g hg) c hc
  · rw [List.mem_singleton.mp hc]
    decide

theorem intercalate_chars {gs : List (List Char)} (h : ∀ g ∈ gs, isGroup g = true) :
    ∀ c ∈ [':'].intercalate gs, isAddressChar c = true := by
  induction gs with
  | nil => exact fun c hc => absurd hc List.not_mem_nil
  | cons g gs ih =>
      obtain ⟨hg, hgs⟩ := List.forall_mem_cons.mp h
      cases gs with
      | nil =>
          rw [List.intercalate_singleton]
          exact isGroup_chars hg
      | cons g' gs =>
          rw [List.intercalate_cons_cons]
          refine List.forall_mem_append.mpr ⟨?_, ih hgs⟩
          exact List.forall_mem_append.mpr
            ⟨isGroup_chars hg, List.forall_mem_singleton.mpr (by decide)⟩

theorem IsIpv6.chars {t : List Char} (h : IsIpv6 t) : ∀ c ∈ t, isAddressChar c = true := by
  have hcolons : ∀ {l : List Char}, (∀ c ∈ l, isAddressChar c = true) →
      ∀ c ∈ ':' :: ':' :: l, isAddressChar c = true := fun hl =>
    List.forall_mem_cons.mpr ⟨by decide, List.forall_mem_cons.mpr ⟨by decide, hl⟩⟩
  cases h with
  | full h hsix hlast => exact List.forall_mem_append.mpr ⟨colonGroups_chars h, hlast.chars⟩
  | elided h h' hfive hlast =>
      refine List.forall_mem_append.mpr ⟨intercalate_chars h, hcolons ?_⟩
      exact List.forall_mem_append.mpr ⟨colonGroups_chars h', hlast.chars⟩
  | elidedLast h hsix hlast =>
      exact List.forall_mem_append.mpr ⟨intercalate_chars h, hcolons (isGroup_chars hlast)⟩
  | elidedAll h hseven =>
      exact List.forall_mem_append.mpr ⟨intercalate_chars h, hcolons (List.forall_mem_nil _)⟩

theorem IsIpFuture.plain {t : List Char} (h : IsIpFuture t) : ∀ c ∈ t, isDelimiter c = false := by
  obtain ⟨hv, -, hdigits, -, hchars⟩ := h
  have hrest : ['/', '?', '#', '@', '[', ']'].any
      (fun c => isUnreserved c || isSubDelim c || c == ':') = false := by decide
  refine List.forall_mem_cons.mpr ⟨?_, List.forall_mem_append.mpr ⟨fun c hc => ?_, ?_⟩⟩
  · rcases hv with rfl | rfl
    all_goals decide
  · exact isDelimiter_of (by decide) (hdigits c hc)
  · exact List.forall_mem_cons.mpr ⟨by decide, fun c hc => isDelimiter_of hrest (hchars c hc)⟩

theorem literal_plain {inner : List Char} (h : IsIpv6 inner ∨ IsIpFuture inner) :
    ∀ c ∈ inner, isDelimiter c = false := by
  rcases h with h | h
  · exact fun c hc => isDelimiter_of (by decide) (h.chars c hc)
  · exact h.plain

theorem IsHost.not_at {host : List Char} (h : IsHost host) : '@' ∉ host := by
  cases h with
  | literal h =>
      intro hat
      simp only [List.mem_cons, List.mem_append, List.not_mem_nil, or_false] at hat
      rcases hat with hat | hat | hat
      · exact absurd hat (by decide)
      · exact absurd (literal_plain h _ hat) (by decide)
      · exact absurd hat (by decide)
  | name h => exact fun hat => absurd (isRegName_plain h _ hat) (by decide)

/-- What follows the host holds no delimiter: digits after a colon. -/
theorem isDigit_not_delimiter {p : List Char} (hp : ∀ c ∈ p, c.isDigit = true)
    {d : Char} (hd : d.isDigit = false) : d ∉ p :=
  fun h => by simp [hp d h] at hd

end Rsurl.Base.Uri
