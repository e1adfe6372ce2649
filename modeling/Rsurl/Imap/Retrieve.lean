/-
# `Rsurl.Imap.Retrieve` — the message a session returns

An answer to `UID FETCH n BODY[]` as the standard prints it: untagged responses,
values with literals and quoted strings in them, one FETCH response with the
message, and the tagged OK.  A session returns the first literal of the whole
answer, wherever it stands; that is the message exactly when no literal with
other octets is in front of it, and it is no quoted string with octets of its
own.
-/
import Mathlib.Data.Bool.AllAny
import Rsurl.Imap.Lines
import Rsurl.Text.Words

namespace Rsurl.Imap

open Base (Program)

/-! ## Responses as they are printed -/

/-- What a response is printed as: text of one line, and literals. -/
inductive Piece where
  | text (t : Text)
  | literal (octets : Bytes)
deriving DecidableEq, Repr

/-- A value of a response. -/
inductive Value where
  | atom (t : Text)
  | quoted (t : Text)
  | literal (octets : Bytes)
  | list (items : List Value)

mutual

def Value.pieces : Value → List Piece
  | .atom t => [.text t]
  | .quoted t => [.text (quoteImapString t)]
  | .literal octets => [.literal octets]
  | .list items => .text ['('] :: (Value.piecesOf items ++ [.text [')']])

/-- Values, with a blank between two. -/
def Value.piecesOf : List Value → List Piece
  | [] => []
  | v :: items => v.pieces ++ Value.piecesBehind items

def Value.piecesBehind : List Value → List Piece
  | [] => []
  | v :: items => .text [' '] :: (v.pieces ++ Value.piecesBehind items)

end

/-- An untagged response: a condition with its text, or values. -/
inductive Untagged where
  | condition (t : Text)
  | data (items : List Value)

def Untagged.pieces : Untagged → List Piece
  | .condition t => [.text ("* ".toList ++ t)]
  | .data items => .text "* ".toList :: Value.piecesOf items

/-- The octets of `BODY[]`. -/
inductive Message where
  | literal (octets : Bytes)
  | quoted (t : Text)

def Message.value : Message → Value
  | .literal octets => .literal octets
  | .quoted t => .quoted t

def Message.octets : Message → Bytes
  | .literal octets => octets
  | .quoted t => t.utf8

/-- Attributes of a FETCH response, each with its value. -/
def attributeItems (attributes : List (Text × Value)) : List Value :=
  attributes.flatMap fun a => [.atom a.1, a.2]

/-- A whole answer: what is in front of the FETCH response and behind it, the attributes in front of
the message and behind it, and the line behind the tag. -/
structure Answer where
  before : List Untagged
  number : Nat
  front : List (Text × Value)
  message : Message
  behind : List (Text × Value)
  after : List Untagged
  status : Text
  info : Text

namespace Answer

def attributes (a : Answer) : List (Text × Value) :=
  a.front ++ ("BODY[]".toList, a.message.value) :: a.behind

def fetchResponse (a : Answer) : Untagged :=
  .data [.atom (decimal a.number), .atom "FETCH".toList, .list (attributeItems a.attributes)]

def responses (a : Answer) : List Untagged := a.before ++ a.fetchResponse :: a.after

end Answer

/-! ## The bytes of an answer -/

namespace Piece

def bytes : Piece → Bytes
  | .text t => t.utf8
  | .literal octets =>
      Text.utf8 ('{' :: (decimal octets.length ++ ['}'])) ++ crlf ++ octets

def literal? : Piece → Option Bytes
  | .text _ => none
  | .literal octets => some octets

/-- Text is on one line; the length of a literal has 32 bits. -/
def Ok : Piece → Prop
  | .text t => '\r' ∉ t ∧ '\n' ∉ t
  | .literal octets => octets.length < 2 ^ 32

instance : (p : Piece) → Decidable p.Ok
  | .text t => inferInstanceAs (Decidable ('\r' ∉ t ∧ '\n' ∉ t))
  | .literal octets => inferInstanceAs (Decidable (octets.length < 2 ^ 32))

end Piece

def piecesBytes (ps : List Piece) : Bytes := ps.flatMap Piece.bytes

def piecesLiterals (ps : List Piece) : List Bytes := ps.filterMap Piece.literal?

def responsesBytes (us : List Untagged) : Bytes := us.flatMap fun u => piecesBytes u.pieces ++ crlf

def literalsOf (us : List Untagged) : List Bytes := us.flatMap fun u => piecesLiterals u.pieces

/-- What is on the last line, behind what is on it already. -/
def lastText : Text → List Piece → Text
  | t, [] => t
  | t, .text u :: ps => lastText (t ++ u) ps
  | _, .literal _ :: ps => lastText [] ps

namespace Answer

/-- The line that ends the answer. -/
def tagged (a : Answer) (tag : Text) : Text := tag ++ ' ' :: (a.status ++ ' ' :: a.info)

def bytes (a : Answer) (tag : Text) : Bytes :=
  responsesBytes a.responses ++ ((a.tagged tag).utf8 ++ crlf)

/-- All literals of the answer, from the first to the last. -/
def literals (a : Answer) : List Bytes := literalsOf a.responses

/-- An answer as the standard has it, for the message with this UID. -/
structure WellFormed (a : Answer) (uid : UInt32) : Prop where
  pieces : ∀ u ∈ a.responses, ∀ p ∈ u.pieces, p.Ok
  uid : ("UID".toList, Value.atom (decimal uid.toNat)) ∈ a.attributes
  status : Text.eqIgnoreAsciiCase a.status "OK".toList = true
  info : '\r' ∉ a.info ∧ '\n' ∉ a.info

/-- No line that announces no literal ends as if it did. -/
def Unmistakable (a : Answer) (tag : Text) : Prop :=
  (∀ u ∈ a.responses, ∀ n, ¬Marker (lastText [] u.pieces) n) ∧ ∀ n, ¬Marker (a.tagged tag) n

def literalsInFront (a : Answer) : List Bytes :=
  literalsOf a.before ++ piecesLiterals (Value.piecesOf (attributeItems a.front))

def literalsBehind (a : Answer) : List Bytes :=
  piecesLiterals (Value.piecesOf (attributeItems a.behind)) ++ literalsOf a.after

/-- The first literal has the octets of the message: one in front of it, itself, or one behind it;
without any, the message is empty. -/
def MessageFirst (a : Answer) : Prop :=
  match a.literalsInFront, a.message with
  | octets :: _, message => octets = message.octets
  | [], .literal _ => True
  | [], .quoted t => a.literalsBehind.headD [] = t.utf8

end Answer

/-! ## The literals of an answer -/

theorem piecesLiterals_append (ps qs : List Piece) :
    piecesLiterals (ps ++ qs) = piecesLiterals ps ++ piecesLiterals qs := List.filterMap_append

theorem piecesLiterals_behind (items : List Value) : piecesLiterals (Value.piecesBehind items) =
    items.flatMap fun v => piecesLiterals v.pieces := by
  induction items with
  | nil => rfl
  | cons v items ih =>
      rw [Value.piecesBehind, List.flatMap_cons, ← ih, ← piecesLiterals_append]
      rfl

theorem piecesLiterals_of (items : List Value) : piecesLiterals (Value.piecesOf items) =
    items.flatMap fun v => piecesLiterals v.pieces := by
  cases items with
  | nil => rfl
  | cons v items =>
      rw [Value.piecesOf, piecesLiterals_append, piecesLiterals_behind, List.flatMap_cons]

theorem piecesLiterals_list (items : List Value) :
    piecesLiterals (Value.list items).pieces = piecesLiterals (Value.piecesOf items) := by
  rw [Value.pieces, ← List.singleton_append, piecesLiterals_append, piecesLiterals_append]
  exact List.append_nil _

namespace Answer

theorem literals_eq (a : Answer) : a.literals =
    a.literalsInFront ++ (piecesLiterals a.message.value.pieces ++ a.literalsBehind) := by
  have hfetch : piecesLiterals a.fetchResponse.pieces =
      piecesLiterals (Value.piecesOf (attributeItems a.attributes)) := by
    show piecesLiterals (Value.piecesOf _) = _
    rw [piecesLiterals_of]
    show [] ++ ([] ++ (piecesLiterals (Value.list _).pieces ++ [])) = _
    rw [piecesLiterals_list, List.append_nil]
    rfl
  rw [literals, responses, literalsOf, List.flatMap_append, List.flatMap_cons, hfetch, attributes,
    attributeItems, List.flatMap_append, List.flatMap_cons, piecesLiterals_of, List.flatMap_append,
    List.flatMap_append]
  rw [literalsInFront, literalsBehind, piecesLiterals_of, piecesLiterals_of]
  simp only [literalsOf, attributeItems, List.append_assoc, List.flatMap_cons, List.flatMap_nil]
  rfl

/-- The first of them is the message. -/
theorem messageFirst_iff (a : Answer) :
    a.MessageFirst ↔ a.literals.headD [] = a.message.octets := by
  rw [literals_eq, MessageFirst]
  cases a.literalsInFront with
  | cons octets rest => exact Iff.rfl
  | nil =>
      cases a.message with
      | literal octets => exact (iff_true_intro rfl).symm
      | quoted t => exact Iff.rfl

end Answer

/-! ## Behind a literal -/

/-- Nothing more, or text that goes on with a blank or a closing parenthesis. -/
def Soft : List Piece → Prop
  | [] => True
  | .text (c :: _) :: _ => c = ' ' ∨ c = ')'
  | _ => False

/-- Behind every literal. -/
def Spaced : List Piece → Prop
  | [] => True
  | .text _ :: ps => Spaced ps
  | .literal _ :: ps => Soft ps ∧ Spaced ps

theorem soft_piecesBehind (items : List Value) {k : List Piece} (h : Soft k) :
    Soft (Value.piecesBehind items ++ k) := by
  cases items with
  | nil => exact h
  | cons v items =>
      rw [Value.piecesBehind]
      exact .inl rfl

mutual

theorem spaced_pieces : ∀ (v : Value) {k : List Piece}, Soft k → Spaced k → Spaced (v.pieces ++ k)
  | .atom t, k, _, hk => hk
  | .quoted t, k, _, hk => hk
  | .literal octets, k, hsoft, hk => ⟨hsoft, hk⟩
  | .list items, k, _, hk => by
      rw [Value.pieces, List.cons_append, List.append_assoc]
      exact spaced_piecesOf items (.inr rfl) hk

theorem spaced_piecesOf : ∀ (items : List Value) {k : List Piece}, Soft k → Spaced k →
    Spaced (Value.piecesOf items ++ k)
  | [], k, _, hk => hk
  | v :: items, k, hsoft, hk => by
      rw [Value.piecesOf, List.append_assoc]
      exact spaced_pieces v (soft_piecesBehind items hsoft) (spaced_piecesBehind items hsoft hk)

theorem spaced_piecesBehind : ∀ (items : List Value) {k : List Piece}, Soft k → Spaced k →
    Spaced (Value.piecesBehind items ++ k)
  | [], k, _, hk => hk
  | v :: items, k, hsoft, hk => by
      rw [Value.piecesBehind, List.cons_append, List.append_assoc]
      exact spaced_pieces v (soft_piecesBehind items hsoft) (spaced_piecesBehind items hsoft hk)

end

/-- A response begins with a star and goes on as it must behind its literals. -/
theorem Untagged.exists_pieces (u : Untagged) :
    ∃ t ps, u.pieces = .text ('*' :: t) :: ps ∧ Spaced ps := by
  cases u with
  | condition t => exact ⟨' ' :: t, [], rfl, trivial⟩
  | data items =>
      refine ⟨[' '], Value.piecesOf items, rfl, ?_⟩
      have hspaced := spaced_piecesOf items (k := []) trivial trivial
      rwa [List.append_nil] at hspaced

/-! ## Lines of an answer -/

/-- What a line begins with that is no tagged line and no request to continue. -/
def Front (t : Text) (ps : List Piece) : Prop :=
  (t = [] ∧ Soft ps) ∨ ∃ c u, t = c :: u ∧ (c = '*' ∨ c = ' ' ∨ c = ')')

theorem Front.text {t u : Text} {ps : List Piece} (h : Front t (.text u :: ps)) :
    Front (t ++ u) ps := by
  rcases h with ⟨rfl, hsoft⟩ | ⟨c, r, rfl, hc⟩
  · cases u with
    | nil => cases hsoft
    | cons c u => exact .inr ⟨c, u, rfl, .inr hsoft⟩
  · exact .inr ⟨c, r ++ u, rfl, hc⟩

theorem head_trimEnd {c : Char} {t : Text} (h : (Text.trimEnd t).head? = some c) :
    t.head? = some c := by
  obtain ⟨r, hr⟩ := List.rdropWhile_prefix isWhitespace t
  rw [← hr, List.head?_append, show (t.rdropWhile isWhitespace).head? = some c from h]
  rfl

/-- Such a line does not end the answer to a tag. -/
theorem not_stops {tag t : Text} (htag : tag.head? = some 'a')
    (ht : t = [] ∨ ∃ c u, t = c :: u ∧ (c = '*' ∨ c = ' ' ∨ c = ')')) : ¬Stops tag t := by
  have hhead : ∀ c, (Text.trimEnd t).head? = some c → c = '*' ∨ c = ' ' ∨ c = ')' := by
    intro c hc
    have hc := head_trimEnd hc
    rcases ht with rfl | ⟨d, u, rfl, hd⟩
    · cases hc
    · exact (Option.some.inj hc) ▸ hd
  have hfirst : ∀ {p : Text} {c : Char}, p.head? = some c → p <+: Text.trimEnd t →
      c = '*' ∨ c = ' ' ∨ c = ')' := by
    rintro p c hp ⟨r, hr⟩
    refine hhead c ?_
    rw [← hr, List.head?_append, hp]
    rfl
  rintro (h | h | h | h)
  · exact absurd (hhead '+' (by rw [h]; rfl)) (by decide)
  · exact absurd (hfirst (c := '+') rfl h) (by decide)
  · refine absurd (hfirst (c := 'a') ?_ h) (by decide)
    rw [List.head?_append, htag]
    rfl
  · exact absurd (hhead 'a' (by rw [h, htag])) (by decide)

/-- A line without a CR, and what is behind its CRLF. -/
theorem line_of_text {tail : Option IoKind} {t : Text} (h : '\r' ∉ t) (rest : Bytes) :
    Line tail (t.utf8 ++ (crlf ++ rest)) t.utf8 rest :=
  .ended (Base.cutSub_append (Text.not_mem_utf8 (by decide) h))

theorem marker_literal (t : Text) {n : Nat} (h : n < 2 ^ 64) :
    Marker (t ++ '{' :: (decimal n ++ ['}'])) n := by
  have hd : ∀ c ∈ decimal n, c.isDigit = true := fun c hc => isDigit_of_mem_decimal hc
  have htext : t ++ '{' :: (decimal n ++ ['}']) = (t ++ '{' :: decimal n) ++ ['}'] := by
    rw [List.append_assoc]
    rfl
  refine ⟨t, decimal n, [], ⟨?_, .inl rfl, decimal_ne_nil n, hd⟩,
    Nat.ofDigitChars_ten_toDigits.symm, h⟩
  rw [List.append_nil, htext, Text.trimEnd, List.rdropWhile_concat_neg _ _ _ (by decide)]

theorem cr_not_mem_marker {t : Text} (h : '\r' ∉ t) (n : Nat) :
    '\r' ∉ t ++ '{' :: (decimal n ++ ['}']) := by
  intro hmem
  rcases List.mem_append.mp hmem with hmem | hmem
  · exact h hmem
  rcases List.mem_cons.mp hmem with hmem | hmem
  · exact absurd hmem (by decide)
  rcases List.mem_append.mp hmem with hmem | hmem
  · exact absurd (isDigit_of_mem_decimal hmem) (by decide)
  · exact absurd (List.mem_singleton.mp hmem) (by decide)

/-- The bytes of a literal behind what is on its line. -/
theorem literal_bytes (t : Text) (octets rest : Bytes) :
    t.utf8 ++ ((Piece.literal octets).bytes ++ rest) =
      Text.utf8 (t ++ '{' :: (decimal octets.length ++ ['}'])) ++ (crlf ++ (octets ++ rest)) := by
  rw [Piece.bytes, Text.utf8_append]
  simp only [List.append_assoc]

/-- A text that ends where a line does, or none. -/
def Ended (t : Text) : Prop := t = [] ∨ ∃ u, t = u ++ ['\n']

theorem Ended.append {t u : Text} (ht : Ended t) (hu : Ended u) : Ended (t ++ u) := by
  rcases hu with rfl | ⟨v, rfl⟩
  · rwa [List.append_nil]
  · exact .inr ⟨t ++ v, (List.append_assoc _ _ _).symm⟩

section Reading

variable {tag : Text} (htag : tag.head? = some 'a') {tail : Option IoKind} {rest rest' : Bytes}
include htag

/-- A response is read to its end, where its literals are within the cap. -/
theorem response_pieces {out : Result (Text × List Bytes)}
    (hmore : Response tag tail rest out rest') {ps : List Piece} :
    ∀ {t : Text}, '\r' ∉ t → (∀ p ∈ ps, p.Ok) → Spaced ps → Front t ps →
      (∀ n, ¬Marker (lastText t ps) n) → (∀ s ∈ piecesLiterals ps, s.length ≤ maxLiteralBytes) →
      ∃ text, (∃ u, text = u ++ ['\n']) ∧
        Response tag tail (t.utf8 ++ (piecesBytes ps ++ (crlf ++ rest)))
          (prepend text (piecesLiterals ps) out) rest' := by
  induction ps with
  | nil =>
      intro t ht _ _ hfront hno _
      have hline := @line_of_text tail t ht rest
      have hend : t = [] ∨ ∃ c u, t = c :: u ∧ (c = '*' ∨ c = ' ' ∨ c = ')') :=
        hfront.imp_left And.left
      refine ⟨lineText t.utf8, ⟨t ++ ['\r'], ?_⟩, .other hline ?_ ?_ hmore⟩
      · rw [lineText, fromUtf8Lossy_utf8, List.append_assoc]
        rfl
      · rwa [fromUtf8Lossy_utf8]
      · rw [fromUtf8Lossy_utf8]
        exact not_stops htag hend
  | cons p ps ih =>
      intro t ht hok hspaced hfront hno hcap
      have hps : ∀ p ∈ ps, p.Ok := fun q hq => hok q (List.mem_cons_of_mem _ hq)
      cases p with
      | text u =>
          have hu : '\r' ∉ t ++ u := fun hmem =>
            (List.mem_append.mp hmem).elim ht (hok _ List.mem_cons_self).1
          obtain ⟨text, htext, hread⟩ := ih hu hps hspaced hfront.text hno hcap
          refine ⟨text, htext, ?_⟩
          rw [Text.utf8_append, List.append_assoc] at hread
          rw [piecesBytes, List.flatMap_cons, List.append_assoc]
          exact hread
      | literal octets =>
          have hlen : octets.length < 2 ^ 64 :=
            Nat.lt_trans (hok _ List.mem_cons_self) (by decide)
          have hcap' : octets.length ≤ maxLiteralBytes := hcap octets List.mem_cons_self
          obtain ⟨text, ⟨v, rfl⟩, hread⟩ := ih List.not_mem_nil hps hspaced.2
            (.inl ⟨rfl, hspaced.1⟩) hno fun s hs => hcap s (List.mem_cons_of_mem _ hs)
          have hmark := marker_literal t hlen
          have hline := @line_of_text tail _ (cr_not_mem_marker ht octets.length)
            (octets ++ (Text.utf8 [] ++ (piecesBytes ps ++ (crlf ++ rest))))
          rw [← fromUtf8Lossy_utf8 (_ ++ _ :: _)] at hmark
          have hread' := Response.literal hline hmark hcap' hread
          rw [prepend_prepend] at hread'
          refine ⟨_, ⟨lineText (Text.utf8 (t ++ '{' :: (decimal octets.length ++ ['}']))) ++
            fromUtf8Lossy octets ++ v, (List.append_assoc _ _ _).symm⟩, ?_⟩
          rw [piecesBytes, List.flatMap_cons, List.append_assoc, literal_bytes]
          exact hread'

omit htag in
/-- A literal above the cap ends the reading. -/
theorem response_oversized {ps : List Piece} :
    ∀ {t : Text}, '\r' ∉ t → (∀ p ∈ ps, p.Ok) →
      (∃ s ∈ piecesLiterals ps, maxLiteralBytes < s.length) →
      ∃ e r, Response tag tail (t.utf8 ++ (piecesBytes ps ++ rest)) (.error e) r := by
  induction ps with
  | nil =>
      rintro t - - ⟨s, hs, -⟩
      cases hs
  | cons p ps ih =>
      rintro t ht hok ⟨s, hs, hlarge⟩
      have hps : ∀ p ∈ ps, p.Ok := fun q hq => hok q (List.mem_cons_of_mem _ hq)
      rw [piecesBytes, List.flatMap_cons, List.append_assoc]
      cases p with
      | text u =>
          have hu : '\r' ∉ t ++ u := fun hmem =>
            (List.mem_append.mp hmem).elim ht (hok _ List.mem_cons_self).1
          obtain ⟨e, r, hread⟩ := ih hu hps ⟨s, hs, hlarge⟩
          rw [Text.utf8_append, List.append_assoc] at hread
          exact ⟨e, r, hread⟩
      | literal octets =>
          have hmark := marker_literal t (n := octets.length)
            (Nat.lt_trans (hok _ List.mem_cons_self) (by decide))
          have hline := @line_of_text tail _ (cr_not_mem_marker ht octets.length)
            (octets ++ (piecesBytes ps ++ rest))
          rw [← fromUtf8Lossy_utf8 (_ ++ _ :: _)] at hmark
          rw [literal_bytes]
          by_cases hcap : octets.length ≤ maxLiteralBytes
          · have hmem : s ∈ piecesLiterals ps := by
              rcases List.mem_cons.mp hs with rfl | hmem
              · exact absurd hcap (Nat.not_le_of_lt hlarge)
              · exact hmem
            obtain ⟨e, r, hread⟩ := ih List.not_mem_nil hps ⟨s, hmem, hlarge⟩
            exact ⟨e, r, .literal hline hmark hcap hread⟩
          · exact ⟨_, _, .tooLarge hline hmark (Nat.lt_of_not_le hcap)⟩

/-- The responses in front of the tagged line are read to their ends. -/
theorem responses_within {out : Result (Text × List Bytes)}
    (hmore : Response tag tail rest out rest') {us : List Untagged} :
    (∀ u ∈ us, ∀ p ∈ u.pieces, p.Ok) → (∀ u ∈ us, ∀ n, ¬Marker (lastText [] u.pieces) n) →
      (∀ s ∈ literalsOf us, s.length ≤ maxLiteralBytes) →
      ∃ text, Ended text ∧
        Response tag tail (responsesBytes us ++ rest) (prepend text (literalsOf us) out) rest' := by
  induction us with
  | nil =>
      intro _ _ _
      refine ⟨[], .inl rfl, ?_⟩
      rwa [literalsOf, List.flatMap_nil, prepend_nil]
  | cons u us ih =>
      intro hok hno hcap
      rw [literalsOf, List.flatMap_cons] at hcap
      obtain ⟨text, htext, hread⟩ := ih (fun v hv => hok v (List.mem_cons_of_mem _ hv))
        (fun v hv => hno v (List.mem_cons_of_mem _ hv))
        fun s hs => hcap s (List.mem_append_right _ hs)
      obtain ⟨t, ps, heq, hspaced⟩ := u.exists_pieces
      have hpieces := heq ▸ hok u List.mem_cons_self
      have hlast := heq ▸ hno u List.mem_cons_self
      have hcapped := fun s hs => hcap s (List.mem_append_left _ hs)
      rw [heq] at hcapped
      obtain ⟨front, hfront, hfirst⟩ := response_pieces htag hread
        (hpieces _ List.mem_cons_self).1 (fun p hp => hpieces p (List.mem_cons_of_mem _ hp)) hspaced
        (.inr ⟨'*', t, rfl, .inl rfl⟩) hlast hcapped
      refine ⟨front ++ text, .append (.inr hfront) htext, ?_⟩
      rw [prepend_prepend] at hfirst
      rw [responsesBytes, literalsOf, List.flatMap_cons, List.flatMap_cons, heq, piecesBytes,
        List.flatMap_cons, List.append_assoc, List.append_assoc, List.append_assoc]
      exact hfirst

/-- A literal above the cap in one of them ends the reading. -/
theorem responses_oversized {us : List Untagged} (hok : ∀ u ∈ us, ∀ p ∈ u.pieces, p.Ok)
    (hno : ∀ u ∈ us, ∀ n, ¬Marker (lastText [] u.pieces) n)
    (hlarge : ∃ s ∈ literalsOf us, maxLiteralBytes < s.length) :
    ∃ e r, Response tag tail (responsesBytes us ++ rest) (.error e) r := by
  induction us with
  | nil =>
      obtain ⟨s, hs, -⟩ := hlarge
      cases hs
  | cons u us ih =>
      rw [responsesBytes, List.flatMap_cons, List.append_assoc, List.append_assoc]
      by_cases hfirst : ∃ s ∈ piecesLiterals u.pieces, maxLiteralBytes < s.length
      · exact response_oversized (t := []) List.not_mem_nil (hok u List.mem_cons_self) hfirst
      · obtain ⟨s, hs, hlen⟩ := hlarge
        rw [literalsOf, List.flatMap_cons] at hs
        have hmem : s ∈ literalsOf us := (List.mem_append.mp hs).resolve_left
          fun hmem => hfirst ⟨s, hmem, hlen⟩
        obtain ⟨e, r, hread⟩ := ih (fun v hv => hok v (List.mem_cons_of_mem _ hv))
          (fun v hv => hno v (List.mem_cons_of_mem _ hv)) ⟨s, hmem, hlen⟩
        obtain ⟨t, ps, heq, hspaced⟩ := u.exists_pieces
        have hpieces := heq ▸ hok u List.mem_cons_self
        have hlast := heq ▸ hno u List.mem_cons_self
        rw [heq] at hfirst
        obtain ⟨front, -, hfront⟩ := response_pieces htag hread
          (hpieces _ List.mem_cons_self).1 (fun p hp => hpieces p (List.mem_cons_of_mem _ hp))
          hspaced (.inr ⟨'*', t, rfl, .inl rfl⟩) hlast
          fun s hs => Nat.le_of_not_lt fun hlt => hfirst ⟨s, hs, hlt⟩
        rw [heq, piecesBytes, List.flatMap_cons, List.append_assoc]
        exact ⟨e, r, hfront⟩

end Reading

/-! ## The tagged line -/

theorem prefix_trimEnd {c : Char} (hc : isWhitespace c = false) (t u : Text) :
    t ++ [c] <+: Text.trimEnd (t ++ c :: u) := by
  rw [Text.trimEnd]
  induction u using List.reverseRecOn with
  | nil =>
      have hstop := List.rdropWhile_concat_neg isWhitespace t c (Bool.eq_false_iff.mp hc)
      exact ⟨[], by rw [hstop, List.append_nil]⟩
  | append_singleton u d ih =>
      rw [← List.cons_append, ← List.append_assoc]
      by_cases hd : isWhitespace d = true
      · rwa [List.rdropWhile_concat_pos _ _ _ hd]
      · rw [List.rdropWhile_concat_neg _ _ _ hd]
        exact ⟨u ++ [d], by simp⟩

theorem not_upper_of_isWhitespace {c : Char} (h : isWhitespace c = true) :
    ¬(65 ≤ c.toNat ∧ c.toNat ≤ 90) := by
  rintro ⟨hA, hZ⟩
  simp [isWhitespace] at h
  omega

/-- A word up to case is a word. -/
theorem visible_of_eqIgnoreAsciiCase {t u : Text} (h : Text.eqIgnoreAsciiCase t u = true)
    (hu : ∀ c ∈ u.toAsciiLowercase, isWhitespace c = false) : ∀ c ∈ t, isWhitespace c = false := by
  intro c hc
  rw [Text.eqIgnoreAsciiCase, beq_iff_eq] at h
  by_contra hwhite
  rw [Bool.not_eq_false] at hwhite
  have hlow := toLower_of_not_upper (not_upper_of_isWhitespace hwhite)
  have hmem : c ∈ t.toAsciiLowercase := List.mem_map.mpr ⟨c, hc, hlow⟩
  rw [hu c (h ▸ hmem)] at hwhite
  cases hwhite

theorem lastLine_append {text line : Text} (htext : Ended text) (hne : line ≠ [])
    (hlf : '\n' ∉ line) : lastLine (text ++ (line ++ "\r\n".toList)) = line := by
  have hnil : Text.lines [] = [] := by decide
  have hcr : '\n' ∉ line ++ ['\r'] := fun hmem => (List.mem_append.mp hmem).elim hlf fun hmem =>
    absurd (List.mem_singleton.mp hmem) (by decide)
  have hstrip : stripCr (line ++ ['\r']) = line := by
    rw [stripCr, Text.stripLast_eq_some.mpr rfl]
    rfl
  have hline : Text.lines (line ++ "\r\n".toList) = [line] := by
    have hcons := lines_cons hcr []
    rw [hstrip, hnil, List.append_assoc] at hcons
    exact hcons
  have hlines : ∃ ls, Text.lines (text ++ (line ++ "\r\n".toList)) = ls ++ [line] := by
    rcases htext with rfl | ⟨u, rfl⟩
    · exact ⟨[], hline⟩
    · exact ⟨_, by rw [lines_append, hline]⟩
  obtain ⟨ls, hls⟩ := hlines
  have hempty : (!line.isEmpty) = true := by
    rw [Bool.not_eq_true', List.isEmpty_eq_false_iff]
    exact hne
  rw [lastLine, hls, List.reverse_append, List.reverse_singleton, List.singleton_append]
  simp only [List.find?_cons, hempty, Option.getD_some]

namespace Answer

variable {a : Answer} {tag : Text}

theorem visible_status (h : Text.eqIgnoreAsciiCase a.status "OK".toList = true) :
    ∀ c ∈ a.status, isWhitespace c = false :=
  visible_of_eqIgnoreAsciiCase h (List.all_iff_forall_prop.mp (by decide))

theorem exists_status (h : Text.eqIgnoreAsciiCase a.status "OK".toList = true) :
    ∃ c s, a.status = c :: s := by
  refine List.exists_cons_of_ne_nil fun hnil => ?_
  rw [hnil] at h
  exact absurd h (by decide)

theorem tagged_stops (h : Text.eqIgnoreAsciiCase a.status "OK".toList = true) :
    Stops tag (a.tagged tag) := by
  obtain ⟨c, s, hs⟩ := exists_status h
  have hc := visible_status h c (hs ▸ List.mem_cons_self)
  have htext : a.tagged tag = (tag ++ [' ']) ++ c :: (s ++ ' ' :: a.info) := by
    rw [tagged, hs, List.append_assoc]
    rfl
  rw [htext]
  exact .inr (.inr (.inl ((List.prefix_append _ _).trans (prefix_trimEnd hc _ _))))

/-- The answer is taken as an OK. -/
theorem requireOk_tagged {text : Text} (htext : Ended text) (hlf : '\n' ∉ a.tagged tag)
    (h : Text.eqIgnoreAsciiCase a.status "OK".toList = true) (what : String) :
    requireOk (text ++ (a.tagged tag ++ "\r\n".toList)) tag what = .ok () := by
  obtain ⟨c, s, hs⟩ := exists_status h
  have hvisible := visible_status h
  have hc := hvisible c (hs ▸ List.mem_cons_self)
  have hstart : Text.trimStart (' ' :: (a.status ++ ' ' :: a.info)) =
      a.status ++ ' ' :: a.info := by
    rw [Text.trimStart, List.dropWhile_cons_of_pos (by decide), hs, List.cons_append,
      List.dropWhile_cons_of_neg (by rw [hc]; decide)]
  have hne : a.tagged tag ≠ [] := fun hnil => by
    rw [tagged, List.append_eq_nil_iff] at hnil
    cases hnil.2
  have hprefix : Text.stripPrefix tag (a.tagged tag) = some (' ' :: (a.status ++ ' ' :: a.info)) :=
    Text.stripPrefix_eq_some.mpr rfl
  rw [requireOk, lastLine_append htext hne hlf, hprefix, Option.getD_some, hstart,
    splitWhitespace_word hvisible (hs ▸ List.cons_ne_nil _ _)]
  exact if_pos h

/-- The literals of the answer, where all are within the cap; else an error. -/
theorem WellFormed.read {uid : UInt32} (hwf : a.WellFormed uid) (hclear : a.Unmistakable tag)
    (hhead : tag.head? = some 'a') (hcr : '\r' ∉ tag) (hlf : '\n' ∉ tag) {b : Buffered}
    {rest : Bytes}
    (hb : b.pending = a.bytes tag ++ rest) :
    if ∀ s ∈ a.literals, s.length ≤ maxLiteralBytes then
      ∃ text, (readResponseWithLiterals tag b).1 = .ok (text, a.literals) ∧
        ∀ what, requireOk text tag what = .ok ()
    else ∃ e, (readResponseWithLiterals tag b).1 = .error e := by
  have hvisible := visible_status hwf.status
  have hclean : ∀ c, isWhitespace c = true → c ≠ ' ' → c ∉ tag → c ∉ a.info → c ∉ a.tagged tag := by
    intro c hc hblank htag hinfo hmem
    rcases List.mem_append.mp hmem with hmem | hmem
    · exact htag hmem
    rcases List.mem_cons.mp hmem with rfl | hmem
    · exact hblank rfl
    rcases List.mem_append.mp hmem with hmem | hmem
    · rw [hvisible c hmem] at hc
      cases hc
    rcases List.mem_cons.mp hmem with rfl | hmem
    · exact hblank rfl
    · exact hinfo hmem
  have htaggedCr := hclean '\r' (by decide) (by decide) hcr hwf.info.1
  have htaggedLf := hclean '\n' (by decide) (by decide) hlf hwf.info.2
  rw [bytes, List.append_assoc, List.append_assoc] at hb
  split
  · next hcap =>
      have hline := @line_of_text b.tail _ htaggedCr rest
      have hstop : Response tag b.tail ((a.tagged tag).utf8 ++ (crlf ++ rest))
          (.ok (lineText (a.tagged tag).utf8, [])) rest := by
        refine .stop hline ?_ ?_
        · rw [fromUtf8Lossy_utf8]
          exact hclear.2
        · rw [fromUtf8Lossy_utf8]
          exact tagged_stops hwf.status
      obtain ⟨text, htext, hread⟩ := responses_within hhead hstop hwf.pieces hclear.1 hcap
      refine ⟨text ++ (a.tagged tag ++ "\r\n".toList), ?_, fun what =>
        requireOk_tagged htext htaggedLf hwf.status what⟩
      rw [readResponseWithLiterals, (hread.read [] [] hb rfl).1, prepend_nil, lineText,
        fromUtf8Lossy_utf8]
      show Except.ok (_, literalsOf a.responses ++ []) = _
      rw [List.append_nil]
      rfl
  · next hcap =>
      push Not at hcap
      obtain ⟨e, r, hread⟩ := @responses_oversized tag hhead b.tail
        ((a.tagged tag).utf8 ++ (crlf ++ rest)) _ hwf.pieces hclear.1 hcap
      exact ⟨e, by rw [readResponseWithLiterals, (hread.read [] [] hb rfl).1]; rfl⟩

end Answer

/-! ## The session -/

/-- What a session does behind `SELECT` when the path has a UID. -/
def fetchMessage (uid : UInt32) : Session Bytes := do
  let tag ← nextTag
  send (tag ++ " UID FETCH ".toList ++ decimal uid.toNat ++ " BODY[]".toList)
  let (resp, literals) ← responseWithLiterals tag
  Program.ofExcept (requireOk resp tag "UID FETCH")
  return literals.headD []

/-- What goes wrong behind the answer is not seen. -/
theorem logout_fst (body : Bytes) (c : Conn) : ((logout body).exec c).1 = .ok body := rfl

section Fetch

variable {uid : UInt32} {c : Conn} (hsink : Unbroken c.sink)
include hsink

/-- A fetch ends as the response to its tag does. -/
theorem fetchMessage_fst : ((fetchMessage uid).exec c).1 =
    (readResponseWithLiterals (tagText (c.n + 1)) c.input).1.bind fun out =>
      (requireOk out.1 (tagText (c.n + 1)) "UID FETCH").map fun _ => out.2.headD [] := by
  have hnext : nextTag.exec c = (.ok (tagText (c.n + 1)), { c with n := c.n + 1 }) := rfl
  let line := tagText (c.n + 1) ++ " UID FETCH ".toList ++ decimal uid.toNat ++ " BODY[]".toList
  obtain ⟨sink, hsend⟩ : ∃ sink, (send line).exec { c with n := c.n + 1 } =
      (.ok (), { c with n := c.n + 1, sink }) := ⟨_, send_unbroken (c := { c with n := c.n + 1 }) hsink line⟩
  have hresponse : (responseWithLiterals (tagText (c.n + 1))).exec { c with n := c.n + 1, sink } =
      ((readResponseWithLiterals (tagText (c.n + 1)) c.input).1,
        { c with
          n := c.n + 1
          sink := sink
          input := (readResponseWithLiterals (tagText (c.n + 1)) c.input).2 }) := rfl
  rw [fetchMessage, Program.exec_bind_ok hnext, Program.exec_bind_ok hsend, Program.exec_bind,
    hresponse]
  rcases (readResponseWithLiterals (tagText (c.n + 1)) c.input).1 with e | out
  · rfl
  · show (Program.exec (Program.ofExcept (requireOk out.1 _ "UID FETCH") >>= _) _).1 = _
    rw [Except.bind]
    rcases requireOk out.1 (tagText (c.n + 1)) "UID FETCH" with e | _
    · rfl
    · rfl

end Fetch

section Runs

variable (connectOver : Socket → Text → Result (Socket × Sink))

/-- What a session does up to the mailbox. -/
def opening (url : Url) (mbox : Text) : Session Unit := do
  let (preauth, caps) ← discover
  let caps ← upgrade connectOver url.host caps
  signIn url preauth caps
  Program.ofExcept (rejectCtl mbox "imap mailbox")
  selectMailbox mbox

theorem serve_eq {url : Url} {mbox : Text} {uid : UInt32}
    (hpath : parsePath url.path = (some mbox, some uid)) (preauth : Bool) (caps : Caps) :
    serve url preauth caps = (do
      signIn url preauth caps
      Program.ofExcept (rejectCtl mbox "imap mailbox")
      selectMailbox mbox
      let body ← fetchMessage uid
      logout body) := by
  unfold serve signIn
  rw [hpath]
  cases preauth with
  | true => simp [retrieve, fetchMessage, logout]
  | false =>
      cases url.userinfo with
      | none => simp [retrieve, fetchMessage, logout]
      | some info => simp [retrieve, fetchMessage, logout]

/-- A session that opens its mailbox ends as its fetch does. -/
theorem run_fetch {url : Url} {mbox : Text} {uid : UInt32} {c₀ c : Conn}
    (hpath : parsePath url.path = (some mbox, some uid))
    (hopen : (opening connectOver url mbox).exec c₀ = (.ok (), c)) :
    ((run connectOver url).exec c₀).1 = ((fetchMessage uid).exec c).1 := by
  have hrun : run connectOver url = (do
      opening connectOver url mbox
      let body ← fetchMessage uid
      logout body) := by
    rw [run, opening]
    simp only [serve_eq hpath, bind_assoc]
  rw [hrun, Program.exec_bind_ok hopen, Program.exec_bind]
  rcases (fetchMessage uid).exec c with ⟨e | body, c'⟩
  · rfl
  · exact logout_fst body c'

/-- The message is returned exactly when all literals of the answer are within the cap and the first
of them is the message, wherever it stands. -/
theorem run_message_iff {url : Url} {mbox : Text} {uid : UInt32} {c₀ c : Conn} {a : Answer}
    {rest : Bytes} (hpath : parsePath url.path = (some mbox, some uid))
    (hopen : (opening connectOver url mbox).exec c₀ = (.ok (), c)) (hsink : Unbroken c.sink)
    (hwf : a.WellFormed uid) (hclear : a.Unmistakable (tagText (c.n + 1)))
    (hinput : c.input.pending = a.bytes (tagText (c.n + 1)) ++ rest) :
    ((run connectOver url).exec c₀).1 = .ok a.message.octets ↔
      (∀ s ∈ a.literals, s.length ≤ maxLiteralBytes) ∧ a.MessageFirst := by
  rw [run_fetch connectOver hpath hopen, fetchMessage_fst hsink, a.messageFirst_iff]
  have hread := hwf.read hclear (tagText_head _) (not_mem_tagText (by decide) (by decide) _)
    (not_mem_tagText (by decide) (by decide) _) hinput
  split at hread
  · next hcap =>
      obtain ⟨text, hread, hok⟩ := hread
      rw [hread, Except.bind, hok, Except.map, Except.ok.injEq]
      exact ⟨fun h => ⟨hcap, h⟩, And.right⟩
  · next hcap =>
      obtain ⟨e, hread⟩ := hread
      rw [hread, Except.bind]
      exact ⟨nofun, fun h => absurd h.1 hcap⟩

end Runs

def mailUrl : Url := ⟨"imap".toList, none, "h".toList, 143, "/INBOX;UID=7".toList⟩

/-- A session whose mailbox opens at once, and the bytes behind. -/
def mailSession (answer : Bytes) : Conn :=
  ⟨⟨[], ⟨[⟨Text.utf8 "* PREAUTH [CAPABILITY IMAP4rev1] x\r\na001 OK\r\n".toList ++ answer,
    List.append_ne_nil_of_left_ne_nil (by decide +kernel) _⟩], none⟩⟩, ⟨[], none, none⟩, false, 0⟩

/-- An answer with this message, and these responses around it. -/
def mailAnswer (before : List Untagged) (message : Message) (after : List Untagged) : Answer where
  before := before
  number := 1
  front := [("UID".toList, .atom "7".toList)]
  message := message
  behind := [("FLAGS".toList, .list [])]
  after := after
  status := "OK".toList
  info := "done".toList

def withoutTls : Socket → Text → Result (Socket × Sink) := fun _ _ => .error (.io .notConnected)

/-- An unsolicited response with a literal. -/
def listResponse : Untagged :=
  .data [.atom "LIST".toList, .list [], .quoted "/".toList, .literal (Text.utf8 "a/b".toList)]

theorem run_message_sample :
    let a := mailAnswer [.condition "OK [UIDNEXT 8] x".toList]
      (.literal (Text.utf8 "Hi {3}\r\n".toList)) [listResponse]
    ((run withoutTls mailUrl).exec (mailSession (a.bytes "a002".toList))).1 =
      .ok (Text.utf8 "Hi {3}\r\n".toList) := by
  intro a
  let c₀ := mailSession (a.bytes "a002".toList)
  let c := ((opening withoutTls mailUrl "INBOX".toList).exec c₀).2
  have hopen : (opening withoutTls mailUrl "INBOX".toList).exec c₀ = (.ok (), c) := by
    decide +kernel
  have hsink : Unbroken c.sink := ⟨by decide +kernel, by decide +kernel⟩
  have hwf : a.WellFormed 7 := ⟨by decide +kernel, List.mem_cons_self, by decide, by decide⟩
  have hlines : ∀ u ∈ a.responses, extractLiteralSize (lastText [] u.pieces) = none := by
    decide +kernel
  have hclear : a.Unmistakable (tagText (c.n + 1)) :=
    ⟨fun u hu => no_marker (hlines u hu), no_marker (by decide +kernel)⟩
  have hinput : c.input.pending = a.bytes (tagText (c.n + 1)) ++ [] := by decide +kernel
  exact (run_message_iff withoutTls (by decide +kernel) hopen hsink hwf hclear hinput).mpr
    ⟨by decide +kernel, trivial⟩

/-- A quoted message is not returned, nor is one behind another literal. -/
theorem message_lost :
    let quoted := mailAnswer [] (.quoted "Hi".toList) []
    let late := mailAnswer [listResponse] (.literal (Text.utf8 "Hi".toList)) []
    quoted.WellFormed 7 ∧ late.WellFormed 7 ∧
      quoted.message.octets = Text.utf8 "Hi".toList ∧ late.message.octets = Text.utf8 "Hi".toList ∧
      ((run withoutTls mailUrl).exec (mailSession (quoted.bytes "a002".toList))).1 = .ok [] ∧
      ((run withoutTls mailUrl).exec (mailSession (late.bytes "a002".toList))).1 =
        .ok (Text.utf8 "a/b".toList) :=
  ⟨⟨by decide +kernel, List.mem_cons_self, by decide, by decide⟩,
    ⟨by decide +kernel, List.mem_cons_self, by decide, by decide⟩, rfl, rfl, by decide +kernel,
    by decide +kernel⟩

end Rsurl.Imap
