/-
# `Rsurl.Ldap.Elements` — integers, lengths and messages

What the client's writer puts down for an integer or a length is the shortest
there is, and its reader takes it back.  Of the two readers of a length, the one
on the stream takes the messages that the one on a buffer delimits, and leaves
the stream where that one stops.
-/
import Rsurl.Base.Twos
import Rsurl.Ldap.Request

namespace Rsurl.Ldap

open Base (Program beValue twosValue ShortestTwos)
open Base.Ber

/-! ## Integers -/

theorem signedValue_eq (bytes : Bytes) : signedValue bytes = twosValue bytes := by
  have hfold : ∀ (l : Bytes) (acc : Int),
      l.foldl (fun acc b => acc * 256 + (b.toNat : Int)) acc = acc * 256 ^ l.length + beValue l := by
    intro l
    induction l with
    | nil => intro acc; simp [beValue]
    | cons b l ih =>
        intro acc
        rw [List.foldl_cons, ih, Base.beValue_cons, List.length_cons, pow_succ]
        push_cast
        ring
  rw [signedValue, hfold, twosValue]
  cases bytes with
  | nil => simp
  | cons b l =>
      rw [List.head?_cons, Option.any_some]
      by_cases hsign : 128 ≤ b.toNat
      · have hhead : 128 ≤ ((b :: l).headD 0).toNat := hsign
        rw [if_pos (decide_eq_true ((signBit_iff b).mpr hsign)), if_pos hhead]
        ring
      · have hhead : ¬128 ≤ ((b :: l).headD 0).toNat := hsign
        rw [if_neg fun hbit => hsign ((signBit_iff b).mp (of_decide_eq_true hbit)), if_neg hhead]
        ring

/-- Nothing is left that only repeats the sign. -/
theorem dropRedundant_tight (bytes : Bytes) : Base.Tight (dropRedundant bytes) := by
  induction bytes with
  | nil => exact trivial
  | cons first rest ih =>
      cases rest with
      | nil => exact trivial
      | cons next rest =>
          rw [dropRedundant]
          split
          · exact ih
          · next hkeep =>
              rw [not_or, not_and, not_and] at hkeep
              refine ⟨fun h => ?_, fun h => ?_⟩
              · exact (signBit_iff next).mp (hkeep.1 h)
              · exact Nat.not_le.mp fun hle => hkeep.2 h ((signBit_iff next).mpr hle)

theorem shortestTwos_written {v : Int} (hlow : -(2 ^ 63) ≤ v) (hhigh : v < 2 ^ 63) :
    ShortestTwos (dropRedundant (toBeBytes v)) v := by
  have hne : toBeBytes v ≠ [] := List.cons_ne_nil _ _
  refine Base.shortestTwos_of_tight (dropRedundant_ne_nil hne).1 (dropRedundant_tight _) ?_
  rw [← signedValue_eq, signedValue_dropRedundant, signedValue_toBeBytes hlow hhigh]

/-! ## Messages -/

theorem exec_readExact (n : Nat) (bytes : Bytes) (tail : Option IoKind) :
    (readExact n).exec ⟨bytes, tail⟩ =
      if n ≤ bytes.length then (.ok (bytes.take n), ⟨bytes.drop n, tail⟩)
      else (.error (tail.elim .unexpectedEof .io), ⟨[], tail⟩) := by
  show readExact n ⟨bytes, tail⟩ = _
  rw [readExact, Source.readExact]
  by_cases hn : n ≤ bytes.length
  · simp only [if_pos hn]
  · simp only [if_neg hn]

/-- Both readers fail. -/
theorem refused_iff {α β : Type} {e e' : Error} {s s' : Source} {a : α} {b : β} {p : Prop} :
    ((.error e, s) : Except Error α × Source) = (.ok a, s') ↔ (.error e' : Result β) = .ok b ∧ p := by
  constructor
  · exact fun h => by cases (Prod.mk.inj h).1
  · exact fun h => absurd h.1 nofun

/-- The two readers of a length take the same lengths, minimal or not. -/
theorem readMessageLength_iff {bytes : Bytes} {tail : Option IoKind} {n : Nat} {s' : Source} :
    readMessageLength.exec ⟨bytes, tail⟩ = (.ok n, s') ↔
      readLength bytes = .ok (n, s'.bytes) ∧ s'.tail = tail := by
  cases bytes with
  | nil =>
      rw [readMessageLength, Program.exec_bind, exec_readExact]
      exact refused_iff
  | cons first data =>
      have hfirst : (readExact 1).exec ⟨first :: data, tail⟩ = (.ok [first], ⟨data, tail⟩) := by
        rw [exec_readExact, if_pos (by simp)]
        rfl
      have hsame : ∀ (v : Nat) (rest : Bytes),
          ((.ok v, ⟨rest, tail⟩) : Except Error Nat × Source) = (.ok n, s') ↔
            (.ok (v, rest) : Result (Nat × Bytes)) = .ok (n, s'.bytes) ∧ s'.tail = tail := by
        intro v rest
        obtain ⟨rest', tail'⟩ := s'
        simp [eq_comm, and_assoc]
      rw [readMessageLength, Program.exec_bind_ok hfirst, readLength, List.headD_cons]
      by_cases hshort : first < 0x80
      · rw [if_pos hshort, if_pos hshort, Program.exec_pure]
        exact hsame _ _
      · rw [if_neg hshort, if_neg hshort]
        dsimp only
        by_cases hzero : (first &&& 0x7f).toNat = 0
        · rw [if_pos (.inl hzero), if_pos hzero]
          exact refused_iff
        by_cases hmany : (first &&& 0x7f).toNat > 8
        · rw [if_pos (.inr hmany), if_neg hzero, if_pos hmany]
          exact refused_iff
        rw [if_neg (not_or.mpr ⟨hzero, hmany⟩), if_neg hzero, if_neg hmany, Program.exec_bind,
          exec_readExact]
        by_cases henough : (first &&& 0x7f).toNat ≤ data.length
        · rw [if_pos henough, if_neg (Nat.not_lt_of_le henough)]
          exact hsame _ _
        · rw [if_neg henough, if_pos (Nat.lt_of_not_le henough)]
          exact refused_iff

/-- A message is taken off the stream exactly if the reader of a buffer finds a SEQUENCE there
that is not too long; the content and what is left are the same. -/
theorem readMessageFrom_iff {bytes : Bytes} {tail : Option IoKind} {body : Bytes} {s' : Source} :
    readMessageFrom.exec ⟨bytes, tail⟩ = (.ok body, s') ↔
      readTlv bytes = .ok (⟨Tag.sequence, body⟩, s'.bytes) ∧ body.length ≤ maxMessageBytes ∧
        s'.tail = tail := by
  cases bytes with
  | nil =>
      rw [readMessageFrom, Program.exec_bind, exec_readExact]
      exact refused_iff
  | cons tag data =>
      have hfirst : (readExact 1).exec ⟨tag :: data, tail⟩ = (.ok [tag], ⟨data, tail⟩) := by
        rw [exec_readExact, if_pos (by simp)]
        rfl
      rw [readMessageFrom, Program.exec_bind_ok hfirst, List.headD_cons, readTlv]
      by_cases htag : tag = Tag.sequence
      · subst htag
        rw [if_neg (not_not_intro rfl)]
        rcases hlen : readMessageLength.exec ⟨data, tail⟩ with ⟨e | n, rest, tail'⟩
        · -- what the stream's reader refuses, the buffer's refuses as well
          have hrefused : ∀ n rest, readLength data ≠ .ok (n, rest) := by
            intro n rest h
            have hread : readMessageLength.exec ⟨data, tail⟩ = (.ok n, ⟨rest, tail⟩) :=
              readMessageLength_iff.mpr ⟨h, rfl⟩
            rw [hlen] at hread
            cases hread
          rw [Program.exec_bind, hlen]
          constructor
          · exact fun h => by cases (Prod.mk.inj h).1
          · rintro ⟨h, -⟩
            obtain ⟨⟨n, rest⟩, hn, -⟩ := Result.bind_eq_ok.mp h
            exact absurd hn (hrefused n rest)
        · obtain ⟨hread, htail⟩ := readMessageLength_iff.mp hlen
          dsimp only at hread htail
          subst htail
          rw [Program.exec_bind_ok hlen, hread, Result.ok_bind]
          dsimp only
          by_cases hbig : n > maxMessageBytes
          · rw [if_pos hbig]
            constructor
            · exact fun h => by cases (Prod.mk.inj h).1
            · rintro ⟨h, hle, -⟩
              split at h
              · cases h
              · next henough =>
                  obtain ⟨hbody, -⟩ := Prod.mk.inj (Except.ok.inj h)
                  obtain rfl := (Tlv.mk.inj hbody).2
                  rw [List.length_take_of_le (Nat.le_of_not_lt henough)] at hle
                  exact absurd hle (Nat.not_le_of_lt hbig)
          · rw [if_neg hbig, exec_readExact]
            by_cases henough : n ≤ rest.length
            · rw [if_pos henough, if_neg (Nat.not_lt_of_le henough)]
              obtain ⟨rest', tail'⟩ := s'
              have hle : (rest.take n).length ≤ maxMessageBytes := by
                rw [List.length_take_of_le henough]
                exact Nat.le_of_not_lt hbig
              constructor
              · intro h
                simp only [Prod.mk.injEq, Except.ok.injEq, Source.mk.injEq] at h
                obtain ⟨rfl, rfl, rfl⟩ := h
                exact ⟨rfl, hle, rfl⟩
              · rintro ⟨h, -, rfl⟩
                simp only [Except.ok.injEq, Prod.mk.injEq, Tlv.mk.injEq, true_and] at h
                obtain ⟨rfl, rfl⟩ := h
                rfl
            · rw [if_neg henough, if_pos (Nat.lt_of_not_le henough)]
              exact refused_iff
      · rw [if_pos htag]
        constructor
        · exact fun h => by cases (Prod.mk.inj h).1
        · rintro ⟨h, -⟩
          obtain ⟨⟨n, rest⟩, -, hvalue⟩ := Result.bind_eq_ok.mp h
          dsimp only at hvalue
          split at hvalue
          · cases hvalue
          · exact absurd (Tlv.mk.inj (Prod.mk.inj (Except.ok.inj hvalue)).1).1 htag

/-! ## All three -/

/-- An integer is written in the fewest octets that two's complement allows and read back; so is
every length a buffer can have; and from the stream the client takes the messages that its reader
of a buffer delimits. -/
theorem elements_read_back {n : Nat} (hn : n < usizeLimit) (v : Int64) (out rest : Bytes) :
    (∃ octets, ShortestTwos octets v.toInt ∧
      writeInteger out v.toInt = out ++ tlv Tag.integer octets ∧
      readInteger (tlv Tag.integer octets ++ rest) = .ok (v.toInt, rest) ∧
      writeEnumerated out v.toInt = out ++ tlv Tag.enumerated octets ∧
      readEnumerated (tlv Tag.enumerated octets ++ rest) = .ok (v.toInt, rest)) ∧
    (∃ octets, Base.Ber.Minimal octets n ∧ encodeLength n out = out ++ octets ∧
      readLength (octets ++ rest) = .ok (n, rest)) ∧
    ∀ (bytes body : Bytes) (tail : Option IoKind) (s' : Source),
      readMessageFrom.exec ⟨bytes, tail⟩ = (.ok body, s') ↔
        readTlv bytes = .ok (⟨Tag.sequence, body⟩, s'.bytes) ∧ body.length ≤ maxMessageBytes ∧
          s'.tail = tail := by
  have hlow : -(2 ^ 63) ≤ v.toInt := v.le_toInt
  have hhigh : v.toInt < 2 ^ 63 := v.toInt_lt
  refine ⟨⟨dropRedundant (toBeBytes v.toInt), shortestTwos_written hlow hhigh,
    writeInteger_eq out _, readInteger_node hlow hhigh rest, writeEnumerated_eq out _,
    readEnumerated_node hlow hhigh rest⟩, ⟨lengthBytes n, minimal_lengthBytes (hn.trans (by decide)),
    encodeLength_eq n out, readLength_lengthBytes hn rest⟩, fun _ _ _ _ => readMessageFrom_iff⟩

/-- The number -129, a length of two octets, and a message in a longer form than it needs. -/
theorem elements_read_back_sample : ∃ octets, ShortestTwos octets (-129) ∧
    readInteger (tlv Tag.integer octets ++ [7]) = .ok (-129, [7]) ∧
    readLength ([0x81, 200] ++ [7]) = .ok (200, [7]) ∧
    readMessageFrom.exec ⟨[0x30, 0x82, 0, 1, 5, 6], none⟩ = (.ok [5], ⟨[6], none⟩) := by
  have hn : 200 < usizeLimit := by decide
  obtain ⟨⟨octets, hshortest, -, hread, -⟩, ⟨lengths, -, hlength, hback⟩, hmessage⟩ :=
    elements_read_back hn (-129) [] [7]
  rw [List.nil_append] at hlength
  rw [← hlength] at hback
  exact ⟨octets, hshortest, hread, hback, (hmessage _ _ _ _).mpr ⟨rfl, by decide, rfl⟩⟩

end Rsurl.Ldap
